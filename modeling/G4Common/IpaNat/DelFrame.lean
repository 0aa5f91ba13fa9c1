/-
Deleting a rule and the other rules.

After every deletion `ipa_nati_del_dead_ipv4_head_nodes()` goes over the whole
base table and sets to zero each entry without a follower whose protocol is
`IPA_NAT_INVALID_PROTO_FIELD_CMP`.  That value is how a deletion marks a head
that still has followers, and `ipa_nati_add_ipv4_rule()` does not refuse it as
a protocol, so a rule that a client added with it is swept away by the deletion
of any other rule.

The tombstone mark is the only such value: in a run that adds no rule with it,
a deletion keeps every other rule (`natDriver_del_frame`).  The invariant is
the one of `G4Common/IpaNat/Refine.lean`, whose step lemmas ask no more of a
rule than that.
-/
import G4Common.IpaNat.Refine

namespace G4Common.IpaNat

open Option

/-! ### Runs -/

/-- The states of the runs from table `c₀` in which clients add rules that meet
`P` and delete handles in use. -/
inductive ReachOf (P : IpaNatIpv4Rule → Prop) (c₀ : IpaNatIp4TableCache) : NatState → Prop
  | start : ReachOf P c₀ ⟨⟨c₀, []⟩, []⟩
  | add {s s' : NatState} {rule : IpaNatIpv4Rule} : ReachOf P c₀ s → P rule →
      s.step (.add rule) = some s' → ReachOf P c₀ s'
  | del {s s' : NatState} {p : ℕ × IpaNatIpv4Rule} : ReachOf P c₀ s → p ∈ s.live →
      s.step (.del p.1) = some s' → ReachOf P c₀ s'

/-- The protocol is not the mark of a deleted head. -/
def Unmarked (rule : IpaNatIpv4Rule) : Prop := rule.protocol ≠ invalidProtoFieldCmp

instance (rule : IpaNatIpv4Rule) : Decidable (Unmarked rule) :=
  inferInstanceAs (Decidable (rule.protocol ≠ invalidProtoFieldCmp))

theorem ReachOf.good {c₀ : IpaNatIp4TableCache} {s : NatState} (hfresh : FreshTable c₀)
    (hfit : OffsetsFit c₀) (h : ReachOf Unmarked c₀ s) : Good s := by
  induction h with
  | start => exact hfresh.good hfit
  | add _ hrule hstep ih =>
    obtain ⟨s', hs', hgood⟩ := ih.add hrule
    rw [hs', some.injEq] at hstep
    exact hstep ▸ hgood
  | del _ hp hstep ih =>
    obtain ⟨_, hs', hgood⟩ := ih.del hp
    rw [hs', some.injEq] at hstep
    exact hstep ▸ hgood

/-! ### What a deletion keeps -/

/-- The rule at entry `e` is enabled, on the destination chain of its bucket,
and named by the index chain of its bucket. -/
structure OnBothChains (c : IpaNatIp4TableCache) (e : ℕ) : Prop where
  enabled : (c.rules.get e).enable = true
  dst : ∃ l, dstChain c (c.dstBucket (ruleAt c e)) = some l ∧ e ∈ l
  idx : ∃ l, idxChain c (c.srcBucket (ruleAt c e)) = some l ∧ ∃ i ∈ l, entryOf c i = e

/-- The handle `q.1` names the entry of rule `q.2` before and after a call, and
after it the rule is found there. -/
def Kept (c c' : IpaNatIp4TableCache) (q : ℕ × IpaNatIpv4Rule) : Prop :=
  ∃ e, hdlEntry c q.1 = some e ∧ ruleAt c e = q.2 ∧
    hdlEntry c' q.1 = some e ∧ ruleAt c' e = q.2 ∧ OnBothChains c' e

/-- A deletion of any handle in use keeps all other rules in use. -/
def DelKeeps (s : NatState) : Prop :=
  ∀ p ∈ s.live, ∃ s', s.step (.del p.1) = some s' ∧
    ∀ q ∈ s.live, q.1 ≠ p.1 → Kept s.hw.cache s'.hw.cache q

section

variable {c c' : IpaNatIp4TableCache} {D X : ℕ → List ℕ} {live : List (ℕ × IpaNatIpv4Rule)}

theorem NatInv.found (h : NatInv c D X) {e : ℕ} (he : liveAt c e) : OnBothChains c e := by
  have hle := h.shaped.le_total
  refine ⟨liveAt_used he, ?_, ?_⟩
  · obtain ⟨b, hb⟩ := (h.tbl.dst.used_iff e).mp (liveAt_used he)
    have hown : c.dstBucket (ruleAt c e) = b := h.tbl.dst_own b e hb he
    rw [hown]
    exact ⟨D b, h.tbl.dst.follow_head hle (List.ne_nil_of_mem hb), hb⟩
  obtain ⟨hu, hi⟩ := h.tbl.indxOf_used he
  obtain ⟨b, hb⟩ := (h.tbl.idx.used_iff _).mp hu
  have hown := h.tbl.idx_own b _ hb
  rw [hi] at hown
  have hbucket : c.srcBucket (ruleAt c e) = b := hown
  rw [hbucket]
  exact ⟨X b, h.tbl.idx.follow_head hle (List.ne_nil_of_mem hb), _, hb, hi⟩

/-- Between two states that both have the invariant, a handle in use on both
sides with an unchanged cell keeps its rule. -/
theorem Tracks.kept {D' X' : ℕ → List ℕ} {live' : List (ℕ × IpaNatIpv4Rule)}
    {q : ℕ × IpaNatIpv4Rule} (ht : Tracks c live) (h : NatInv c D X) (ht' : Tracks c' live')
    (h' : NatInv c' D' X') (hT : c'.tableEntries = c.tableEntries)
    (hN : c'.totalEntries = c.totalEntries) (hq : q ∈ live) (hq' : q ∈ live')
    (hcell : c'.ruleIdArray.get (q.1 - 1) = c.ruleIdArray.get (q.1 - 1)) : Kept c c' q := by
  obtain ⟨k, e, hk, hkN, hid, he, hr⟩ := ht.sound q hq
  obtain ⟨k', e', _, hkN', hid', he', hr'⟩ := ht'.sound q hq'
  obtain rfl : k = k' := by omega
  have hent : hdlEntry c q.1 = some e := by
    rw [hk]
    exact hdlEntry_eq h hkN he hid
  have hent' : hdlEntry c' q.1 = some e' := by
    rw [hk]
    exact hdlEntry_eq h' hkN' he' hid'
  -- the cell holds the same rule id on both sides, so it names the same entry
  have hsame : e' = e := by
    rw [hk, Nat.add_sub_cancel, hid', hid, hT] at hcell
    have hlt' : e' < c.totalEntries := hN ▸ h'.tbl.used_lt h'.shaped (liveAt_used he')
    exact ruleIdOf_inj h.shaped hlt' (h.tbl.used_lt h.shaped (liveAt_used he)) hcell
  subst hsame
  exact ⟨e', hent, hr, hent', hr', h'.found he'⟩

end

theorem Deleted.total {c c' : IpaNatIp4TableCache} {e k : ℕ} (hd : Deleted c e k c') :
    c'.totalEntries = c.totalEntries := by
  unfold IpaNatIp4TableCache.totalEntries
  rw [hd.table, hd.expn]

/-- **A deletion keeps the other rules**, in a state with the invariant. -/
theorem Good.delKeeps {s : NatState} (h : Good s) : DelKeeps s := by
  obtain ⟨⟨c, seen⟩, live⟩ := s
  obtain ⟨⟨D, X, hinv⟩, ht⟩ := h
  intro p hp
  obtain ⟨k, e, hk, hkN, hid, he, -⟩ := ht.sound p hp
  obtain ⟨c', tr, hrun, ⟨_, _, hinv'⟩, hd, -⟩ := ipaNatiDelIpv4Rule_spec hinv he hkN hid seen
  have ht' := ht.del hinv he hkN hid hd
  refine ⟨⟨⟨c', seen ++ tr⟩, live.filter (·.1 ≠ k + 1)⟩, ?_, fun q hq hne => ?_⟩
  · rw [hk]
    simp [NatState.step, hrun]
  rw [hk] at hne
  have hq' : q ∈ live.filter (·.1 ≠ k + 1) := List.mem_filter.mpr ⟨hq, decide_eq_true hne⟩
  refine ht.kept hinv ht' hinv' hd.table hd.total hq hq' ?_
  -- the only cell the deletion writes is that of the deleted handle
  obtain ⟨j, -, _, -⟩ := ht.sound q hq
  have hjk : q.1 - 1 ≠ k := by omega
  rw [hd.ids, Function.update_of_ne hjk]

/-- **Deleting one rule never removes another**, in every run from a fresh
table whose index offsets fit 16 bits, as long as no rule is added with the
mark of a deleted head for its protocol. -/
theorem natDriver_del_frame {c₀ : IpaNatIp4TableCache} {s : NatState} (hfresh : FreshTable c₀)
    (hfit : OffsetsFit c₀) (h : ReachOf Unmarked c₀ s) : DelKeeps s :=
  (h.good hfresh hfit).delKeeps

/-! ### Runs on a table -/

/-- A rule of protocol `0xFF`. -/
def markedRule : IpaNatIpv4Rule := { sampleRule with targetIp := 0x01010101, protocol := 0xFF }

/-- A UDP rule to another host. -/
def otherRule : IpaNatIpv4Rule :=
  { sampleRule with targetIp := 0x01010101, protocol := ipprotoUdp }

/-- The state after two additions to an empty table. -/
def addTwo (rule1 rule2 : IpaNatIpv4Rule) : Option NatState := do
  let s ← NatState.step ⟨⟨sampleTable, []⟩, []⟩ (.add rule1)
  s.step (.add rule2)

theorem addTwo_reach {P : IpaNatIpv4Rule → Prop} {rule1 rule2 : IpaNatIpv4Rule} {s : NatState}
    (h1 : P rule1) (h2 : P rule2) (h : addTwo rule1 rule2 = some s) : ReachOf P sampleTable s := by
  obtain ⟨_, hs1, hs⟩ := bind_eq_some_iff.mp h
  exact (ReachOf.start.add h1 hs1).add h2 hs

theorem natDriver_del_frame_two : ∃ s, ReachOf Unmarked sampleTable s ∧
    s.live = [(2, sampleRule), (1, otherRule)] ∧ DelKeeps s := by
  have hlive : (addTwo otherRule sampleRule).map (·.live) = some [(2, sampleRule), (1, otherRule)] := by
    decide
  obtain ⟨s, hs, hl⟩ := map_eq_some_iff.mp hlive
  have hreach : ReachOf Unmarked sampleTable s := addTwo_reach (by decide) (by decide) hs
  exact ⟨s, hreach, hl, natDriver_del_frame sampleTable_fresh (sampleTable_fresh.fit sampleTable_bits) hreach⟩

/-- The rule of protocol `0xFF` is gone when another rule is deleted. -/
theorem natDriver_del_frame_fails : ¬ ∀ c₀ s, FreshTable c₀ → ReachOf (fun _ => True) c₀ s → DelKeeps s := by
  intro hall
  have hlive : (addTwo markedRule sampleRule).map (·.live) = some [(2, sampleRule), (1, markedRule)] := by
    decide
  obtain ⟨s, hs, hl⟩ := map_eq_some_iff.mp hlive
  have hreach : ReachOf (fun _ => True) sampleTable s := addTwo_reach trivial trivial hs
  obtain ⟨_, hs', hkeep⟩ := hall _ _ sampleTable_fresh hreach (2, sampleRule) (by simp [hl])
  obtain ⟨e, -, -, hent, -, hfound⟩ := hkeep (1, markedRule) (by simp [hl]) (by decide)
  have hswept : ((addTwo markedRule sampleRule).bind fun s => s.step (.del 2)).map
      (fun s => (hdlEntry s.hw.cache 1).map fun e => (s.hw.cache.rules.get e).enable)
      = some (some false) := by
    decide
  rw [hs, bind_some, hs', map_some, hent, map_some, hfound.enabled] at hswept
  simp at hswept

end G4Common.IpaNat
