/-
When adding a rule succeeds.

`ipa_nati_add_ipv4_rule()` can fail in six places.  Two of them say that an
expansion table is full.  The others are defensive: a link from an entry to
itself on either chain, an index entry that would be linked behind itself, and
no free cell in `rule_id_array`.  In the states of the runs none of the four is
taken (`NoDefensive`), so that an addition succeeds exactly when there is room
in both tables (`natDriver_add_complete`).

For the walks this is the shape of the chains: a walk ends at the last entry,
and meets no entry twice.  For `rule_id_array` it is a matter of counting: every
cell in use belongs to a live rule of its own, and entry 0 and slot 0 of the
expansion table are never given to a rule.
-/
import G4Common.IpaNat.Refine

namespace G4Common.IpaNat

/-! ### The places where an addition can fail -/

section

variable (c : IpaNatIp4TableCache) (clnt : IpaNatIpv4Rule)

/-- The end of the destination chain, as `ipa_nati_generate_tbl_rule()` looks for
it; the inner `none` is the error `prev == nxt_indx`. -/
def tblChainEnd : Option (Option ℕ) :=
  chainEnd (fun i => (c.readRule .expn i).map fun r => (r.enable, r.nextIndex)) c.tableEntries
    c.expnTableEntries (c.dstBucket clnt) (ruleNext c (c.dstBucket clnt))

/-- The end of the index chain, as `ipa_nati_generate_index_rule()` looks for it. -/
def indexChainEnd : Option (Option ℕ) :=
  chainEnd (fun i => (c.readIndx .indexExpn i).map fun r => (r.tblEntry != invalidNatEntry, r.nextIndex))
    c.tableEntries c.expnTableEntries (c.srcBucket clnt) (indxNext c (c.srcBucket clnt))

/-- The defensive branches are not taken: the walks end, at an entry; the new
index entry is not its own predecessor; and in every state that the writes of
the addition can lead to there is a handle. -/
structure NoDefensive : Prop where
  tblWalk : ruleUsed c (c.dstBucket clnt) → ∃ prev, tblChainEnd c clnt = some (some prev)
  indexWalk : indxUsed c (c.srcBucket clnt) → ∃ prev, indexChainEnd c clnt = some (some prev)
  indexLoop : ∃ newEntry prev, indexPlace c clnt = some (newEntry, prev) ∧ prev ≠ newEntry
  handle : ∀ x entry, SameGeom c x → ∃ ruleHdl x', ipaNatiMakeRuleHdl x entry = some (ruleHdl, x') ∧
    ruleHdl ≠ 0

/-- There is room for a rule: in each kind of table the bucket of the rule or a
slot of the expansion part is free. -/
structure HasRoom : Prop where
  tbl : ¬ ruleUsed c (c.dstBucket clnt) ∨
    ∃ i, 1 ≤ i ∧ i < c.expnTableEntries ∧ ¬ ruleUsed c (c.tableEntries + i)
  index : ¬ indxUsed c (c.srcBucket clnt) ∨
    ∃ i, 1 ≤ i ∧ i < c.expnTableEntries ∧ ¬ indxUsed c (c.tableEntries + i)

end

section

variable {c : IpaNatIp4TableCache} {D X : ℕ → List ℕ} {clnt : IpaNatIpv4Rule}

theorem placeFull_iff {T E b : ℕ} {used : ℕ → Prop} :
    ¬ PlaceFull T E used b ↔ ¬ used b ∨ ∃ i, 1 ≤ i ∧ i < E ∧ ¬ used (T + i) := by
  unfold PlaceFull
  push Not
  rw [imp_iff_not_or]
  rfl

theorem hasRoom_iff : HasRoom c clnt ↔ ¬ (DstFull c clnt ∨ IdxFull c clnt) := by
  rw [not_or]
  unfold DstFull IdxFull
  rw [placeFull_iff, placeFull_iff]
  exact ⟨fun h => ⟨h.tbl, h.index⟩, fun h => ⟨h.1, h.2⟩⟩

/-- **No defensive branch is taken** in a state with the invariant. -/
theorem NatInv.noDefensive (h : NatInv c D X) : NoDefensive c clnt := by
  have hs := h.shaped
  have htotal : c.totalEntries < 65536 := lt_of_le_of_lt hs.total_le (by omega)
  refine ⟨fun hu => ?_, fun hu => ?_, ?_, fun x entry hx => ?_⟩
  · -- the chain of the bucket ends in the expansion table or at the bucket
    have hmem := h.tbl.dst.mem_own hu (hs.dstBucket_range clnt).2
    have hread : ∀ i, i < c.expnTableEntries → (c.readRule .expn i).map (fun r => (r.enable, r.nextIndex))
          = some ((c.rules.get (c.tableEntries + i)).enable, ruleNext c (c.tableEntries + i)) := by
      intro i hi
      rw [readRule_expn hs hi]
      rfl
    obtain ⟨p, hp, -⟩ := @chainEnd_spec _ _ _ _ _ (fun x => (c.rules.get x).enable) _ _ _
      h.tbl.dst htotal hmem hread
    exact ⟨p, hp⟩
  · -- and so does that of the index bucket
    have hmem := h.tbl.idx.mem_own hu (hs.srcBucket_range clnt).2
    have hread : ∀ i, i < c.expnTableEntries →
        (c.readIndx .indexExpn i).map (fun r => (r.tblEntry != invalidNatEntry, r.nextIndex))
          = some ((c.indx.get (c.tableEntries + i)).tblEntry != invalidNatEntry,
            indxNext c (c.tableEntries + i)) := by
      intro i hi
      rw [readIndx_expn hs hi]
      rfl
    obtain ⟨p, hp, -⟩ := @chainEnd_spec _ _ _ _ _
      (fun x => (c.indx.get x).tblEntry != invalidNatEntry) _ _ _ h.tbl.idx htotal hmem hread
    exact ⟨p, hp⟩
  · obtain ⟨newEntry, prev, hplace, -, hne⟩ := indexPlace_spec hs h.tbl clnt
    exact ⟨newEntry, prev, hplace, hne⟩
  · -- a new entry means that fewer cells are in use than there are
    obtain ⟨k, -, -, hhdl⟩ := ipaNatiMakeRuleHdl_eq h.hdl h.tbl hs entry hx
    exact ⟨_, _, hhdl, by omega⟩

theorem NatInv.add_iff (h : NatInv c D X) (seen : List IpaNatIp4TableCache) :
    (∃ ruleHdl hw, ipaNatiAddIpv4Rule .allOk ⟨c, seen⟩ clnt = some (0, some ruleHdl, hw)) ↔
      HasRoom c clnt := by
  rw [hasRoom_iff]
  rcases ipaNatiAddIpv4Rule_eq h clnt .allOk seen with ⟨hfull, hrun⟩ | ⟨hroom, _, _, -, -, hrun⟩
  · refine iff_of_false ?_ (not_not.mpr hfull)
    rintro ⟨_, _, hrun'⟩
    rw [hrun, Option.some.injEq, Prod.mk.injEq] at hrun'
    exact absurd hrun'.1 (by decide)
  · obtain ⟨k, -, -, hrun⟩ := (if_pos rfl).mp hrun
    exact iff_of_true ⟨_, _, hrun⟩ hroom

end

/-- **Adding a rule succeeds exactly when there is room for it**, in every state
of every run, and no defensive branch is taken. -/
theorem natDriver_add_complete {c₀ : IpaNatIp4TableCache} {s : NatState}
    (hfresh : FreshTable c₀) (h12 : TwelveBits c₀) (h : Reach c₀ s) (rule : IpaNatIpv4Rule) :
    ((∃ ruleHdl hw, ipaNatiAddIpv4Rule .allOk s.hw rule = some (0, some ruleHdl, hw)) ↔
      HasRoom s.hw.cache rule) ∧ NoDefensive s.hw.cache rule := by
  obtain ⟨⟨D, X, hinv⟩, -⟩ := h.good hfresh h12
  exact ⟨hinv.add_iff s.hw.seen, hinv.noDefensive⟩

theorem natDriver_add_complete_sample : ∃ s, Reach sampleTable s ∧ s.live = [(1, sampleRule)] ∧
    ((∃ ruleHdl hw, ipaNatiAddIpv4Rule .allOk s.hw sampleRule = some (0, some ruleHdl, hw)) ↔
      HasRoom s.hw.cache sampleRule) := by
  obtain ⟨s, hs, hl⟩ := sample_added
  exact ⟨s, hs, hl, (natDriver_add_complete sampleTable_fresh sampleTable_bits hs sampleRule).1⟩

end G4Common.IpaNat
