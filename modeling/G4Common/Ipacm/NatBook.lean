/-
The bookkeeping of the connection cache.

`Booked` says that `curCnt` counts the occupied slots, that an occupied slot
has all five fields of its tuple set, and that no two occupied slots hold the
same tuple.  A slot can change in three ways: its flags, its handle and its
other fields change and the tuple does not; it becomes free; or a free slot is
filled with a tuple that no other slot has.  Each operation is made of such
changes, whatever the driver answers.
-/
import G4Common.Ipacm.NatRules
import Mathlib.Data.List.Pairwise

namespace G4Common.Ipacm

open List

open IpaNat (ipprotoTcp ipprotoUdp)

/-- The operations with TCP and UDP connections. -/
def AppOp.TcpUdp : AppOp → Prop
  | .addEntry rule | .deleteEntry rule | .cacheEntry rule | .addTempEntry rule
  | .deleteTempEntry rule => rule.protocol = ipprotoTcp ∨ rule.protocol = ipprotoUdp
  | _ => True

/-! ### The invariant -/

/-- The cache and its counter. -/
structure Booked (cache : List NatTableEntry) (curCnt : ℤ) : Prop where
  count : curCnt = cache.countP (!·.isFree)
  valid : ∀ e ∈ cache, e.isFree = false → e.isInvalid = false
  distinct : cache.Pairwise fun e e' => e.isFree = false → e'.isFree = false → e.tuple ≠ e'.tuple

section

variable {e e' : NatTableEntry} {l1 l2 : List NatTableEntry} {n : ℤ}

theorem Booked.replace {n' : ℤ} (h : Booked (l1 ++ e :: l2) n) (hvalid : e'.isFree = false → e'.isInvalid = false)
    (hnew : ∀ x ∈ l1 ++ l2, x.isFree = false → e'.isFree = false → x.tuple ≠ e'.tuple)
    (hn : n' + (if e.isFree = true then 0 else 1) = n + (if e'.isFree = true then 0 else 1)) :
    Booked (l1 ++ e' :: l2) n' := by
  refine ⟨?_, fun x hx hxf => ?_, ?_⟩
  · have hc := h.count
    simp only [countP_append, countP_cons] at hc ⊢
    push_cast at hc ⊢
    cases he : e.isFree <;> cases he' : e'.isFree <;> simp [he, he'] at hc hn ⊢ <;> omega
  · rcases mem_replace hx with rfl | hx
    · exact hvalid hxf
    · exact h.valid x (mem_of_others hx) hxf
  · refine pairwise_replace h.distinct (fun x hx => hnew x (mem_append_left _ hx)) fun y hy hf hyf heq => ?_
    exact hnew y (mem_append_right _ hy) hyf hf heq.symm

theorem Booked.same (h : Booked (l1 ++ e :: l2) n) (ht : e'.tuple = e.tuple) : Booked (l1 ++ e' :: l2) n := by
  have hfree := isFree_congr ht
  refine h.replace (fun hf => ?_) (fun x hx hxf hf => ?_) (by rw [hfree])
  · rw [isInvalid_congr ht]
    exact h.valid e (by simp) (hfree ▸ hf)
  have hd := h.distinct
  simp only [pairwise_append, pairwise_cons, mem_cons] at hd
  obtain ⟨-, ⟨he, -⟩, hcross⟩ := hd
  rw [hfree] at hf
  rw [ht]
  rcases mem_append.mp hx with hx | hx
  · exact hcross x hx e (.inl rfl) hxf hf
  · exact (he x hx hf hxf).symm

theorem Booked.free (h : Booked (l1 ++ e :: l2) n) (he : e.isFree = false) : Booked (l1 ++ default :: l2) (n - 1) := by
  refine h.replace (fun hf => ?_) (fun x _ _ hf => ?_) (by simp [he, isFree_default])
  · simp [isFree_default] at hf
  · simp [isFree_default] at hf

theorem Booked.fill (h : Booked (l1 ++ e :: l2) n) (he : e.isFree)
    (hvalid : e'.isInvalid = false) (hnew : ∀ x ∈ l1 ++ e :: l2, x.tuple ≠ e'.tuple) :
    Booked (l1 ++ e' :: l2) (n + 1) := by
  refine h.replace (fun _ => hvalid) (fun x hx _ _ => ?_) (by simp [he, isFree_of_valid hvalid])
  exact hnew x (mem_of_others hx)

theorem Booked.eq_of_tuple {l : List NatTableEntry} (h : Booked l n) (he : e ∈ l) (he' : e' ∈ l)
    (hfree : e.isFree = false) (ht : e.tuple = e'.tuple) : e = e' := by
  by_contra hne
  have hfree' : e'.isFree = false := (isFree_congr ht.symm).trans hfree
  have hsym : Std.Symm fun e e' : NatTableEntry =>
      e.isFree = false → e'.isFree = false → e.tuple ≠ e'.tuple :=
    ⟨fun _ _ hab h1 h2 heq => hab h2 h1 heq.symm⟩
  exact h.distinct.forall he he' hne hfree hfree' ht

end

/-! ### The operations -/

section

variable {σ : Type} {d : NatDriver σ} {s : AppState σ} {hdl h : UInt32} {t : LoopState σ}
variable {e rule : NatTableEntry} {l1 l2 : List NatTableEntry}

/-- The bookkeeping of a state. -/
def AppState.Booked (s : AppState σ) : Prop := s.Has fun t cache => Ipacm.Booked cache t.curCnt

section

variable (hb : Booked (l1 ++ e :: l2) t.curCnt)
include hb

theorem reinstall_booked (he : e.isFree = false) :
    Booked (l1 ++ (reinstall d hdl t e).2 :: l2) (reinstall d hdl t e).1.curCnt := by
  unfold reinstall
  dsimp only
  split
  · exact hb.free he
  · exact hb.same rfl

theorem withdraw_booked : Booked (l1 ++ (withdraw d hdl h t e).2 :: l2) (withdraw d hdl h t e).1.curCnt := by
  unfold withdraw
  dsimp only
  split
  · exact hb
  · exact hb.same rfl

theorem evict_booked (he : e.isFree = false) : Booked (l1 ++ (evict d hdl t e).2 :: l2) (evict d hdl t e).1.curCnt := by
  unfold evict
  dsimp only
  split
  · split
    · exact hb
    · exact hb.free he
  · exact hb.free he

end

theorem fillSlot_booked {slot : NatTableEntry} {b : Bool} (hs : s.Booked)
    (hl : s.app.cache = l1 ++ slot :: l2) (hfree : slot.isFree)
    (hvalid : rule.isInvalid = false) (hdup : s.app.chkForDup rule = false) :
    Booked (l1 ++ fillSlot rule b h slot :: l2) (s.app.curCnt + 1) := by
  have hb : Booked (l1 ++ slot :: l2) s.app.curCnt := hl ▸ hs
  refine hb.fill hfree hvalid fun x hx => ?_
  exact tuple_ne_of_chkForDup hdup x (hl ▸ hx)

theorem deleteTable_booked (hs : s.Booked) (ip : UInt32) : (deleteTable d ip s).2.Booked := by
  obtain ⟨hcache, -, hcnt⟩ := deleteTable_frame (d := d) (s := s)
  unfold AppState.Booked AppState.Has
  rw [hcache, hcnt]
  exact hs

theorem deleteEntry_booked (hs : s.Booked) (hproto : rule.protocol ≠ 0) : (deleteEntry d rule s).2.Booked := by
  refine deleteEntry_rule hs fun l1 e l2 hl htuple => ?_
  have hb : Booked (l1 ++ e :: l2) s.app.curCnt := hl ▸ hs
  refine hb.free ?_
  by_contra hfree
  rw [Bool.not_eq_false, isFree_iff, htuple] at hfree
  exact hproto (congrArg NatTuple.protocol hfree)

theorem addEntry_booked (hs : s.Booked) (rule : NatTableEntry) : (addEntry d rule s).2.Booked := by
  refine addEntry_rule hs (fun l1 slot l2 hvalid hdup hl hfree => ?_)
    (fun l1 slot l2 ret ruleHdl drv _ _ _ hl _ => ?_)
    (fun l1 slot l2 ret ruleHdl drv hvalid hdup _ _ hl hfree => ?_)
  · exact fillSlot_booked hs hl hfree hvalid hdup
  · have hb : Booked (l1 ++ slot :: l2) s.app.curCnt := hl ▸ hs
    exact hb.same rfl
  · exact fillSlot_booked hs hl hfree hvalid hdup

end

theorem AppOp.booked {σ : Type} {d : NatDriver σ} {s : AppState σ} {op : AppOp} (hs : s.Booked)
    (hop : op.TcpUdp) : (op.run d s).Booked := by
  cases op with
  | addTable =>
    exact (addTable_rule (Q := fun _ => True) rfl hs (fun _ _ => trivial)
      fun _ t l1 e l2 _ he hb => reinstall_booked hb he).1
  | deleteTable ip => exact deleteTable_booked hs ip
  | addEntry rule => exact addEntry_booked hs rule
  | deleteEntry =>
    refine deleteEntry_booked hs ?_
    rcases hop with h | h <;> rw [h] <;> decide
  | cacheEntry =>
    exact cacheEntry_rule hs fun l1 slot l2 hvalid hdup hl hfree =>
      fillSlot_booked hs hl hfree hvalid hdup
  | updatePwrSaveIf =>
    exact updatePwrSaveIf_rule hs fun t l1 e l2 _ _ hb => withdraw_booked hb
  | resetPwrSaveIf =>
    exact resetPwrSaveIf_rule (Q := fun _ => True) hs (fun _ _ => trivial)
      fun t l1 e l2 _ _ he _ hb => reinstall_booked hb he
  | delEntriesOnClntDiscon =>
    exact delEntriesOnClntDiscon_rule (Q := fun _ => True) hs (fun _ _ => trivial)
      fun t l1 e l2 _ _ _ hb => withdraw_booked hb
  | delEntriesOnSTAClntDiscon =>
    exact delEntriesOnSTAClntDiscon_rule hs fun t l1 e l2 _ he hb => evict_booked hb he
  | addTempEntry => exact addTempEntry_rule hs fun _ _ hs => hs
  | deleteTempEntry => exact deleteTempEntry_rule hs fun _ _ hs => hs
  | flushTempEntries =>
    exact flushTempEntries_rule (Q := fun _ => True) hs (fun _ _ => trivial) (fun _ _ hs => hs)
      fun _ e _ hs => addEntry_booked hs e

theorem FreshApp.booked {σ : Type} {s : AppState σ} (h : FreshApp s.app) : s.Booked := by
  obtain ⟨n, _, _, _, heq⟩ := h
  unfold AppState.Booked AppState.Has
  rw [heq]
  refine ⟨?_, fun e he hf => ?_, ?_⟩
  · simp [NatApp.init, countP_replicate, isFree_default]
  · rw [eq_of_mem_replicate he] at hf
    simp [isFree_default] at hf
  · refine pairwise_replicate.mpr (.inr fun hf => ?_)
    simp [isFree_default] at hf

theorem AppReach.booked {σ : Type} {d : NatDriver σ} {ok : AppState σ → AppOp → Prop}
    {s₀ s : AppState σ} (hok : ∀ s op, ok s op → op.TcpUdp) (hfresh : FreshApp s₀.app)
    (h : AppReach d ok s₀ s) : s.Booked := by
  induction h with
  | start => exact hfresh.booked
  | step _ _ hop ih => exact AppOp.booked ih (hok _ _ hop)

/-- **The bookkeeping of the cache**, in every state of every run of operations
with TCP and UDP connections and for every driver: `curCnt` is the number of
occupied slots; an occupied slot has all five fields set, a free slot none; no
two occupied slots hold the same tuple. -/
theorem natApp_bookkeeping {σ : Type} {d : NatDriver σ} {s₀ s : AppState σ}
    (hfresh : FreshApp s₀.app) (h : AppReach d (fun _ op => op.TcpUdp) s₀ s) :
    s.app.curCnt = s.app.cache.countP (!·.isFree) ∧
    (∀ e ∈ s.app.cache, e.isFree = false → e.privateIp ≠ 0 ∧ e.targetIp ≠ 0 ∧
      e.privatePort ≠ 0 ∧ e.targetPort ≠ 0 ∧ e.protocol ≠ 0) ∧
    (∀ e ∈ s.app.cache, e.isFree → e.privateIp = 0 ∧ e.targetIp = 0 ∧
      e.privatePort = 0 ∧ e.targetPort = 0 ∧ e.protocol = 0) ∧
    s.app.cache.Pairwise fun e e' => e.isFree = false → e'.isFree = false →
      e.tuple ≠ e'.tuple := by
  have hb := h.booked (fun _ _ hop => hop) hfresh
  refine ⟨hb.count, fun e he hf => ?_, fun e _ hf => ?_, hb.distinct⟩
  · have hvalid := hb.valid e he hf
    simpa [NatTableEntry.isInvalid] using hvalid
  · have htuple : e.tuple = ⟨0, 0, 0, 0, 0⟩ := isFree_iff.mp hf
    simpa [NatTableEntry.tuple] using htuple

/-- A driver with one table, with handle 1, of up to 64 rules, with handles from
1 on. -/
def mapDriver : NatDriver (Option (UInt32 → Option IpaNat.IpaNatIpv4Rule)) where
  addIpv4Tbl := fun _ _ s => if s.isSome then (-22, some 0, s) else (0, some 1, some fun _ => none)
  delIpv4Tbl := fun hdl s => if hdl = 1 ∧ s.isSome then (0, none) else (-22, s)
  addIpv4Rule := fun hdl rule s =>
    match s with
    | none => (-22, none, s)
    | some m =>
      match (range 64).find? fun i => hdl = 1 ∧ (m (UInt32.ofNat (i + 1))).isNone with
      | none => (-12, none, s)
      | some i =>
        (0, some (UInt32.ofNat (i + 1)), some (Function.update m (UInt32.ofNat (i + 1)) (some rule)))
  delIpv4Rule := fun hdl ruleHdl s =>
    match s with
    | none => (-22, s)
    | some m =>
      if hdl = 1 ∧ (m ruleHdl).isSome then (0, some (Function.update m ruleHdl none)) else (-22, s)

/-- `NatApp` with four slots, and no table yet. -/
def sampleApp : AppState (Option (UInt32 → Option IpaNat.IpaNatIpv4Rule)) :=
  ⟨NatApp.init 4 [(ipprotoTcp, 21)] 0 [], none⟩

def sampleConn : NatTableEntry where
  privateIp := 0xC0A80102
  privatePort := 40000
  targetIp := 0x08080808
  targetPort := 443
  publicIp := 0
  publicPort := 50000
  protocol := ipprotoTcp
  timestamp := 0
  dstNat := false
  enabled := false
  ruleHdl := 0

theorem sampleApp_fresh : FreshApp sampleApp.app := ⟨_, _, _, _, rfl⟩

theorem natApp_bookkeeping_sample : ∃ s, AppReach mapDriver (fun _ op => op.TcpUdp) sampleApp s ∧ s.app.curCnt = 1 ∧
      s.app.cache.countP (!·.isFree) = 1 := by
  have h1 : AppReach mapDriver (fun _ op => op.TcpUdp) sampleApp _ :=
    AppReach.start.step (.addTable 0x0A000001) trivial
  have h2 := h1.step (.addEntry sampleConn) (.inl rfl)
  have hcnt : (AppOp.run mapDriver (AppOp.run mapDriver sampleApp (.addTable 0x0A000001))
      (.addEntry sampleConn)).app.curCnt = 1 := by
    decide
  refine ⟨_, h2, hcnt, ?_⟩
  have hbook := (natApp_bookkeeping sampleApp_fresh h2).1
  rw [hcnt] at hbook
  exact_mod_cast hbook.symm

end G4Common.Ipacm
