/-
Every request of the radio interface is answered once, and what stays in the pending lists.

The invariant says, for each slot, that the pending list holds the addresses of the requests that were not completed,
the newest first, and that the records at these addresses are still their own.  It holds in every run in which the
vendor acknowledges a request before completing it: a later acknowledgement may meet another request at its address.

A request that took an error exit is answered but never completed, so it stays in the list.  A call that got no
memory for a record is not answered at all.
-/
import G4Common.Ril.Requests

namespace G4Common.Ril

namespace Requests

open Function List Option

variable {b : Build} {s s' : State} {n m k : ℕ}

/-! ### Definitions -/

/-- The vendor does not acknowledge a request that it has completed. -/
def AckFirst (s : State) : Act → Prop
  | .onRequestAck n => (s.req n).completed = false
  | _ => True

/-- There is memory for the record, the payload is prepared without an error exit, and the vendor acknowledges before
completing. -/
def ReachesVendor (s : State) : Act → Prop
  | .noMemory _ _ => False
  | .dispatch n allocs => ∃ payload, prepare (s.req n).stages allocs = .ok payload
  | .onRequestAck n => (s.req n).completed = false
  | _ => True

/-- The response type that belongs to a request. -/
def typeOf (b : Build) (d : Dispatched) : ℤ :=
  if 13 ≤ b.version ∧ d.acked = true then RESPONSE_SOLICITED_ACK_EXP else RESPONSE_SOLICITED

/-- The request was completed by the vendor or took an error exit. -/
def Dispatched.Done (d : Dispatched) : Prop := d.completed = true ∨ d.progress = .failed

/-- One response to a request that is done, with its own token and type, and none to another one. -/
def Dispatched.Answered (b : Build) (d : Dispatched) : Prop :=
  (¬ d.Done → d.answers = []) ∧ (d.Done → ∃ e, d.answers = [⟨d.slotId, typeOf b d, d.serial, e⟩])

instance (d : Dispatched) : Decidable (d.answers = []) := decidable_of_iff (d.answers.isEmpty = true) isEmpty_iff

/-- Requests are answered once, and the lists hold those that are not answered. -/
structure AnsweredOnce (b : Build) (s : State) : Prop where
  pending : ∀ slot < b.SIM_COUNT,
    (s.pending slot).map s.owner = openEntries s.count (fun n => (s.req n).slotId = slot ∧ (s.req n).answers = [])
  answered : ∀ n < s.count, (s.req n).Answered b
  failed : ∀ n < s.count, (s.req n).progress = .failed → ∀ slot < b.SIM_COUNT, n ∉ (s.pending slot).map s.owner
  lost : s.lost = []

/-- The record of a request in memory, as long as the request is not completed. -/
def Dispatched.record (d : Dispatched) : RequestInfo := ⟨d.serial, d.request, 0, 0, d.slotId, d.acked.toNat⟩

/-- The pending lists hold the requests that are not completed, and their records are their own. -/
structure Inv (b : Build) (s : State) : Prop where
  slot : ∀ n < s.count, (s.req n).slotId < b.SIM_COUNT
  pending : ∀ slot, s.pending slot
    = (openEntries s.count (fun n => (s.req n).slotId = slot ∧ (s.req n).completed = false)).map (fun n => (s.req n).pRI)
  record : ∀ n < s.count, (s.req n).completed = false → s.heap (s.req n).pRI = some (s.req n).record
  owner : ∀ n < s.count, (s.req n).completed = false → (s.req n).pRI ≠ 0 ∧ s.owner (s.req n).pRI = n
  fresh : ∀ n < s.count, (s.req n).progress ≠ .atVendor → (s.req n).acked = false ∧ (s.req n).completed = false
  answered : ∀ n < s.count, (s.req n).Answered b

/-! ### Consequences of the invariant -/

theorem inv_init (b : Build) : Inv b State.init where
  slot := fun n hn => absurd hn (Nat.not_lt_zero n)
  pending := fun _ => rfl
  record := fun n hn => absurd hn (Nat.not_lt_zero n)
  owner := fun n hn => absurd hn (Nat.not_lt_zero n)
  fresh := fun n hn => absurd hn (Nat.not_lt_zero n)
  answered := fun n hn => absurd hn (Nat.not_lt_zero n)

namespace Inv

/-- Requests that are not completed have different addresses. -/
theorem pRI_inj (hinv : Inv b s) (hn : n < s.count) (hcn : (s.req n).completed = false) (hm : m < s.count)
    (hcm : (s.req m).completed = false) (h : (s.req n).pRI = (s.req m).pRI) : n = m := by
  rw [← (hinv.owner n hn hcn).2, h, (hinv.owner m hm hcm).2]

theorem hook (hinv : Inv b s) (hn : n < s.count) : pendingRequestsHook b (s.req n).slotId = (s.req n).slotId :=
  pendingRequestsHook_eq b (hinv.slot n hn)

/-- A request that is not completed is in the list of its slot. -/
theorem mem_pending (hinv : Inv b s) (hn : n < s.count) (hc : (s.req n).completed = false) :
    (s.req n).pRI ∈ s.pending (s.req n).slotId := by
  rw [hinv.pending]
  exact mem_map_of_mem (mem_openEntries.mpr ⟨hn, rfl, hc⟩)

theorem pending_nodup (hinv : Inv b s) (slot : ℕ) : (s.pending slot).Nodup := by
  rw [hinv.pending]
  apply nodup_map_openEntries
  intro j hj hpj i hi hpi heq
  exact hinv.pRI_inj hj hpj.2 hi hpi.2 heq

/-- The lists, read as requests. -/
theorem map_owner (hinv : Inv b s) (slot : ℕ) : (s.pending slot).map s.owner
    = openEntries s.count (fun n => (s.req n).slotId = slot ∧ (s.req n).completed = false) := by
  rw [hinv.pending, List.map_map]
  calc (openEntries s.count _).map (s.owner ∘ fun n => (s.req n).pRI)
      = (openEntries s.count _).map id := by
        apply map_congr_left
        intro j hj
        obtain ⟨hj, -, hc⟩ := mem_openEntries.mp hj
        exact (hinv.owner j hj hc).2
    _ = _ := map_id _

/-! ### The calls of the library -/

section

variable (hinv : Inv b s) (hn : n < s.count) (hc : (s.req n).completed = false)
include hinv hn hc

theorem sendErrorResponse_eq (err : ℤ) :
    sendErrorResponse s (s.req n).pRI err = some ⟨(s.req n).slotId, RESPONSE_SOLICITED, (s.req n).serial, err⟩ := by
  rw [sendErrorResponse, hinv.record n hn hc]
  rfl

/-- An acknowledgement marks its request and reports it. -/
theorem onRequestAck_eq
    (ha : (s.req n).acked = false) : onRequestAck b s (s.req n).pRI = some { s with
          heap := update s.heap (s.req n).pRI (some { (s.req n).record with wasAckSent := 1 })
          acknowledged := s.acknowledged ++ [((s.req n).slotId, (s.req n).serial)] } := by
  have hcheck : checkAndDequeueRequestInfoIfAck b s (s.req n).pRI true = some (true, { s with
          heap := update s.heap (s.req n).pRI (some { (s.req n).record with wasAckSent := 1 }) }) := by
    have hack : (s.req n).record.wasAckSent ≠ 1 := by
      show (s.req n).acked.toNat ≠ 1
      rw [ha]
      exact Nat.zero_ne_one
    have hmem : (s.req n).pRI ∈ s.pending (pendingRequestsHook b (s.req n).record.socket_id) := by
      show (s.req n).pRI ∈ s.pending (pendingRequestsHook b (s.req n).slotId)
      rw [hinv.hook hn]
      exact hinv.mem_pending hn hc
    rw [checkAndDequeueRequestInfoIfAck, if_neg (hinv.owner n hn hc).1, hinv.record n hn hc]
    simp only [bind_eq_bind, bind_some, if_pos hmem, if_pos trivial, if_neg hack]
  rw [onRequestAck, hcheck]
  simp only [bind_eq_bind, bind_some, update_self, if_pos trivial]
  rfl

/-- A completion takes its own request out of the list and answers it. -/
theorem onRequestComplete_eq (e : ℤ) :
    onRequestComplete b s (s.req n).pRI e
      = some ({ s with
          pending := update s.pending (s.req n).slotId ((s.pending (s.req n).slotId).erase (s.req n).pRI)
          heap := update s.heap (s.req n).pRI none },
        [⟨(s.req n).slotId, typeOf b (s.req n), (s.req n).serial, e⟩]) := by
  have hcheck : checkAndDequeueRequestInfoIfAck b s (s.req n).pRI false = some (true, { s with
          pending := update s.pending (s.req n).slotId ((s.pending (s.req n).slotId).erase (s.req n).pRI) }) := by
    have hhook : pendingRequestsHook b (s.req n).record.socket_id = (s.req n).slotId := hinv.hook hn
    rw [checkAndDequeueRequestInfoIfAck, if_neg (hinv.owner n hn hc).1, hinv.record n hn hc]
    simp only [bind_eq_bind, bind_some, hhook, if_pos (hinv.mem_pending hn hc), Bool.false_eq_true, if_false]
  have htype : (if 13 ≤ b.version ∧ (s.req n).record.wasAckSent = 1 then RESPONSE_SOLICITED_ACK_EXP else RESPONSE_SOLICITED)
      = typeOf b (s.req n) := by
    have hone : (s.req n).record.wasAckSent = 1 ↔ (s.req n).acked = true := Bool.toNat_eq_one
    simp only [typeOf, hone]
  rw [onRequestComplete, hcheck]
  simp only [bind_eq_bind, bind_some, hinv.record n hn hc, if_pos trivial, htype]
  rfl

end

/-! ### Steps -/

/-- A new record is in no list, and its address is no other one's. -/
theorem add (hinv : Inv b s) {pRI slotId request : ℕ} {serial : ℤ} {stages : List Stage}
    (ha : Allowed b s (.addRequestToList pRI serial slotId request stages))
    (hs : step b s (.addRequestToList pRI serial slotId request stages) = some s') : Inv b s' := by
  obtain ⟨hne, hfree, hslot⟩ := ha
  have hhook := pendingRequestsHook_eq b hslot
  have hs' : s' =
      { s with
        heap := update s.heap pRI (some ⟨serial, request, 0, 0, slotId, 0⟩)
        pending := update s.pending slotId (pRI :: s.pending slotId)
        owner := update s.owner pRI s.count
        count := s.count + 1
        req := update s.req s.count ⟨pRI, serial, slotId, request, stages, .preparing, false, false, []⟩ } := by
    cases hs
    simp only [addRequestToList, hhook]
  have hnew : s'.req s.count = ⟨pRI, serial, slotId, request, stages, .preparing, false, false, []⟩ := by
    rw [hs']
    exact update_self _ _ _
  have hold : ∀ m < s.count, s'.req m = s.req m := by
    intro m hm
    rw [hs']
    exact update_of_ne (ne_of_lt hm) _ _
  have hpRI : ∀ m < s.count, (s.req m).completed = false → (s.req m).pRI ≠ pRI := by
    rintro m hm hc rfl
    rw [hinv.record m hm hc] at hfree
    cases hfree
  have hcount : s'.count = s.count + 1 := by rw [hs']
  have hcases : ∀ m < s'.count, m = s.count ∨ m < s.count := by
    intro m hm
    rw [hcount] at hm
    omega
  refine ⟨?_, ?_, ?_, ?_, ?_, ?_⟩
  · intro m hm
    rcases hcases m hm with rfl | hm
    · rw [hnew]
      exact hslot
    · rw [hold m hm]
      exact hinv.slot m hm
  · intro slot
    have hmap : (openEntries s.count (fun n => (s.req n).slotId = slot ∧ (s.req n).completed = false)).map
        (fun n => (s.req n).pRI)
        = (openEntries s.count (fun n => (s.req n).slotId = slot ∧ (s.req n).completed = false)).map
          (fun n => (s'.req n).pRI) := by
      apply map_congr_left
      intro j hj
      rw [hold j (mem_openEntries.mp hj).1]
    have hiff : ∀ k < s.count, (s.req k).slotId = slot ∧ (s.req k).completed = false
        ↔ (s'.req k).slotId = slot ∧ (s'.req k).completed = false := by
      intro k hk
      rw [hold k hk]
    rw [hcount]
    rcases eq_or_ne slot slotId with rfl | hslotne
    · have hpend : s'.pending slot = pRI :: s.pending slot := by
        rw [hs']
        exact update_self _ _ _
      have hopen : (s'.req s.count).slotId = slot ∧ (s'.req s.count).completed = false := by
        rw [hnew]
        exact ⟨rfl, rfl⟩
      rw [hpend, openEntries_open hopen hiff, map_cons, hnew, ← hmap, hinv.pending]
    have hpend : s'.pending slot = s.pending slot := by
      rw [hs']
      exact update_of_ne hslotne _ _
    have hskip : ¬ ((s'.req s.count).slotId = slot ∧ (s'.req s.count).completed = false) := by
      rw [hnew]
      exact fun h => hslotne h.1.symm
    rw [hpend, openEntries_skip hskip hiff, ← hmap, hinv.pending]
  · intro m hm hc
    rcases hcases m hm with rfl | hm
    · rw [hnew, hs']
      exact update_self _ _ _
    · rw [hold m hm] at hc ⊢
      rw [hs']
      exact (update_of_ne (hpRI m hm hc) _ _).trans (hinv.record m hm hc)
  · intro m hm hc
    rcases hcases m hm with rfl | hm
    · rw [hnew, hs']
      exact ⟨hne, update_self _ _ _⟩
    · rw [hold m hm] at hc ⊢
      rw [hs']
      exact ⟨(hinv.owner m hm hc).1, (update_of_ne (hpRI m hm hc) _ _).trans (hinv.owner m hm hc).2⟩
  · intro m hm
    rcases hcases m hm with rfl | hm
    · rw [hnew]
      exact fun _ => ⟨rfl, rfl⟩
    · rw [hold m hm]
      exact hinv.fresh m hm
  intro m hm
  rcases hcases m hm with rfl | hm
  · rw [hnew]
    refine ⟨fun _ => rfl, ?_⟩
    rintro (h | h) <;> cases h
  · rw [hold m hm]
    exact hinv.answered m hm

/-- A request that stays open gets a new record; the lists stay. -/
theorem rewrite (hinv : Inv b s) (hn : n < s.count) (hc : (s.req n).completed = false) {d : Dispatched}
    (hcount : s'.count = s.count) (hpend : s'.pending = s.pending) (howner : s'.owner = s.owner)
    (hreq : s'.req = update s.req n d) (hheap : s'.heap = update s.heap (s.req n).pRI (some d.record))
    (hp : d.pRI = (s.req n).pRI) (hslot : d.slotId = (s.req n).slotId) (hcd : d.completed = false)
    (hfresh : d.progress ≠ .atVendor → d.acked = false) (hans : d.Answered b) : Inv b s' := by
  have hnew : s'.req n = d := by rw [hreq, update_self]
  have hold : ∀ m, m ≠ n → s'.req m = s.req m := by
    intro m hm
    rw [hreq, update_of_ne hm]
  have hsame : ∀ m, (s'.req m).pRI = (s.req m).pRI ∧ (s'.req m).slotId = (s.req m).slotId
      ∧ (s'.req m).completed = (s.req m).completed := by
    intro m
    rcases eq_or_ne m n with rfl | hne
    · rw [hnew]
      exact ⟨hp, hslot, hcd.trans hc.symm⟩
    · rw [hold m hne]
      exact ⟨rfl, rfl, rfl⟩
  refine ⟨?_, ?_, ?_, ?_, ?_, ?_⟩
  · intro m hm
    rw [(hsame m).2.1]
    exact hinv.slot m (hcount ▸ hm)
  · intro slot
    simp only [hpend, hcount, (hsame _).1, (hsame _).2.1, (hsame _).2.2]
    exact hinv.pending slot
  · intro m hm hcm
    rw [(hsame m).2.2] at hcm
    rcases eq_or_ne m n with rfl | hne
    · rw [hnew, hp, hheap, update_self]
    · have hpne : (s.req m).pRI ≠ (s.req n).pRI := fun h => hne (hinv.pRI_inj (hcount ▸ hm) hcm hn hc h)
      rw [hold m hne, hheap, update_of_ne hpne]
      exact hinv.record m (hcount ▸ hm) hcm
  · intro m hm hcm
    rw [(hsame m).2.2] at hcm
    rw [(hsame m).1, howner]
    exact hinv.owner m (hcount ▸ hm) hcm
  · intro m hm
    rcases eq_or_ne m n with rfl | hne
    · rw [hnew]
      exact fun h => ⟨hfresh h, hcd⟩
    · rw [hold m hne]
      exact hinv.fresh m (hcount ▸ hm)
  intro m hm
  rcases eq_or_ne m n with rfl | hne
  · rw [hnew]
    exact hans
  · rw [hold m hne]
    exact hinv.answered m (hcount ▸ hm)

/-- The vendor is called, or the error exit is taken. -/
theorem dispatch (hinv : Inv b s) {allocs : List Bool} (ha : Allowed b s (.dispatch n allocs))
    (hs : step b s (.dispatch n allocs) = some s') : Inv b s' := by
  obtain ⟨hn, hprep⟩ := ha
  have hfresh := hinv.fresh n hn (by rw [hprep]; exact nofun)
  have hopen : ¬ (s.req n).Done := by
    rintro (h | h)
    · rw [hfresh.2] at h
      cases h
    · rw [hprep] at h
      cases h
  have hnone := (hinv.answered n hn).1 hopen
  have hheap : s.heap = update s.heap (s.req n).pRI (some (s.req n).record) := by
    rw [← hinv.record n hn hfresh.2, update_eq_self]
  rw [step] at hs
  split at hs
  · cases hs
    refine hinv.rewrite hn hfresh.2 rfl rfl rfl rfl hheap rfl rfl hfresh.2 (fun h => absurd rfl h) ⟨fun _ => hnone, ?_⟩
    rintro (h | h)
    · rw [hfresh.2] at h
      cases h
    · cases h
  rename_i e hprepare
  rw [hinv.sendErrorResponse_eq hn hfresh.2] at hs
  cases hs
  refine hinv.rewrite hn hfresh.2 rfl rfl rfl rfl hheap rfl rfl hfresh.2 (fun _ => hfresh.1) ⟨fun h => absurd (.inr rfl) h, ?_⟩
  -- The request was not acknowledged, so the plain response type is its own.
  have htype : typeOf b (s.req n) = RESPONSE_SOLICITED := by
    rw [typeOf, if_neg]
    rintro ⟨-, h⟩
    exact absurd (hfresh.1.symm.trans h) nofun
  intro
  refine ⟨e, ?_⟩
  show (s.req n).answers ++ [⟨(s.req n).slotId, RESPONSE_SOLICITED, (s.req n).serial, e⟩]
    = [⟨(s.req n).slotId, typeOf b (s.req n), (s.req n).serial, e⟩]
  rw [hnone, htype, nil_append]

theorem not_done (hat : (s.req n).progress = .atVendor) (hc : (s.req n).completed = false) : ¬ (s.req n).Done := by
  rintro (h | h)
  · rw [hc] at h
    cases h
  · rw [hat] at h
    cases h

section

variable (hinv : Inv b s)
include hinv

theorem ack (ha : Allowed b s (.onRequestAck n)) (hc : (s.req n).completed = false)
    (hs : step b s (.onRequestAck n) = some s') : Inv b s' := by
  obtain ⟨hn, hat, hack⟩ := ha
  have hopen := not_done hat hc
  rw [step, hinv.onRequestAck_eq hn hc hack] at hs
  cases hs
  refine hinv.rewrite hn hc rfl rfl rfl rfl rfl rfl rfl hc (fun h => absurd hat h) ⟨?_, ?_⟩
  · exact fun _ => (hinv.answered n hn).1 hopen
  · exact fun h => absurd h hopen

/-- The other requests keep their records and places. -/
theorem complete {e : ℤ} (ha : Allowed b s (.onRequestComplete n e))
    (hs : step b s (.onRequestComplete n e) = some s') : Inv b s' := by
  obtain ⟨hn, hat, hc⟩ := ha
  have hopen := not_done hat hc
  rw [step, hinv.onRequestComplete_eq hn hc] at hs
  have hs' := (some.inj hs).symm
  clear hs
  have hnew : s'.req n = { s.req n with
      completed := true, answers := (s.req n).answers ++ [⟨(s.req n).slotId, typeOf b (s.req n), (s.req n).serial, e⟩] } := by
    rw [hs']
    exact note_self _ _ _
  have hold : ∀ m, m ≠ n → s'.req m = s.req m := by
    intro m hm
    rw [hs']
    exact note_of_ne _ hm
  have hcount : s'.count = s.count := by rw [hs']; rfl
  have hpRI : ∀ m, (s'.req m).pRI = (s.req m).pRI ∧ (s'.req m).slotId = (s.req m).slotId := by
    intro m
    rcases eq_or_ne m n with rfl | hne
    · rw [hnew]
      exact ⟨rfl, rfl⟩
    · rw [hold m hne]
      exact ⟨rfl, rfl⟩
  have hcompl : ∀ m, (s'.req m).completed = false ↔ (s.req m).completed = false ∧ m ≠ n := by
    intro m
    rcases eq_or_ne m n with rfl | hne
    · rw [hnew]
      simp
    · rw [hold m hne]
      simp [hne]
  refine ⟨?_, ?_, ?_, ?_, ?_, ?_⟩
  · intro m hm
    rw [(hpRI m).2]
    exact hinv.slot m (hcount ▸ hm)
  · intro slot
    have hclose : (openEntries s.count (fun m => (s'.req m).slotId = slot ∧ (s'.req m).completed = false)).map
        (fun m => (s.req m).pRI) = (s.pending slot).filter (fun a => a ≠ (s.req n).pRI) := by
      rw [hinv.pending]
      apply map_openEntries_close
      · intro j _
        rw [(hpRI j).2, hcompl j, and_assoc]
      · intro j hj hpj
        exact ⟨fun h => hinv.pRI_inj hj hpj.2 hn hc h, fun h => by rw [h]⟩
    simp only [hcount, (hpRI _).1]
    rw [hclose]
    rcases eq_or_ne slot (s.req n).slotId with rfl | hne
    · have hpend : s'.pending (s.req n).slotId = (s.pending (s.req n).slotId).erase (s.req n).pRI := by
        rw [hs']
        exact update_self _ _ _
      rw [hpend, (hinv.pending_nodup _).erase_eq_filter]
      apply filter_congr
      intro a _
      rw [Bool.eq_iff_iff, bne_iff_ne, decide_eq_true_iff]
    have hpend : s'.pending slot = s.pending slot := by
      rw [hs']
      exact update_of_ne hne _ _
    rw [hpend]
    symm
    rw [filter_eq_self]
    intro a hmem
    rw [hinv.pending, List.mem_map] at hmem
    obtain ⟨j, hj, rfl⟩ := hmem
    obtain ⟨hj, hslot, hcj⟩ := mem_openEntries.mp hj
    apply decide_eq_true
    intro h
    obtain rfl := hinv.pRI_inj hj hcj hn hc h
    exact hne hslot.symm
  · intro m hm hcm
    obtain ⟨hcm, hne⟩ := (hcompl m).mp hcm
    have hpne : (s.req m).pRI ≠ (s.req n).pRI := fun h => hne (hinv.pRI_inj (hcount ▸ hm) hcm hn hc h)
    rw [hold m hne, hs']
    exact (update_of_ne hpne _ _).trans (hinv.record m (hcount ▸ hm) hcm)
  · intro m hm hcm
    obtain ⟨hcm, hne⟩ := (hcompl m).mp hcm
    rw [hold m hne, hs']
    exact hinv.owner m (hcount ▸ hm) hcm
  · intro m hm
    rcases eq_or_ne m n with rfl | hne
    · rw [hnew]
      exact fun h => absurd hat h
    · rw [hold m hne]
      exact hinv.fresh m (hcount ▸ hm)
  intro m hm
  rcases eq_or_ne m n with rfl | hne
  · rw [hnew, (hinv.answered m hn).1 hopen]
    exact ⟨fun h => absurd (.inl rfl) h, fun _ => ⟨e, rfl⟩⟩
  · rw [hold m hne]
    exact hinv.answered m (hcount ▸ hm)

/-- **A step keeps the invariant.** -/
theorem step {a : Act} (ha : Allowed b s a) (hack : AckFirst s a) (hs : step b s a = some s') : Inv b s' := by
  cases a with
  | addRequestToList => exact hinv.add ha hs
  | noMemory =>
    cases hs
    exact ⟨hinv.slot, hinv.pending, hinv.record, hinv.owner, hinv.fresh, hinv.answered⟩
  | dispatch => exact hinv.dispatch ha hs
  | onRequestAck => exact hinv.ack ha hack hs
  | onRequestComplete => exact hinv.complete ha hs

/-- No step reads a freed record. -/
theorem exists_step {a : Act} (ha : Allowed b s a) (hack : AckFirst s a) : ∃ s', Requests.step b s a = some s' := by
  cases a with
  | addRequestToList | noMemory => exact ⟨_, rfl⟩
  | dispatch n allocs =>
    obtain ⟨hn, hprep⟩ := ha
    have hc := (hinv.fresh n hn (by rw [hprep]; exact nofun)).2
    rw [Requests.step]
    cases prepare (s.req n).stages allocs with
    | ok => exact ⟨_, rfl⟩
    | error e =>
      dsimp only
      rw [hinv.sendErrorResponse_eq hn hc]
      exact ⟨_, rfl⟩
  | onRequestAck n =>
    obtain ⟨hn, -, hacked⟩ := ha
    exact ⟨_, by rw [Requests.step, hinv.onRequestAck_eq hn hack hacked]; rfl⟩
  | onRequestComplete n e =>
    obtain ⟨hn, -, hc⟩ := ha
    exact ⟨_, by rw [Requests.step, hinv.onRequestComplete_eq hn hc]; rfl⟩

/-- A request has an answer exactly when it is done. -/
theorem answers_eq_nil (hn : n < s.count) : (s.req n).answers = [] ↔ ¬ (s.req n).Done := by
  constructor
  · intro h hdone
    obtain ⟨e, he⟩ := (hinv.answered n hn).2 hdone
    rw [h] at he
    cases he
  · exact (hinv.answered n hn).1

/-- A request that took an error exit is still in its list. -/
theorem failed_mem (hn : n < s.count) (hf : (s.req n).progress = .failed) :
    n ∈ (s.pending (s.req n).slotId).map s.owner := by
  have hc := (hinv.fresh n hn (by rw [hf]; exact nofun)).2
  rw [hinv.map_owner]
  exact mem_openEntries.mpr ⟨hn, rfl, hc⟩

/-- Error exits and lost records are the only ways to go wrong. -/
theorem answeredOnce_iff : AnsweredOnce b s ↔ s.lost = [] ∧ ∀ n < s.count, (s.req n).progress ≠ .failed := by
  constructor
  · intro h
    refine ⟨h.lost, fun n hn hf => ?_⟩
    exact h.failed n hn hf _ (hinv.slot n hn) (hinv.failed_mem hn hf)
  rintro ⟨hlost, hnone⟩
  refine ⟨?_, hinv.answered, ?_, hlost⟩
  · intro _ _
    rw [hinv.map_owner]
    apply openEntries_congr
    intro k hk
    rw [hinv.answers_eq_nil hk, Dispatched.Done, not_or, Bool.not_eq_true]
    exact ⟨fun h => ⟨h.1, h.2, hnone k hk⟩, fun h => ⟨h.1, h.2.1⟩⟩
  · intro n hn hf
    exact absurd hf (hnone n hn)

end

end Inv

/-! ### Runs -/

theorem ReachesVendor.ackFirst {a : Act} (h : ReachesVendor s a) : AckFirst s a := by
  cases a with
  | onRequestAck => exact h
  | noMemory => exact absurd h id
  | addRequestToList | dispatch | onRequestComplete => trivial

/-- **Every run keeps the invariant.** -/
theorem Run.inv (h : Run b AckFirst s) : Inv b s := by
  induction h with
  | init => exact inv_init b
  | step _ ha hcond hs ih => exact ih.step ha hcond hs

theorem Run.mono {c c' : State → Act → Prop} (hc : ∀ s a, c s a → c' s a) (h : Run b c s) : Run b c' s := by
  induction h with
  | init => exact .init
  | step _ ha hcond hs ih => exact .step ih ha (hc _ _ hcond) hs

/-- Only a dispatch changes how far a request came. -/
theorem progress_step (hinv : Inv b s) {a : Act} (ha : Allowed b s a) (hcond : ReachesVendor s a) (hs : step b s a = some s')
    (h : s.lost = [] ∧ ∀ n, (s.req n).progress ≠ .failed) : s'.lost = [] ∧ ∀ n, (s'.req n).progress ≠ .failed := by
  obtain ⟨hlost, hnone⟩ := h
  cases a with
  | addRequestToList =>
    cases hs
    refine ⟨hlost, fun m => ?_⟩
    show (update s.req s.count _ m).progress ≠ .failed
    rcases eq_or_ne m s.count with rfl | hne
    · rw [update_self]
      exact nofun
    · rw [update_of_ne hne]
      exact hnone m
  | noMemory => exact absurd hcond id
  | dispatch n =>
    obtain ⟨_, hpay⟩ := hcond
    rw [step, hpay] at hs
    cases hs
    refine ⟨hlost, fun m => ?_⟩
    rcases eq_or_ne m n with rfl | hne
    · rw [note_self]
      exact nofun
    · rw [note_of_ne _ hne]
      exact hnone m
  | onRequestAck n =>
    obtain ⟨hn, -, hack⟩ := ha
    rw [step, hinv.onRequestAck_eq hn hcond hack] at hs
    cases hs
    refine ⟨hlost, fun m => ?_⟩
    rcases eq_or_ne m n with rfl | hne
    · rw [note_self]
      exact hnone m
    · rw [note_of_ne _ hne]
      exact hnone m
  | onRequestComplete n =>
    obtain ⟨hn, -, hc⟩ := ha
    rw [step, hinv.onRequestComplete_eq hn hc] at hs
    cases hs
    refine ⟨hlost, fun m => ?_⟩
    rcases eq_or_ne m n with rfl | hne
    · rw [note_self]
      exact hnone m
    · rw [note_of_ne _ hne]
      exact hnone m

theorem Run.progress (h : Run b ReachesVendor s) : s.lost = [] ∧ ∀ n, (s.req n).progress ≠ .failed := by
  induction h with
  | init => exact ⟨rfl, fun _ h => by cases h⟩
  | step hrun ha hcond hs ih => exact progress_step (Run.inv (hrun.mono fun _ _ => ReachesVendor.ackFirst)) ha hcond hs ih

/-- **Requests are answered once** and leave the lists, in runs in which there is memory for every record and no request
takes an error exit.  In the others, exactly the requests that took an error exit do not leave them, and exactly the
calls without a record are not answered.  No step reads a freed record. -/
theorem requests_answered_once (b : Build) : (∀ s, Run b ReachesVendor s → AnsweredOnce b s)
      ∧ (∀ s, Run b AckFirst s → (AnsweredOnce b s ↔ s.lost = [] ∧ ∀ n < s.count, (s.req n).progress ≠ .failed))
      ∧ ∀ s a, Run b AckFirst s → Allowed b s a → AckFirst s a → ∃ s', step b s a = some s' := by
  refine ⟨?_, fun s h => h.inv.answeredOnce_iff, fun s a h ha hack => h.inv.exists_step ha hack⟩
  intro s h
  have hinv : Inv b s := Run.inv (h.mono fun _ _ => ReachesVendor.ackFirst)
  exact hinv.answeredOnce_iff.mpr ⟨h.progress.1, fun n _ => h.progress.2 n⟩

/-- One slot, and a vendor of version 13. -/
def Build.single : Build := ⟨1, 13, by decide⟩

/-- A request is dispatched, acknowledged and completed: the response asks for an acknowledgement, the list is empty. -/
theorem requests_answered_once_acked : ∃ s, Run Build.single ReachesVendor s ∧ AnsweredOnce Build.single s
    ∧ s.pending 0 = [] ∧ (s.req 0).answers.map Answer.responseType = [RESPONSE_SOLICITED_ACK_EXP] := by
  have hadd : Run Build.single ReachesVendor _ :=
    .step (a := .addRequestToList 1 7 0 10 (dispatchString [65])) .init ⟨by decide, rfl, by decide⟩ trivial rfl
  have hvendor : Run Build.single ReachesVendor _ :=
    .step (a := .dispatch 0 [true]) hadd ⟨by decide, rfl⟩ ⟨[some [65]], rfl⟩ rfl
  have hack : Run Build.single ReachesVendor _ := .step (a := .onRequestAck 0) hvendor ⟨by decide, rfl, rfl⟩ rfl rfl
  have hdone : Run Build.single ReachesVendor _ :=
    .step (a := .onRequestComplete 0 0) hack ⟨by decide, rfl, rfl⟩ trivial rfl
  exact ⟨_, hdone, (requests_answered_once Build.single).1 _ hdone, rfl, rfl⟩

/-- The copy of a string fails: the request is answered and stays in the list.  An acknowledgement that comes after the
completion meets the next request at the same address, which is then answered as if it had been acknowledged.  And a
call without memory for its record is not answered. -/
theorem requests_answered_once_fails :
    (∃ s, Run Build.single AckFirst s ∧ ¬ AnsweredOnce Build.single s ∧ s.pending 0 = [1]
      ∧ (s.req 0).answers = [⟨0, RESPONSE_SOLICITED, 7, RIL_E_NO_MEMORY⟩])
    ∧ (∃ s, Run Build.single (fun _ _ => True) s ∧ ¬ AnsweredOnce Build.single s
      ∧ (s.req 1).acked = false ∧ (s.req 1).answers = [⟨0, RESPONSE_SOLICITED_ACK_EXP, 8, 0⟩])
    ∧ ∃ s, Run Build.single AckFirst s ∧ ¬ AnsweredOnce Build.single s ∧ s.lost = [(0, 7)] := by
  refine ⟨?_, ?_, ?_⟩
  · have hadd : Run Build.single AckFirst _ :=
      .step (a := .addRequestToList 1 7 0 10 (dispatchString [65])) .init ⟨by decide, rfl, by decide⟩ trivial rfl
    have herror : Run Build.single AckFirst _ := .step (a := .dispatch 0 [false]) hadd ⟨by decide, rfl⟩ trivial rfl
    refine ⟨_, herror, ?_, rfl, rfl⟩
    intro h
    exact h.failed 0 (by decide) rfl 0 (by decide) (mem_singleton.mpr rfl)
  · have hadd : Run Build.single (fun _ _ => True) _ :=
      .step (a := .addRequestToList 1 7 0 10 dispatchVoid) .init ⟨by decide, rfl, by decide⟩ trivial rfl
    have hvendor : Run Build.single (fun _ _ => True) _ :=
      .step (a := .dispatch 0 []) hadd ⟨by decide, rfl⟩ trivial rfl
    have hdone : Run Build.single (fun _ _ => True) _ :=
      .step (a := .onRequestComplete 0 0) hvendor ⟨by decide, rfl, rfl⟩ trivial rfl
    have hadd' : Run Build.single (fun _ _ => True) _ :=
      .step (a := .addRequestToList 1 8 0 10 dispatchVoid) hdone ⟨by decide, rfl, by decide⟩ trivial rfl
    have hvendor' : Run Build.single (fun _ _ => True) _ :=
      .step (a := .dispatch 1 []) hadd' ⟨by decide, rfl⟩ trivial rfl
    have hlate : Run Build.single (fun _ _ => True) _ :=
      .step (a := .onRequestAck 0) hvendor' ⟨by decide, rfl, rfl⟩ trivial rfl
    have hdone' : Run Build.single (fun _ _ => True) _ :=
      .step (a := .onRequestComplete 1 0) hlate ⟨by decide, rfl, rfl⟩ trivial rfl
    refine ⟨_, hdone', ?_, rfl, rfl⟩
    intro h
    obtain ⟨e, he⟩ := (h.answered 1 (by decide)).2 (.inl rfl)
    have htype : RESPONSE_SOLICITED_ACK_EXP = RESPONSE_SOLICITED :=
      (cons.inj (congrArg (map Answer.responseType) he)).1
    exact nomatch htype
  · have hlost : Run Build.single AckFirst _ :=
      .step (a := .noMemory 7 0) .init (show 0 < Build.single.SIM_COUNT by decide) trivial rfl
    refine ⟨_, hlost, fun h => ?_, rfl⟩
    cases h.lost

end Requests

end G4Common.Ril
