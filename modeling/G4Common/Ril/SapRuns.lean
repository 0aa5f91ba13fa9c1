/-
The queue of the SIM access profile in every orderly run.

The invariant gives the cells of the queue by the requests that were not completed, the newest first, and says that the
headers and records of exactly these requests are in memory.  Three things break it: a completion from inside the call of
the vendor, after which the service frees the payload through a freed header; a completion while a newer request has the
same id and token, whose record is taken out instead; and a request that is longer than its length variables can say.
-/
import G4Common.Ril.Sap

namespace G4Common.Ril

namespace Sap

open Function List Option

variable {c : Config} {s s' : State} {n m : ℕ}

/-! ### Definitions -/

/-- The record that links a request into the queue. -/
def Sent.record (c : Config) (d : Sent) : SapSocketRequest := ⟨d.token, d.msg, c.id⟩

/-- The requests that wait for the vendor, the newest first. -/
def pendingRequests (s : State) : List ℕ := openEntries s.count (fun n => (s.sent n).completed = false)

def cell (c : Config) (s : State) (n : ℕ) : ℕ × SapSocketRequest := ((s.sent n).currRequest, (s.sent n).record c)

/-- One response with the request's own token and id once it is completed, and none before. -/
def Sent.Answered (d : Sent) : Prop :=
  (d.completed = false → d.answers = []) ∧ (d.completed = true → ∃ e, d.answers = [⟨d.token, .RESPONSE, d.id, e⟩])

structure QueueOk (c : Config) (s : State) : Prop where
  queue : s.pendingResponseQueue.Holds ((pendingRequests s).map (cell c s))
  empty : empty s.pendingResponseQueue = true ↔ ∀ n < s.count, (s.sent n).completed = true
  answered : ∀ n < s.count, (s.sent n).Answered
  handed : ∀ n < s.count, c.uimFuncs = true → (s.sent n).handed = some ((s.sent n).encoded, (s.sent n).encoded.length)
  header : ∀ n < s.count, (s.hdrs (s.sent n).msg).isSome = true ↔ (s.sent n).completed = false
  record : ∀ n < s.count, (s.pendingResponseQueue.mem (s.sent n).currRequest).isSome = true ↔ (s.sent n).completed = false

/-- What is settled when a request is dispatched: its addresses, and what the vendor was given. -/
structure Fixed (c : Config) (s : State) : Prop where
  nonzero : ∀ n < s.count, (s.sent n).msg ≠ 0 ∧ (s.sent n).currRequest ≠ 0
  msg_inj : ∀ n < s.count, ∀ m < s.count, (s.sent n).msg = (s.sent m).msg → n = m
  record_inj : ∀ n < s.count, ∀ m < s.count, (s.sent n).currRequest = (s.sent m).currRequest → n = m
  payload_inj : ∀ n < s.count, ∀ m < s.count, (s.sent n).payload = (s.sent m).payload → n = m
  handed : ∀ n < s.count, c.uimFuncs = true → (s.sent n).handed = some ((s.sent n).encoded, (s.sent n).encoded.length)

structure Inv (c : Config) (s : State) : Prop where
  fixed : Fixed c s
  queue : s.pendingResponseQueue.Holds ((pendingRequests s).map (cell c s))
  header : ∀ n < s.count, (s.sent n).completed = false
    → s.hdrs (s.sent n).msg = some ⟨(s.sent n).token, .REQUEST, (s.sent n).id, 0, (s.sent n).payload⟩
  freed : ∀ n < s.count, (s.sent n).completed = true
    → s.hdrs (s.sent n).msg = none ∧ s.pendingResponseQueue.mem (s.sent n).currRequest = none
  payload : ∀ n < s.count, (s.sent n).returned = false → (s.payloads (s.sent n).payload).isSome = true
  returned : ∀ n < s.count, (s.sent n).completed = true → (s.sent n).returned = true
  answered : ∀ n < s.count, (s.sent n).Answered

theorem mem_pendingRequests : n ∈ pendingRequests s ↔ n < s.count ∧ (s.sent n).completed = false := mem_openEntries

theorem fixed_init (c : Config) : Fixed c State.init where
  nonzero := fun n hn => absurd hn (Nat.not_lt_zero n)
  msg_inj := fun n hn => absurd hn (Nat.not_lt_zero n)
  record_inj := fun n hn => absurd hn (Nat.not_lt_zero n)
  payload_inj := fun n hn => absurd hn (Nat.not_lt_zero n)
  handed := fun n hn => absurd hn (Nat.not_lt_zero n)

theorem inv_init (c : Config) : Inv c State.init where
  fixed := fixed_init c
  queue := PtrList.Holds.empty _
  header := fun n hn => absurd hn (Nat.not_lt_zero n)
  freed := fun n hn => absurd hn (Nat.not_lt_zero n)
  payload := fun n hn => absurd hn (Nat.not_lt_zero n)
  returned := fun n hn => absurd hn (Nat.not_lt_zero n)
  answered := fun n hn => absurd hn (Nat.not_lt_zero n)

theorem Fixed.keep (h : Fixed c s) (hcount : s'.count = s.count)
    (hkeep : ∀ m, ∃ r d a, s'.sent m = { s.sent m with returned := r, completed := d, answers := a }) : Fixed c s' := by
  have hsame : ∀ m, (s'.sent m).msg = (s.sent m).msg ∧ (s'.sent m).payload = (s.sent m).payload
      ∧ (s'.sent m).currRequest = (s.sent m).currRequest ∧ (s'.sent m).encoded = (s.sent m).encoded
      ∧ (s'.sent m).handed = (s.sent m).handed := by
    intro m
    obtain ⟨r, d, a, heq⟩ := hkeep m
    rw [heq]
    exact ⟨rfl, rfl, rfl, rfl, rfl⟩
  refine ⟨?_, ?_, ?_, ?_, ?_⟩
  · intro m hm
    rw [(hsame m).1, (hsame m).2.2.1]
    exact h.nonzero m (hcount ▸ hm)
  · intro m hm k hk
    rw [(hsame m).1, (hsame k).1]
    exact h.msg_inj m (hcount ▸ hm) k (hcount ▸ hk)
  · intro m hm k hk
    rw [(hsame m).2.2.1, (hsame k).2.2.1]
    exact h.record_inj m (hcount ▸ hm) k (hcount ▸ hk)
  · intro m hm k hk
    rw [(hsame m).2.1, (hsame k).2.1]
    exact h.payload_inj m (hcount ▸ hm) k (hcount ▸ hk)
  · intro m hm
    rw [(hsame m).2.2.2.1, (hsame m).2.2.2.2]
    exact h.handed m (hcount ▸ hm)

theorem cell_keep (h : ∃ r d a, s'.sent m = { s.sent m with returned := r, completed := d, answers := a }) :
    cell c s' m = cell c s m := by
  obtain ⟨r, d, a, heq⟩ := h
  rw [cell, cell, heq]
  rfl

/-! ### What a dispatch does -/

/-- The bytes and the size that a request is handed on with. -/
def handedOn (c : Config) (reqPtr : List UInt8) : Option (List UInt8 × ℕ) :=
  if c.uimFuncs then some (reqPtr.take (reqPtr.length % 65536), reqPtr.length % 65536 % 2 ^ c.sizeBits) else none

theorem dispatch_eq (c : Config) (s : State) (msg payload currRequest : ℕ) (msgId token : ℤ) (reqPtr : List UInt8) :
    step c s (.dispatch msg payload currRequest msgId token reqPtr)
      = some
        { pendingResponseQueue := s.pendingResponseQueue.push currRequest ⟨token, msg, c.id⟩
          hdrs := update s.hdrs msg (some ⟨token, .REQUEST, msgId, 0, payload⟩)
          payloads := update s.payloads payload
            (some ⟨reqPtr.length % 65536 % 2 ^ c.sizeBits, reqPtr.take (reqPtr.length % 65536)⟩)
          count := s.count + 1
          sent := update s.sent s.count
            ⟨msg, payload, currRequest, msgId, token, reqPtr, handedOn c reqPtr, false, false, []⟩ } := by
  rw [handedOn]
  cases hv : c.uimFuncs <;>
    simp [step, addPayloadAndDispatchRequest, createMsgHeader, dispatchRequest, enqueue, hv, update_idem]

namespace Inv

theorem dispatch (hinv : Inv c s) {msg payload currRequest : ℕ} {msgId token : ℤ} {reqPtr : List UInt8}
    (ha : Allowed s (.dispatch msg payload currRequest msgId token reqPtr))
    (ho : Orderly c s (.dispatch msg payload currRequest msgId token reqPtr))
    (hs : step c s (.dispatch msg payload currRequest msgId token reqPtr) = some s') : Inv c s' := by
  obtain ⟨hmsg, hcurr, hfresh⟩ := ha
  obtain ⟨hlen, hsize⟩ := ho
  rw [dispatch_eq] at hs
  have hs' := (some.inj hs).symm
  clear hs
  have hnew : s'.sent s.count = ⟨msg, payload, currRequest, msgId, token, reqPtr, handedOn c reqPtr, false, false, []⟩ := by
    rw [hs']
    exact update_self _ _ _
  have hold : ∀ m < s.count, s'.sent m = s.sent m := by
    intro m hm
    rw [hs']
    exact update_of_ne (ne_of_lt hm) _ _
  have hcount : s'.count = s.count + 1 := by rw [hs']
  have hcases : ∀ m < s'.count, m = s.count ∨ m < s.count := by
    intro m hm
    rw [hcount] at hm
    omega
  -- Each field of the history that names memory stays different for different requests.
  have hinj : ∀ f : Sent → ℕ, (∀ n < s.count, ∀ m < s.count, f (s.sent n) = f (s.sent m) → n = m)
      → (∀ m < s.count, f (s.sent m) ≠ f (s'.sent s.count))
      → ∀ n < s'.count, ∀ m < s'.count, f (s'.sent n) = f (s'.sent m) → n = m := by
    intro f hf hne n hn m hm heq
    rcases hcases n hn with rfl | hn
    · rcases hcases m hm with rfl | hm
      · rfl
      · rw [hold m hm] at heq
        exact absurd heq.symm (hne m hm)
    rw [hold n hn] at heq
    rcases hcases m hm with rfl | hm
    · exact absurd heq (hne n hn)
    · rw [hold m hm] at heq
      exact hf n hn m hm heq
  refine ⟨⟨?_, ?_, ?_, ?_, ?_⟩, ?_, ?_, ?_, ?_, ?_, ?_⟩
  · intro m hm
    rcases hcases m hm with rfl | hm
    · rw [hnew]
      exact ⟨hmsg, hcurr⟩
    · rw [hold m hm]
      exact hinv.fixed.nonzero m hm
  · exact hinj Sent.msg hinv.fixed.msg_inj (fun m hm => by rw [hnew]; exact (hfresh m hm).1)
  · exact hinj Sent.currRequest hinv.fixed.record_inj (fun m hm => by rw [hnew]; exact (hfresh m hm).2.2)
  · exact hinj Sent.payload hinv.fixed.payload_inj (fun m hm => by rw [hnew]; exact (hfresh m hm).2.1)
  · intro m hm hv
    rcases hcases m hm with rfl | hm
    · obtain ⟨htake, hmod⟩ := length_handed hlen hsize
      rw [hnew]
      show handedOn c reqPtr = some (reqPtr, reqPtr.length)
      rw [handedOn, if_pos hv, htake, hmod]
    · rw [hold m hm]
      exact hinv.fixed.handed m hm hv
  · have hpending : pendingRequests s' = s.count :: pendingRequests s := by
      rw [pendingRequests, hcount]
      apply openEntries_open
      · rw [hnew]
      · intro k hk
        rw [hold k hk]
    have hcells : (pendingRequests s).map (cell c s') = (pendingRequests s).map (cell c s) := by
      apply map_congr_left
      intro k hk
      rw [cell, cell, hold k (mem_pendingRequests.mp hk).1]
    have hcell : cell c s' s.count = (currRequest, ⟨token, msg, c.id⟩) := by
      rw [cell, hnew]
      rfl
    rw [hpending, map_cons, hcells, hcell, hs']
    apply hinv.queue.push hcurr
    intro hmem
    rw [List.map_map, List.mem_map] at hmem
    obtain ⟨k, hk, heq⟩ := hmem
    exact (hfresh k (mem_pendingRequests.mp hk).1).2.2 heq
  · intro m hm hc
    rcases hcases m hm with rfl | hm
    · rw [hnew, hs']
      exact update_self _ _ _
    · rw [hold m hm] at hc ⊢
      rw [hs']
      exact (update_of_ne (hfresh m hm).1 _ _).trans (hinv.header m hm hc)
  · intro m hm hc
    rcases hcases m hm with rfl | hm
    · rw [hnew] at hc
      cases hc
    rw [hold m hm] at hc ⊢
    rw [hs']
    obtain ⟨hhdr, hrec⟩ := hinv.freed m hm hc
    exact ⟨(update_of_ne (hfresh m hm).1 _ _).trans hhdr,
      (update_of_ne (hfresh m hm).2.2 _ _).trans hrec⟩
  · intro m hm hr
    rcases hcases m hm with rfl | hm
    · rw [hnew, hs']
      show (update s.payloads payload _ payload).isSome = true
      rw [update_self]
      rfl
    rw [hold m hm] at hr ⊢
    rw [hs']
    show (update s.payloads payload _ (s.sent m).payload).isSome = true
    rw [update_of_ne (hfresh m hm).2.1]
    exact hinv.payload m hm hr
  · intro m hm hc
    rcases hcases m hm with rfl | hm
    · rw [hnew] at hc
      cases hc
    · rw [hold m hm] at hc ⊢
      exact hinv.returned m hm hc
  intro m hm
  rcases hcases m hm with rfl | hm
  · rw [hnew]
    exact ⟨fun _ => rfl, nofun⟩
  · rw [hold m hm]
    exact hinv.answered m hm

theorem freePayload_eq (hinv : Inv c s) (hn : n < s.count) (hr : (s.sent n).returned = false) :
    freePayload s (s.sent n).msg = some { s with payloads := update s.payloads (s.sent n).payload none } := by
  have hc : (s.sent n).completed = false := by
    rw [Bool.eq_false_iff]
    intro h
    exact absurd (hr.symm.trans (hinv.returned n hn h)) nofun
  obtain ⟨p, hp⟩ := isSome_iff_exists.mp (hinv.payload n hn hr)
  simp only [freePayload, hinv.header n hn hc, hp, bind_eq_bind, bind_some]

theorem dispatchReturns (hinv : Inv c s) (ha : Allowed s (.dispatchReturns n)) (hs : step c s (.dispatchReturns n) = some s') :
    Inv c s' := by
  obtain ⟨hn, hr⟩ := ha
  rw [step, hinv.freePayload_eq hn hr] at hs
  have hs' := (some.inj hs).symm
  clear hs
  have hnew : s'.sent n = { s.sent n with returned := true } := by
    rw [hs']
    exact note_self _ _ _
  have hold : ∀ m, m ≠ n → s'.sent m = s.sent m := by
    intro m hm
    rw [hs']
    exact note_of_ne _ hm
  have hkeep : ∀ m, ∃ r d a, s'.sent m = { s.sent m with returned := r, completed := d, answers := a } := by
    intro m
    rcases eq_or_ne m n with rfl | hne
    · exact ⟨true, _, _, hnew⟩
    · exact ⟨_, _, _, hold m hne⟩
  have hcount : s'.count = s.count := by rw [hs']; rfl
  have hqueue : s'.pendingResponseQueue = s.pendingResponseQueue := by rw [hs']; rfl
  have hhdrs : s'.hdrs = s.hdrs := by rw [hs']; rfl
  have hsame : ∀ m, (s'.sent m).completed = (s.sent m).completed ∧ ((s'.sent m).Answered ↔ (s.sent m).Answered) := by
    intro m
    rcases eq_or_ne m n with rfl | hne
    · rw [hnew]
      exact ⟨rfl, Iff.rfl⟩
    · rw [hold m hne]
      exact ⟨rfl, Iff.rfl⟩
  have hcompleted := fun m => (hsame m).1
  refine ⟨?_, ?_, ?_, ?_, ?_, ?_, ?_⟩
  · exact hinv.fixed.keep hcount hkeep
  · have hpending : pendingRequests s' = pendingRequests s := by
      simp only [pendingRequests, hcount, hcompleted]
    have hcells : (pendingRequests s).map (cell c s') = (pendingRequests s).map (cell c s) := by
      apply map_congr_left
      intro k _
      exact cell_keep (hkeep k)
    rw [hqueue, hpending, hcells]
    exact hinv.queue
  · intro m hm hc
    obtain ⟨r, d, a, heq⟩ := hkeep m
    rw [hcompleted m] at hc
    rw [hhdrs, heq]
    exact hinv.header m (hcount ▸ hm) hc
  · intro m hm hc
    obtain ⟨r, d, a, heq⟩ := hkeep m
    rw [hcompleted m] at hc
    rw [hhdrs, hqueue, heq]
    exact hinv.freed m (hcount ▸ hm) hc
  · intro m hm hret
    rcases eq_or_ne m n with rfl | hne
    · rw [hnew] at hret
      cases hret
    rw [hold m hne] at hret ⊢
    have hpne : (s.sent m).payload ≠ (s.sent n).payload := fun h => hne (hinv.fixed.payload_inj m (hcount ▸ hm) n hn h)
    rw [hs']
    show (update s.payloads (s.sent n).payload none (s.sent m).payload).isSome = true
    rw [update_of_ne hpne]
    exact hinv.payload m (hcount ▸ hm) hret
  · intro m hm hc
    rw [hcompleted m] at hc
    rcases eq_or_ne m n with rfl | hne
    · rw [hnew]
    · rw [hold m hne]
      exact hinv.returned m (hcount ▸ hm) hc
  · intro m hm
    rw [(hsame m).2]
    exact hinv.answered m (hcount ▸ hm)

/-! ### Completions -/

section

variable (hinv : Inv c s) (hn : n < s.count) (hc : (s.sent n).completed = false)
    (hnewer : ∀ m, n < m → m < s.count → (s.sent m).completed = false → ¬ ((s.sent m).id = (s.sent n).id ∧ (s.sent m).token = (s.sent n).token))
include hinv hn hc hnewer

theorem checkAndDequeue_eq :
    ∃ l1 l2 q, pendingRequests s = l1 ++ n :: l2
      ∧ checkAndDequeue s (s.count + 1) (s.sent n).id (s.sent n).token = some (true, { s with pendingResponseQueue := q })
      ∧ q.Holds ((l1 ++ l2).map (cell c s)) ∧ q.mem (s.sent n).currRequest = none
      ∧ ∀ p ∉ (pendingRequests s).map (fun k => (s.sent k).currRequest), q.mem p = s.pendingResponseQueue.mem p := by
  obtain ⟨l1, l2, hsplit⟩ := append_of_mem (mem_pendingRequests.mpr ⟨hn, hc⟩)
  obtain ⟨hl1, -⟩ := openEntries_split (fun _ _ => Iff.rfl) hsplit
  have hqueue := hinv.queue
  rw [hsplit, map_append, map_cons] at hqueue
  have htest : ∀ k ∈ pendingRequests s, matchesRequest s.hdrs (s.sent n).id (s.sent n).token (cell c s k).2
      = some (decide ((s.sent n).token = (s.sent k).token ∧ (s.sent n).id = (s.sent k).id)) := by
    intro k hk
    obtain ⟨hk, hck⟩ := mem_pendingRequests.mp hk
    have hcurr : s.hdrs (cell c s k).2.curr = some _ := hinv.header k hk hck
    exact matchesRequest_of_header hcurr
  have hself : matchesRequest s.hdrs (s.sent n).id (s.sent n).token (cell c s n).2 = some true := by
    rw [htest n (mem_pendingRequests.mpr ⟨hn, hc⟩)]
    simp
  have hfront : ∀ y ∈ l1.map (cell c s), matchesRequest s.hdrs (s.sent n).id (s.sent n).token y.2 = some false := by
    intro y hy
    obtain ⟨k, hk, rfl⟩ := mem_map.mp hy
    have hkp : k ∈ pendingRequests s := by
      rw [hsplit]
      exact mem_append_left _ hk
    obtain ⟨hkn, hck⟩ := mem_pendingRequests.mp hkp
    rw [htest k hkp, decide_eq_false]
    rintro ⟨htoken, hid⟩
    exact hnewer k (hl1 k hk) hkn hck ⟨hid.symm, htoken.symm⟩
  have hlen : (l1.map (cell c s) ++ cell c s n :: l2.map (cell c s)).length < s.count + 1 := by
    have hle : (pendingRequests s).length ≤ s.count := by
      rw [pendingRequests, openEntries, length_reverse]
      exact (length_filter_le _ _).trans_eq length_range
    rw [hsplit, length_append, length_cons] at hle
    rw [length_append, length_cons, length_map, length_map]
    omega
  obtain ⟨q, hunlink, hholds, hnone, hframe⟩ := hqueue.unlink
  refine ⟨l1, l2, q, hsplit, ?_, ?_, hnone, ?_⟩
  · have hfind := (hqueue.find_eq hlen).trans (firstLink_append hfront hself)
    simp only [checkAndDequeue, hfind, hunlink, bind_eq_bind, bind_some]
  · rw [map_append]
    exact hholds
  intro p hp
  apply hframe
  rw [← map_cons, ← map_append, ← hsplit, List.map_map]
  exact hp

theorem onRequestComplete_eq (e : ℤ) :
    ∃ l1 l2 q, pendingRequests s = l1 ++ n :: l2
      ∧ onRequestComplete s (s.sent n).currRequest e
        = some ({ s with pendingResponseQueue := q, hdrs := update s.hdrs (s.sent n).msg none },
          [⟨(s.sent n).token, .RESPONSE, (s.sent n).id, e⟩])
      ∧ q.Holds ((l1 ++ l2).map (cell c s)) ∧ q.mem (s.sent n).currRequest = none
      ∧ ∀ p ∉ (pendingRequests s).map (fun k => (s.sent k).currRequest), q.mem p = s.pendingResponseQueue.mem p := by
  obtain ⟨l1, l2, q, hsplit, hcheck, hholds, hnone, hframe⟩ := hinv.checkAndDequeue_eq hn hc hnewer
  refine ⟨l1, l2, q, hsplit, ?_, hholds, hnone, hframe⟩
  have hmem : cell c s n ∈ (pendingRequests s).map (cell c s) := mem_map_of_mem (mem_pendingRequests.mpr ⟨hn, hc⟩)
  obtain ⟨link, hrec⟩ := hinv.queue.val _ hmem
  have hrec' : s.pendingResponseQueue.mem (s.sent n).currRequest = some ⟨(s.sent n).record c, link⟩ := hrec
  have hcurr : ((s.sent n).record c).curr ≠ 0 := (hinv.fixed.nonzero n hn).1
  have hhdr : s.hdrs ((s.sent n).record c).curr = some _ := hinv.header n hn hc
  rw [onRequestComplete, hrec']
  simp only [bind_eq_bind, bind_some, if_neg hcurr, hhdr, hcheck]
  rfl

end

theorem complete (hinv : Inv c s) {e : ℤ} (ha : Allowed s (.onRequestComplete n e)) (ho : Orderly c s (.onRequestComplete n e))
    (hs : step c s (.onRequestComplete n e) = some s') : Inv c s' := by
  obtain ⟨hn, -, hc⟩ := ha
  obtain ⟨hret, hnewer⟩ := ho
  obtain ⟨l1, l2, q, hsplit, hcall, hholds, hnone, hframe⟩ := hinv.onRequestComplete_eq hn hc hnewer e
  rw [step, hcall] at hs
  have hs' := (some.inj hs).symm
  clear hs
  have hnew : s'.sent n = { s.sent n with
      completed := true, answers := (s.sent n).answers ++ [⟨(s.sent n).token, .RESPONSE, (s.sent n).id, e⟩] } := by
    rw [hs']
    exact note_self _ _ _
  have hold : ∀ m, m ≠ n → s'.sent m = s.sent m := by
    intro m hm
    rw [hs']
    exact note_of_ne _ hm
  have hkeep : ∀ m, ∃ r d a, s'.sent m = { s.sent m with returned := r, completed := d, answers := a } := by
    intro m
    rcases eq_or_ne m n with rfl | hne
    · exact ⟨_, true, _, hnew⟩
    · exact ⟨_, _, _, hold m hne⟩
  have hcount : s'.count = s.count := by rw [hs']; rfl
  have hqueue : s'.pendingResponseQueue = q := by rw [hs']; rfl
  have hhdrs : s'.hdrs = update s.hdrs (s.sent n).msg none := by rw [hs']; rfl
  have hclose : ∀ m < s.count, (s'.sent m).completed = false ↔ (s.sent m).completed = false ∧ m ≠ n := by
    intro m _
    rcases eq_or_ne m n with rfl | hne
    · rw [hnew]
      simp
    · rw [hold m hne]
      simp [hne]
  have hpending : pendingRequests s' = l1 ++ l2 := by
    rw [pendingRequests, hcount]
    exact (openEntries_split hclose hsplit).2
  have hmem : ∀ m < s.count, m ≠ n → (s.sent m).completed = true → q.mem (s.sent m).currRequest = none := by
    intro m hm hne hcm
    rw [hframe, (hinv.freed m hm hcm).2]
    intro hin
    obtain ⟨k, hk, heq⟩ := mem_map.mp hin
    obtain ⟨hk, hck⟩ := mem_pendingRequests.mp hk
    obtain rfl := hinv.fixed.record_inj k hk m hm heq
    exact absurd (hck.symm.trans hcm) nofun
  refine ⟨?_, ?_, ?_, ?_, ?_, ?_, ?_⟩
  · exact hinv.fixed.keep hcount hkeep
  · have hcells : (l1 ++ l2).map (cell c s') = (l1 ++ l2).map (cell c s) := by
      apply map_congr_left
      intro k _
      exact cell_keep (hkeep k)
    rw [hqueue, hpending, hcells]
    exact hholds
  · intro m hm hcm
    obtain ⟨hcm, hne⟩ := (hclose m (hcount ▸ hm)).mp hcm
    have hmne : (s.sent m).msg ≠ (s.sent n).msg := fun h => hne (hinv.fixed.msg_inj m (hcount ▸ hm) n hn h)
    rw [hold m hne, hhdrs, update_of_ne hmne]
    exact hinv.header m (hcount ▸ hm) hcm
  · intro m hm hcm
    rw [hcount] at hm
    rcases eq_or_ne m n with rfl | hne
    · rw [hnew, hhdrs, hqueue]
      exact ⟨update_self _ _ _, hnone⟩
    have hmne : (s.sent m).msg ≠ (s.sent n).msg := fun h => hne (hinv.fixed.msg_inj m hm n hn h)
    rw [hold m hne] at hcm ⊢
    rw [hhdrs, hqueue, update_of_ne hmne]
    exact ⟨(hinv.freed m hm hcm).1, hmem m hm hne hcm⟩
  · intro m hm hr
    rcases eq_or_ne m n with rfl | hne
    · rw [hnew] at hr
      exact absurd (hret.symm.trans hr) nofun
    · rw [hold m hne] at hr ⊢
      rw [hs']
      exact hinv.payload m (hcount ▸ hm) hr
  · intro m hm hcm
    rcases eq_or_ne m n with rfl | hne
    · rw [hnew]
      exact hret
    · rw [hold m hne] at hcm ⊢
      exact hinv.returned m (hcount ▸ hm) hcm
  intro m hm
  rcases eq_or_ne m n with rfl | hne
  · rw [hnew, (hinv.answered m hn).1 hc]
    exact ⟨nofun, fun _ => ⟨e, rfl⟩⟩
  · rw [hold m hne]
    exact hinv.answered m (hcount ▸ hm)

theorem step (hinv : Inv c s) {a : Act} (ha : Allowed s a) (ho : Orderly c s a) (hs : step c s a = some s') : Inv c s' := by
  cases a with
  | dispatch => exact hinv.dispatch ha ho hs
  | dispatchReturns => exact hinv.dispatchReturns ha hs
  | onRequestComplete => exact hinv.complete ha ho hs

theorem step_defined (hinv : Inv c s) {a : Act} (ha : Allowed s a) (ho : Orderly c s a) : ∃ s', Sap.step c s a = some s' := by
  cases a with
  | dispatch msg payload currRequest msgId token reqPtr => exact ⟨_, dispatch_eq c s msg payload currRequest msgId token reqPtr⟩
  | dispatchReturns =>
    obtain ⟨hn, hr⟩ := ha
    exact ⟨_, by rw [Sap.step, hinv.freePayload_eq hn hr]; rfl⟩
  | onRequestComplete _ e =>
    obtain ⟨hn, -, hc⟩ := ha
    obtain ⟨_, _, q, -, hcall, -⟩ := hinv.onRequestComplete_eq hn hc ho.2 e
    exact ⟨_, by rw [Sap.step, hcall]; rfl⟩

theorem queueOk (hinv : Inv c s) : QueueOk c s where
  queue := hinv.queue
  empty := by
    rw [empty, decide_eq_true_iff, hinv.queue.head_eq_zero, map_eq_nil_iff, eq_nil_iff_forall_not_mem]
    constructor
    · intro h n hn
      by_contra hc
      exact h n (mem_pendingRequests.mpr ⟨hn, Bool.not_eq_true _ ▸ hc⟩)
    · intro h n hn
      obtain ⟨hn, hc⟩ := mem_pendingRequests.mp hn
      exact absurd (hc.symm.trans (h n hn)) nofun
  answered := hinv.answered
  handed := hinv.fixed.handed
  header := by
    intro n hn
    cases hc : (s.sent n).completed with
    | false =>
      rw [hinv.header n hn hc]
      exact ⟨fun _ => rfl, fun _ => rfl⟩
    | true =>
      rw [(hinv.freed n hn hc).1]
      exact ⟨nofun, nofun⟩
  record := by
    intro n hn
    cases hc : (s.sent n).completed with
    | false =>
      have hmem : cell c s n ∈ (pendingRequests s).map (cell c s) :=
        mem_map_of_mem (mem_pendingRequests.mpr ⟨hn, hc⟩)
      obtain ⟨_, hrec⟩ := hinv.queue.val _ hmem
      have hrec' : s.pendingResponseQueue.mem (s.sent n).currRequest = some _ := hrec
      rw [hrec']
      exact ⟨fun _ => rfl, fun _ => rfl⟩
    | true =>
      rw [(hinv.freed n hn hc).2]
      exact ⟨nofun, nofun⟩

end Inv

/-! ### Runs -/

theorem Run.inv (h : Run c (Orderly c) s) : Inv c s := by
  induction h with
  | init => exact inv_init c
  | step _ ha ho hs ih => exact ih.step ha ho hs

/-- What a completion removes. -/
def RemovesOwn (c : Config) (s s' : State) (n : ℕ) : Prop :=
  ∃ l1 l2, pendingRequests s = l1 ++ n :: l2 ∧ pendingRequests s' = l1 ++ l2
    ∧ s'.pendingResponseQueue.Holds ((l1 ++ l2).map (cell c s)) ∧ s'.pendingResponseQueue.mem (s.sent n).currRequest = none

/-- In orderly runs the queue holds the requests that are not completed, every completion takes out its own request and
answers it, and no step uses what was freed. -/
theorem sap_queue (h : Run c (Orderly c) s) :
    QueueOk c s ∧ (∀ a, Allowed s a → Orderly c s a → ∃ s', step c s a = some s')
      ∧ ∀ n e s', Allowed s (.onRequestComplete n e) → Orderly c s (.onRequestComplete n e)
        → step c s (.onRequestComplete n e) = some s' → RemovesOwn c s s' n := by
  have hinv := h.inv
  refine ⟨hinv.queueOk, fun a => hinv.step_defined, ?_⟩
  intro n e _ ha ho hs
  obtain ⟨l1, l2, q, hsplit, hcall, hholds, hnone, -⟩ := hinv.onRequestComplete_eq ha.1 ha.2.2 ho.2 e
  rw [step, hcall] at hs
  cases hs
  refine ⟨l1, l2, hsplit, ?_, hholds, hnone⟩
  apply (openEntries_split _ hsplit).2
  intro m _
  show (update s.sent n _ m).completed = false ↔ _
  rcases eq_or_ne m n with rfl | hne
  · simp
  · simp [hne]

/-- A `pb_size_t` of 16 bits, and a vendor. -/
def Config.single : Config := ⟨16, true, 0⟩

/-- Two requests with different tokens are completed in the order in which they came. -/
theorem sap_queue_two : ∃ s s', Run Config.single (Orderly Config.single) s ∧ QueueOk Config.single s
    ∧ pendingRequests s = [1, 0] ∧ step Config.single s (.onRequestComplete 0 0) = some s' ∧ RemovesOwn Config.single s s' 0 := by
  have h1 : Run Config.single (Orderly Config.single) _ :=
    .step (a := .dispatch 1 1 1 5 7 [8, 2]) .init ⟨by decide, by decide, fun m hm => absurd hm (Nat.not_lt_zero m)⟩
      ⟨by decide, by decide⟩ rfl
  have h2 : Run Config.single (Orderly Config.single) _ :=
    .step (a := .dispatchReturns 0) h1 ⟨by decide, rfl⟩ trivial rfl
  have h3 : Run Config.single (Orderly Config.single) _ :=
    .step (a := .dispatch 2 2 2 5 8 [8]) h2 ⟨by decide, by decide, by decide⟩ ⟨by decide, by decide⟩ rfl
  refine ⟨_, _, h3, (sap_queue h3).1, rfl, rfl, (sap_queue h3).2.2 0 0 _ ⟨by decide, rfl, rfl⟩ ⟨rfl, ?_⟩ rfl⟩
  rintro m _ hlt - ⟨-, htoken⟩
  have htwo : m < 2 := hlt
  obtain rfl : m = 1 := by omega
  exact nomatch htoken

/-- The vendor completes from inside its call: the service then reads the freed header.  The older of two requests with
one id and token is completed: the newer one's record is taken out and freed.  A request of 65536 bytes is handed on as
an empty one. -/
theorem sap_queue_fails : (∃ s, Run Config.single (fun _ _ => True) s ∧ Allowed s (.dispatchReturns 0)
      ∧ step Config.single s (.dispatchReturns 0) = none)
    ∧ (∃ s, Run Config.single (fun _ _ => True) s ∧ (s.sent 1).completed = false
      ∧ s.pendingResponseQueue.head = (s.sent 0).currRequest ∧ s.pendingResponseQueue.mem (s.sent 1).currRequest = none)
    ∧ ∃ s, Run Config.single (fun _ _ => True) s ∧ (s.sent 0).encoded.length = 65536 ∧ (s.sent 0).handed = some ([], 0) := by
  have h1 : Run Config.single (fun _ _ => True) _ :=
    .step (a := .dispatch 1 1 1 5 7 [8, 2]) .init ⟨by decide, by decide, fun m hm => absurd hm (Nat.not_lt_zero m)⟩
      trivial rfl
  refine ⟨?_, ?_, ?_⟩
  · have h2 : Run Config.single (fun _ _ => True) _ :=
      .step (a := .onRequestComplete 0 0) h1 ⟨by decide, rfl, rfl⟩ trivial rfl
    exact ⟨_, h2, ⟨by decide, rfl⟩, rfl⟩
  · have h2 : Run Config.single (fun _ _ => True) _ := .step (a := .dispatchReturns 0) h1 ⟨by decide, rfl⟩ trivial rfl
    have h3 : Run Config.single (fun _ _ => True) _ :=
      .step (a := .dispatch 2 2 2 5 7 [8]) h2 ⟨by decide, by decide, by decide⟩ trivial rfl
    have h4 : Run Config.single (fun _ _ => True) _ := .step (a := .dispatchReturns 1) h3 ⟨by decide, rfl⟩ trivial rfl
    have h5 : Run Config.single (fun _ _ => True) _ :=
      .step (a := .onRequestComplete 0 0) h4 ⟨by decide, rfl, rfl⟩ trivial rfl
    exact ⟨_, h5, rfl, rfl, rfl⟩
  have hlong : Run Config.single (fun _ _ => True) _ := .step (a := .dispatch 1 1 1 5 7 (replicate 65536 0)) .init
      ⟨by decide, by decide, fun m hm => absurd hm (Nat.not_lt_zero m)⟩ trivial (dispatch_eq _ _ _ _ _ _ _ _)
  refine ⟨_, hlong, length_replicate, ?_⟩
  show handedOn Config.single (replicate 65536 0) = some ([], 0)
  have hv : Config.single.uimFuncs = true := rfl
  rw [handedOn, if_pos hv, length_replicate, Nat.mod_self, take_zero, Nat.zero_mod]

end Sap

end G4Common.Ril
