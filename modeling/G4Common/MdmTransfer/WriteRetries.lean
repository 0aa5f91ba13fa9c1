/-
How often `send_file_stream_write()` sends a packet (`mdm-helper/mdmfiletransfer/streaming_protocol.c`).

`write_attempts` counts the packets without a response, up to `MAX_WRITE_RETRY`.  It is cleared by every
response, also by one with another address, after which the packet is sent again: a target that keeps
answering with a wrong address keeps the function busy for ever (`write_retries_fails`).

`RetryOk` is what goes well at a step: the tenth packet for an address ends the waiting for it.  As long as
all steps are like this, the count of packets for the current address stays below ten, and together with
the blocks that are done it bounds the rounds (`Retrying`).
-/
import G4Common.Lib.StepRuns
import G4Common.MdmTransfer.StreamWrite

namespace G4Common.MdmTransfer

open List Option

/-! ### What is counted -/

/-- The packet is for this address. -/
def forAddress (b : BitVec 32) (w : Written) : Bool :=
  (w.packet.drop 1).take 4 = [byteAt b 0, byteAt b 1, byteAt b 2, byteAt b 3]

/-- The number of packets for an address. -/
def sentTo (b : BitVec 32) (ws : List Written) : ℕ := ws.countP (forAddress b)

/-- The address of the next packet. -/
def nextAddress (address : BitVec 32) (st : WriteState) : BitVec 32 := address + st.totalFileBytesRead

/-- What the target answers in a round. -/
def received (st : WriteState) (x : WriteRound) : Option (CArray Byte × Option StreamResponse) :=
  streamingRxData (x.answers.length + 1) st.rxBuffer x.answers

/-- A response with another address. -/
def Mismatch (address : BitVec 32) (st : WriteState) (x : WriteRound) : Prop :=
  ∃ rx resp, received st x = some (rx, some resp) ∧ checkResponse rx resp (nextAddress address st) = some none

def NoResponse (st : WriteState) (x : WriteRound) : Prop := ∃ rx, received st x = some (rx, none)

/-- **The tenth packet for an address is the last one**: the response to it is no mismatch, and if there is none,
there was none to the nine before it. -/
def RetryOk (address : BitVec 32) (st : WriteState) (x : WriteRound) : Prop :=
  sentTo (nextAddress address st) st.written + 1 = maxWriteRetry →
    ¬ Mismatch address st x ∧
      (NoResponse st x → ∀ w ∈ st.written, forAddress (nextAddress address st) w = true → w.response = none)

/-- The state in which the loop goes on. -/
def nextRound (file : List Byte) (address : BitVec 32) (st : WriteState) (x : WriteRound) : Option WriteState :=
  (sendRound file address st x).bind fun res => if res.2 = none then some res.1 else none

/-- The first rounds of a sequence. -/
def firstRounds (xs : ℕ → WriteRound) (n : ℕ) : List WriteRound := (range n).map xs

/-- No address gets more than `MAX_WRITE_RETRY` packets, and the function does not run for ever. -/
def RetriesBounded (file : List Byte) (address : BitVec 32) (miscBuffer rxBuffer : CArray Byte)
    (xs : ℕ → WriteRound) : Prop :=
  (∀ n written r, sendFileStreamWrite (some file) address miscBuffer rxBuffer (firstRounds xs n) =
    some (written, r) → ∀ b, sentTo b written ≤ maxWriteRetry) ∧
  ∃ n, ∀ written, sendFileStreamWrite (some file) address miscBuffer rxBuffer (firstRounds xs n) ≠
    some (written, none)

variable {resp : Option (List Byte)}

theorem forAddress_streamWritePacket {b a : BitVec 32} {data : List Byte} :
    forAddress b ⟨streamWritePacket a data, resp⟩ ↔ a = b := by
  have hword : wordOf (byteAt b 3) (byteAt b 2) (byteAt b 1) (byteAt b 0) = b :=
    wordOf_eq_iff.2 ⟨rfl, rfl, rfl, rfl⟩
  rw [forAddress, decide_eq_true_eq]
  constructor
  · intro h
    simp only [streamWritePacket, drop_one, tail_cons, take_succ_cons, take_zero,
      cons.injEq, and_true] at h
    obtain ⟨h0, h1, h2, h3⟩ := h
    rw [← hword]
    exact (wordOf_eq_iff.2 ⟨h3, h2, h1, h0⟩).symm
  · rintro rfl
    rfl

theorem sentTo_concat (b a : BitVec 32) (ws : List Written) (data : List Byte) (resp : Option (List Byte)) :
    sentTo b (ws ++ [⟨streamWritePacket a data, resp⟩]) = sentTo b ws + if a = b then 1 else 0 := by
  rw [sentTo, countP_append, countP_singleton]
  simp only [forAddress_streamWritePacket]
  rfl

/-! ### One round -/

variable {file : List Byte} {address : BitVec 32} {st st' : WriteState} {x : WriteRound} {r : Option Bool}

/-- The data of the next packet. -/
def nextData (file : List Byte) (st : WriteState) : List Byte :=
  (file.drop st.totalFileBytesRead.toNat).take streamingMaxWriteLength

/-- The packet of a round, with the response to it. -/
def sentNow (file : List Byte) (address : BitVec 32) (st : WriteState) (resp : Option (List Byte)) : Written :=
  ⟨streamWritePacket (nextAddress address st) (nextData file st), resp⟩

/-- **What a round can do.** -/
theorem sendRound_cases (h : sendRound file address st x = some (st', r)) :
    (r = some false ∧ st'.written = st.written) ∨
    (NoResponse st x ∧ st'.written = st.written ++ [sentNow file address st none] ∧
      st'.totalFileBytesRead = st.totalFileBytesRead ∧ st'.writeAttempts = st.writeAttempts + 1 ∧
      (r = none ↔ st.writeAttempts + 1 < maxWriteRetry)) ∨
    (∃ resp, st'.written = st.written ++ [sentNow file address st (some resp)] ∧
      (r = some false ∨
        Mismatch address st x ∧ r = none ∧ st'.totalFileBytesRead = st.totalFileBytesRead ∨
        st'.totalFileBytesRead = st.totalFileBytesRead + BitVec.ofNat 32 (nextData file st).length ∧
          st'.writeAttempts = 0 ∧ (r = none → (nextData file st).length = streamingMaxWriteLength))) := by
  simp only [sendRound] at h
  split at h
  · simp only [some.injEq, Prod.mk.injEq] at h
    obtain ⟨rfl, rfl⟩ := h
    exact .inl ⟨rfl, rfl⟩
  obtain ⟨⟨_, sent⟩, -, h⟩ := bind_eq_some_iff.1 h
  cases sent with
  | false =>
    simp only [some.injEq, Prod.mk.injEq] at h
    obtain ⟨rfl, rfl⟩ := h
    exact .inl ⟨rfl, rfl⟩
  | true =>
    obtain ⟨⟨rx, resp⟩, hrx, h⟩ := bind_eq_some_iff.1 h
    cases resp with
    | none =>
      simp only [some.injEq, Prod.mk.injEq] at h
      obtain ⟨rfl, rfl⟩ := h
      refine .inr (.inl ⟨⟨rx, hrx⟩, rfl, rfl, rfl, ?_⟩)
      split_ifs with hlt
      · exact iff_of_true rfl hlt
      · exact iff_of_false (by simp) hlt
    | some resp =>
      obtain ⟨c, hc, h⟩ := map_eq_some_iff.1 h
      refine .inr (.inr ⟨rx.slice resp.start resp.length, ?_⟩)
      rcases c with - | (- | -)
      · simp only [Prod.mk.injEq] at h
        obtain ⟨rfl, rfl⟩ := h
        exact ⟨rfl, Or.inr (.inl ⟨⟨rx, resp, hrx, hc⟩, rfl, rfl⟩)⟩
      · simp only [Prod.mk.injEq] at h
        obtain ⟨rfl, rfl⟩ := h
        exact ⟨rfl, Or.inl rfl⟩
      simp only [Prod.mk.injEq] at h
      obtain ⟨rfl, rfl⟩ := h
      refine ⟨rfl, Or.inr (.inr ⟨rfl, rfl, fun hnone => ?_⟩)⟩
      split_ifs at hnone with hshort
      have hle : (nextData file st).length ≤ streamingMaxWriteLength := length_take_le _ _
      exact Nat.le_antisymm hle (Nat.le_of_not_lt hshort)

/-! ### The invariant -/

/-- **The invariant.**  The current address has less than ten packets, later ones have none, and each block that is done
has taken ten packets at most. -/
structure Retrying (file : List Byte) (address : BitVec 32) (st : WriteState) : Prop where
  total_le : st.totalFileBytesRead.toNat ≤ file.length
  bounded : ∀ b, sentTo b st.written ≤ maxWriteRetry
  later : ∀ k, st.totalFileBytesRead.toNat < k → k < 2 ^ 32 →
    sentTo (address + BitVec.ofNat 32 k) st.written = 0
  current : sentTo (nextAddress address st) st.written < maxWriteRetry
  attempts : (∀ w ∈ st.written, forAddress (nextAddress address st) w = true → w.response = none) →
    st.writeAttempts = sentTo (nextAddress address st) st.written
  rounds : st.written.length ≤
    maxWriteRetry * (st.totalFileBytesRead.toNat / streamingMaxWriteLength) +
      sentTo (nextAddress address st) st.written

theorem nextAddress_ne {k : ℕ} (hk : st.totalFileBytesRead.toNat < k) (hlt : k < 2 ^ 32) :
    nextAddress address st ≠ address + BitVec.ofNat 32 k := by
  intro h
  have hnat := congrArg BitVec.toNat (BitVec.add_right_inj address |>.1 h)
  rw [BitVec.toNat_ofNat, Nat.mod_eq_of_lt hlt] at hnat
  omega

section

variable (h : Retrying file address st)
    (hwritten : st'.written = st.written ++ [sentNow file address st resp])
include h hwritten

theorem Retrying.bounded_concat (b : BitVec 32) : sentTo b st'.written ≤ maxWriteRetry := by
  have hcur := h.current
  have hb := h.bounded b
  rw [hwritten, sentNow, sentTo_concat]
  split_ifs with heq
  · rw [← heq]
    omega
  · exact hb

theorem Retrying.again (htotal : st'.totalFileBytesRead = st.totalFileBytesRead)
    (hless : sentTo (nextAddress address st) st.written + 1 < maxWriteRetry)
    (hattempts : resp = none → st'.writeAttempts = st.writeAttempts + 1) : Retrying file address st' := by
  have haddr : nextAddress address st' = nextAddress address st := congrArg (address + ·) htotal
  have hcount : sentTo (nextAddress address st) st'.written = sentTo (nextAddress address st) st.written + 1 := by
    rw [hwritten, sentNow, sentTo_concat, if_pos rfl]
  refine ⟨?_, h.bounded_concat hwritten, ?_, ?_, ?_, ?_⟩
  · rw [htotal]
    exact h.total_le
  · intro k hk hlt
    rw [htotal] at hk
    rw [hwritten, sentNow, sentTo_concat, if_neg (nextAddress_ne hk hlt), Nat.add_zero]
    exact h.later k hk hlt
  · rw [haddr, hcount]
    exact hless
  · intro hnone
    rw [haddr] at hnone ⊢
    have hold : ∀ w ∈ st.written, forAddress (nextAddress address st) w = true → w.response = none := by
      intro w hw
      exact hnone w (by rw [hwritten]; exact mem_append_left _ hw)
    have hnew : resp = none := by
      refine hnone (sentNow file address st resp) ?_ (forAddress_streamWritePacket.2 rfl)
      rw [hwritten]
      exact mem_append_right _ (mem_singleton_self _)
    rw [hcount, hattempts hnew, h.attempts hold]
  · have hrounds := h.rounds
    rw [haddr, hcount, htotal, hwritten, length_append, length_singleton]
    omega

end

theorem Retrying.next (h : Retrying file address st) (hfile : file.length < 2 ^ 31)
    (hwritten : st'.written = st.written ++ [sentNow file address st resp])
    (htotal : st'.totalFileBytesRead = st.totalFileBytesRead + BitVec.ofNat 32 (nextData file st).length)
    (hfull : (nextData file st).length = streamingMaxWriteLength) (hattempts : st'.writeAttempts = 0) :
    Retrying file address st' := by
  have hle := h.total_le
  have hroom : st.totalFileBytesRead.toNat + streamingMaxWriteLength ≤ file.length := by
    rw [nextData, length_take, length_drop] at hfull
    rw [streamingMaxWriteLength] at hfull ⊢
    omega
  have hnat : st'.totalFileBytesRead.toNat = st.totalFileBytesRead.toNat + streamingMaxWriteLength := by
    rw [htotal, hfull, BitVec.toNat_add, BitVec.toNat_ofNat]
    rw [streamingMaxWriteLength] at hroom ⊢
    omega
  have hlater : ∀ k, st'.totalFileBytesRead.toNat ≤ k → k < 2 ^ 32 →
      sentTo (address + BitVec.ofNat 32 k) st'.written = 0 := by
    intro k hk hlt
    have hk' : st.totalFileBytesRead.toNat < k := by
      rw [hnat, streamingMaxWriteLength] at hk
      omega
    rw [hwritten, sentNow, sentTo_concat, if_neg (nextAddress_ne hk' hlt), Nat.add_zero]
    exact h.later k hk' hlt
  have hcurrent : sentTo (nextAddress address st') st'.written = 0 := by
    have hzero := hlater st'.totalFileBytesRead.toNat (Nat.le_refl _) st'.totalFileBytesRead.isLt
    rwa [BitVec.ofNat_toNat, BitVec.setWidth_eq] at hzero
  refine ⟨by omega, h.bounded_concat hwritten, fun k hk hlt => hlater k (Nat.le_of_lt hk) hlt, ?_, ?_, ?_⟩
  · rw [hcurrent]
    decide
  · intro _
    rw [hcurrent]
    exact hattempts
  have hrounds := h.rounds
  have hcur := h.current
  have hdiv : st'.totalFileBytesRead.toNat / streamingMaxWriteLength =
      st.totalFileBytesRead.toNat / streamingMaxWriteLength + 1 := by
    rw [hnat]
    exact Nat.add_div_right _ (by decide)
  rw [hcurrent, hdiv, Nat.mul_succ, hwritten, length_append, length_singleton]
  omega

/-- **One round** keeps the bound, and the invariant if the loop goes on. -/
theorem Retrying.step (h : Retrying file address st) (hfile : file.length < 2 ^ 31) (hok : RetryOk address st x) (hround : sendRound file address st x = some (st', r)) :
    (∀ b, sentTo b st'.written ≤ maxWriteRetry) ∧ (r = none → Retrying file address st') := by
  have hcur := h.current
  -- At the tenth packet there is no way to stay.
  have hless : Mismatch address st x ∨ NoResponse st x ∧ st.writeAttempts + 1 < maxWriteRetry →
      sentTo (nextAddress address st) st.written + 1 < maxWriteRetry := by
    intro hstay
    by_contra hge
    obtain ⟨hmis, hnone⟩ := hok (by omega)
    rcases hstay with hm | ⟨hn, hlt⟩
    · exact hmis hm
    · rw [h.attempts (hnone hn)] at hlt
      exact hge hlt
  rcases sendRound_cases hround with ⟨rfl, hwritten⟩ | ⟨hn, hwritten, htotal, hattempts, hgo⟩ |
    ⟨resp, hwritten, hresp⟩
  · rw [hwritten]
    exact ⟨h.bounded, nofun⟩
  · refine ⟨h.bounded_concat hwritten, fun hr => ?_⟩
    exact h.again hwritten htotal (hless (.inr ⟨hn, hgo.1 hr⟩)) fun _ => hattempts
  refine ⟨h.bounded_concat hwritten, fun hr => ?_⟩
  rcases hresp with rfl | ⟨hm, -, htotal⟩ | ⟨htotal, hattempts, hfull⟩
  · cases hr
  · exact h.again hwritten htotal (hless (.inl hm)) nofun
  · exact h.next hfile hwritten htotal (hfull hr) hattempts

/-! ### Runs -/

/-- **A run.**  While it goes on, each round sends one packet. -/
theorem Retrying.run (hfile : file.length < 2 ^ 31) {xs : List WriteRound} (h : Retrying file address st)
    (hok : AtSteps (nextRound file address) (RetryOk address) st xs)
    (hrun : sendRounds file address st xs = some (st', r)) :
    (∀ b, sentTo b st'.written ≤ maxWriteRetry) ∧
      (r = none → Retrying file address st' ∧ st'.written.length = st.written.length + xs.length) := by
  induction xs generalizing st with
  | nil =>
    simp only [sendRounds, some.injEq, Prod.mk.injEq] at hrun
    obtain ⟨rfl, rfl⟩ := hrun
    exact ⟨h.bounded, fun _ => ⟨h, rfl⟩⟩
  | cons x xs ih =>
    rw [sendRounds] at hrun
    obtain ⟨⟨st1, r1⟩, hround, hrun⟩ := bind_eq_some_iff.1 hrun
    obtain ⟨hbounded, hnext⟩ := h.step hfile hok.1 hround
    cases r1 with
    | some =>
      simp only [some.injEq, Prod.mk.injEq] at hrun
      obtain ⟨rfl, rfl⟩ := hrun
      exact ⟨hbounded, (by rintro ⟨⟩)⟩
    | none =>
      have hstep : nextRound file address st x = some st1 := by
        rw [nextRound, hround]
        rfl
      obtain ⟨hb, hgo⟩ := ih (hnext rfl) (hok.2 st1 hstep) hrun
      refine ⟨hb, fun hr => ?_⟩
      obtain ⟨hinv, hlen⟩ := hgo hr
      refine ⟨hinv, ?_⟩
      have hone : st1.written.length = st.written.length + 1 := by
        rcases sendRound_cases hround with ⟨hr1, -⟩ | ⟨-, hwritten, -⟩ | ⟨_, hwritten, -⟩
        · cases hr1
        · rw [hwritten, length_append, length_singleton]
        · rw [hwritten, length_append, length_singleton]
      rw [hlen, hone, length_cons]
      omega

theorem Retrying.start (file : List Byte) (address : BitVec 32) (miscBuffer rxBuffer : CArray Byte) :
    Retrying file address ⟨miscBuffer, rxBuffer, 0, 0, []⟩ where
  total_le := Nat.zero_le _
  bounded := fun _ => Nat.zero_le _
  later := fun _ _ _ => rfl
  current := by
    show 0 < maxWriteRetry
    decide
  attempts := fun _ => rfl
  rounds := Nat.zero_le _

theorem sendFileStreamWrite_eq (hfile : file.length < 2 ^ 31) (miscBuffer rxBuffer : CArray Byte)
    (xs : List WriteRound) :
    sendFileStreamWrite (some file) address miscBuffer rxBuffer xs =
      (sendRounds file address ⟨miscBuffer, rxBuffer, 0, 0, []⟩ xs).map fun res => (res.1.written, res.2) := by
  rw [sendFileStreamWrite, filter_some, if_pos (decide_eq_true hfile)]

/-- **The retries are bounded** in every run in which the tenth packet for an address is the last one. -/
theorem write_retries_bounded (file : List Byte) (address : BitVec 32) (miscBuffer rxBuffer : CArray Byte)
    (xs : ℕ → WriteRound)
    (hok : ∀ n, AtSteps (nextRound file address) (RetryOk address) ⟨miscBuffer, rxBuffer, 0, 0, []⟩
      (firstRounds xs n)) : RetriesBounded file address miscBuffer rxBuffer xs := by
  have hstart := Retrying.start file address miscBuffer rxBuffer
  by_cases hfile : file.length < 2 ^ 31
  swap
  · -- The file is not even opened.
    have hnone : ∀ xs, sendFileStreamWrite (some file) address miscBuffer rxBuffer xs = some ([], some false) := by
      intro _
      rw [sendFileStreamWrite, filter_some, if_neg (by simpa using hfile)]
    constructor
    · intro n written r h b
      rw [hnone, some.injEq, Prod.mk.injEq] at h
      rw [← h.1]
      exact Nat.zero_le _
    · refine ⟨0, fun written h => ?_⟩
      rw [hnone] at h
      cases h
  constructor
  · intro n written r h b
    rw [sendFileStreamWrite_eq hfile] at h
    obtain ⟨⟨st, _⟩, hrun, h⟩ := map_eq_some_iff.1 h
    simp only [Prod.mk.injEq] at h
    rw [← h.1]
    exact (hstart.run hfile (hok n) hrun).1 b
  -- All rounds send a packet, and there is room for ten packets a block.
  set n := maxWriteRetry * (file.length / streamingMaxWriteLength) + maxWriteRetry with hn
  refine ⟨n, fun written h => ?_⟩
  rw [sendFileStreamWrite_eq hfile] at h
  obtain ⟨⟨st, r⟩, hrun, h⟩ := map_eq_some_iff.1 h
  simp only [Prod.mk.injEq] at h
  obtain ⟨-, rfl⟩ := h
  obtain ⟨hinv, hlen⟩ := (hstart.run hfile (hok n) hrun).2 rfl
  have hrounds := hinv.rounds
  have hcur := hinv.current
  have hdiv : st.totalFileBytesRead.toNat / streamingMaxWriteLength ≤ file.length / streamingMaxWriteLength :=
    Nat.div_le_div_right hinv.total_le
  have hmul := Nat.mul_le_mul_left maxWriteRetry hdiv
  rw [hlen, length_nil, Nat.zero_add, firstRounds, length_map, length_range] at hrounds
  omega

/-- A round with a response, which is for the address `0x100` in one frame and for `0x001` in the other. -/
def answeredRound (wrong : Bool) : WriteRound :=
  ⟨false, true, [some (if wrong then [0x7e#8, 0x08#8, 0x01#8, 0x00#8, 0x00#8, 0x00#8, 0xb8#8, 0xf2#8, 0x7e#8]
    else [0x7e#8, 0x08#8, 0x00#8, 0x01#8, 0x00#8, 0x00#8, 0xb8#8, 0xf2#8, 0x7e#8])]⟩

theorem firstRounds_const (x : WriteRound) (n : ℕ) : firstRounds (fun _ => x) n = replicate n x := by
  rw [firstRounds, map_const', length_range]

/-- Nothing is received twice. -/
def lateRounds : ℕ → WriteRound
  | 0 | 1 => ⟨false, true, []⟩
  | _ => answeredRound false

theorem firstRounds_succ (xs : ℕ → WriteRound) (n : ℕ) :
    firstRounds xs (n + 1) = xs 0 :: firstRounds (fun k => xs (k + 1)) n := by
  rw [firstRounds, range_succ_eq_map, map_cons, List.map_map]
  rfl

/-- One byte, which is acknowledged when it is sent for the third time. -/
theorem write_retries_bounded_late : RetriesBounded [1#8] 0x100#32 (CArray.zeros 32) (CArray.zeros 16) lateRounds := by
  refine write_retries_bounded [1#8] 0x100#32 (CArray.zeros 32) (CArray.zeros 16) _ fun n => ?_
  rcases n with - | n
  · trivial
  rw [firstRounds_succ]
  refine ⟨nofun, fun st1 h1 => ?_⟩
  rcases n with - | n
  · trivial
  rw [firstRounds_succ]
  cases h1
  refine ⟨fun hten => absurd hten (by decide), fun st2 h2 => ?_⟩
  rcases n with - | n
  · trivial
  rw [firstRounds_succ]
  cases h2
  refine ⟨fun hten => absurd hten (by decide), fun st3 h3 => ?_⟩
  cases h3

/-- With a wrong address in each response, the eleventh packet is sent. -/
theorem write_retries_fails :
    ¬ ∀ (file : List Byte) (address : BitVec 32) (miscBuffer rxBuffer : CArray Byte) (xs : ℕ → WriteRound),
      RetriesBounded file address miscBuffer rxBuffer xs := by
  intro h
  have hbound := (h [1#8] 0x100#32 (CArray.zeros 32) (CArray.zeros 16) fun _ => answeredRound true).1 11
  rw [firstRounds_const] at hbound
  have hrun : (sendFileStreamWrite (some [1#8]) 0x100#32 (CArray.zeros 32) (CArray.zeros 16)
      (replicate 11 (answeredRound true))).map (fun res => sentTo 0x100#32 res.1) = some 11 := by
    decide
  obtain ⟨⟨written, r⟩, hw, hcount⟩ := map_eq_some_iff.1 hrun
  have hle := hbound written r hw 0x100#32
  rw [hcount] at hle
  exact nomatch hle

end G4Common.MdmTransfer
