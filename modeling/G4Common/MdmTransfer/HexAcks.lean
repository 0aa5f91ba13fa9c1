/-
When `parse_hex_file()` returns `FALSE` for the acknowledgements alone
(`mdm-helper/mdmfiletransfer/dload_protocol.c`).

A packet is sent until it is acknowledged or was sent `max_write_retry` times.  The test behind the loop looks
only at the number of tries, so an acknowledgement of the last one is not seen.  `fate` tells from the tries
what becomes of the packets: all are acknowledged in time, or one is with its tenth try only, or one is lost.
`hexLoop_outcome` follows this through the lines.

What is proved needs the lines only up to the first one with more than 252 bytes, which the function does not
survive (see `hex_transfer_exact`).
-/
import G4Common.MdmTransfer.HexTransfer

namespace G4Common.MdmTransfer

open List Option

/-! ### Statement -/

/-- The function ended with a packet of which no transmission was acknowledged, though it was sent as often as
it may be. -/
def Lost (sent : List (List Byte × Bool)) : Prop :=
  ∃ before p, sent = before ++ replicate hexMaxWriteRetry (p, false)

/-- **What the acknowledgements should decide**: the function returns, and it returns `FALSE` exactly if a packet was
lost. -/
def AcksDecide (f : HexFile) (address : BitVec 32) (x : HexTarget) : Prop :=
  ∃ st b, parseHexFile (some f.text) false address x = some (st, .returned b) ∧ (b = false ↔ Lost st.sent)

/-- What becomes of the packets. -/
inductive Fate
  | acked
  | tenth
  | lost
deriving DecidableEq

/-- What becomes of `n` packets, up to the first that is not acknowledged in time. -/
def fate : ℕ → List WriteTry → Fate
  | 0, _ => .acked
  | n + 1, ts =>
    if ts.findIdx WriteTry.ack + 1 < hexMaxWriteRetry then fate n (ts.drop (ts.findIdx WriteTry.ack + 1))
    else if ts.findIdx WriteTry.ack + 1 = hexMaxWriteRetry then .tenth else .lost

/-- The number of packets that are sent for some lines if all are acknowledged, with `used` bytes in the packet at
the beginning.  A line with more than 252 bytes is not read. -/
def packetsFor : ℕ → List HexLine → ℕ
  | _, [] => 0
  | used, l :: ls =>
    if 252 < l.data.length then 0
    else if l.recordType = 1 then 1
    else if l.recordType = 0 then
      if dloadWriteSizeThreshold < used + l.data.length then packetsFor l.data.length ls + 1
      else packetsFor (used + l.data.length) ls
    else packetsFor used ls

/-- There is a line that cannot be read. -/
def tooLong (ls : List HexLine) : Bool := ls.any fun l => 252 < l.data.length

/-- How the function ends, by the fate of the packets and whether there is a line that cannot be read. -/
def Outcome : Fate → Bool → Option (HexState × HexExit) → Prop
  | .acked, false, r => ∃ st, r = some (st, .returned true) ∧ ¬ Lost st.sent
  | .acked, true, r => r = none
  | .tenth, _, r => ∃ st, r = some (st, .returned false) ∧ ¬ Lost st.sent
  | .lost, _, r => ∃ st, r = some (st, .returned false) ∧ Lost st.sent

/-! ### The tries for one packet -/

theorem writePacket_of_ack {p : List Byte} {k j : ℕ} {ts : List WriteTry} {sent : List (List Byte × Bool)}
    (htx : ∀ t ∈ ts, t.tx) (hj : ts.findIdx WriteTry.ack = j) (hlt : j < ts.length)
    (hle : k + j + 1 ≤ hexMaxWriteRetry) :
    writePacket p k ts sent = ((ts.drop (j + 1), sent ++ replicate j (p, false) ++ [(p, true)]),
      if k + j + 1 = hexMaxWriteRetry then .returned false else .next) := by
  induction ts generalizing k j sent with
  | nil => cases hlt
  | cons t ts ih =>
    have htrue : ¬ t.tx = false := by
      rw [htx t mem_cons_self]
      decide
    rw [writePacket, if_neg htrue]
    by_cases hack : t.ack = true
    · -- The packet is acknowledged.
      rw [findIdx_cons, hack] at hj
      obtain rfl : j = 0 := hj.symm
      rw [if_neg (by rw [hack]; simp), hack, replicate_zero, append_nil]
      rfl
    -- One more try.
    have hfalse : t.ack = false := Bool.eq_false_iff.2 hack
    rw [findIdx_cons, hfalse] at hj
    simp only [cond_false] at hj
    obtain rfl := hj
    rw [if_pos ⟨hfalse, by omega⟩, ih (fun u hu => htx u (mem_cons_of_mem _ hu)) rfl
      (by rw [length_cons] at hlt; omega) (by omega), replicate_succ, drop_succ_cons,
      show k + 1 + ts.findIdx WriteTry.ack + 1 = k + (ts.findIdx WriteTry.ack + 1) + 1 by omega]
    simp only [append_assoc, cons_append, nil_append]

theorem writePacket_of_lost {p : List Byte} {k : ℕ} {ts : List WriteTry} {sent : List (List Byte × Bool)}
    (htx : ∀ t ∈ ts, t.tx) (hk : k < hexMaxWriteRetry) (hlen : hexMaxWriteRetry - k ≤ ts.length)
    (hidx : hexMaxWriteRetry - k ≤ ts.findIdx WriteTry.ack) :
    writePacket p k ts sent = ((ts.drop (hexMaxWriteRetry - k),
      sent ++ replicate (hexMaxWriteRetry - k) (p, false)), .returned false) := by
  induction ts generalizing k sent with
  | nil =>
    rw [length_nil] at hlen
    omega
  | cons t ts ih =>
    have htrue : ¬ t.tx = false := by
      rw [htx t mem_cons_self]
      decide
    have hfalse : t.ack = false := by
      rw [Bool.eq_false_iff]
      intro hack
      rw [findIdx_cons, hack] at hidx
      simp only [cond_true] at hidx
      omega
    rw [findIdx_cons, hfalse] at hidx
    simp only [cond_false] at hidx
    rw [length_cons] at hlen
    rw [writePacket, if_neg htrue]
    by_cases hlast : k + 1 < hexMaxWriteRetry
    · rw [if_pos ⟨hfalse, hlast⟩, ih (fun u hu => htx u (mem_cons_of_mem _ hu)) hlast (by omega) (by omega),
        show hexMaxWriteRetry - k = hexMaxWriteRetry - (k + 1) + 1 by omega, append_assoc, replicate_succ]
      rfl
    · have hten : k + 1 = hexMaxWriteRetry := by omega
      rw [if_neg (fun h => hlast h.2), if_pos hten, hfalse, show hexMaxWriteRetry - k = 1 by omega]
      rfl

theorem not_lost_concat (sent : List (List Byte × Bool)) (p : List Byte) : ¬ Lost (sent ++ [(p, true)]) := by
  rintro ⟨_, q, h⟩
  have hsplit : replicate hexMaxWriteRetry (q, false) =
      replicate (hexMaxWriteRetry - 1) (q, false) ++ [(q, false)] := replicate_succ'
  rw [hsplit, ← append_assoc] at h
  have hlast := (append_inj' h rfl).2
  rw [cons.injEq, Prod.mk.injEq] at hlast
  exact absurd hlast.1.2 (by decide)

/-! ### One line -/

/-- The arrays have their sizes, and `used` bytes are in the packet. -/
structure Ready (st : HexState) (used : ℕ) : Prop where
  lineData_size : st.lineData.size = 255
  packet_size : st.packet.size = hexPacketSize
  index_eq : st.packetIndex = 7 + used
  used_le : used ≤ dloadWriteSizeThreshold

/-- All packets can be sent, and there are ten tries for each of `n` lines. -/
structure Tries (n : ℕ) (ts : List WriteTry) : Prop where
  tx : ∀ t ∈ ts, t.tx = true
  le_length : hexMaxWriteRetry * n ≤ ts.length

theorem Tries.drop {n k : ℕ} {ts : List WriteTry} (h : Tries (n + 1) ts) (hk : k ≤ hexMaxWriteRetry) :
    Tries n (ts.drop k) where
  tx := fun t ht => h.tx t (mem_of_mem_drop ht)
  le_length := by
    have hlen := h.le_length
    rw [Nat.mul_succ] at hlen
    rw [length_drop]
    omega

theorem Tries.mono {n : ℕ} {ts : List WriteTry} (h : Tries (n + 1) ts) : Tries n ts where
  tx := h.tx
  le_length := by
    have hlen := h.le_length
    rw [Nat.mul_succ] at hlen
    omega

variable {st : HexState} {used : ℕ}

theorem Ready.flushPacket_eq (h : Ready st used) : ∃ p a, a.size = hexPacketSize ∧ flushPacket st =
      some (if (writePacket p 0 st.tries st.sent).2 = .next then
        (⟨st.lineData, a, 7, st.transferAddress + BitVec.ofNat 32 (st.packetIndex - 7), st.hexTransferAddress,
          (writePacket p 0 st.tries st.sent).1.1, (writePacket p 0 st.tries st.sent).1.2⟩, .next)
        else (⟨st.lineData, a, st.packetIndex, st.transferAddress, st.hexTransferAddress,
          (writePacket p 0 st.tries st.sent).1.1, (writePacket p 0 st.tries st.sent).1.2⟩,
          (writePacket p 0 st.tries st.sent).2)) := by
  have hroom : 0 + (writeHeader st.transferAddress (st.packetIndex - 7)).length ≤ st.packet.size := by
    rw [h.packet_size]
    exact (by decide : 7 ≤ 1543)
  obtain ⟨a, hw, hsize, -⟩ := CArray.writeList_of_le hroom
  refine ⟨a.slice 0 st.packetIndex, a, hsize.trans h.packet_size, ?_⟩
  have hfit : ¬ a.size < st.packetIndex := by
    have := h.used_le
    rw [hsize, h.packet_size, h.index_eq, hexPacketSize]
    omega
  rw [flushPacket, hw, bind_some, if_neg hfit]

/-- **Sending a packet**, by what becomes of it. -/
theorem Ready.flush (h : Ready st used) {n : ℕ} (hts : Tries (n + 1) st.tries) :
    (st.tries.findIdx WriteTry.ack + 1 < hexMaxWriteRetry ∧
      ∃ st' before p, flushPacket st = some (st', .next) ∧ Ready st' 0 ∧ st'.lineData = st.lineData ∧
        st'.tries = st.tries.drop (st.tries.findIdx WriteTry.ack + 1) ∧ st'.sent = before ++ [(p, true)]) ∨
    (st.tries.findIdx WriteTry.ack + 1 = hexMaxWriteRetry ∧
      ∃ st', flushPacket st = some (st', .returned false) ∧ ¬ Lost st'.sent) ∨
    (hexMaxWriteRetry < st.tries.findIdx WriteTry.ack + 1 ∧
      ∃ st', flushPacket st = some (st', .returned false) ∧ Lost st'.sent) := by
  obtain ⟨p, a, hsize, hflush⟩ := h.flushPacket_eq
  have hlen := hts.le_length
  rw [Nat.mul_succ] at hlen
  rcases Nat.lt_trichotomy (st.tries.findIdx WriteTry.ack + 1) hexMaxWriteRetry with hlt | heq | hgt
  · have hw := @writePacket_of_ack p 0 _ _ st.sent hts.tx rfl (by omega) (by omega)
    rw [Nat.zero_add, if_neg (by omega)] at hw
    rw [hw, if_pos rfl] at hflush
    exact .inl ⟨hlt, _, _, p, hflush, ⟨h.lineData_size, hsize, rfl, Nat.zero_le _⟩, rfl, rfl, rfl⟩
  · have hw := @writePacket_of_ack p 0 _ _ st.sent hts.tx rfl (by omega) (by omega)
    rw [Nat.zero_add, if_pos heq] at hw
    rw [hw, if_neg (by simp)] at hflush
    exact .inr (.inl ⟨heq, _, hflush, not_lost_concat _ p⟩)
  · have hw := @writePacket_of_lost p 0 _ st.sent hts.tx (by decide) (by omega) (by omega)
    rw [hw, if_neg (by simp)] at hflush
    exact .inr (.inr ⟨hgt, _, hflush, st.sent, p, rfl⟩)

theorem Ready.append (h : Ready st used) {n : ℕ} (hn : n ≤ 255) (hroom : used + n ≤ dloadWriteSizeThreshold) :
    ∃ st', appendLine n st = some (st', .next) ∧ Ready st' (used + n) ∧ st'.tries = st.tries ∧ st'.sent = st.sent := by
  have hfit : st.packetIndex + (st.lineData.slice 0 n).length ≤ st.packet.size := by
    rw [CArray.length_slice, h.packet_size, h.index_eq, hexPacketSize]
    omega
  obtain ⟨a, hw, hsize, -⟩ := CArray.writeList_of_le hfit
  have hline : ¬ st.lineData.size < n := by
    rw [h.lineData_size]
    omega
  rw [appendLine, if_neg hline, hw]
  refine ⟨_, rfl, ⟨h.lineData_size, hsize.trans h.packet_size, ?_, hroom⟩, rfl, rfl⟩
  rw [h.index_eq, Nat.add_assoc]

theorem Ready.outcome_flush (h : Ready st used) (n : ℕ) (cont : HexState → Option (HexState × HexExit)) {m : ℕ}
    (hts : Tries (m + 1) st.tries) {long : Bool}
    (hcont : ∀ st' before p, Ready st' 0 → st'.lineData = st.lineData → Tries m st'.tries →
      st'.sent = before ++ [(p, true)] → Outcome (fate n st'.tries) long (cont st')) :
    Outcome (fate (n + 1) st.tries) long
      ((flushPacket st).bind fun res => if res.2 = .next then cont res.1 else some res) := by
  rcases h.flush hts with ⟨hlt, st', before, p, hflush, hready, hline, htries, hsent⟩ | ⟨heq, st', hflush, hlost⟩ |
    ⟨hgt, st', hflush, hlost⟩
  · rw [fate, if_pos hlt, hflush, bind_some, if_pos rfl, ← htries]
    refine hcont st' before p hready hline ?_ hsent
    rw [htries]
    exact hts.drop (Nat.le_of_lt hlt)
  · rw [fate, if_neg (by omega), if_pos heq, hflush]
    exact ⟨st', rfl, hlost⟩
  · rw [fate, if_neg (by omega), if_neg (by omega), hflush]
    exact ⟨st', rfl, hlost⟩

/-! ### The loop over the lines -/

theorem bind_next (r : Option (HexState × HexExit)) (f g : HexState → Option (HexState × HexExit)) :
    ((r.bind fun res => if res.2 = .next then f res.1 else some res).bind fun res =>
        if res.2 = .next then g res.1 else some res) =
      r.bind fun res => if res.2 = .next then
        (f res.1).bind fun res => if res.2 = .next then g res.1 else some res
        else some res := by
  rw [bind_assoc]
  refine congrArg (bind r) (funext fun res => ?_)
  by_cases hnext : res.2 = .next
  · rw [if_pos hnext, if_pos hnext]
  · rw [if_neg hnext, if_neg hnext, bind_some, if_neg hnext]

section Record

variable (n k : ℕ) (st : HexState)

theorem processLine_last : processLine false ⟨n, k, 1⟩ st = flushPacket st := by
  simp only [processLine, Bool.false_eq_true, if_false, or_true, if_true, ne_eq, not_true, and_false]
  exact bind_fun_some _

theorem processLine_full (hfull : hexPacketSize < st.packetIndex + n) : processLine false ⟨n, k, 0⟩ st =
      (flushPacket st).bind fun res => if res.2 = .next then appendLine n res.1 else some res := by
  have hne : (0 : ℕ) ≠ 1 := Nat.zero_ne_one
  simp only [processLine, Bool.false_eq_true, if_false, true_or, if_true, hfull, ne_eq, hne, not_false_eq_true, and_true]

theorem processLine_room (hroom : ¬ hexPacketSize < st.packetIndex + n) :
    processLine false ⟨n, k, 0⟩ st = appendLine n st := by
  have hne : (0 : ℕ) ≠ 1 := Nat.zero_ne_one
  simp only [processLine, Bool.false_eq_true, if_false, if_true, hroom, hne, or_false, ne_eq,
    not_false_eq_true, and_self, bind_some]

theorem processLine_other {t : ℕ} (h0 : t ≠ 0) (h1 : t ≠ 1) : processLine false ⟨n, k, t⟩ st = some (st, .next) := by
  simp only [processLine, Bool.false_eq_true, if_false, h0, h1, or_false]

end Record

theorem hexLoop_line (l : HexLine) (hfit : l.data.length ≤ 252) (h : Ready st used) (fuel : ℕ) (ls : List HexLine) :
    ∃ n a, a.size = 255 ∧ hexLoop false (fuel + 1) ((l :: ls).map HexLine.text).flatten st =
      (processLine false ⟨l.data.length, n, l.recordType.toNat⟩ { st with lineData := a }).bind fun res =>
        if res.2 = .next then
          if l.recordType = 1 then some (res.1, .returned true)
          else hexLoop false fuel (ls.map HexLine.text).flatten res.1
        else some res := by
  obtain ⟨n, a, hscan, hsize, -⟩ := scanLine_of_le l h.lineData_size (skipSpace_text ls) hfit
  have hone : l.recordType.toNat = 1 ↔ l.recordType = 1 := by
    rw [← BitVec.toNat_inj]
    rfl
  refine ⟨n, a, hsize, ?_⟩
  rw [map_cons, flatten_cons, hexLoop, hscan, bind_some]
  simp only [hone]

/-- **The loop ends as the fate of the packets says.** -/
theorem hexLoop_outcome {ls : List HexLine} {last : HexLine} {fuel : ℕ} (hls : ∀ l ∈ ls, l.recordType ≠ 1)
    (hlast : last.recordType = 1) (hfuel : ls.length < fuel) (h : Ready st used)
    (hts : Tries (ls.length + 1) st.tries) :
    Outcome (fate (packetsFor used (ls ++ [last])) st.tries) (tooLong (ls ++ [last]))
      (hexLoop false fuel ((ls ++ [last]).map HexLine.text).flatten st) := by
  induction ls generalizing st used fuel with
  | nil =>
    obtain ⟨fuel, rfl⟩ := Nat.exists_eq_succ_of_ne_zero (Nat.ne_of_gt hfuel)
    rw [nil_append]
    by_cases hlong : 252 < last.data.length
    · rw [packetsFor, if_pos hlong, map_singleton, flatten_singleton, hexLoop, ← append_nil last.text,
        scanLine_of_lt last h.lineData_size [] hlong, tooLong, any_cons, decide_eq_true hlong]
      rfl
    obtain ⟨n, a, hsize, hrun⟩ := hexLoop_line last (by omega) h fuel []
    have hready : Ready { st with lineData := a } used := ⟨hsize, h.packet_size, h.index_eq, h.used_le⟩
    have hone : last.recordType.toNat = 1 := by
      rw [hlast]
      rfl
    rw [packetsFor, if_neg hlong, if_pos hlast, tooLong, any_cons, decide_eq_false hlong, hrun, hone,
      processLine_last]
    simp only [if_pos hlast]
    refine hready.outcome_flush 0 (fun st' => some (st', .returned true)) hts ?_
    intro st' before p _ _ _ hsent
    exact ⟨st', rfl, by rw [hsent]; exact not_lost_concat before p⟩
  | cons l ls ih =>
    obtain ⟨fuel, rfl⟩ := Nat.exists_eq_succ_of_ne_zero (by omega : fuel ≠ 0)
    rw [length_cons] at hfuel hts
    rw [cons_append]
    by_cases hlong : 252 < l.data.length
    · rw [packetsFor, if_pos hlong, map_cons, flatten_cons, hexLoop,
        scanLine_of_lt l h.lineData_size _ hlong, tooLong, any_cons, decide_eq_true hlong]
      rfl
    have hne : ¬ l.recordType = 1 := hls l mem_cons_self
    have hrest : ∀ {st' : HexState} {m : ℕ}, Ready st' m → Tries (ls.length + 1) st'.tries →
        Outcome (fate (packetsFor m (ls ++ [last])) st'.tries) (tooLong (ls ++ [last]))
          (hexLoop false fuel ((ls ++ [last]).map HexLine.text).flatten st') := by
      intro st' m hready htries
      exact ih (fun m hm => hls m (mem_cons_of_mem _ hm)) (by omega) hready htries
    obtain ⟨n, a, hsize, hrun⟩ := hexLoop_line l (by omega) h fuel (ls ++ [last])
    have hready : Ready { st with lineData := a } used := ⟨hsize, h.packet_size, h.index_eq, h.used_le⟩
    rw [packetsFor, if_neg hlong, if_neg hne, tooLong, any_cons, decide_eq_false hlong, Bool.false_or, hrun]
    simp only [if_neg hne]
    by_cases hzero : l.recordType = 0
    · have hnat : l.recordType.toNat = 0 := by
        rw [hzero]
        rfl
      have hindex : hexPacketSize < ({ st with lineData := a } : HexState).packetIndex + l.data.length ↔
          dloadWriteSizeThreshold < used + l.data.length := by
        rw [hready.index_eq, hexPacketSize]
        omega
      rw [if_pos hzero, hnat]
      by_cases hfull : dloadWriteSizeThreshold < used + l.data.length
      · -- The packet is sent, and the line begins a new one.
        rw [if_pos hfull, processLine_full _ _ _ (hindex.2 hfull),
          bind_next _ _ fun st' => hexLoop false fuel ((ls ++ [last]).map HexLine.text).flatten st']
        refine hready.outcome_flush (packetsFor l.data.length (ls ++ [last])) (fun st' =>
          (appendLine l.data.length st').bind fun res => if res.2 = .next then
            hexLoop false fuel ((ls ++ [last]).map HexLine.text).flatten res.1 else some res) hts ?_
        intro _ _ _ hready' _ htries _
        obtain ⟨st2, happend, hready2, htries2, -⟩ := hready'.append (n := l.data.length) (by omega)
          (by rw [dloadWriteSizeThreshold]; omega)
        rw [happend, bind_some, if_pos rfl, ← htries2]
        rw [Nat.zero_add] at hready2
        exact hrest hready2 (by rw [htries2]; exact htries)
      rw [if_neg hfull, processLine_room _ _ _ (mt hindex.1 hfull)]
      obtain ⟨st2, happend, hready2, htries2, -⟩ := hready.append (n := l.data.length) (by omega) (by omega)
      rw [happend, bind_some, if_pos rfl]
      have hts2 : Tries (ls.length + 1) st2.tries := by
        rw [htries2]
        exact hts.mono
      have h2 := hrest hready2 hts2
      rwa [htries2] at h2
    -- A record of another type is skipped.
    have h0 : l.recordType.toNat ≠ 0 := fun h => hzero (BitVec.eq_of_toNat_eq h)
    have h1 : l.recordType.toNat ≠ 1 := fun h => hne (BitVec.eq_of_toNat_eq h)
    rw [if_neg hzero, processLine_other _ _ _ h0 h1, bind_some, if_pos rfl]
    exact hrest hready hts.mono

/-! ### The function -/

/-- The acknowledgements decide exactly if no packet is acknowledged with its tenth transmission only, and, where
there is a line that cannot be read, a packet in front of it is lost. -/
def InTime (f : HexFile) (tries : List WriteTry) : Prop :=
  fate (packetsFor 0 f.lines) tries = .lost ∨
    fate (packetsFor 0 f.lines) tries = .acked ∧ ∀ l ∈ f.lines, l.data.length ≤ 252

theorem Outcome.decide_iff {e : Fate} {long : Bool} {r : Option (HexState × HexExit)} (h : Outcome e long r) :
    (∃ st b, r = some (st, .returned b) ∧ (b = false ↔ Lost st.sent)) ↔ e = .lost ∨ e = .acked ∧ long = false := by
  cases e with
  | acked =>
    cases long with
    | false =>
      obtain ⟨st, hr, hlost⟩ := h
      exact iff_of_true ⟨st, true, hr, iff_of_false (by simp) hlost⟩ (.inr ⟨rfl, rfl⟩)
    | true =>
      refine iff_of_false ?_ (by simp)
      rintro ⟨st, b, hr, -⟩
      rw [show r = none from h] at hr
      cases hr
  | tenth =>
    obtain ⟨st, hr, hlost⟩ := h
    refine iff_of_false ?_ (by simp)
    rintro ⟨_, b, hr', hb⟩
    rw [hr, some.injEq, Prod.mk.injEq, HexExit.returned.injEq] at hr'
    obtain ⟨rfl, rfl⟩ := hr'
    exact hlost (hb.1 rfl)
  | lost =>
    obtain ⟨st, hr, hlost⟩ := h
    exact iff_of_true ⟨st, false, hr, iff_of_true rfl hlost⟩ (.inl rfl)

/-- **When the acknowledgements decide.**  The target has answered the request for its parameters, there is memory
for a packet, and every packet can be sent. -/
theorem hex_acks_decide (f : HexFile) (address : BitVec 32) (b3 b4 : Byte) (tries : List WriteTry)
    (hparam : b3.toNat <<< 8 ||| b4.toNat ≠ 0) (htries : Tries f.lines.length tries) :
    AcksDecide f address ⟨some (b3, b4), true, tries⟩ ↔ InTime f tries := by
  have hts : Tries (f.body.length + 1) tries := by
    rw [HexFile.lines, length_append] at htries
    exact htries
  have hready : Ready ⟨CArray.zeros 0xff, CArray.zeros hexPacketSize, 7, address, address, tries, []⟩ 0 :=
    ⟨rfl, rfl, rfl, Nat.zero_le _⟩
  have hout := hexLoop_outcome f.body_ne f.last_eq f.body_length_lt hready hts
  have hrun : parseHexFile (some f.text) false address ⟨some (b3, b4), true, tries⟩ =
      hexLoop false (f.text.length + 1) f.text
        ⟨CArray.zeros 0xff, CArray.zeros hexPacketSize, 7, address, address, tries, []⟩ := by
    rw [parseHexFile]
    simp only [Bool.false_eq_true, if_false, if_neg hparam, Bool.true_eq_false]
  have hlong : tooLong f.lines = false ↔ ∀ l ∈ f.lines, l.data.length ≤ 252 := by
    simp [tooLong]
  rw [AcksDecide, hrun, InTime, ← hlong]
  exact hout.decide_iff

theorem length_one : ([1] : List Byte).length ≤ 255 := by
  decide

theorem length_none : ([] : List Byte).length ≤ 255 :=
  Nat.zero_le _

/-- A file with a data record of one byte. -/
def oneByteFile : HexFile where
  body := [HexLine.ofRecord 0 [1] length_one]
  last := HexLine.ofRecord 1 [] length_none
  body_ne := by
    intro l hl
    rw [mem_singleton.1 hl]
    decide
  last_eq := rfl

/-- The first `n` transmissions are not acknowledged, and all others are. -/
def lateTries (n : ℕ) : List WriteTry := replicate n ⟨true, false⟩ ++ replicate (20 - n) ⟨true, true⟩

theorem tries_lateTries (n : ℕ) (hn : n ≤ 20) : Tries oneByteFile.lines.length (lateTries n) where
  tx := by
    intro t ht
    rcases mem_append.1 ht with ht | ht
    · rw [eq_of_mem_replicate ht]
    · rw [eq_of_mem_replicate ht]
  le_length := by
    rw [lateTries, length_append, length_replicate, length_replicate]
    show 20 ≤ n + (20 - n)
    omega

/-- The packet is acknowledged with its ninth transmission. -/
theorem hex_acks_decide_ninth :
    AcksDecide oneByteFile 0 ⟨some (6, 0), true, lateTries 8⟩ ↔ InTime oneByteFile (lateTries 8) :=
  hex_acks_decide oneByteFile 0 6 0 (lateTries 8) (by decide) (tries_lateTries 8 (by decide))

/-- The packet is acknowledged with its tenth transmission. -/
theorem hex_acks_decide_fails : ¬ ∀ (f : HexFile) (address : BitVec 32) (b3 b4 : Byte) (tries : List WriteTry),
      b3.toNat <<< 8 ||| b4.toNat ≠ 0 → Tries f.lines.length tries →
        AcksDecide f address ⟨some (b3, b4), true, tries⟩ := by
  intro h
  have hdecide := h oneByteFile 0 6 0 (lateTries 9) (by decide) (tries_lateTries 9 (by decide))
  have hready : Ready ⟨CArray.zeros 0xff, CArray.zeros hexPacketSize, 7, 0, 0, lateTries 9, []⟩ 0 :=
    ⟨rfl, rfl, rfl, Nat.zero_le _⟩
  have hout := hexLoop_outcome oneByteFile.body_ne oneByteFile.last_eq oneByteFile.body_length_lt hready
    (tries_lateTries 9 (by decide))
  have hfate : fate (packetsFor 0 oneByteFile.lines) (lateTries 9) = .tenth := by decide
  rcases hout.decide_iff.1 hdecide with hlost | ⟨hacked, -⟩
  · exact nomatch hfate.symm.trans hlost
  · exact nomatch hfate.symm.trans hacked

end G4Common.MdmTransfer
