/-
What `parse_hex_file()` transfers.

The data of the lines are in the acknowledged packets and in the packet that is being filled, in this order
(`Filling`).  Each line is appended to the second, or moves it to the first and begins a new one.  The line that
ends the file moves the rest.

This holds for lines of at most 252 bytes.  A longer line makes `fscanf()` write behind the end of `line_data`,
so nothing can be said about what the function does then.  `hex_transfer_exact` has both directions.
-/
import G4Common.MdmTransfer.HexFile

namespace G4Common.MdmTransfer

open Scanf List Option

/-! ### What is stated -/

/-- The packets that were acknowledged. -/
def acknowledgedWrites (sent : List (List Byte × Bool)) : List (List Byte) :=
  (sent.filter fun p => p.2).map Prod.fst

/-- Packets for consecutive pieces: command, address, length, data. -/
def writesFrom (address : BitVec 32) : ℕ → List (List Byte) → List (List Byte)
  | _, [] => []
  | off, s :: ss =>
    (writeHeader (address + BitVec.ofNat 32 off) s.length ++ s) :: writesFrom address (off + s.length) ss

/-- The data were transferred: the acknowledged packets carry them in order, each packet with its address and
its length, and none is too long. -/
def Transferred (address : BitVec 32) (data : List Byte) (sent : List (List Byte × Bool)) : Prop :=
  ∃ segs, acknowledgedWrites sent = writesFrom address 0 segs ∧ segs.flatten = data ∧
    ∀ s ∈ segs, s.length ≤ dloadWriteSizeThreshold

theorem writesFrom_concat (address : BitVec 32) (off : ℕ) (ss : List (List Byte)) (s : List Byte) :
    writesFrom address off (ss ++ [s]) = writesFrom address off ss ++
      [writeHeader (address + BitVec.ofNat 32 (off + ss.flatten.length)) s.length ++ s] := by
  induction ss generalizing off with
  | nil => rfl
  | cons _ _ ih =>
    rw [cons_append, writesFrom, ih, writesFrom, flatten_cons, length_append, Nat.add_assoc]
    rfl

theorem acknowledgedWrites_append (l m : List (List Byte × Bool)) :
    acknowledgedWrites (l ++ m) = acknowledgedWrites l ++ acknowledgedWrites m := by
  rw [acknowledgedWrites, filter_append, map_append]
  rfl

/-! ### The tries for one packet -/

variable {sent : List (List Byte × Bool)} {ts : List WriteTry} {fuel k m : ℕ}

theorem acknowledgedWrites_writePacket {p : List Byte} (hk : k < hexMaxWriteRetry) (h : (writePacket p k ts sent).2 = .next) :
    acknowledgedWrites (writePacket p k ts sent).1.2 = acknowledgedWrites sent ++ [p] := by
  induction ts generalizing k sent with
  | nil => simp [writePacket] at h
  | cons t ts ih =>
    rw [writePacket] at h ⊢
    split at h
    · simp at h
    rename_i htx
    rw [if_neg htx]
    split at h
    · rename_i hmore
      rw [if_pos hmore, ih hmore.2 h, acknowledgedWrites_append]
      simp [acknowledgedWrites]
    rename_i hdone
    rw [if_neg hdone]
    simp only at h ⊢
    split at h
    · cases h
    rename_i hne
    -- There are tries left, so the loop ended with an acknowledgement.
    have hack : t.ack = true := by
      by_contra hno
      exact hdone ⟨by simpa using hno, by omega⟩
    rw [acknowledgedWrites_append, hack]
    rfl

theorem writePacket_ne_true {p : List Byte} : (writePacket p k ts sent).2 ≠ .returned true := by
  induction ts generalizing k sent with
  | nil => simp [writePacket]
  | cons _ _ ih =>
    rw [writePacket]
    split
    · simp
    split
    · exact ih
    simp only
    split <;> simp

/-- There are at least `k` tries to come, and all are acknowledged. -/
def Acked (k : ℕ) (ts : List WriteTry) : Prop := k ≤ ts.length ∧ ∀ t ∈ ts, t.tx = true ∧ t.ack = true

theorem Acked.mono (h : Acked k ts) (hm : m ≤ k) : Acked m ts := ⟨hm.trans h.1, h.2⟩

theorem writePacket_of_acked {p : List Byte} (h : Acked (k + 1) ts) :
    (writePacket p 0 ts sent).2 = .next ∧ Acked k (writePacket p 0 ts sent).1.1 := by
  cases ts with
  | nil => exact absurd h.1 (by simp)
  | cons t ts =>
    obtain ⟨htx, hack⟩ := h.2 t mem_cons_self
    have hlen := h.1
    rw [length_cons] at hlen
    have hrun : writePacket p 0 (t :: ts) sent = ((ts, sent ++ [(p, true)]), .next) := by
      simp [writePacket, htx, hack, hexMaxWriteRetry]
    rw [hrun]
    exact ⟨rfl, by simp only; omega, fun u hu => h.2 u (mem_cons_of_mem _ hu)⟩

/-! ### The packet that is being filled -/

/-- `data` are the data of the lines so far: those in acknowledged packets, then those in `packet`. -/
structure Filling (address : BitVec 32) (data : List Byte) (st : HexState) : Prop where
  lineData_size : st.lineData.size = 255
  packet_size : st.packet.size = hexPacketSize
  le_index : 7 ≤ st.packetIndex
  index_le : st.packetIndex ≤ hexPacketSize
  pieces : ∃ segs, acknowledgedWrites st.sent = writesFrom address 0 segs ∧
    segs.flatten ++ st.packet.slice 7 (st.packetIndex - 7) = data ∧
    st.transferAddress = address + BitVec.ofNat 32 segs.flatten.length ∧
    ∀ s ∈ segs, s.length ≤ dloadWriteSizeThreshold

variable {address : BitVec 32} {data : List Byte} {st : HexState}

theorem writeHeader_append {a a' : CArray Byte} {x : BitVec 32} {n : ℕ}
    (h : a.writeList 0 (writeHeader x n) = some a') (hm : 7 ≤ m) (hsize : m ≤ a.size) :
    a'.size = a.size ∧ a'.slice 0 m = writeHeader x n ++ a.slice 7 (m - 7) := by
  have hroom : 0 + (writeHeader x n).length ≤ a.size := by
    simp only [writeHeader, length_cons, length_nil]
    omega
  obtain ⟨b, hb, hbsize, hslice, hothers⟩ := CArray.writeList_of_le hroom
  cases hb.symm.trans h
  refine ⟨hbsize, ?_⟩
  rw [show m = 7 + (m - 7) by omega, CArray.slice_add, Nat.add_sub_cancel_left]
  refine congrArg₂ (· ++ ·) hslice (CArray.slice_congr ?_)
  intro j hj _
  exact hothers j (.inr (by simpa [writeHeader] using hj))

/-- **Sending the packet** empties it, if the function goes on. -/
theorem flushPacket_filling (h : Filling address data st) :
    ∃ st' e, flushPacket st = some (st', e) ∧ e ≠ .returned true ∧
      (e = .next → Filling address data st' ∧ st'.packetIndex = 7 ∧ st'.lineData = st.lineData) ∧
      ∀ k, Acked (k + 1) st.tries → e = .next ∧ Acked k st'.tries := by
  have hle := h.le_index
  have hindex := h.index_le
  have hpsize := h.packet_size
  have hroom : 0 + (writeHeader st.transferAddress (st.packetIndex - 7)).length ≤ st.packet.size := by
    rw [hpsize]
    simp [writeHeader, hexPacketSize]
  obtain ⟨a, hw, -⟩ := CArray.writeList_of_le hroom
  obtain ⟨hasize, hpacket⟩ := writeHeader_append hw hle (by omega)
  rw [flushPacket, hw, bind_some, if_neg (by omega), hpacket]
  simp only
  by_cases hnext : (writePacket (writeHeader st.transferAddress (st.packetIndex - 7) ++
      st.packet.slice 7 (st.packetIndex - 7)) 0 st.tries st.sent).2 = .next
  · rw [if_pos hnext]
    refine ⟨_, _, rfl, by simp, fun _ => ?_, fun k hk => ⟨rfl, (writePacket_of_acked hk).2⟩⟩
    obtain ⟨segs, hack, hdata, htransfer, hsmall⟩ := h.pieces
    have hlen : (st.packet.slice 7 (st.packetIndex - 7)).length = st.packetIndex - 7 := CArray.length_slice
    refine ⟨⟨h.lineData_size, hasize.trans hpsize, Nat.le_refl 7, by simp [hexPacketSize], ?_⟩, rfl, rfl⟩
    refine ⟨segs ++ [st.packet.slice 7 (st.packetIndex - 7)], ?_, ?_, ?_, ?_⟩
    · rw [acknowledgedWrites_writePacket (by simp [hexMaxWriteRetry]) hnext, hack, writesFrom_concat, htransfer,
        Nat.zero_add, hlen]
    · rw [flatten_append, flatten_singleton, hdata, Nat.sub_self, CArray.slice_zero, append_nil]
    · rw [flatten_append, flatten_singleton, length_append, hlen, BitVec.ofNat_add, ← BitVec.add_assoc, ← htransfer]
    intro s hs
    rcases mem_append.1 hs with hs | hs
    · exact hsmall s hs
    · rw [mem_singleton.1 hs, hlen]
      rw [hexPacketSize] at hindex
      omega
  · rw [if_neg hnext]
    exact ⟨_, _, rfl, writePacket_ne_true, fun he => absurd he hnext,
      fun k hk => absurd (writePacket_of_acked hk).1 hnext⟩

/-- **Appending a line** for which there is room. -/
theorem appendLine_filling (h : Filling address data st) {line : List Byte} (hshort : line.length ≤ 255)
    (hline : st.lineData.slice 0 line.length = line) (hroom : st.packetIndex + line.length ≤ hexPacketSize) :
    ∃ st', appendLine line.length st = some (st', .next) ∧ Filling address (data ++ line) st' ∧
      st'.tries = st.tries := by
  have hle := h.le_index
  have hfit : st.packetIndex + line.length ≤ st.packet.size := by
    rw [h.packet_size]
    exact hroom
  obtain ⟨a, hw, hasize, hslice, hothers⟩ := CArray.writeList_of_le hfit
  have hbelow : a.slice 7 (st.packetIndex - 7) = st.packet.slice 7 (st.packetIndex - 7) := by
    refine CArray.slice_congr ?_
    intro j _ _
    exact hothers j (.inl (by omega))
  rw [appendLine, if_neg (by rw [h.lineData_size]; omega), hline, hw]
  refine ⟨_, rfl, ⟨h.lineData_size, hasize.trans h.packet_size, by simp only; omega, hroom, ?_⟩, rfl⟩
  obtain ⟨segs, hack, hdata, htransfer, hsmall⟩ := h.pieces
  refine ⟨segs, hack, ?_, htransfer, hsmall⟩
  show segs.flatten ++ a.slice 7 (st.packetIndex + line.length - 7) = data ++ line
  rw [show st.packetIndex + line.length - 7 = st.packetIndex - 7 + line.length by omega, CArray.slice_add,
    show 7 + (st.packetIndex - 7) = st.packetIndex by omega, hslice, hbelow, ← append_assoc, hdata]

theorem lineData_cons (l : HexLine) (ls : List HexLine) :
    lineData (l :: ls) = (if l.recordType = 0 then l.data else []) ++ lineData ls := by
  by_cases h : l.recordType = 0
  · rw [if_pos h, lineData, filter_cons_of_pos (by rwa [decide_eq_true_eq]), map_cons, flatten_cons]
    rfl
  · rw [if_neg h, lineData, filter_cons_of_neg (by rwa [decide_eq_true_eq])]
    rfl

/-- **One line.** -/
theorem processLine_filling (l : HexLine) (n : ℕ) (h : Filling address data st)
    (hline : st.lineData.slice 0 l.data.length = l.data) :
    ∃ st' e, processLine false ⟨l.data.length, n, l.recordType.toNat⟩ st = some (st', e) ∧ e ≠ .returned true ∧
      (e = .next → Filling address (data ++ if l.recordType = 0 then l.data else []) st' ∧
        (l.recordType = 1 → st'.packetIndex = 7)) ∧
      ∀ k, Acked (k + 1) st.tries → e = .next ∧ Acked k st'.tries := by
  have hlen := l.length_le
  have hzero : l.recordType.toNat = 0 ↔ l.recordType = 0 := by
    rw [← BitVec.toNat_inj]
    rfl
  have hone : l.recordType.toNat = 1 ↔ l.recordType = 1 := by
    rw [← BitVec.toNat_inj]
    rfl
  simp only [processLine, Bool.false_eq_true, if_false, hzero, hone, ne_eq]
  obtain ⟨st1, e, hflush, hne, hfill, hacked⟩ := flushPacket_filling h
  by_cases h1 : l.recordType = 1
  · -- The end of the file: the rest is sent.
    have h0 : l.recordType ≠ 0 := by
      rw [h1]
      decide
    rw [if_pos (.inr h1), if_pos (.inr h1), hflush, bind_some, if_neg (fun hc => hc.2 h1), if_neg h0,
      append_nil]
    exact ⟨st1, e, rfl, hne, fun he => ⟨(hfill he).1, fun _ => (hfill he).2.1⟩, hacked⟩
  by_cases h0 : l.recordType = 0
  · rw [if_pos (.inl h0), if_pos h0]
    by_cases hfull : hexPacketSize < st.packetIndex + l.data.length
    · -- The line does not fit: the packet is sent, then the line begins a new one.
      rw [if_pos (.inl hfull), hflush, bind_some]
      by_cases he : e = .next
      · obtain ⟨hfill1, hindex, hdata⟩ := hfill he
        rw [← hdata] at hline
        obtain ⟨st2, happend, hfill2, htries⟩ := appendLine_filling hfill1 hlen hline
          (by rw [hindex]; simp only [hexPacketSize, dloadWriteSizeThreshold]; omega)
        rw [if_pos ⟨he, h1⟩]
        refine ⟨st2, .next, happend, by simp, fun _ => ⟨hfill2, fun hc => absurd hc h1⟩, ?_⟩
        intro k hk
        rw [htries]
        exact ⟨rfl, (hacked k hk).2⟩
      · rw [if_neg fun hc => he hc.1]
        exact ⟨st1, e, rfl, hne, fun hc => absurd hc he, fun k hk => absurd (hacked k hk).1 he⟩
    have hno : ¬(hexPacketSize < st.packetIndex + l.data.length ∨ l.recordType = 1) := by
      rintro (hc | hc)
      · exact hfull hc
      · exact h1 hc
    rw [if_neg hno, bind_some, if_pos ⟨rfl, h1⟩]
    obtain ⟨st2, happend, hfill2, htries⟩ := appendLine_filling h hlen hline (by omega)
    refine ⟨st2, .next, happend, by simp, fun _ => ⟨hfill2, fun hc => absurd hc h1⟩, ?_⟩
    intro k hk
    rw [htries]
    exact ⟨rfl, hk.mono (Nat.le_succ k)⟩
  have hno : ¬(l.recordType = 0 ∨ l.recordType = 1) := by
    rintro (hc | hc)
    · exact h0 hc
    · exact h1 hc
  rw [if_neg hno, if_neg h0, append_nil]
  exact ⟨st, .next, rfl, by simp, fun _ => ⟨h, fun hc => absurd hc h1⟩, fun k hk => ⟨rfl, hk.mono (Nat.le_succ k)⟩⟩

/-! ### The loop over the lines -/

theorem skipSpace_text (ls : List HexLine) :
    skipSpace (ls.map HexLine.text).flatten = (ls.map HexLine.text).flatten := by
  cases ls with
  | nil => rfl
  | cons => exact skipSpace_of_not (by decide) _

theorem hexLoop_step (l : HexLine) (hfit : l.data.length ≤ 252) (h : Filling address data st) (fuel : ℕ)
    (ls : List HexLine) :
    ∃ st' e, e ≠ .returned true ∧
      (e = .next → Filling address (data ++ if l.recordType = 0 then l.data else []) st' ∧
        (l.recordType = 1 → st'.packetIndex = 7)) ∧
      (∀ k, Acked (k + 1) st.tries → e = .next ∧ Acked k st'.tries) ∧
      hexLoop false (fuel + 1) ((l :: ls).map HexLine.text).flatten st =
        if e = .next then
          if l.recordType = 1 then some (st', .returned true)
          else hexLoop false fuel (ls.map HexLine.text).flatten st'
        else some (st', e) := by
  obtain ⟨n, a, hscan, hsize, hslice⟩ := scanLine_of_le l h.lineData_size (skipSpace_text ls) hfit
  have hfill : Filling address data { st with lineData := a } :=
    ⟨hsize, h.packet_size, h.le_index, h.index_le, h.pieces⟩
  obtain ⟨st', e, hrun, hne, hnext, hacked⟩ := processLine_filling l n hfill hslice
  refine ⟨st', e, hne, hnext, hacked, ?_⟩
  have hone : l.recordType.toNat = 1 ↔ l.recordType = 1 := by
    rw [← BitVec.toNat_inj]
    rfl
  rw [map_cons, flatten_cons, hexLoop, hscan, bind_some]
  simp only [hrun, bind_some, hone]

section

variable {ls : List HexLine} {last : HexLine} (hls : ∀ l ∈ ls, l.recordType ≠ 1)
include hls

/-- **The whole file**, with lines that fit. -/
theorem hexLoop_filling
    (hlast : last.recordType = 1) (hfit : ∀ l ∈ ls ++ [last], l.data.length ≤ 252) (hfuel : ls.length < fuel)
    (h : Filling address data st) :
    ∃ res, hexLoop false fuel ((ls ++ [last]).map HexLine.text).flatten st = some res ∧
      (res.2 = .returned true → Transferred address (data ++ lineData (ls ++ [last])) res.1.sent) := by
  induction ls generalizing st data fuel with
  | nil =>
    obtain ⟨fuel, rfl⟩ := Nat.exists_eq_succ_of_ne_zero (Nat.ne_of_gt hfuel)
    obtain ⟨st', e, hne, hnext, -, hrun⟩ := hexLoop_step last (hfit last (by simp)) h fuel []
    rw [nil_append, hrun, if_pos hlast]
    by_cases he : e = .next
    · rw [if_pos he]
      refine ⟨_, rfl, fun _ => ?_⟩
      obtain ⟨hfill, hindex⟩ := hnext he
      obtain ⟨segs, hack, hdata, -, hsmall⟩ := hfill.pieces
      rw [hindex hlast, Nat.sub_self, CArray.slice_zero, append_nil] at hdata
      refine ⟨segs, hack, ?_, hsmall⟩
      rw [hdata, lineData_cons]
      exact congrArg (data ++ ·) (append_nil _).symm
    · rw [if_neg he]
      exact ⟨_, rfl, fun hc => absurd hc hne⟩
  | cons l ls ih =>
    obtain ⟨fuel, rfl⟩ := Nat.exists_eq_succ_of_ne_zero (by omega : fuel ≠ 0)
    obtain ⟨_, e, hne, hnext, -, hrun⟩ := hexLoop_step l (hfit l (by simp)) h fuel (ls ++ [last])
    rw [cons_append, hrun, if_neg (hls l mem_cons_self)]
    by_cases he : e = .next
    · rw [if_pos he, lineData_cons, ← append_assoc]
      refine ih (fun m hm => hls m (mem_cons_of_mem _ hm)) ?_ (by simpa using hfuel) (hnext he).1
      intro m hm
      exact hfit m (mem_cons_of_mem _ hm)
    · rw [if_neg he]
      exact ⟨_, rfl, fun hc => absurd hc hne⟩

/-- **A line that is too long**: if every packet before it is acknowledged, it is reached. -/
theorem hexLoop_of_long
    (hlong : ∃ l ∈ ls ++ [last], 252 < l.data.length) (hfuel : ls.length < fuel) (h : Filling address data st)
    (hacked : Acked ls.length st.tries) : hexLoop false fuel ((ls ++ [last]).map HexLine.text).flatten st = none := by
  induction ls generalizing st data fuel with
  | nil =>
    obtain ⟨fuel, rfl⟩ := Nat.exists_eq_succ_of_ne_zero (Nat.ne_of_gt hfuel)
    obtain ⟨l, hl, hlen⟩ := hlong
    obtain rfl := mem_singleton.1 hl
    rw [nil_append, map_singleton, flatten_singleton, hexLoop, ← append_nil l.text,
      scanLine_of_lt l h.lineData_size [] hlen]
    rfl
  | cons l ls ih =>
    obtain ⟨fuel, rfl⟩ := Nat.exists_eq_succ_of_ne_zero (by omega : fuel ≠ 0)
    rcases Nat.lt_or_ge 252 l.data.length with hlen | hlen
    · rw [cons_append, map_cons, flatten_cons, hexLoop, scanLine_of_lt l h.lineData_size _ hlen]
      rfl
    obtain ⟨_, e, -, hnext, hack, hrun⟩ := hexLoop_step l hlen h fuel (ls ++ [last])
    obtain ⟨he, htries⟩ := hack ls.length hacked
    rw [cons_append, hrun, if_pos he, if_neg (hls l mem_cons_self)]
    refine ih (fun m hm => hls m (mem_cons_of_mem _ hm)) ?_ (by simpa using hfuel) (hnext he).1 htries
    obtain ⟨m, hm, hlenm⟩ := hlong
    rcases mem_cons.1 hm with rfl | hm
    · omega
    · exact ⟨m, hm, hlenm⟩

end

/-! ### The function -/

theorem length_lines_le (ls : List HexLine) : ls.length ≤ (ls.map HexLine.text).flatten.length := by
  induction ls with
  | nil => exact Nat.le_refl 0
  | cons l ls ih =>
    rw [map_cons, flatten_cons, length_append, length_cons, HexLine.text, length_cons]
    omega

theorem HexFile.body_length_lt (f : HexFile) : f.body.length < f.text.length + 1 := by
  have hle := length_lines_le f.lines
  rw [HexFile.lines, length_append] at hle
  rw [HexFile.text, HexFile.lines]
  omega

theorem filling_start (address : BitVec 32) (tries : List WriteTry) :
    Filling address [] ⟨CArray.zeros 0xff, CArray.zeros hexPacketSize, 7, address, address, tries, []⟩ where
  lineData_size := rfl
  packet_size := rfl
  le_index := Nat.le_refl 7
  index_le := by simp [hexPacketSize]
  pieces := ⟨[], rfl, rfl, by simp, by simp⟩

/-- The target that acknowledges everything. -/
def acknowledgingTarget (n : ℕ) : HexTarget := ⟨some (6, 0), true, replicate n ⟨true, true⟩⟩

theorem parseHexFile_of_long (f : HexFile) (address : BitVec 32) (hlong : ∃ l ∈ f.lines, 252 < l.data.length) :
    parseHexFile (some f.text) false address (acknowledgingTarget f.body.length) = none := by
  have hacked : Acked f.body.length (replicate f.body.length (⟨true, true⟩ : WriteTry)) := by
    refine ⟨by simp, ?_⟩
    intro t ht
    rw [eq_of_mem_replicate ht]
    exact ⟨rfl, rfl⟩
  rw [parseHexFile]
  simp only [Bool.false_eq_true, if_false, acknowledgingTarget]
  rw [if_neg (by decide)]
  exact hexLoop_of_long f.body_ne hlong f.body_length_lt (filling_start address _) hacked

/-- **What `parse_hex_file()` transfers.**  Whatever the target answers, the function stays inside its arrays, and if
it returns `TRUE`, the acknowledged packets carry the data of the file; this is so exactly if no line has more than
252 bytes. -/
theorem hex_transfer_exact (f : HexFile) (address : BitVec 32) :
    (∀ x, ∃ res, parseHexFile (some f.text) false address x = some res ∧
      (res.2 = .returned true → Transferred address (lineData f.lines) res.1.sent)) ↔
        ∀ l ∈ f.lines, l.data.length ≤ 252 := by
  constructor
  · intro h l hl
    by_contra hlong
    obtain ⟨_, hres, -⟩ := h (acknowledgingTarget f.body.length)
    rw [parseHexFile_of_long f address ⟨l, hl, not_le.1 hlong⟩] at hres
    cases hres
  intro hfit x
  rw [parseHexFile]
  simp only [Bool.false_eq_true, if_false]
  cases x.param with
  | none => exact ⟨_, rfl, nofun⟩
  | some b =>
    obtain ⟨_, _⟩ := b
    simp only
    split
    · exact ⟨_, rfl, nofun⟩
    · split
      · exact ⟨_, rfl, nofun⟩
      · exact hexLoop_filling f.body_ne f.last_eq hfit f.body_length_lt (filling_start address x.tries)

/-- A line for the given record. -/
def HexLine.ofRecord (recordType : Byte) (data : List Byte) (h : data.length ≤ 255) : HexLine where
  digits := hexDigits (BitVec.ofNat 8 data.length :: 0 :: 0 :: recordType :: (data ++ [0]))
  addressHigh := 0
  addressLow := 0
  recordType := recordType
  data := data
  checksum := 0
  eol := ['\n']
  length_le := h
  digits_eq := hexPairs_hexDigits _
  eol_space := by
    intro c hc
    rw [List.mem_singleton.1 hc]
    rfl

/-- A file with a data record of 253 bytes. -/
def longLineFile : HexFile where
  body := [HexLine.ofRecord 0 (replicate 253 0) (by rw [length_replicate]; omega)]
  last := HexLine.ofRecord 1 [] (Nat.zero_le _)
  body_ne := by
    intro l hl
    rw [List.mem_singleton.1 hl]
    decide
  last_eq := rfl

theorem hex_transfer_long_line : parseHexFile (some longLineFile.text) false 0 (acknowledgingTarget 1) = none ∧
      ¬∀ x, ∃ res, parseHexFile (some longLineFile.text) false 0 x = some res ∧
        (res.2 = .returned true → Transferred 0 (lineData longLineFile.lines) res.1.sent) := by
  have hnone : parseHexFile (some longLineFile.text) false 0 (acknowledgingTarget 1) = none := by
    refine parseHexFile_of_long longLineFile 0 ⟨_, mem_cons_self, ?_⟩
    show 252 < (replicate 253 (0 : Byte)).length
    rw [length_replicate]
    omega
  refine ⟨hnone, fun h => ?_⟩
  obtain ⟨_, hres, -⟩ := h (acknowledgingTarget 1)
  rw [hnone] at hres
  cases hres

end G4Common.MdmTransfer
