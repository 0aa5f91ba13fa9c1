/-
`parse_hex_file()` on any text (`mdm-helper/mdmfiletransfer/dload_protocol.c`).

`HexFile` has the function on files in which each line is complete.  Here the text may be anything.  What the
conversion `"%X"` of `fscanf()` makes of a text is given by a `Scanner`, so that signs, the prefix `0x` and the ends of
the text are covered whatever they mean.  If a conversion in the beginning of a line fails, the fields behind it keep
the values of the line before; on the first line these are not initialized, and are given as well.

All conversions but those of the data are checked; those are bounded by the size of the receive buffer.
The texts that make a store behind `line_data` are those with a line of which more than 252 bytes are converted.  In `packet` there is always room.
-/
import G4Common.MdmTransfer.HexAcks

namespace G4Common.MdmTransfer

open Scanf List Option

/-! ### The function -/

/-- The conversion `%wX` of `fscanf()`: the value if there is one, and what is left of the text. -/
structure Scanner where
  scan : ℕ → List Char → Option (BitVec 32) × List Char
  length_le : ∀ w s, (scan w s).2.length ≤ s.length

/-- `byte_count`, `address` and `record_type`. -/
structure HexHeader where
  byteCount : BitVec 32
  address : BitVec 32
  recordType : BitVec 32

variable (sc : Scanner)
variable {a : CArray Byte} {h : HexHeader} {s : List Char} {fuel n used : ℕ}

/-- The three conversions at the beginning of a line.  They end with the first that fails. -/
def scanHeader (h : HexHeader) (s : List Char) : HexHeader × List Char :=
  match sc.scan 2 s with
  | (none, s) => (h, s)
  | (some byteCount, s) => match sc.scan 4 s with
    | (none, s) => ({ h with byteCount }, s)
    | (some address, s) => match sc.scan 2 s with
      | (none, s) => ({ h with byteCount, address }, s)
      | (some recordType, s) => (⟨byteCount, address, recordType⟩, s)

/-- The loop over the bytes of a line.  Each conversion stores an `int`. -/
def scanDataText : ℕ → ℕ → CArray Byte → List Char → Option (Option (CArray Byte × List Char))
  | 0, _, lineData, s => some (some (lineData, s))
  | n + 1, i, lineData, s =>
    match sc.scan 2 s with
    | (none, _) => some none
    | (some b, s) => (lineData.writeList i [byteAt b 0, byteAt b 1, byteAt b 2, byteAt b 3]).bind fun lineData =>
        scanDataText n (i + 1) lineData s

/-- The checksum and the white space behind it. -/
def scanEnd (h : HexHeader) : Option (CArray Byte × List Char) → Option (HexHeader × CArray Byte × List Char)
  | none => none
  | some (lineData, s) => match sc.scan 2 s with
    | (none, _) => none
    | (some _, s) => some (h, lineData, skipSpace s)

/-- One line.  `byte_count` is compared as an unsigned number with `DLOAD_RX_BUFFER_LENGTH`. -/
def scanLineText (h : HexHeader) (lineData : CArray Byte) :
    List Char → Option (Option (HexHeader × CArray Byte × List Char))
  | [] => some none
  | startCode :: s =>
    let res := scanHeader sc h s
    if startCode ≠ ':' then some none
    else if 4096 < res.1.byteCount.toNat then some none
    else (scanDataText sc res.1.byteCount.toNat 0 lineData res.2).map (scanEnd sc res.1)

/-- The fields of a line, as `processLine` takes them. -/
def HexHeader.fields (h : HexHeader) : HexFields := ⟨h.byteCount.toNat, h.address.toNat, h.recordType.toNat⟩

/-- The loop over the lines.  A line has a character, so the length of the text bounds the rounds. -/
def hexTextLoop (readAddressOnly : Bool) : ℕ → HexHeader → List Char → HexState → Option (HexState × HexExit)
  | 0, _, _, st => some (st, .returned false)
  | fuel + 1, h, s, st => (scanLineText sc h st.lineData s).bind fun
    | none => some (st, .returned false)
    | some (h, lineData, s) => (processLine readAddressOnly h.fields { st with lineData := lineData }).bind fun res =>
        if res.2 = .next then
          if h.recordType = 1 then some (res.1, .returned true) else hexTextLoop readAddressOnly fuel h s res.1
        else some res

/-- `parse_hex_file()`; `junk` is in the variables for the fields of a line at the beginning. -/
def parseHexText (junk : HexHeader) (file : Option (List Char)) (readAddressOnly : Bool)
    (hexTransferAddress : BitVec 32) (x : HexTarget) : Option (HexState × HexExit) :=
  let st : HexState := ⟨CArray.zeros 0xff, CArray.null, 0, 0, hexTransferAddress, x.tries, []⟩
  match file with
  | none => some (st, .returned false)
  | some s =>
    if readAddressOnly then hexTextLoop sc true (s.length + 1) junk s st
    else match x.param with
      | none => some (st, .returned false)
      | some (b3, b4) =>
        if b3.toNat <<< 8 ||| b4.toNat = 0 then some (st, .returned false)
        else if x.malloc = false then some (st, .returned false)
        else hexTextLoop sc false (s.length + 1) junk s
          { st with packet := CArray.zeros hexPacketSize, packetIndex := 7, transferAddress := hexTransferAddress }

/-! ### The text alone -/

/-- How many of the next `n` bytes are converted. -/
def dataCount : ℕ → List Char → ℕ
  | 0, _ => 0
  | n + 1, s => match sc.scan 2 s with
    | (none, _) => 0
    | (some _, s) => dataCount n s + 1

/-- What is left of the text behind the next `n` bytes, if all are converted. -/
def dataRest : ℕ → List Char → Option (List Char)
  | 0, s => some s
  | n + 1, s => match sc.scan 2 s with
    | (none, _) => none
    | (some _, s) => dataRest n s

/-- The number of bytes of a line that are converted. -/
def lineCount (h : HexHeader) : List Char → ℕ
  | [] => 0
  | startCode :: s =>
    if startCode ≠ ':' then 0
    else if 4096 < (scanHeader sc h s).1.byteCount.toNat then 0
    else dataCount sc (scanHeader sc h s).1.byteCount.toNat (scanHeader sc h s).2

/-- The fields of a line and what is left of the text behind it, if it is complete. -/
def nextLine (h : HexHeader) : List Char → Option (HexHeader × List Char)
  | [] => none
  | startCode :: s =>
    if startCode ≠ ':' then none
    else if 4096 < (scanHeader sc h s).1.byteCount.toNat then none
    else (dataRest sc (scanHeader sc h s).1.byteCount.toNat (scanHeader sc h s).2).bind fun rest =>
      match sc.scan 2 rest with
      | (none, _) => none
      | (some _, rest) => some ((scanHeader sc h s).1, skipSpace rest)

/-- The line is the last one: the end of the file, or the address if nothing else is read. -/
def LastLine (readAddressOnly : Bool) (h : HexHeader) : Prop :=
  h.recordType = 1 ∨ readAddressOnly = true ∧ h.recordType = 5 ∧ h.byteCount = 4 ∧ h.address = 0

/-- **Lines that fit**: on no line up to the last one more than 252 bytes are converted. -/
def ShortLines (readAddressOnly : Bool) : ℕ → HexHeader → List Char → Prop
  | 0, _, _ => True
  | fuel + 1, h, s => lineCount sc h s ≤ 252 ∧
      ∀ h' s', nextLine sc h s = some (h', s') → ¬ LastLine readAddressOnly h' → ShortLines readAddressOnly fuel h' s'

/-! ### One line -/

/-- **The stores to `line_data`**: one is behind it exactly if more than 252 bytes are converted. -/
theorem scanDataText_spec {i : ℕ} (hsize : a.size = 255) (hi : i ≤ 252) :
    (252 < i + dataCount sc n s → scanDataText sc n i a s = none) ∧
      (i + dataCount sc n s ≤ 252 → ∃ a', a'.size = 255 ∧
        scanDataText sc n i a s = some ((dataRest sc n s).map fun s => (a', s))) := by
  induction n generalizing i a s with
  | zero =>
    refine ⟨fun h => ?_, fun _ => ⟨a, hsize, rfl⟩⟩
    rw [dataCount] at h
    omega
  | succ n ih =>
    rw [dataCount, dataRest, scanDataText]
    rcases sc.scan 2 s with ⟨- | b, s'⟩
    · exact ⟨fun h => by simp only at h; omega, fun _ => ⟨a, hsize, rfl⟩⟩
    simp only
    rcases Nat.lt_or_ge i 252 with _ | _
    · have hroom : i + [byteAt b 0, byteAt b 1, byteAt b 2, byteAt b 3].length ≤ a.size := by
        rw [hsize]
        show i + 4 ≤ 255
        omega
      obtain ⟨_, hw, hsize1, -⟩ := CArray.writeList_of_le hroom
      obtain ⟨hlong, hshort⟩ := ih (s := s') (hsize1.trans hsize) (i := i + 1) (by omega)
      rw [hw, bind_some]
      exact ⟨fun h => hlong (by omega), fun h => hshort (by omega)⟩
    -- The last three cells have no room for an `int`.
    have hout : ¬ (a.writeList i [byteAt b 0, byteAt b 1, byteAt b 2, byteAt b 3]).isSome := by
      rw [CArray.isSome_writeList (by omega), hsize]
      show ¬ i + 4 ≤ 255
      omega
    rw [not_isSome_iff_eq_none.1 hout]
    exact ⟨fun _ => rfl, fun h => by omega⟩

/-- **One line**, in terms of the text. -/
theorem scanLineText_spec (hsize : a.size = 255) :
    (252 < lineCount sc h s → scanLineText sc h a s = none) ∧
      (lineCount sc h s ≤ 252 → ∃ a', a'.size = 255 ∧
        scanLineText sc h a s = some ((nextLine sc h s).map fun res => (res.1, a', res.2))) := by
  cases s with
  | nil => exact ⟨fun hlt => absurd (show 252 < 0 from hlt) (by decide), fun _ => ⟨a, hsize, rfl⟩⟩
  | cons c s =>
    rw [lineCount, scanLineText, nextLine]
    by_cases hcode : c ≠ ':'
    · simp only [if_pos hcode]
      exact ⟨fun hlt => by omega, fun _ => ⟨a, hsize, rfl⟩⟩
    simp only [if_neg hcode]
    by_cases hbig : 4096 < (scanHeader sc h s).1.byteCount.toNat
    · simp only [if_pos hbig]
      exact ⟨fun hlt => by omega, fun _ => ⟨a, hsize, rfl⟩⟩
    simp only [if_neg hbig]
    obtain ⟨hlong, hshort⟩ := scanDataText_spec sc (n := (scanHeader sc h s).1.byteCount.toNat)
      (s := (scanHeader sc h s).2) hsize (Nat.zero_le 252)
    rw [Nat.zero_add] at hlong hshort
    constructor
    · intro hlt
      rw [hlong hlt]
      rfl
    intro hle
    obtain ⟨a', hsize', hrun⟩ := hshort hle
    refine ⟨a', hsize', ?_⟩
    rw [hrun, map_some]
    rcases dataRest sc (scanHeader sc h s).1.byteCount.toNat (scanHeader sc h s).2 with - | rest
    · rfl
    · simp only [map_some, bind_some, scanEnd]
      rcases sc.scan 2 rest with ⟨- | v, r⟩ <;> rfl

theorem dataCount_of_rest {rest : List Char} (h : dataRest sc n s = some rest) : dataCount sc n s = n := by
  induction n generalizing s with
  | zero => rfl
  | succ _ ih =>
    rw [dataRest] at h
    rw [dataCount]
    rcases hscan : sc.scan 2 s with ⟨- | b, _⟩
    · rw [hscan] at h
      cases h
    · rw [hscan] at h
      simp only at h ⊢
      rw [ih h]

theorem byteCount_of_nextLine {h' : HexHeader} {s' : List Char} (hnext : nextLine sc h s = some (h', s')) :
    h'.byteCount.toNat = lineCount sc h s := by
  cases s with
  | nil => cases hnext
  | cons =>
    rw [nextLine] at hnext
    rw [lineCount]
    split_ifs at hnext ⊢
    obtain ⟨rest, hrest, hend⟩ := bind_eq_some_iff.1 hnext
    rw [dataCount_of_rest sc hrest]
    rcases hscan : sc.scan 2 rest with ⟨- | v, r⟩
    · rw [hscan] at hend
      cases hend
    · rw [hscan] at hend
      simp only [some.injEq, Prod.mk.injEq] at hend
      rw [hend.1]

/-! ### Runs -/

/-- The arrays are there: the packet only if it is used. -/
structure Armed (readAddressOnly : Bool) (st : HexState) : Prop where
  lineData_size : st.lineData.size = 255
  ready : readAddressOnly = false → ∃ used, Ready st used

variable {only : Bool} {st : HexState}

theorem Armed.lineData (h : Armed only st) (ha : a.size = 255) : Armed only { st with lineData := a } := by
  refine ⟨ha, fun honly => ?_⟩
  obtain ⟨used, hready⟩ := h.ready honly
  exact ⟨used, ha, hready.packet_size, hready.index_eq, hready.used_le⟩

theorem Ready.flush_any (h : Ready st used) : ∃ st' e, flushPacket st = some (st', e) ∧ (e = .next → Ready st' 0) ∧
      ∀ k, Acked (k + 1) st.tries → e = .next ∧ Acked k st'.tries := by
  obtain ⟨p, a, hsize, hrun⟩ := h.flushPacket_eq
  by_cases hnext : (writePacket p 0 st.tries st.sent).2 = .next
  · rw [if_pos hnext] at hrun
    refine ⟨_, _, hrun, fun _ => ⟨h.lineData_size, hsize, rfl, Nat.zero_le _⟩, ?_⟩
    intro k hk
    exact ⟨rfl, (writePacket_of_acked hk).2⟩
  · rw [if_neg hnext] at hrun
    exact ⟨_, _, hrun, fun he => absurd he hnext, fun k hk => absurd (writePacket_of_acked hk).1 hnext⟩

/-- **The stores to `packet`**: there is room for a line that was read. -/
theorem Ready.processLine (h : Ready st used) (hn : n ≤ 252) (k t : ℕ) :
    ∃ st' e, processLine false ⟨n, k, t⟩ st = some (st', e) ∧ (e = .next → ∃ used', Ready st' used') ∧
      ∀ m, Acked (m + 1) st.tries → e = .next ∧ Acked m st'.tries := by
  obtain ⟨st1, e, hrun, hnext, hacked⟩ := h.flush_any
  by_cases h1 : t = 1
  · rw [h1, processLine_last]
    exact ⟨st1, e, hrun, fun he => ⟨0, hnext he⟩, hacked⟩
  by_cases h₀ : t = 0
  swap
  · rw [processLine_other n k st h₀ h1]
    exact ⟨st, .next, rfl, fun _ => ⟨used, h⟩, fun m hm => ⟨rfl, hm.mono (Nat.le_succ m)⟩⟩
  rw [h₀]
  have hindex := h.index_eq
  by_cases hfull : hexPacketSize < st.packetIndex + n
  · rw [processLine_full n k st hfull, hrun, bind_some]
    by_cases he : e = .next
    · obtain ⟨st2, happend, hready2, htries, -⟩ := (hnext he).append (n := n) (by omega)
        (by rw [dloadWriteSizeThreshold]; omega)
      rw [if_pos he]
      refine ⟨st2, .next, happend, fun _ => ⟨_, hready2⟩, ?_⟩
      intro m hm
      rw [htries]
      exact ⟨rfl, (hacked m hm).2⟩
    · rw [if_neg he]
      exact ⟨st1, e, rfl, fun hc => absurd hc he, fun m hm => absurd (hacked m hm).1 he⟩
  rw [processLine_room n k st hfull]
  have hroom : used + n ≤ dloadWriteSizeThreshold := by
    rw [hexPacketSize] at hfull
    omega
  obtain ⟨st2, happend, hready2, htries, -⟩ := h.append (n := n) (by omega) hroom
  refine ⟨st2, .next, happend, fun _ => ⟨_, hready2⟩, ?_⟩
  intro m hm
  rw [htries]
  exact ⟨rfl, hm.mono (Nat.le_succ m)⟩

theorem Armed.processLine (h : Armed only st) (f : HexFields) (hf : f.byteCount ≤ 252) :
    ∃ st' e, processLine only f st = some (st', e) ∧ (e = .next → Armed only st') ∧
      (only → e = .next ∨ f.recordType = 5 ∧ f.byteCount = 4 ∧ f.address = 0) ∧
      ∀ k, only = false → Acked (k + 1) st.tries → e = .next ∧ Acked k st'.tries := by
  cases only with
  | true =>
    have hno : ∀ {p : Prop}, true = false → p := (by rintro _ ⟨⟩)
    rw [MdmTransfer.processLine, if_pos rfl]
    by_cases haddr : f.recordType = 5 ∧ f.byteCount = 4 ∧ f.address = 0
    · rw [if_pos haddr]
      exact ⟨_, _, rfl, (by rintro ⟨⟩), fun _ => Or.inr haddr, fun k hb => hno hb⟩
    · rw [if_neg haddr]
      exact ⟨_, _, rfl, fun _ => h, fun _ => Or.inl rfl, fun k hb => hno hb⟩
  | false =>
    obtain ⟨_, hready⟩ := h.ready rfl
    obtain ⟨st', e, hrun, hnext, hacked⟩ := hready.processLine hf f.address f.recordType
    refine ⟨st', e, hrun, fun he => ?_, (by rintro ⟨⟩), fun k _ hk => hacked k hk⟩
    obtain ⟨used', hready'⟩ := hnext he
    exact ⟨hready'.lineData_size, fun _ => ⟨used', hready'⟩⟩

theorem lastLine_of_fields (hf : h.fields.recordType = 5 ∧ h.fields.byteCount = 4 ∧
    h.fields.address = 0) (honly : only) : LastLine only h :=
  Or.inr ⟨honly, BitVec.eq_of_toNat_eq hf.1, BitVec.eq_of_toNat_eq hf.2.1, BitVec.eq_of_toNat_eq hf.2.2⟩

theorem hexTextLoop_succ (fuel : ℕ) (hshort : lineCount sc h s ≤ 252) (harmed : Armed only st) :
    ∃ a, a.size = 255 ∧ hexTextLoop sc only (fuel + 1) h s st =
      (nextLine sc h s).elim (some (st, .returned false)) fun line =>
        (MdmTransfer.processLine only line.1.fields { st with lineData := a }).bind fun res =>
          if res.2 = .next then
            if line.1.recordType = 1 then some (res.1, .returned true)
            else hexTextLoop sc only fuel line.1 line.2 res.1
          else some res := by
  obtain ⟨a, hsize, hline⟩ := (scanLineText_spec sc harmed.lineData_size).2 hshort
  refine ⟨a, hsize, ?_⟩
  rw [hexTextLoop, hline, bind_some]
  cases nextLine sc h s <;> rfl

/-- **A run on lines that fit** makes all its stores inside the arrays. -/
theorem hexTextLoop_isSome (harmed : Armed only st)
    (hshort : ShortLines sc only fuel h s) : (hexTextLoop sc only fuel h s st).isSome := by
  induction fuel generalizing h s st with
  | zero => rfl
  | succ fuel ih =>
    obtain ⟨a, hsize, hrun⟩ := hexTextLoop_succ sc fuel hshort.1 harmed
    rw [hrun]
    rcases hnext : nextLine sc h s with - | ⟨h', s'⟩
    · rfl
    have hcount : h'.fields.byteCount ≤ 252 := by
      show h'.byteCount.toNat ≤ 252
      rw [byteCount_of_nextLine sc hnext]
      exact hshort.1
    obtain ⟨_, e, hline, hgo, _, -⟩ := (harmed.lineData hsize).processLine h'.fields hcount
    rw [elim_some, hline, bind_some]
    by_cases he : e = .next
    swap
    · rw [if_neg he]
      rfl
    rw [if_pos he]
    by_cases hend : h'.recordType = 1
    · rw [if_pos hend]
      rfl
    rw [if_neg hend]
    by_cases hlast : LastLine only h'
    · -- Then the function has returned the address.
      exfalso
      obtain ⟨honly', h5, h4, h0⟩ := hlast.resolve_left hend
      rw [MdmTransfer.processLine, if_pos honly', if_pos ⟨congrArg BitVec.toNat h5, congrArg BitVec.toNat h4,
        congrArg BitVec.toNat h0⟩, some.injEq, Prod.mk.injEq] at hline
      rw [he] at hline
      cases hline.2
    · exact ih (hgo he) (hshort.2 h' s' hnext hlast)

/-- **A run on other lines** does not, if it is not ended by the target. -/
theorem shortLines_of_isSome (harmed : Armed only st)
    (hacked : only = false → Acked fuel st.tries) (hrun : (hexTextLoop sc only fuel h s st).isSome) :
    ShortLines sc only fuel h s := by
  induction fuel generalizing h s st with
  | zero => trivial
  | succ fuel ih =>
    have hshort : lineCount sc h s ≤ 252 := by
      by_contra hlong
      rw [hexTextLoop, (scanLineText_spec sc harmed.lineData_size).1 (by omega)] at hrun
      cases hrun
    refine ⟨hshort, fun h' s' hnext hlast => ?_⟩
    obtain ⟨a, hsize, hloop⟩ := hexTextLoop_succ sc fuel hshort harmed
    have hcount : h'.fields.byteCount ≤ 252 := by
      show h'.byteCount.toNat ≤ 252
      rw [byteCount_of_nextLine sc hnext]
      exact hshort
    obtain ⟨_, e, hline, hgo, honly, htries⟩ := (harmed.lineData hsize).processLine h'.fields hcount
    have he : e = .next := by
      rcases Bool.eq_false_or_eq_true only with ht | ht
      · exact (honly ht).resolve_right fun hf => hlast (lastLine_of_fields hf ht)
      · exact (htries fuel ht (hacked ht)).1
    rw [hloop, hnext, elim_some, hline, bind_some, if_pos he, if_neg fun hend => hlast (.inl hend)] at hrun
    exact ih (hgo he) (fun ht => (htries fuel ht (hacked ht)).2) hrun

/-! ### The rounds -/

theorem length_scanHeader_le (h : HexHeader) (s : List Char) : (scanHeader sc h s).2.length ≤ s.length := by
  have h1 := sc.length_le 2 s
  rw [scanHeader]
  generalize sc.scan 2 s = res1 at h1 ⊢
  rcases res1 with ⟨- | n, s1⟩
  · exact h1
  have h2 := (sc.length_le 4 s1).trans h1
  simp only
  generalize sc.scan 4 s1 = res2 at h2 ⊢
  rcases res2 with ⟨- | k, s2⟩
  · exact h2
  have h3 := (sc.length_le 2 s2).trans h2
  simp only
  generalize sc.scan 2 s2 = res3 at h3 ⊢
  rcases res3 with ⟨- | t, s3⟩ <;> exact h3

theorem length_scanDataText_le {i : ℕ} {a a' : CArray Byte} {s s' : List Char}
    (hrun : scanDataText sc n i a s = some (some (a', s'))) : s'.length ≤ s.length := by
  induction n generalizing i a s with
  | zero =>
    cases hrun
    exact Nat.le_refl _
  | succ n ih =>
    have hle := sc.length_le 2 s
    rw [scanDataText] at hrun
    rcases hscan : sc.scan 2 s with ⟨- | b, s1⟩
    · rw [hscan] at hrun
      cases hrun
    · rw [hscan] at hrun hle
      obtain ⟨a1, -, hrun⟩ := bind_eq_some_iff.1 hrun
      exact (ih hrun).trans hle

/-- A line that is read takes a character of the text. -/
theorem length_scanLineText_lt {h' : HexHeader} {a' : CArray Byte} {s' : List Char}
    (hline : scanLineText sc h a s = some (some (h', a', s'))) : s'.length < s.length := by
  cases s with
  | nil => cases hline
  | cons c s =>
    rw [scanLineText] at hline
    split_ifs at hline
    · cases hline
    · cases hline
    obtain ⟨res, hdata, hend⟩ := map_eq_some_iff.1 hline
    rcases res with - | ⟨a1, s1⟩
    · cases hend
    have hle := sc.length_le 2 s1
    rw [scanEnd] at hend
    rcases hscan : sc.scan 2 s1 with ⟨- | v, s2⟩
    · rw [hscan] at hend
      cases hend
    rw [hscan] at hend hle
    cases hend
    have hsum : s2.length ≤ s1.length := hle
    have hspace : (skipSpace s2).length ≤ s2.length := (dropWhile_suffix _).length_le
    have hhead := length_scanHeader_le sc h s
    have hbytes := length_scanDataText_le sc hdata
    rw [length_cons]
    omega

/-- **The bound on the rounds** is no limit: a run ends before it is reached. -/
theorem hexTextLoop_fuel (hlt : s.length < fuel) :
    hexTextLoop sc only (fuel + 1) h s st = hexTextLoop sc only fuel h s st := by
  induction fuel generalizing h s st with
  | zero => exact absurd hlt (Nat.not_lt_zero _)
  | succ fuel ih =>
    rw [hexTextLoop, hexTextLoop]
    refine bind_congr fun line hline => ?_
    rcases line with - | ⟨h', a', s'⟩
    · rfl
    have hshorter := length_scanLineText_lt sc hline
    refine bind_congr fun res _ => ?_
    rw [ih (h := h') (s := s') (by omega)]

/-! ### The function -/

/-- **The stores of `parse_hex_file()`** are inside its arrays, whatever the target does, exactly if no line up to the
last one has more than 252 bytes that are converted. -/
theorem hex_text_in_bounds (junk : HexHeader) (s : List Char) (readAddressOnly : Bool) (address : BitVec 32) :
    (∀ x, (parseHexText sc junk (some s) readAddressOnly address x).isSome) ↔
      ShortLines sc readAddressOnly (s.length + 1) junk s := by
  cases readAddressOnly with
  | true =>
    have harmed : ∀ tries, Armed true ⟨CArray.zeros 0xff, CArray.null, 0, 0, address, tries, []⟩ :=
      fun tries => ⟨rfl, nofun⟩
    constructor
    · intro h
      exact shortLines_of_isSome sc (harmed []) nofun (h ⟨none, true, []⟩)
    · intro h x
      exact hexTextLoop_isSome sc (harmed x.tries) h
  | false =>
    have harmed : ∀ tries, Armed false
        ⟨CArray.zeros 0xff, CArray.zeros hexPacketSize, 7, address, address, tries, []⟩ :=
      fun tries => ⟨rfl, fun _ => ⟨0, rfl, rfl, rfl, Nat.zero_le _⟩⟩
    constructor
    · intro h
      have hrun := h (acknowledgingTarget (s.length + 1))
      rw [parseHexText] at hrun
      simp only [Bool.false_eq_true, if_false, acknowledgingTarget] at hrun
      rw [if_neg (by decide)] at hrun
      refine shortLines_of_isSome sc (harmed _) (fun _ => ⟨?_, ?_⟩) hrun
      · rw [length_replicate]
      · intro t ht
        rw [eq_of_mem_replicate ht]
        exact ⟨rfl, rfl⟩
    intro h x
    rw [parseHexText]
    simp only [Bool.false_eq_true, if_false]
    rcases x.param with - | ⟨_, _⟩
    · rfl
    simp only
    split_ifs
    · rfl
    · rfl
    · exact hexTextLoop_isSome sc (harmed x.tries) h

/-! ### Complete lines -/

/-- The conversion for numbers without signs and prefixes. -/
def hexScanner : Scanner where
  scan w s := (scanHex w s).elim (none, s) fun res => (some (BitVec.ofNat 32 res.1), res.2)
  length_le w s := by
    rcases h : scanHex w s with - | ⟨n, r⟩
    · exact Nat.le_refl _
    · exact length_scanHex_le h

theorem byteAt_ofNat {b : ℕ} (hb : b < 256) :
    [byteAt (BitVec.ofNat 32 b) 0, byteAt (BitVec.ofNat 32 b) 1, byteAt (BitVec.ofNat 32 b) 2,
      byteAt (BitVec.ofNat 32 b) 3] = [BitVec.ofNat 8 b, 0, 0, 0] := by
  have hbyte : ∀ k, byteAt (BitVec.ofNat 32 b) k = BitVec.ofNat 8 (b / 2 ^ (8 * k)) := by
    intro k
    apply BitVec.eq_of_toNat_eq
    rw [toNat_byteAt, BitVec.toNat_ofNat, BitVec.toNat_ofNat, Nat.mod_eq_of_lt (by omega : b < 2 ^ 32)]
  have hhigh : b / 256 = 0 ∧ b / 65536 = 0 ∧ b / 16777216 = 0 := by omega
  simp [hbyte, hhigh]

theorem scanDataText_hexScanner (n i : ℕ) (a : CArray Byte) (s : List Char) :
    scanDataText hexScanner n i a s = scanData n i a s := by
  induction n generalizing i a s with
  | zero => rfl
  | succ _ ih =>
    rw [scanDataText, scanData]
    rcases h : scanHex 2 s with - | ⟨b, r⟩
    · rw [show hexScanner.scan 2 s = (none, s) by simp [hexScanner, h]]
    rw [show hexScanner.scan 2 s = (some (BitVec.ofNat 32 b), r) by simp [hexScanner, h]]
    simp only
    rw [byteAt_ofNat (scanHex_lt h)]
    exact congrArg (bind _) (funext fun a => ih (i + 1) a r)

/-- The fields as they are in the variables. -/
def HexFields.header (f : HexFields) : HexHeader :=
  ⟨BitVec.ofNat 32 f.byteCount, BitVec.ofNat 32 f.address, BitVec.ofNat 32 f.recordType⟩

theorem scanLineText_hexScanner (h : HexHeader)
    {r : Option (HexFields × CArray Byte × List Char)} (hr : scanLine a s = some r) :
    scanLineText hexScanner h a s = some (r.map fun x => (x.1.header, x.2)) ∧
      ∀ x ∈ r, x.1.header.fields = x.1 := by
  cases s with
  | nil =>
    cases hr
    exact ⟨rfl, (by rintro _ ⟨⟩)⟩
  | cons c s =>
    rw [scanLine] at hr
    simp only [scanLineText]
    by_cases hcode : c ≠ ':'
    · rw [if_pos hcode] at hr ⊢
      cases hr
      exact ⟨rfl, (by rintro _ ⟨⟩)⟩
    rw [if_neg hcode] at hr ⊢
    simp only [bind_eq_bind, bind_eq_some_iff] at hr
    obtain ⟨⟨n, _⟩, h1, ⟨k, _⟩, h2, ⟨t, s3⟩, h3, hr⟩ := hr
    have hhead : scanHeader hexScanner h s = (HexFields.header ⟨n, k, t⟩, s3) := by
      simp [scanHeader, hexScanner, h1, h2, h3, HexFields.header]
    have hlt1 := scanHex_lt h1
    have hlt2 := scanHex_lt h2
    have hlt3 := scanHex_lt h3
    have hfields : (HexFields.header ⟨n, k, t⟩).fields = ⟨n, k, t⟩ := by
      simp only [HexFields.header, HexHeader.fields, BitVec.toNat_ofNat, HexFields.mk.injEq]
      omega
    have hcount : (HexFields.header ⟨n, k, t⟩).byteCount.toNat = n := congrArg HexFields.byteCount hfields
    rw [hhead]
    simp only [hcount, scanDataText_hexScanner]
    by_cases hbig : 4096 < n
    · rw [if_pos hbig] at hr ⊢
      cases hr
      exact ⟨rfl, (by rintro _ ⟨⟩)⟩
    rw [if_neg hbig] at hr ⊢
    obtain ⟨res, hdata, hr⟩ := bind_eq_some_iff.1 hr
    cases hr
    rw [hdata, map_some]
    rcases res with - | ⟨_, s'⟩
    · exact ⟨rfl, (by rintro _ ⟨⟩)⟩
    rw [scanEnd, scanChecksum]
    rcases h₄ : scanHex 2 s' with - | ⟨v, s''⟩
    · rw [show hexScanner.scan 2 s' = (none, s') by simp [hexScanner, h₄]]
      exact ⟨rfl, (by rintro _ ⟨⟩)⟩
    rw [show hexScanner.scan 2 s' = (some (BitVec.ofNat 32 v), s'') by simp [hexScanner, h₄]]
    refine ⟨rfl, fun x hx => ?_⟩
    cases hx
    exact hfields

/-- **The two descriptions of the function agree** where the lines are complete. -/
theorem parseHexText_hexScanner (junk : HexHeader) {file : Option (List Char)} {address : BitVec 32} {x : HexTarget}
    {res : HexState × HexExit} (h : parseHexFile file only address x = some res) :
    parseHexText hexScanner junk file only address x = some res := by
  have hloop : ∀ (fuel : ℕ) (h : HexHeader) (s : List Char) (st : HexState),
      hexLoop only fuel s st = some res → hexTextLoop hexScanner only fuel h s st = some res := by
    intro fuel
    induction fuel with
    | zero => exact fun h s st hrun => hrun
    | succ _ ih =>
      intro h s _ hrun
      rw [hexLoop] at hrun
      obtain ⟨r, hline, hrun⟩ := bind_eq_some_iff.1 hrun
      obtain ⟨htext, hfields⟩ := scanLineText_hexScanner h hline
      rw [hexTextLoop, htext, bind_some]
      rcases r with - | ⟨f, a, s'⟩
      · exact hrun
      have hf : f.header.fields = f := hfields _ rfl
      have hone : f.header.recordType = 1 ↔ f.recordType = 1 := by
        rw [← BitVec.toNat_inj, show f.header.recordType.toNat = f.recordType from congrArg HexFields.recordType hf]
        rfl
      obtain ⟨out, hout, hrun⟩ := bind_eq_some_iff.1 hrun
      simp only [map_some, hf, hone]
      rw [hout, bind_some]
      split_ifs at hrun ⊢
      · exact hrun
      · exact ih f.header s' out.1 hrun
      · exact hrun
  unfold parseHexFile at h
  unfold parseHexText
  rcases file with - | s
  · exact h
  simp only at h ⊢
  by_cases honly : only = true
  · rw [if_pos honly] at h ⊢
    subst honly
    exact hloop _ junk s _ h
  rw [if_neg honly] at h ⊢
  obtain rfl := Bool.eq_false_iff.2 honly
  rcases hparam : x.param with - | ⟨_, _⟩
  · rw [hparam] at h
    exact h
  simp only [hparam] at h ⊢
  split_ifs at h ⊢
  · exact h
  · exact h
  · exact hloop _ junk s _ h

theorem dataCount_hexPairs {bs : List Byte} (hs : HexPairs s bs) : dataCount hexScanner bs.length s = bs.length := by
  induction bs generalizing s with
  | nil => rfl
  | cons b bs ih =>
    obtain ⟨t, hscan, ht⟩ := hs.scanHex_two []
    rw [append_nil, append_nil] at hscan
    rw [length_cons, dataCount,
      show hexScanner.scan 2 s = (some (BitVec.ofNat 32 b.toNat), t) by simp [hexScanner, hscan]]
    show dataCount hexScanner bs.length t + 1 = bs.length + 1
    rw [ih ht]

/-- A line that announces 253 bytes, and has them. -/
def longText : List Char := ':' :: hexDigits ([253, 0, 0, 0] ++ replicate 253 0)

theorem lineCount_longText (h : HexHeader) : lineCount hexScanner h longText = 253 := by
  have hhead : ∀ t, scanHeader hexScanner h (hexDigits [253, 0, 0, 0] ++ t) = (⟨253, 0, 0⟩, t) := by
    intro t
    have htext : hexDigits [253, 0, 0, 0] ++ t = 'F' :: 'D' :: '0' :: '0' :: '0' :: '0' :: '0' :: '0' :: t := rfl
    have h1 := scanHex_pair (show hexVal 'F' = some 15 by rfl) (show hexVal 'D' = some 13 by rfl)
      ('0' :: '0' :: '0' :: '0' :: '0' :: '0' :: t)
    have hzero : hexVal '0' = some 0 := rfl
    have h2 := scanHex_two_pairs hzero hzero hzero hzero ('0' :: '0' :: t)
    have h3 := scanHex_pair hzero hzero t
    rw [htext]
    simp [scanHeader, hexScanner, h1, h2, h3]
  rw [longText, hexDigits, flatMap_append, ← hexDigits, ← hexDigits, lineCount, if_neg (by decide), hhead,
    if_neg (by decide)]
  have hcount := dataCount_hexPairs (hexPairs_hexDigits (replicate 253 0))
  rwa [length_replicate] at hcount

theorem lineCount_of_isSome {junk : HexHeader} {address : BitVec 32} {x : HexTarget}
    (h : (parseHexText sc junk (some s) true address x).isSome) : lineCount sc junk s ≤ 252 := by
  have harmed : Armed true ⟨CArray.zeros 0xff, CArray.null, 0, 0, address, x.tries, []⟩ :=
    ⟨rfl, nofun⟩
  exact (shortLines_of_isSome sc harmed nofun h).1

theorem hex_text_in_bounds_fails :
    ¬ ∀ (junk : HexHeader) (s : List Char) (readAddressOnly : Bool) (address : BitVec 32) (x : HexTarget),
      (parseHexText hexScanner junk (some s) readAddressOnly address x).isSome := by
  intro h
  have hcount := lineCount_of_isSome hexScanner (h ⟨0, 0, 0⟩ longText true 0 ⟨none, true, []⟩)
  rw [lineCount_longText] at hcount
  exact nomatch hcount

end G4Common.MdmTransfer
