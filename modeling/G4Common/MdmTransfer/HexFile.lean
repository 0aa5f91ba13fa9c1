/-
`parse_hex_file()` of `mdm-helper/mdmfiletransfer/dload_protocol.c`.

A file in the Intel HEX format is read line by line.  The data of its lines are collected in a packet, which is
sent when the next line does not fit any more and at the end of the file.

The bytes of a line are read with `"%2X"` into `line_data`, which is an array of bytes; but this conversion
stores an `int`, so three more bytes are set to zero behind each byte that is read (`scanData`).  They are
overwritten by the bytes that follow, except behind the last one.

What comes from outside is given: the text of the file, the two bytes of the parameter response that are used,
and for each try to write a packet whether `encode_and_send()` and `read_pkt_ack()` return `TRUE`.
-/
import G4Common.Lib.Scanf
import G4Common.Lib.WordBytes
import G4Common.MdmTransfer.Hdlc

namespace G4Common.MdmTransfer

open Scanf List Option

/-! ### Reading a line -/

/-- The fields of a line that are used. -/
structure HexFields where
  byteCount : ℕ
  address : ℕ
  recordType : ℕ

/-- The loop over the bytes of a line; inside, `none` if the function returns `FALSE`. -/
def scanData : ℕ → ℕ → CArray Byte → List Char → Option (Option (CArray Byte × List Char))
  | 0, _, lineData, s => some (some (lineData, s))
  | n + 1, i, lineData, s =>
    match scanHex 2 s with
    | none => some none
    | some (b, s) => (lineData.writeList i [BitVec.ofNat 8 b, 0, 0, 0]).bind fun lineData =>
        scanData n (i + 1) lineData s

/-- The end of a line, with the checksum, which is not used. -/
def scanChecksum (f : HexFields) :
    Option (CArray Byte × List Char) → Option (HexFields × CArray Byte × List Char)
  | none => none
  | some (lineData, s) => (scanHex 2 s).map fun res => (f, lineData, skipSpace res.2)

/-- One line.  If the fields before the data are read in part only, they keep values that are not modelled. -/
def scanLine (lineData : CArray Byte) : List Char → Option (Option (HexFields × CArray Byte × List Char))
  | [] => some none
  | startCode :: s =>
    if startCode ≠ ':' then some none
    else do
      let (byteCount, s) ← scanHex 2 s
      let (address, s) ← scanHex 4 s
      let (recordType, s) ← scanHex 2 s
      -- `DLOAD_RX_BUFFER_LENGTH`
      if 4096 < byteCount then return none
      let res ← scanData byteCount 0 lineData s
      return scanChecksum ⟨byteCount, address, recordType⟩ res

/-! ### Writing packets -/

def dloadCmdWrite32bit : Byte := 0x0f#8

def dloadWriteSizeThreshold : ℕ := 1536

def hexPacketSize : ℕ := 7 + dloadWriteSizeThreshold

def hexMaxWriteRetry : ℕ := 10

/-- How a part of the function ends: the function goes on, it returns, or it waits for the target. -/
inductive HexExit
  | next
  | returned (result : Bool)
  | waiting
deriving DecidableEq

/-- A try to write a packet: whether it can be sent, and whether it is acknowledged. -/
structure WriteTry where
  tx : Bool
  ack : Bool

/-- The variables of the function, the tries to come, and the packets that were sent, each with whether it was
acknowledged. -/
structure HexState where
  lineData : CArray Byte
  packet : CArray Byte
  packetIndex : ℕ
  transferAddress : BitVec 32
  hexTransferAddress : BitVec 32
  tries : List WriteTry
  sent : List (List Byte × Bool)

/-- The loop that sends a packet, after `write_attempt` tries.  The last try fails also if it is acknowledged. -/
def writePacket (p : List Byte) : ℕ → List WriteTry → List (List Byte × Bool) →
    (List WriteTry × List (List Byte × Bool)) × HexExit
  | _, [], sent => (([], sent), .waiting)
  | writeAttempt, t :: ts, sent =>
    if t.tx = false then ((ts, sent), .returned false)
    else if t.ack = false ∧ writeAttempt + 1 < hexMaxWriteRetry then
      writePacket p (writeAttempt + 1) ts (sent ++ [(p, false)])
    else ((ts, sent ++ [(p, t.ack)]), if writeAttempt + 1 = hexMaxWriteRetry then .returned false else .next)

/-- The first bytes of a packet. -/
def writeHeader (address : BitVec 32) (length : ℕ) : List Byte :=
  [dloadCmdWrite32bit, byteAt address 3, byteAt address 2, byteAt address 1, byteAt address 0,
    byteAt (BitVec.ofNat 32 length) 1, byteAt (BitVec.ofNat 32 length) 0]

/-- The packet is sent, and a new one begins. -/
def flushPacket (st : HexState) : Option (HexState × HexExit) :=
  (st.packet.writeList 0 (writeHeader st.transferAddress (st.packetIndex - 7))).bind fun packet =>
    if packet.size < st.packetIndex then none
    else
      let res := writePacket (packet.slice 0 st.packetIndex) 0 st.tries st.sent
      let st := { st with packet := packet, tries := res.1.1, sent := res.1.2 }
      some (if res.2 = .next then
        ({ st with transferAddress := st.transferAddress + BitVec.ofNat 32 (st.packetIndex - 7), packetIndex := 7 },
          .next) else (st, res.2))

/-- The data of a line are put to the packet. -/
def appendLine (byteCount : ℕ) (st : HexState) : Option (HexState × HexExit) :=
  if st.lineData.size < byteCount then none
  else (st.packet.writeList st.packetIndex (st.lineData.slice 0 byteCount)).map fun packet =>
    ({ st with packet := packet, packetIndex := st.packetIndex + byteCount }, .next)

/-- What is done with a line. -/
def processLine (readAddressOnly : Bool) (f : HexFields) (st : HexState) : Option (HexState × HexExit) :=
  if readAddressOnly then
    if f.recordType = 5 ∧ f.byteCount = 4 ∧ f.address = 0 then
      some ({ st with hexTransferAddress :=
                        wordOf (st.lineData.get 0) (st.lineData.get 1) (st.lineData.get 2) (st.lineData.get 3) },
        .returned true)
    else some (st, .next)
  else if f.recordType = 0 ∨ f.recordType = 1 then
    (if hexPacketSize < st.packetIndex + f.byteCount ∨ f.recordType = 1 then flushPacket st
      else some (st, .next)).bind fun res =>
        if res.2 = .next ∧ f.recordType ≠ 1 then appendLine f.byteCount res.1 else some res
  else some (st, .next)

/-- The loop over the lines.  A line has a character, so the length of the text bounds the rounds. -/
def hexLoop (readAddressOnly : Bool) : ℕ → List Char → HexState → Option (HexState × HexExit)
  | 0, _, st => some (st, .returned false)
  | fuel + 1, s, st => (scanLine st.lineData s).bind fun
    | none => some (st, .returned false)
    | some (f, lineData, s) => (processLine readAddressOnly f { st with lineData := lineData }).bind fun res =>
        if res.2 = .next then
          if f.recordType = 1 then some (res.1, .returned true) else hexLoop readAddressOnly fuel s res.1
        else some res

/-- What the outside does: the parameter response, whether there is memory for a packet, and the tries. -/
structure HexTarget where
  param : Option (Byte × Byte)
  malloc : Bool
  tries : List WriteTry

/-- `parse_hex_file()`; `file` is `none` if the file cannot be opened. -/
def parseHexFile (file : Option (List Char)) (readAddressOnly : Bool) (hexTransferAddress : BitVec 32)
    (x : HexTarget) : Option (HexState × HexExit) :=
  let st : HexState := ⟨CArray.zeros 0xff, CArray.null, 0, 0, hexTransferAddress, x.tries, []⟩
  match file with
  | none => some (st, .returned false)
  | some s =>
    if readAddressOnly then hexLoop true (s.length + 1) s st
    else match x.param with
      | none => some (st, .returned false)
      | some (b3, b4) =>
        if b3.toNat <<< 8 ||| b4.toNat = 0 then some (st, .returned false)
        else if x.malloc = false then some (st, .returned false)
        else hexLoop false (s.length + 1) s
          { st with packet := CArray.zeros hexPacketSize, packetIndex := 7, transferAddress := hexTransferAddress }

/-! ### Well-formed files -/

/-- A line: `:`, the digits of its bytes, white space. -/
structure HexLine where
  digits : List Char
  addressHigh : Byte
  addressLow : Byte
  recordType : Byte
  data : List Byte
  checksum : Byte
  eol : List Char
  length_le : data.length ≤ 255
  digits_eq : HexPairs digits
    (BitVec.ofNat 8 data.length :: addressHigh :: addressLow :: recordType :: (data ++ [checksum]))
  eol_space : ∀ c ∈ eol, isSpace c = true

def HexLine.text (l : HexLine) : List Char := ':' :: (l.digits ++ l.eol)

/-- A file: lines of any types, then the line that ends the file. -/
structure HexFile where
  body : List HexLine
  last : HexLine
  body_ne : ∀ l ∈ body, l.recordType ≠ 1
  last_eq : last.recordType = 1

def HexFile.lines (f : HexFile) : List HexLine := f.body ++ [f.last]

def HexFile.text (f : HexFile) : List Char := (f.lines.map HexLine.text).flatten

/-- The data of the data records among some lines. -/
def lineData (ls : List HexLine) : List Byte := ((ls.filter fun l => l.recordType = 0).map HexLine.data).flatten

/-! ### Reading a well-formed line -/

variable {a : CArray Byte} {r s : List Char}

section

variable {data : List Byte} {c : Byte} {i : ℕ} (hs : HexPairs s (data ++ [c]))
    (hsize : a.size = 255)
include hs hsize

theorem scanData_of_le (hfit : i + data.length ≤ 252) :
    ∃ a' t, scanData data.length i a (s ++ r) = some (some (a', t ++ r)) ∧ HexPairs t [c] ∧ a'.size = 255 ∧
      a'.slice i data.length = data ∧ ∀ j, j < i → a'.get j = a.get j := by
  induction data generalizing s i a with
  | nil => exact ⟨a, s, rfl, hs, hsize, rfl, fun _ _ => rfl⟩
  | cons b data ih =>
    rw [length_cons] at hfit
    obtain ⟨t, hscan, ht⟩ := HexPairs.scanHex_two hs r
    have hroom : i + [b, 0, 0, 0].length ≤ a.size := by
      rw [hsize]
      simp only [length_cons, length_nil]
      omega
    obtain ⟨a1, hw, hsize1, hslice1, hothers1⟩ := CArray.writeList_of_le hroom
    have hb : a1.get i = b := by
      rw [length_cons, CArray.slice_succ, cons.injEq] at hslice1
      exact hslice1.1
    obtain ⟨a', t', hrun, ht', hsize', hslice, hothers⟩ := ih ht (hsize1.trans hsize) (i := i + 1) (by omega)
    refine ⟨a', t', ?_, ht', hsize', ?_, ?_⟩
    · rw [length_cons, scanData, hscan]
      simp only
      rw [BitVec.ofNat_toNat, BitVec.setWidth_eq, hw, bind_some, hrun]
    · rw [length_cons, CArray.slice_succ, hslice, hothers i (Nat.lt_succ_self i), hb]
    · intro j hj
      rw [hothers j (by omega), hothers1 j (.inl hj)]

theorem scanData_of_lt (hi : i ≤ 252) (hlong : 252 < i + data.length) : scanData data.length i a (s ++ r) = none := by
  induction data generalizing s i a with
  | nil => simp at hlong; omega
  | cons b data ih =>
    rw [length_cons] at hlong
    obtain ⟨t, hscan, ht⟩ := HexPairs.scanHex_two hs r
    rw [length_cons, scanData, hscan]
    simp only
    rcases Nat.lt_or_ge i 252 with hlt | _
    · have hroom : i + [BitVec.ofNat 8 b.toNat, 0, 0, 0].length ≤ a.size := by
        rw [hsize]
        simp only [length_cons, length_nil]
        omega
      obtain ⟨_, hw, hsize1, -, -⟩ := CArray.writeList_of_le hroom
      rw [hw, bind_some]
      exact ih ht (hsize1.trans hsize) hlt (by omega)
    obtain rfl : i = 252 := by omega
    have hout : a.writeList 252 [BitVec.ofNat 8 b.toNat, 0, 0, 0] = none := by
      simp [CArray.writeList, CArray.write, hsize, CArray.set]
    rw [hout]
    rfl

end

theorem scanLine_text (l : HexLine) (a : CArray Byte) (r : List Char) :
    ∃ address t, HexPairs t (l.data ++ [l.checksum]) ∧ scanLine a (l.text ++ r) =
      (scanData l.data.length 0 a (t ++ (l.eol ++ r))).map
        (scanChecksum ⟨l.data.length, address, l.recordType.toNat⟩) := by
  have hlen := l.length_le
  obtain ⟨_, h1, hs1⟩ := l.digits_eq.scanHex_two (l.eol ++ r)
  obtain ⟨c, d, _, x, y, rfl, hc, hd, -, hs2⟩ := hs1.cons
  obtain ⟨e, g, s3, z, w, rfl, he, hg, -, hs3⟩ := hs2.cons
  obtain ⟨s4, h4, hs4⟩ := hs3.scanHex_two (l.eol ++ r)
  refine ⟨16 * (16 * (16 * x + y) + z) + w, s4, hs4, ?_⟩
  have hcount : (BitVec.ofNat 8 l.data.length).toNat = l.data.length := by
    rw [BitVec.toNat_ofNat]
    omega
  have htext : l.text ++ r = ':' :: (l.digits ++ (l.eol ++ r)) := by
    rw [HexLine.text, cons_append, append_assoc]
  have hsmall : ¬4096 < l.data.length := by omega
  have h2 : scanHex 4 (c :: d :: e :: g :: s3 ++ (l.eol ++ r)) =
      some (16 * (16 * (16 * x + y) + z) + w, s3 ++ (l.eol ++ r)) :=
    scanHex_two_pairs hc hd he hg (s3 ++ (l.eol ++ r))
  rw [htext, scanLine, if_neg (by simp), h1]
  simp only [bind_eq_bind, bind_some]
  rw [h2]
  simp only [bind_some]
  rw [h4]
  simp only [bind_some, hcount, if_neg hsmall]
  cases scanData l.data.length 0 a (s4 ++ (l.eol ++ r)) <;> rfl

/-- **A line with at most 252 bytes** is read. -/
theorem scanLine_of_le (l : HexLine) (hsize : a.size = 255) (hr : skipSpace r = r) (hfit : l.data.length ≤ 252) :
    ∃ address a', scanLine a (l.text ++ r) = some (some (⟨l.data.length, address, l.recordType.toNat⟩, a', r)) ∧
      a'.size = 255 ∧ a'.slice 0 l.data.length = l.data := by
  obtain ⟨address, t, ht, hrun⟩ := scanLine_text l a r
  obtain ⟨a', _, hdata, ht', hsize', hslice, -⟩ := scanData_of_le (r := l.eol ++ r) (i := 0) ht hsize (by omega)
  obtain ⟨_, hsum, hnil⟩ := ht'.scanHex_two (l.eol ++ r)
  obtain rfl := hnil.nil
  refine ⟨address, a', ?_, hsize', hslice⟩
  rw [hrun, hdata, map_some, scanChecksum, hsum, map_some, nil_append, skipSpace_append l.eol_space, hr]

/-- **A longer line** is not. -/
theorem scanLine_of_lt (l : HexLine) (hsize : a.size = 255) (r : List Char)
    (hlong : 252 < l.data.length) : scanLine a (l.text ++ r) = none := by
  obtain ⟨_, t, ht, hrun⟩ := scanLine_text l a r
  rw [hrun, scanData_of_lt ht hsize (Nat.zero_le _) (by omega)]
  rfl

end G4Common.MdmTransfer
