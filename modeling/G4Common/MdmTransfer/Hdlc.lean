/-
Frames of asynchronous HDLC (`mdm-helper/mdmfiletransfer/hdlc.c` and `crc.c`).

A packet is sent between two flags, with its checksum behind it and with flags and escapes in it
escaped.  `hdlc_encode()` writes the frame to a buffer.  `hdlc_decode()` reads a frame and writes what
it decodes to the same place: the write index follows the read index.

Both are given here as they work on memory, and `hdlcEncode_eq` and `decodeLoop_decodes` say what they
do in terms of lists of bytes and of stuffing.  With these, `hdlc_round_trip` is a fact about stuffing and
about the residue of the checksum.

A `size_t` has 32 bits.  Lengths and indices are natural numbers, cut to 32 bits where a length is
multiplied (`sizeT`): the bits of 2^29 bytes are too many for a `size_t`, so the checksum of a longer
packet is that of its first bytes only.
-/
import G4Common.Lib.CBuffer
import G4Common.Lib.Crc16
import G4Common.Lib.Stuffing
import Mathlib.Algebra.Ring.Nat
import Mathlib.Data.List.GetD
import Mathlib.Data.List.Induction

namespace G4Common.MdmTransfer

open List Option Function

abbrev Byte := BitVec 8

/-! ### The checksum -/

def crcTable : List (BitVec 16) :=
  [0x0000, 0x1189, 0x2312, 0x329b, 0x4624, 0x57ad, 0x6536, 0x74bf,
    0x8c48, 0x9dc1, 0xaf5a, 0xbed3, 0xca6c, 0xdbe5, 0xe97e, 0xf8f7,
    0x1081, 0x0108, 0x3393, 0x221a, 0x56a5, 0x472c, 0x75b7, 0x643e,
    0x9cc9, 0x8d40, 0xbfdb, 0xae52, 0xdaed, 0xcb64, 0xf9ff, 0xe876,
    0x2102, 0x308b, 0x0210, 0x1399, 0x6726, 0x76af, 0x4434, 0x55bd,
    0xad4a, 0xbcc3, 0x8e58, 0x9fd1, 0xeb6e, 0xfae7, 0xc87c, 0xd9f5,
    0x3183, 0x200a, 0x1291, 0x0318, 0x77a7, 0x662e, 0x54b5, 0x453c,
    0xbdcb, 0xac42, 0x9ed9, 0x8f50, 0xfbef, 0xea66, 0xd8fd, 0xc974,
    0x4204, 0x538d, 0x6116, 0x709f, 0x0420, 0x15a9, 0x2732, 0x36bb,
    0xce4c, 0xdfc5, 0xed5e, 0xfcd7, 0x8868, 0x99e1, 0xab7a, 0xbaf3,
    0x5285, 0x430c, 0x7197, 0x601e, 0x14a1, 0x0528, 0x37b3, 0x263a,
    0xdecd, 0xcf44, 0xfddf, 0xec56, 0x98e9, 0x8960, 0xbbfb, 0xaa72,
    0x6306, 0x728f, 0x4014, 0x519d, 0x2522, 0x34ab, 0x0630, 0x17b9,
    0xef4e, 0xfec7, 0xcc5c, 0xddd5, 0xa96a, 0xb8e3, 0x8a78, 0x9bf1,
    0x7387, 0x620e, 0x5095, 0x411c, 0x35a3, 0x242a, 0x16b1, 0x0738,
    0xffcf, 0xee46, 0xdcdd, 0xcd54, 0xb9eb, 0xa862, 0x9af9, 0x8b70,
    0x8408, 0x9581, 0xa71a, 0xb693, 0xc22c, 0xd3a5, 0xe13e, 0xf0b7,
    0x0840, 0x19c9, 0x2b52, 0x3adb, 0x4e64, 0x5fed, 0x6d76, 0x7cff,
    0x9489, 0x8500, 0xb79b, 0xa612, 0xd2ad, 0xc324, 0xf1bf, 0xe036,
    0x18c1, 0x0948, 0x3bd3, 0x2a5a, 0x5ee5, 0x4f6c, 0x7df7, 0x6c7e,
    0xa50a, 0xb483, 0x8618, 0x9791, 0xe32e, 0xf2a7, 0xc03c, 0xd1b5,
    0x2942, 0x38cb, 0x0a50, 0x1bd9, 0x6f66, 0x7eef, 0x4c74, 0x5dfd,
    0xb58b, 0xa402, 0x9699, 0x8710, 0xf3af, 0xe226, 0xd0bd, 0xc134,
    0x39c3, 0x284a, 0x1ad1, 0x0b58, 0x7fe7, 0x6e6e, 0x5cf5, 0x4d7c,
    0xc60c, 0xd785, 0xe51e, 0xf497, 0x8028, 0x91a1, 0xa33a, 0xb2b3,
    0x4a44, 0x5bcd, 0x6956, 0x78df, 0x0c60, 0x1de9, 0x2f72, 0x3efb,
    0xd68d, 0xc704, 0xf59f, 0xe416, 0x90a9, 0x8120, 0xb3bb, 0xa232,
    0x5ac5, 0x4b4c, 0x79d7, 0x685e, 0x1ce1, 0x0d68, 0x3ff3, 0x2e7a,
    0xe70e, 0xf687, 0xc41c, 0xd595, 0xa12a, 0xb0a3, 0x8238, 0x93b1,
    0x6b46, 0x7acf, 0x4854, 0x59dd, 0x2d62, 0x3ceb, 0x0e70, 0x1ff9,
    0xf78f, 0xe606, 0xd49d, 0xc514, 0xb1ab, 0xa022, 0x92b9, 0x8330,
    0x7bc7, 0x6a4e, 0x58d5, 0x495c, 0x3de3, 0x2c6a, 0x1ef1, 0x0f78]

/-- What is left of a number in a `size_t`. -/
def sizeT (n : ℕ) : ℕ := n % 2 ^ 32

/-- `calculate_crc()`, which takes a byte as long as eight bits are left. -/
def calculateCrc (pBuf : List Byte) (bitLen : ℕ) : BitVec 16 :=
  ~~~(pBuf.take (bitLen / 8)).foldl
    (fun crc b => crcTable.getD ((crc ^^^ b.setWidth 16) &&& 0x00ff#16).toNat 0 ^^^ (crc >>> 8)) 0xFFFF#16

def setCrc (buffer : CArray Byte) (length : ℕ) : Option (CArray Byte) := do
  let crc := calculateCrc (buffer.slice 0 length) (sizeT (length * 8))
  let buffer ← buffer.write length (crc.setWidth 8)
  buffer.write (length + 1) ((crc >>> 8).setWidth 8)

/-- `check_crc()` of all of a buffer. -/
def checkCrc (buffer : List Byte) : Bool := calculateCrc buffer (sizeT (buffer.length * 8)) = 0x0F47#16

def crcWord (b : Byte) : BitVec 16 := crcTable.getD b.toNat 0

theorem crcStep_eq (crc : BitVec 16) (b : Byte) :
    crcTable.getD ((crc ^^^ b.setWidth 16) &&& 0x00ff#16).toNat 0 ^^^ (crc >>> 8)
      = Crc16.step crcWord crc b := by
  have hidx : ((crc ^^^ b.setWidth 16) &&& 0x00ff#16).toNat = (Crc16.lo crc ^^^ b).toNat := by
    have hmask : (crc ^^^ b.setWidth 16) &&& 0x00ff#16 = (Crc16.lo crc ^^^ b).setWidth 16 := by
      apply BitVec.eq_of_getLsbD_eq
      intro i hi
      by_cases h8 : i < 8
      · have hbit : (0x00ff#16).getLsbD i = true := by
          have : ∀ i < 8, (0x00ff#16).getLsbD i = true := by decide
          exact this i h8
        simp [Crc16.lo, hbit, h8, show i < 16 from hi]
      have hbit : (0x00ff#16).getLsbD i = false := by
        have : ∀ i < 16, ¬ i < 8 → (0x00ff#16).getLsbD i = false := by decide
        exact this i hi h8
      simp only [BitVec.getLsbD_and, hbit, Bool.and_false]
      rw [BitVec.getLsbD_setWidth, BitVec.getLsbD_of_ge _ i (by omega), Bool.and_false]
    rw [hmask, BitVec.toNat_setWidth]
    exact Nat.mod_eq_of_lt (by omega)
  rw [hidx]
  rfl

/-- The checksum of all of a list. -/
def crcOf (l : List Byte) : BitVec 16 := ~~~Crc16.run crcWord 0xFFFF#16 l

theorem calculateCrc_eq (buf : List Byte) (bits : ℕ) : calculateCrc buf bits = crcOf (buf.take (bits / 8)) := by
  simp only [calculateCrc, crcStep_eq]
  rfl

/-- The bits of `n` bytes reach the first `n % 2^29` of them. -/
theorem calculateCrc_sizeT (buf : List Byte) (n : ℕ) :
    calculateCrc buf (sizeT (n * 8)) = crcOf (buf.take (n % 2 ^ 29)) := by
  have hbits : sizeT (n * 8) / 8 = n % 2 ^ 29 := by
    rw [sizeT]
    omega
  rw [calculateCrc_eq, hbits]

theorem residue_crcWord : ~~~Crc16.residue crcWord = 0x0F47#16 := by
  decide

theorem alone_of_all {b w : Byte} (hw : Crc16.hi (crcWord b) = w)
    (h : crcTable.zipIdx.all (fun x => Crc16.hi x.1 != w || x.2 == b.toNat)) : Crc16.Alone crcWord b := by
  intro c hc
  have hlen : crcTable.length = 256 := by decide +kernel
  have hlt : c.toNat < crcTable.length := by
    rw [hlen]
    exact c.isLt
  have hmem : (crcWord c, c.toNat) ∈ crcTable.zipIdx := by
    rw [mk_mem_zipIdx_iff_getElem?, getElem?_eq_getElem hlt, crcWord, getD_eq_getElem _ _ hlt]
  have hx := all_eq_true.1 h _ hmem
  rw [hw] at hc
  simp only [hc, bne_self_eq_false, Bool.false_or, beq_iff_eq] at hx
  exact BitVec.eq_of_toNat_eq hx

theorem alone_255 : Crc16.Alone crcWord 255#8 := alone_of_all (w := 0x0F#8) (by decide) (by decide +kernel)

theorem alone_135 : Crc16.Alone crcWord (Crc16.lo (crcWord 255#8) ^^^ 255#8) :=
  alone_of_all (w := 0xF0#8) (by decide) (by decide +kernel)

/-- The checksum of a packet, as it is sent: low byte first. -/
def crcBytes (p : List Byte) : List Byte := Crc16.bytes (calculateCrc p (sizeT (p.length * 8)))

variable {a : CArray Byte} {d l p : List Byte} {base c fuel i length n : ℕ}

theorem crcBytes_of_lt (hp : p.length < 2 ^ 29) : crcBytes p = Crc16.bytes (crcOf p) := by
  rw [crcBytes, calculateCrc_sizeT, Nat.mod_eq_of_lt hp, take_length]

/-- **The residue** is left by data with its checksum behind it, and by no other. -/
theorem crcOf_eq_residue_iff : crcOf d = 0x0F47#16 ↔ ∃ p, d = p ++ Crc16.bytes (crcOf p) := by
  constructor
  · intro h
    have hrun : Crc16.run crcWord 0xFFFF#16 d = Crc16.residue crcWord := by
      rw [crcOf, ← residue_crcWord] at h
      exact BitVec.not_inj.1 h
    induction d using reverseRecOn with
    | nil => cases hrun
    | append_singleton d b2 =>
      induction d using reverseRecOn with
      | nil =>
        -- One byte would have to take the same word as the last byte of a checksum.
        exfalso
        have hhi : Crc16.hi (crcWord (Crc16.lo 0xFFFF#16 ^^^ b2)) =
            Crc16.hi (crcWord (Crc16.lo (crcWord 255#8) ^^^ 255#8)) := by
          rw [← Crc16.hi_step, ← Crc16.hi_residue]
          exact congrArg Crc16.hi hrun
        have hx := alone_135 _ hhi
        have hstep : Crc16.step crcWord 0xFFFF#16 b2 = Crc16.residue crcWord := hrun
        rw [Crc16.step, hx] at hstep
        cases hstep
      | append_singleton p =>
        refine ⟨p, ?_⟩
        rw [append_assoc, Crc16.run_append] at hrun
        have hb := Crc16.eq_complement_of_run crcWord alone_255 alone_135 hrun
        rw [append_assoc, crcOf, ← hb]
        rfl
  · rintro ⟨p, rfl⟩
    rw [crcOf, crcOf, Crc16.run_append, Crc16.run_complement, residue_crcWord]

/-- **`check_crc()` accepts exactly data with its checksum behind it**, where it looks at all of them. -/
theorem checkCrc_iff_of_lt (hd : d.length < 2 ^ 29) : checkCrc d ↔ ∃ p, d = p ++ crcBytes p := by
  rw [checkCrc, decide_eq_true_eq, calculateCrc_sizeT, Nat.mod_eq_of_lt hd, take_length, crcOf_eq_residue_iff]
  refine exists_congr fun p => ?_
  constructor
  · intro h
    rw [crcBytes_of_lt (by rw [h, length_append] at hd; omega)]
    exact h
  · intro h
    rw [crcBytes_of_lt (by rw [h, length_append] at hd; omega)] at h
    exact h

theorem checkCrc_take : checkCrc (d.take (d.length % 2 ^ 29)) = checkCrc d := by
  have hlen : (d.take (d.length % 2 ^ 29)).length = d.length % 2 ^ 29 :=
    length_take_of_le (Nat.mod_le _ _)
  rw [checkCrc, checkCrc, calculateCrc_sizeT, calculateCrc_sizeT, hlen, Nat.mod_mod, take_take, Nat.min_self]

/-- **When a packet is accepted with its checksum behind it**: it is short enough, or what `check_crc()` looks
at ends with its own checksum. -/
theorem checkCrc_append_crcBytes_iff : checkCrc (p ++ crcBytes p) ↔
    p.length + 2 < 2 ^ 29 ∨ ∃ q, p.take ((p.length + 2) % 2 ^ 29) = q ++ crcBytes q := by
  have hlen : (p ++ crcBytes p).length = p.length + 2 := length_append
  by_cases hp : p.length + 2 < 2 ^ 29
  · exact iff_of_true ((checkCrc_iff_of_lt (hlen ▸ hp)).2 ⟨p, rfl⟩) (.inl hp)
  have hpart : (p ++ crcBytes p).take ((p ++ crcBytes p).length % 2 ^ 29) = p.take ((p.length + 2) % 2 ^ 29) := by
    rw [hlen, take_append_of_le_length (by omega)]
  have hshort : (p.take ((p.length + 2) % 2 ^ 29)).length < 2 ^ 29 := by
    rw [length_take]
    omega
  rw [← checkCrc_take, hpart, checkCrc_iff_of_lt hshort, or_iff_right hp]

/-- 2^29 - 2 zeroes with their checksum: `check_crc()` looks at none of the bytes. -/
theorem not_checkCrc_zeroes : ¬ checkCrc (replicate (2 ^ 29 - 2) 0 ++ crcBytes (replicate (2 ^ 29 - 2) 0)) := by
  rw [checkCrc_append_crcBytes_iff, length_replicate, Nat.sub_add_cancel (by decide), Nat.mod_self, take_zero]
  rintro (h | ⟨q, h⟩)
  · exact absurd h (Nat.lt_irrefl _)
  · cases (append_eq_nil_iff.1 h.symm).2

/-! ### Encoding and decoding -/

def ahdlcFlag : Byte := 0x7e#8

def ahdlcEscape : Byte := 0x7d#8

def ahdlcEscM : Byte := 0x20#8

/-- `encoded_buffer[encode_index++] = value`. -/
def put (st : CArray Byte × ℕ) (value : Byte) : Option (CArray Byte × ℕ) :=
  (st.1.write st.2 value).map fun a => (a, st.2 + 1)

/-- The body of the two loops of `hdlc_encode()`. -/
def putEscaped (st : CArray Byte × ℕ) (value : Byte) : Option (CArray Byte × ℕ) :=
  if value = ahdlcFlag ∨ value = ahdlcEscape then do
    let st ← put st ahdlcEscape
    put st (value ^^^ ahdlcEscM)
  else put st value

/-- `hdlc_encode()`.  The length of the frame is given if it returns `TRUE`. -/
def hdlcEncode (packet : List Byte) (encodedBuffer : CArray Byte) (encodingBufferLength : ℕ) :
    Option (CArray Byte × Option ℕ) :=
  if encodingBufferLength < sizeT (packet.length * 2 + 4) then some (encodedBuffer, none)
  else do
    let crc := calculateCrc packet (sizeT (packet.length * 8))
    let st ← put (encodedBuffer, 0) ahdlcFlag
    let st ← packet.foldlM putEscaped st
    let st ← [(crc &&& 0x00ff#16).setWidth 8, (crc >>> 8).setWidth 8].foldlM putEscaped st
    let st ← put st ahdlcFlag
    return (st.1, some st.2)

/-- The loop of `hdlc_decode_skip_opening()` over a buffer that begins at `base`, with the two indices.
The first number bounds the rounds; each round moves `buffer_index`. -/
def decodeLoop (base length : ℕ) : ℕ → CArray Byte → ℕ → ℕ → Option (CArray Byte × Option ℕ)
  | 0, a, _, _ => some (a, none)
  | fuel + 1, a, i, c =>
    if i < length then do
      let b ← a.read (base + i)
      if b = ahdlcEscape then do
        let e ← a.read (base + (i + 1))
        if e = 0x5E#8 then do
          let a ← a.write (base + c) ahdlcFlag
          decodeLoop base length fuel a (i + 2) (c + 1)
        else if e = 0x5D#8 then do
          let a ← a.write (base + c) ahdlcEscape
          decodeLoop base length fuel a (i + 2) (c + 1)
        else some (a, none)
      else if b = ahdlcFlag then some (a, some c)
      else do
        let a ← a.write (base + c) b
        decodeLoop base length fuel a (i + 1) (c + 1)
    else some (a, none)

/-- `hdlc_decode_skip_opening()`.  The decoded length is given if it returns `TRUE`. -/
def hdlcDecodeSkipOpening (a : CArray Byte) (base length : ℕ) (skipOpeningByteCheck : Bool) :
    Option (CArray Byte × Option ℕ) :=
  if skipOpeningByteCheck then decodeLoop base length length a 0 0
  else do
    let b ← a.read base
    if b ≠ ahdlcFlag then return (a, none)
    decodeLoop base length length a 1 0

def hdlcDecode (a : CArray Byte) (base length : ℕ) : Option (CArray Byte × Option ℕ) :=
  hdlcDecodeSkipOpening a base length false

/-- `encode_and_send()`, where `tx` is the answer of `tx_data()`. -/
def encodeAndSend (packet : List Byte) (encodingBuffer : CArray Byte) (tx : Bool) :
    Option (CArray Byte × Bool) :=
  (hdlcEncode packet encodingBuffer encodingBuffer.size).map fun res =>
    (res.1, if res.2 = none then false else tx)

/-! ### Frames -/

def ahdlc : Stuffing Byte where
  flag := ahdlcFlag
  esc := ahdlcEscape
  flag' := 0x5E#8
  esc' := 0x5D#8
  esc_ne_flag := by decide
  flag'_ne := by decide
  esc'_ne := by decide
  esc'_ne_flag' := by decide

def frame (p : List Byte) : List Byte :=
  ahdlcFlag :: (ahdlc.stuff (p ++ crcBytes p) ++ [ahdlcFlag])

theorem length_frame_le (p : List Byte) : (frame p).length ≤ 2 * p.length + 6 := by
  have h := Stuffing.length_stuff_le (S := ahdlc) (p ++ crcBytes p)
  have hcrc : (crcBytes p).length = 2 := rfl
  simp only [frame, length_cons, length_append, length_nil] at h ⊢
  omega

/-- A sequence of `encoded_buffer[encode_index++] = value`. -/
def putList (l : List Byte) (st : CArray Byte × ℕ) : Option (CArray Byte × ℕ) :=
  (st.1.writeList st.2 l).map fun a => (a, st.2 + l.length)

theorem putList_append (l m : List Byte) (st : CArray Byte × ℕ) :
    putList (l ++ m) st = (putList l st).bind fun st => putList m st := by
  rw [putList, putList, CArray.writeList_append]
  cases st.1.writeList st.2 l with
  | none => rfl
  | some =>
    rw [map_some, bind_some, bind_some, putList, length_append, Nat.add_assoc]

theorem put_eq_putList (st : CArray Byte × ℕ) (b : Byte) : put st b = putList [b] st := by
  rw [put, putList, CArray.writeList]
  cases st.1.write st.2 b <;> rfl

theorem putEscaped_eq_putList (st : CArray Byte × ℕ) (b : Byte) : putEscaped st b = putList (ahdlc.stuff1 b) st := by
  have htwo : ∀ e, (put st ahdlcEscape).bind (fun st => put st e) = putList [ahdlcEscape, e] st := by
    intro e
    rw [put_eq_putList, show [ahdlcEscape, e] = [ahdlcEscape] ++ [e] from rfl, putList_append]
    exact congrArg _ (funext fun st => put_eq_putList st e)
  rw [putEscaped, Stuffing.stuff1]
  by_cases hf : b = ahdlcFlag
  · have hm : b ^^^ ahdlcEscM = ahdlc.flag' := by
      rw [hf]
      decide
    rw [if_pos (.inl hf), if_pos (show b = ahdlc.flag from hf), hm]
    exact htwo _
  by_cases he : b = ahdlcEscape
  · have hm : b ^^^ ahdlcEscM = ahdlc.esc' := by
      rw [he]
      decide
    rw [if_pos (.inr he), if_neg (show ¬ b = ahdlc.flag from hf), if_pos (show b = ahdlc.esc from he), hm]
    exact htwo _
  · rw [if_neg (not_or.2 ⟨hf, he⟩), if_neg (show ¬ b = ahdlc.flag from hf),
      if_neg (show ¬ b = ahdlc.esc from he), put_eq_putList]

theorem foldlM_putEscaped (l : List Byte) (st : CArray Byte × ℕ) :
    l.foldlM putEscaped st = putList (ahdlc.stuff l) st := by
  induction l generalizing st with
  | nil => rfl
  | cons _ _ ih =>
    rw [foldlM_cons, putEscaped_eq_putList, Stuffing.stuff_cons, putList_append]
    exact congrArg _ (funext ih)

theorem crc_bytes_eq (crc : BitVec 16) :
    [(crc &&& 0x00ff#16).setWidth 8, (crc >>> 8).setWidth 8] = Crc16.bytes crc := by
  have hlo : (crc &&& 0x00ff#16).setWidth 8 = Crc16.lo crc := by
    apply BitVec.eq_of_getLsbD_eq
    intro i hi
    have hbit : ∀ i < 8, (0x00ff#16).getLsbD i = true := by decide
    rw [Crc16.lo, BitVec.getLsbD_setWidth, BitVec.getLsbD_setWidth, BitVec.getLsbD_and, hbit i hi, Bool.and_true]
  rw [hlo]
  rfl

/-- **What `hdlc_encode()` writes**: the frame of the packet, if the length given is enough for the test
at the start. -/
theorem hdlcEncode_eq (p : List Byte) (a : CArray Byte) (hn : sizeT (p.length * 2 + 4) ≤ n) :
    hdlcEncode p a n = (a.writeList 0 (frame p)).map fun a => (a, some (frame p).length) := by
  have hframe : frame p = [ahdlcFlag] ++ (ahdlc.stuff p ++ (ahdlc.stuff (crcBytes p) ++ [ahdlcFlag])) := by
    rw [frame, Stuffing.stuff_append, append_assoc]
    rfl
  have hput : hdlcEncode p a n = (putList (frame p) (a, 0)).map fun st => (st.1, some st.2) := by
    rw [hdlcEncode, if_neg (Nat.not_lt.2 hn), hframe]
    simp only [crc_bytes_eq, putList_append, put_eq_putList, foldlM_putEscaped, bind_eq_bind,
      map_eq_bind, bind_assoc]
    rfl
  rw [hput, putList, Option.map_map]
  refine congrArg (fun f => Option.map f _) (funext fun a => ?_)
  simp

/-- What the loop has done when it returns `TRUE`. -/
structure Decoded (a : CArray Byte) (base c : ℕ) (d : List Byte) (a' : CArray Byte) : Prop where
  size_eq : a'.size = a.size
  slice_eq : a'.slice (base + c) d.length = d
  others : ∀ j, j < base + c ∨ base + c + d.length ≤ j → a'.get j = a.get j

theorem Decoded.nil (a : CArray Byte) (base c : ℕ) : Decoded a base c [] a := ⟨rfl, rfl, fun _ _ => rfl⟩

theorem Decoded.cons {a' : CArray Byte} {x : Byte}
    (h : Decoded (a.set (base + c) x) base (c + 1) d a') : Decoded a base c (x :: d) a' where
  size_eq := h.size_eq
  slice_eq := by
    rw [length_cons, CArray.slice_succ, Nat.add_assoc, h.slice_eq, h.others _ (.inl (by omega)),
      CArray.get_set, update_self]
  others := by
    intro j hj
    rw [length_cons] at hj
    rw [h.others j (by omega), CArray.get_set, update_of_ne (by omega)]

theorem decodeLoop_of_le (h : length ≤ i) : decodeLoop base length fuel a i c = some (a, none) := by
  cases fuel with
  | zero => rfl
  | succ fuel => rw [decodeLoop, if_neg (by omega)]

/-- The outcome of the loop: it decodes the text `l`. -/
def Decodes (l : List Byte) (base c : ℕ) (a : CArray Byte) (r : Option (CArray Byte × Option ℕ)) : Prop :=
  (∀ d, ahdlc.unstuff l = some d → ∃ a', r = some (a', some (c + d.length)) ∧ Decoded a base c d a') ∧
    (ahdlc.unstuff l = none → ∀ a' n, r ≠ some (a', some n))

theorem Decodes.fails {r : Option (CArray Byte × Option ℕ)}
    (hl : ahdlc.unstuff l = none) (hr : ∀ a' n, r ≠ some (a', some n)) : Decodes l base c a r := by
  refine ⟨fun d hd => ?_, fun _ => hr⟩
  rw [hl] at hd
  cases hd

theorem Decodes.write {x : Byte}
    {r : Option (CArray Byte × Option ℕ)} (h : Decodes l base (c + 1) (a.set (base + c) x) r)
    {l' : List Byte} (hl : ahdlc.unstuff l' = (ahdlc.unstuff l).map (x :: ·)) : Decodes l' base c a r := by
  constructor
  · intro d hd
    rw [hl] at hd
    obtain ⟨e, he, rfl⟩ := map_eq_some_iff.1 hd
    obtain ⟨a', hr, hdec⟩ := h.1 e he
    refine ⟨a', ?_, hdec.cons⟩
    rw [hr, length_cons, Nat.add_assoc, Nat.add_comm 1]
  · intro hd
    rw [hl, map_eq_none_iff] at hd
    exact h.2 hd

/-- **The loop by the text that is left**: it ends with nothing left, with a wrong escape, with a flag or
with an escape that is the last byte, and otherwise a byte is decoded. -/
theorem decodeLoop_rule {P : ℕ → CArray Byte → List Byte → Option (CArray Byte × Option ℕ) → Prop}
    (hnil : ∀ c a, P c a [] (some (a, none)))
    (hbyte : ∀ c a x l r, P (c + 1) (a.set (base + c) x) l r → P c a (ahdlc.stuff1 x ++ l) r)
    (hwrong : ∀ c a e l, e ≠ 0x5E#8 → e ≠ 0x5D#8 → P c a (ahdlcEscape :: e :: l) (some (a, none)))
    (hflag : ∀ c a l, P c a (ahdlcFlag :: l) (some (a, some c)))
    (hcut : ∀ c a r, (∀ a' n, r ≠ some (a', some n)) → (a.size = base + length → r = none) →
      P c a [ahdlcEscape] r) (hsize : base + length ≤ a.size) (hci : c ≤ i) (hfuel : length - i ≤ fuel) :
    P c a (a.slice (base + i) (length - i)) (decodeLoop base length fuel a i c) := by
  induction fuel generalizing a i c with
  | zero =>
    have hle : length ≤ i := by omega
    rw [decodeLoop_of_le hle, Nat.sub_eq_zero_of_le hle]
    exact hnil c a
  | succ fuel ih =>
    by_cases hi : i < length
    swap
    · have hle : length ≤ i := by omega
      rw [decodeLoop_of_le hle, Nat.sub_eq_zero_of_le hle]
      exact hnil c a
    -- The write is behind the bytes that are still to be read.
    have hwrite : ∀ x i', i < i' → P c a (ahdlc.stuff1 x ++ a.slice (base + i') (length - i'))
        ((a.write (base + c) x).bind fun a => decodeLoop base length fuel a i' (c + 1)) := by
      intro x i' _
      rw [CArray.write_of_lt (by omega), bind_some]
      have hs : a.slice (base + i') (length - i') = (a.set (base + c) x).slice (base + i') (length - i') := by
        apply CArray.slice_congr
        intro j _ _
        rw [CArray.get_set, update_of_ne (by omega)]
      rw [hs]
      apply hbyte
      exact ih (by rw [CArray.size_set]; exact hsize) (by omega) (by omega)
    have hcons : ∀ j < length, a.slice (base + j) (length - j) =
        a.get (base + j) :: a.slice (base + (j + 1)) (length - (j + 1)) := by
      intro j hj
      rw [show length - j = length - (j + 1) + 1 by omega, CArray.slice_succ, Nat.add_assoc]
    rw [decodeLoop, if_pos hi, CArray.read_of_lt (by omega), hcons i hi]
    simp only [bind_eq_bind, bind_some]
    generalize a.get (base + i) = b
    by_cases hesc : b = ahdlcEscape
    · rw [if_pos hesc, hesc]
      by_cases hi1 : i + 1 < length
      · rw [CArray.read_of_lt (by omega), hcons (i + 1) hi1]
        simp only [bind_some]
        generalize a.get (base + (i + 1)) = e
        by_cases hf : e = 0x5E#8
        · rw [if_pos hf, hf]
          exact hwrite ahdlcFlag (i + 2) (by omega)
        by_cases he : e = 0x5D#8
        · rw [if_neg hf, if_pos he, he]
          exact hwrite ahdlcEscape (i + 2) (by omega)
        · rw [if_neg hf, if_neg he]
          exact hwrong c a e _ hf he
      -- The escape is the last byte: one byte behind the length is read, and the loop ends.
      rw [Nat.sub_eq_zero_of_le (by omega), CArray.slice_zero]
      apply hcut
      · intro a' n hr
        have hend : ∀ x, (a.write (base + c) x).bind
            (fun a => decodeLoop base length fuel a (i + 2) (c + 1)) = some (a.set (base + c) x, none) := by
          intro x
          rw [CArray.write_of_lt (by omega), bind_some, decodeLoop_of_le (by omega)]
        cases he : a.read (base + (i + 1)) with
        | none =>
          rw [he] at hr
          cases hr
        | some =>
          rw [he] at hr
          simp only [bind_some, hend] at hr
          split_ifs at hr <;> simp at hr
      · intro hsize
        have hout : ¬ base + (i + 1) < a.size := by omega
        rw [CArray.read, if_neg hout]
        rfl
    rw [if_neg hesc]
    by_cases hb : b = ahdlcFlag
    · rw [if_pos hb, hb]
      exact hflag c a _
    · rw [if_neg hb]
      have hw := hwrite b (i + 1) (by omega)
      rwa [Stuffing.stuff1_of_ne hesc hb] at hw

/-- **The loop decodes in place**: the bytes from `i` on, to the cells from `c` on. -/
theorem decodeLoop_decodes (hsize : base + length ≤ a.size) (hci : c ≤ i) (hfuel : length - i ≤ fuel) :
    Decodes (a.slice (base + i) (length - i)) base c a (decodeLoop base length fuel a i c) := by
  apply decodeLoop_rule (P := fun c a l r => Decodes l base c a r) _ _ _ _ _ hsize hci hfuel
  · exact fun c a => Decodes.fails rfl (by simp)
  · exact fun c a x l r h => h.write (Stuffing.unstuff_stuff1 x l)
  · exact fun c a e l hf he => Decodes.fails (Stuffing.unstuff_esc_of_ne (S := ahdlc) hf he _) (by simp)
  · intro c a l
    have hu := Stuffing.unstuff_flag (S := ahdlc) l
    refine ⟨fun d hd => ?_, fun hd => ?_⟩
    · cases hu.symm.trans hd
      exact ⟨a, rfl, Decoded.nil a base c⟩
    · cases hu.symm.trans hd
  · exact fun c a r hr _ => Decodes.fails (Stuffing.unstuff_esc_nil (S := ahdlc)) hr

theorem hdlcDecode_decodes (hbase : base < a.size) (hsize : base + length ≤ a.size) (hflag : a.get base = ahdlcFlag) :
    Decodes (a.slice (base + 1) (length - 1)) base 0 a (hdlcDecode a base length) := by
  rw [hdlcDecode, hdlcDecodeSkipOpening, if_neg (by simp), CArray.read_of_lt hbase, bind_eq_bind,
    bind_some, if_neg (not_not.2 hflag)]
  exact decodeLoop_decodes hsize (Nat.zero_le 1) (Nat.sub_le length 1)

theorem hdlcDecode_of_ne (hbase : base < a.size)
    (hflag : a.get base ≠ ahdlcFlag) : hdlcDecode a base length = some (a, none) := by
  rw [hdlcDecode, hdlcDecodeSkipOpening, if_neg (by simp), CArray.read_of_lt hbase, bind_eq_bind,
    bind_some, if_pos hflag]
  rfl

/-- **A frame in memory is decoded**, whatever follows it. -/
theorem hdlcDecode_frame (hsize : base + length ≤ a.size) (hlen : (frame p).length ≤ length)
    (hslice : a.slice base (frame p).length = frame p) :
    ∃ a', hdlcDecode a base length = some (a', some (p.length + 2)) ∧
      a'.slice base (p.length + 2) = p ++ crcBytes p := by
  have hpos : 0 < (frame p).length := Nat.succ_pos _
  -- The opening flag, the stuffed text with the closing flag, and the rest.
  have hall : a.slice base length = frame p ++ a.slice (base + (frame p).length) (length - (frame p).length) := by
    rw [← Nat.add_sub_of_le hlen, CArray.slice_add, hslice, Nat.add_sub_cancel_left]
  rw [show length = length - 1 + 1 by omega, CArray.slice_succ, frame, cons_append, cons.injEq] at hall
  obtain ⟨hflag, htail⟩ := hall
  have hun : ahdlc.unstuff (a.slice (base + 1) (length - 1)) = some (p ++ crcBytes p) := by
    rw [Stuffing.unstuff_eq_some_iff, htail]
    exact ⟨_, by rw [append_assoc]; rfl⟩
  obtain ⟨a', hr, hd⟩ := (hdlcDecode_decodes (by omega) hsize hflag).1 _ hun
  have hlen2 : (p ++ crcBytes p).length = p.length + 2 := by
    rw [length_append]
    rfl
  rw [hlen2, Nat.zero_add] at hr
  have hs := hd.slice_eq
  rw [hlen2] at hs
  exact ⟨a', hr, hs⟩

theorem frame_injective : Function.Injective frame := by
  intro p q h
  rw [frame, frame, cons.injEq] at h
  have hpq := Stuffing.stuff_injective (append_cancel_right h.2)
  have hlen : (crcBytes p).length = (crcBytes q).length := rfl
  exact (append_inj' hpq hlen).1

/-- `hdlc_encode()` makes `f` of `p`, in every buffer in which there is room for the packet with all its bytes
escaped, the checksum and the flags. -/
def Encodes (p f : List Byte) : Prop :=
  ∀ a : CArray Byte, 2 * p.length + 6 ≤ a.size →
    ∃ a', hdlcEncode p a a.size = some (a', some f.length) ∧ a'.slice 0 f.length = f

theorem encodes_frame (p : List Byte) : Encodes p (frame p) := by
  intro a _
  have hlen := length_frame_le p
  obtain ⟨a', hw, -, hslice, -⟩ := CArray.writeList_of_le (a := a) (i := 0) (l := frame p) (by omega)
  have hroom : sizeT (p.length * 2 + 4) ≤ a.size := by
    rw [sizeT]
    omega
  refine ⟨a', ?_, hslice⟩
  rw [hdlcEncode_eq p a hroom, hw]
  rfl

theorem Encodes.eq_frame {f : List Byte} (h : Encodes p f) : f = frame p := by
  obtain ⟨a, hr, hs⟩ := h (CArray.zeros (2 * p.length + 6)) (Nat.le_refl _)
  obtain ⟨b, hr', hs'⟩ := encodes_frame p (CArray.zeros (2 * p.length + 6)) (Nat.le_refl _)
  rw [hr, some.injEq, Prod.mk.injEq, some.injEq] at hr'
  obtain ⟨rfl, hlen⟩ := hr'
  rw [← hs, hlen, hs']

/-- Cut a list of bytes behind every second flag. -/
def splitFrames (l : List Byte) : List (List Byte) :=
  match l with
  | [] => []
  | b :: l =>
    (b :: (l.takeWhile (· ≠ ahdlcFlag) ++ [ahdlcFlag])) ::
      splitFrames (l.drop ((l.takeWhile (· ≠ ahdlcFlag)).length + 1))
termination_by l.length
decreasing_by simp only [length_drop, length_cons]; omega

theorem splitFrames_frame (p l : List Byte) : splitFrames (frame p ++ l) = frame p :: splitFrames l := by
  have hbody : (ahdlc.stuff (p ++ crcBytes p) ++ (ahdlcFlag :: l)).takeWhile (· ≠ ahdlcFlag)
      = ahdlc.stuff (p ++ crcBytes p) := by
    rw [takeWhile_append_of_pos]
    · simp
    intro b hb
    rw [decide_eq_true_eq]
    rintro rfl
    exact Stuffing.flag_notMem_stuff (S := ahdlc) _ hb
  have hl : frame p ++ l = ahdlcFlag :: (ahdlc.stuff (p ++ crcBytes p) ++ (ahdlcFlag :: l)) := by
    simp [frame]
  have hdrop : ∀ s : List Byte, (s ++ ahdlcFlag :: l).drop (s.length + 1) = l := by
    intro s
    simp [drop_append]
  rw [hl, splitFrames, hbody, hdrop]
  rfl

/-- The round trip of a packet: it is encoded to a frame that begins and ends with a flag and has no other;
the frame is decoded to the packet and its checksum, in any memory and with anything behind it, and
`check_crc()` accepts what was decoded. -/
def RoundTrip (p : List Byte) : Prop :=
  ∃ f, Encodes p f ∧ (∃ body, f = ahdlcFlag :: (body ++ [ahdlcFlag]) ∧ ahdlcFlag ∉ body) ∧
    (∀ (a : CArray Byte) (base length : ℕ), base + length ≤ a.size → f.length ≤ length →
      a.slice base f.length = f →
      ∃ a', hdlcDecode a base length = some (a', some (p.length + 2)) ∧
        a'.slice base (p.length + 2) = p ++ crcBytes p) ∧
    checkCrc (p ++ crcBytes p)

theorem roundTrip_iff : RoundTrip p ↔ checkCrc (p ++ crcBytes p) := by
  constructor
  · rintro ⟨_, -, -, -, h⟩
    exact h
  intro h
  refine ⟨frame p, encodes_frame p, ?_, ?_, h⟩
  · exact ⟨ahdlc.stuff (p ++ crcBytes p), rfl, Stuffing.flag_notMem_stuff (S := ahdlc) _⟩
  · intro a _ _ hsize hlen hslice
    exact hdlcDecode_frame hsize hlen hslice

/-- **The round trip of HDLC.**  It is right for every packet of which `check_crc()` looks at all bytes, and
otherwise if the part that it looks at happens to end with its checksum.  Different packets have different
frames, and a sequence of frames is cut at the flags, whatever their lengths. -/
theorem hdlc_round_trip (p : List Byte) :
    (RoundTrip p ↔ p.length + 2 < 2 ^ 29 ∨ ∃ q, p.take ((p.length + 2) % 2 ^ 29) = q ++ crcBytes q) ∧
    (∀ p q f, Encodes p f → Encodes q f → p = q) ∧
    ∀ ps fs, List.Forall₂ Encodes ps fs → splitFrames fs.flatten = fs := by
  refine ⟨roundTrip_iff.trans checkCrc_append_crcBytes_iff, ?_, ?_⟩
  · intro p q f hp hq
    exact frame_injective (hp.eq_frame.symm.trans hq.eq_frame)
  intro _ _ h
  induction h with
  | nil => rw [flatten_nil, splitFrames]
  | cons hp _ ih =>
    obtain rfl := hp.eq_frame
    rw [flatten_cons, splitFrames_frame, ih]

theorem hdlc_round_trip_fails : ¬ RoundTrip (replicate (2 ^ 29 - 2) 0) :=
  fun h => not_checkCrc_zeroes (roundTrip_iff.1 h)

theorem setCrc_eq (a : CArray Byte) (n : ℕ) : setCrc a n = a.writeList n (crcBytes (a.slice 0 n)) := by
  rw [crcBytes, Crc16.bytes, setCrc, CArray.writeList, CArray.length_slice]
  refine congrArg (bind _) (funext fun b => ?_)
  rw [CArray.writeList]
  exact (bind_fun_some _).symm

theorem setCrc_checkCrc (h : n + 2 ≤ a.size) (hn : n + 2 < 2 ^ 29) :
    ∃ a', setCrc a n = some a' ∧ a'.slice 0 n = a.slice 0 n ∧ checkCrc (a'.slice 0 (n + 2)) = true := by
  obtain ⟨a', hw, -, hslice, hothers⟩ := CArray.writeList_of_le (a := a) (i := n) (l := crcBytes (a.slice 0 n)) h
  have hfront : a'.slice 0 n = a.slice 0 n := by
    apply CArray.slice_congr
    intro j _ _
    exact hothers j (.inl (by omega))
  refine ⟨a', (setCrc_eq a n).trans hw, hfront, ?_⟩
  rw [CArray.slice_add, hfront, Nat.zero_add]
  rw [show (crcBytes (a.slice 0 n)).length = 2 from rfl] at hslice
  rw [hslice, checkCrc_append_crcBytes_iff, CArray.length_slice]
  exact .inl hn

theorem setCrc_checkCrc_sample : ∃ a', setCrc (CArray.zeros 4) 2 = some a' ∧
    a'.slice 0 2 = (CArray.zeros 4).slice 0 2 ∧ checkCrc (a'.slice 0 4) = true :=
  setCrc_checkCrc (by decide) (by decide)

end G4Common.MdmTransfer
