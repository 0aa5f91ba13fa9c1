/-
The bounds of the buffers in `mdm-helper/mdmfiletransfer/hdlc.c`.

`hdlc_encode()` asks for two bytes for each byte of the packet and four more, counted in a `size_t`: from
2^31 - 2 bytes on the count wraps around.  The four are the two flags and a checksum without escapes, so a
packet that is escaped all over has no room for the escapes of its checksum.  `hdlc_decode_skip_opening()` looks at the length before it reads a byte, but not
before it reads the byte behind an escape, nor before it reads the opening flag.

The memory here has as many cells as the length that is passed says, so `isSome` says that no access is
beyond that length.  `hdlc_buffer_bounds` says when this is so.
-/
import G4Common.MdmTransfer.Hdlc

namespace G4Common.MdmTransfer

open Option List

/-- The number of bytes that must be escaped. -/
def escapes (l : List Byte) : ℕ := l.countP fun b => b = ahdlcFlag ∨ b = ahdlcEscape

theorem length_frame (p : List Byte) : (frame p).length = p.length + escapes p + escapes (crcBytes p) + 4 := by
  have hstuff : ∀ l, (ahdlc.stuff l).length = l.length + escapes l := Stuffing.length_stuff (S := ahdlc)
  have hcrc : (crcBytes p).length = 2 := rfl
  rw [frame, length_cons, length_append, length_singleton, hstuff, length_append, hcrc, escapes, countP_append]
  show p.length + 2 + (escapes p + escapes (crcBytes p)) + 1 + 1 = _
  omega

/-! ### Encoding -/

theorem isSome_hdlcEncode {p : List Byte} {a : CArray Byte} (ha : sizeT (p.length * 2 + 4) ≤ a.size) :
    (hdlcEncode p a a.size).isSome ↔ (frame p).length ≤ a.size := by
  rw [hdlcEncode_eq p a ha, isSome_map, CArray.isSome_writeList (Nat.zero_le _), Nat.zero_add]

/-! ### Decoding -/

/-- **The loop stays in the buffer** unless the text in front of it ends with an escape. -/
theorem isSome_decodeLoop {base length fuel i c : ℕ} {a : CArray Byte} (hsize : a.size = base + length)
    (hci : c ≤ i) (hfuel : length - i ≤ fuel) :
    (decodeLoop base length fuel a i c).isSome ↔ ¬ ahdlc.Cut (a.slice (base + i) (length - i)) := by
  apply decodeLoop_rule (P := fun _ a l r => a.size = base + length → (r.isSome ↔ ¬ ahdlc.Cut l))
    _ _ _ _ _ (Nat.le_of_eq hsize.symm) hci hfuel hsize
  · exact fun _ _ _ => iff_of_true rfl Stuffing.not_cut_nil
  · intro _ _ _ _ _ h hsize
    rw [Stuffing.cut_stuff1_append, h hsize]
  · exact fun _ _ _ _ hf he _ => iff_of_true rfl (Stuffing.not_cut_esc_of_ne (S := ahdlc) hf he _)
  · exact fun _ _ _ _ => iff_of_true rfl (Stuffing.not_cut_flag (S := ahdlc) _)
  · -- The byte behind the escape is read without a look at the length.
    intro _ _ _ _ hnone hsize
    rw [hnone hsize]
    exact iff_of_false Bool.false_ne_true (not_not.2 (Stuffing.cut_esc (S := ahdlc)))

/-- The received bytes end in the middle of what is decoded: there is not even an opening flag to look at,
or the text behind it ends with an escape. -/
def CutOff (skip : Bool) (received : List Byte) : Prop :=
  if skip then ahdlc.Cut received
  else received = [] ∨ ∃ text, received = ahdlcFlag :: text ∧ ahdlc.Cut text

/-- **`hdlc_decode_skip_opening()` stays in the buffer** unless the received bytes are cut off. -/
theorem isSome_hdlcDecodeSkipOpening (a : CArray Byte) (skip : Bool) :
    (hdlcDecodeSkipOpening a 0 a.size skip).isSome ↔ ¬ CutOff skip (a.slice 0 a.size) := by
  have hloop : ∀ i, (decodeLoop 0 a.size a.size a i 0).isSome ↔
      ¬ ahdlc.Cut (a.slice i (a.size - i)) := by
    intro i
    have h := isSome_decodeLoop (a := a) (Nat.zero_add a.size).symm (Nat.zero_le i) (Nat.sub_le a.size i)
    rwa [Nat.zero_add] at h
  cases skip with
  | true => exact hloop 0
  | false =>
    rw [hdlcDecodeSkipOpening, CutOff, if_neg Bool.false_ne_true, if_neg Bool.false_ne_true]
    by_cases hsize : 0 < a.size
    swap
    · -- An empty buffer has no opening flag.
      have hzero : a.size = 0 := by omega
      rw [CArray.read, if_neg hsize, hzero, CArray.slice_zero]
      exact iff_of_false Bool.false_ne_true (not_not.2 (.inl rfl))
    rw [CArray.read_of_lt hsize, bind_eq_bind, bind_some,
      show a.slice 0 a.size = a.get 0 :: a.slice 1 (a.size - 1) by
        rw [← CArray.slice_succ, Nat.sub_add_cancel hsize]]
    by_cases hflag : a.get 0 = ahdlcFlag
    · rw [if_neg (not_not.2 hflag), hloop 1, hflag]
      apply not_congr
      constructor
      · intro h
        exact .inr ⟨_, rfl, h⟩
      rintro (h | ⟨text, h, hcut⟩)
      · cases h
      · rw [cons.injEq] at h
        rw [h.2]
        exact hcut
    rw [if_pos hflag]
    refine iff_of_true rfl ?_
    rintro (h | ⟨_, h, -⟩)
    · cases h
    · rw [cons.injEq] at h
      exact hflag h.1

/-- **The bounds of the buffers.**  `hdlc_encode()` writes beyond a buffer that it accepts exactly when the
escapes of the packet and of its checksum do not fit in it; `hdlc_decode_skip_opening()` leaves its buffer
exactly when the bytes in it are cut off. -/
theorem hdlc_buffer_bounds (a : CArray Byte) : (∀ p : List Byte, sizeT (p.length * 2 + 4) ≤ a.size →
      ((hdlcEncode p a a.size).isSome ↔ p.length + escapes p + escapes (crcBytes p) + 4 ≤ a.size)) ∧
    ∀ skip : Bool, (hdlcDecodeSkipOpening a 0 a.size skip).isSome ↔ ¬ CutOff skip (a.slice 0 a.size) := by
  refine ⟨?_, fun skip => isSome_hdlcDecodeSkipOpening a skip⟩
  intro p ha
  rw [isSome_hdlcEncode ha, length_frame]

/-- Five bytes that are all escaped, with a checksum of which one byte is, do not fit in the fourteen bytes
that the test asks for. -/
def escapedAllOver : List Byte := [0x7d#8, 0x7e#8, 0x7d#8, 0x7e#8, 0x7e#8]

theorem crcBytes_escapedAllOver : crcBytes escapedAllOver = [0x7d#8, 0xdd#8] := by decide

/-- A packet and its checksum that need twelve bytes between the flags, in a buffer of sixteen bytes. -/
theorem hdlc_buffer_bounds_sixteen : ((hdlcEncode escapedAllOver (CArray.zeros 16) 16).isSome ↔
      escapedAllOver.length + escapes escapedAllOver + escapes (crcBytes escapedAllOver) + 4 ≤ 16) :=
  (hdlc_buffer_bounds (CArray.zeros 16)).1 escapedAllOver (by decide)

/-- Neither half is true of all inputs: in a buffer of fourteen bytes the last flag of this packet has no
room, and `hdlc_decode()` looks for the opening flag in no bytes. -/
theorem hdlc_buffer_bounds_fails :
    (¬ ∀ (p : List Byte) (a : CArray Byte), sizeT (p.length * 2 + 4) ≤ a.size → (hdlcEncode p a a.size).isSome) ∧
    ¬ ∀ (a : CArray Byte) (skip : Bool), (hdlcDecodeSkipOpening a 0 a.size skip).isSome := by
  constructor
  · intro h
    have hsize : sizeT (escapedAllOver.length * 2 + 4) ≤ (CArray.zeros 14 : CArray Byte).size := by decide
    have hfit := (isSome_hdlcEncode hsize).1 (h _ _ hsize)
    rw [length_frame, crcBytes_escapedAllOver] at hfit
    exact nomatch hfit
  · intro h
    have hempty := (isSome_hdlcDecodeSkipOpening (CArray.zeros 0) false).1 (h _ _)
    exact hempty (.inl rfl)

end G4Common.MdmTransfer
