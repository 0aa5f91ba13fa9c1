/-
Table-driven checksums of 16 bits (reflected).

The register takes a byte by way of a table of 256 words.  If the complement of the register is
sent behind the data, low byte first, the register ends with a value that does not depend on the
data (`run_complement`).  If the two words of the table that are taken for the complement can be told
by their high bytes, the complement is the only pair of bytes with this effect
(`eq_complement_of_run`).

The table stands for a register that takes the bits of a byte one after the other, the lowest one first,
and from which the polynomial is taken off when a one goes out (`run_eq_serial`).  Registers and
bits add up, so the bits of a byte that is in the register can be told from those that come.
-/
import Mathlib.Data.List.Basic
import Mathlib.Tactic.Common

namespace G4Common.Crc16

variable (T : BitVec 8 → BitVec 16)

def lo (r : BitVec 16) : BitVec 8 := r.setWidth 8

def hi (r : BitVec 16) : BitVec 8 := (r >>> 8).setWidth 8

/-- The register takes a byte. -/
def step (r : BitVec 16) (b : BitVec 8) : BitVec 16 := T (lo r ^^^ b) ^^^ (r >>> 8)

/-- The register takes some bytes. -/
def run (r : BitVec 16) (l : List (BitVec 8)) : BitVec 16 := l.foldl (step T) r

/-- The register after any data and the complement of the register. -/
def residue : BitVec 16 := T (lo (T 255#8) ^^^ 255#8) ^^^ (T 255#8 >>> 8)

/-- The bytes of a word, low byte first. -/
def bytes (r : BitVec 16) : List (BitVec 8) := [lo r, hi r]

theorem run_append (r : BitVec 16) (l m : List (BitVec 8)) : run T r (l ++ m) = run T (run T r l) m := List.foldl_append

/-! ### Bytes of words -/

theorem lo_xor (r s : BitVec 16) : lo (r ^^^ s) = lo r ^^^ lo s := by
  simp [lo, BitVec.setWidth_xor]

theorem hi_xor (r s : BitVec 16) : hi (r ^^^ s) = hi r ^^^ hi s := by
  simp [hi, BitVec.setWidth_xor, BitVec.ushiftRight_xor_distrib]

theorem lo_shift (r : BitVec 16) : lo (r >>> 8) = hi r := rfl

theorem hi_shift (r : BitVec 16) : hi (r >>> 8) = 0#8 := by
  apply BitVec.eq_of_getLsbD_eq
  intro i _
  simp [Crc16.hi]

theorem eq_of_lo_hi {r s : BitVec 16} (hl : lo r = lo s) (hh : hi r = hi s) : r = s := by
  apply BitVec.eq_of_getLsbD_eq
  intro i _
  by_cases h8 : i < 8
  · have hb := congrArg (fun x => x.getLsbD i) hl
    simpa [lo, h8] using hb
  have hb := congrArg (fun x => x.getLsbD (i - 8)) hh
  have hlt : i - 8 < 8 := by omega
  have hadd : 8 + (i - 8) = i := by omega
  simpa [hi, hlt, hadd] using hb

theorem shift_shift (r s : BitVec 16) : (s ^^^ (r >>> 8)) >>> 8 = s >>> 8 := by
  apply eq_of_lo_hi
  · rw [lo_shift, lo_shift, hi_xor, hi_shift, BitVec.xor_zero]
  · rw [hi_shift, hi_shift]

theorem not_eq_xor (b : BitVec 8) : ~~~b = b ^^^ 255#8 := by
  rw [← BitVec.xor_allOnes]
  rfl

theorem lo_not (r : BitVec 16) : lo (~~~r) = ~~~lo r := by
  apply BitVec.eq_of_getLsbD_eq
  intro i hi
  have : i < 16 := by omega
  simp [lo, hi, this]

theorem hi_not (r : BitVec 16) : hi (~~~r) = ~~~hi r := by
  apply BitVec.eq_of_getLsbD_eq
  intro i hi'
  have : 8 + i < 16 := by omega
  simp [hi, hi', this]

/-! ### The residue -/

/-- **The complement leaves the residue.** -/
theorem run_complement (r : BitVec 16) : run T r (bytes (~~~r)) = residue T := by
  have h1 : lo r ^^^ lo (~~~r) = 255#8 := by
    rw [lo_not, not_eq_xor, ← BitVec.xor_assoc, BitVec.xor_self, BitVec.zero_xor]
  have h2 : lo (T 255#8 ^^^ (r >>> 8)) ^^^ hi (~~~r) = lo (T 255#8) ^^^ 255#8 := by
    rw [lo_xor, lo_shift, hi_not, not_eq_xor, BitVec.xor_assoc, ← BitVec.xor_assoc (hi r),
      BitVec.xor_self, BitVec.zero_xor]
  show step T (step T r (lo (~~~r))) (hi (~~~r)) = _
  rw [step, step, h1, h2, shift_shift]
  rfl

theorem hi_step (r : BitVec 16) (b : BitVec 8) : hi (step T r b) = hi (T (lo r ^^^ b)) := by
  rw [step, hi_xor, hi_shift, BitVec.xor_zero]

theorem hi_residue : hi (residue T) = hi (T (lo (T 255#8) ^^^ 255#8)) := by
  rw [residue, hi_xor, hi_shift, BitVec.xor_zero]

/-- No other word of the table has the high byte of this one. -/
def Alone (b : BitVec 8) : Prop := ∀ c, hi (T c) = hi (T b) → c = b

/-- **Only the complement leaves the residue.** -/
theorem eq_complement_of_run (hT1 : Alone T 255#8) (hT2 : Alone T (lo (T 255#8) ^^^ 255#8))
    {r : BitVec 16} {b1 b2 : BitVec 8} (h : run T r [b1, b2] = residue T) : [b1, b2] = bytes (~~~r) := by
  have h' : step T (step T r b1) b2 = residue T := h
  -- The high byte fixes the second word of the table, and what is left the first one.
  have hx2 : lo (step T r b1) ^^^ b2 = lo (T 255#8) ^^^ 255#8 := by
    apply hT2
    rw [← hi_step, h', hi_residue]
  have hshift : step T r b1 >>> 8 = T 255#8 >>> 8 := by
    rw [step, hx2, residue] at h'
    exact (BitVec.xor_right_inj _).1 h'
  have hx1 : lo r ^^^ b1 = 255#8 := by
    apply hT1
    rw [← hi_step]
    exact congrArg lo hshift
  have hb1 : b1 = lo (~~~r) := by
    rw [lo_not, not_eq_xor, ← hx1, ← BitVec.xor_assoc, BitVec.xor_self, BitVec.zero_xor]
  have hb2 : b2 = hi (~~~r) := by
    have hlo : lo (step T r b1) = lo (T 255#8) ^^^ hi r := by
      rw [step, hx1, lo_xor, lo_shift]
    rw [hlo, BitVec.xor_assoc] at hx2
    have hhi := (BitVec.xor_right_inj _).1 hx2
    rw [hi_not, not_eq_xor, ← hhi, ← BitVec.xor_assoc, BitVec.xor_self, BitVec.zero_xor]
  rw [bytes, ← hb1, ← hb2]

/-! ### Bit by bit -/

variable (poly : BitVec 16)

/-- The register moves by one bit; the polynomial is taken off if a one goes out. -/
def shiftBit (r : BitVec 16) : BitVec 16 := if r.getLsbD 0 then (r >>> 1) ^^^ poly else r >>> 1

def bitWord (c : Bool) : BitVec 16 := if c then 1#16 else 0#16

/-- The register takes a bit. -/
def takeBit (r : BitVec 16) (c : Bool) : BitVec 16 := shiftBit poly (r ^^^ bitWord c)

/-- The register takes the first `n` bits of a byte, the lowest one first. -/
def takeBits : ℕ → BitVec 16 → BitVec 8 → BitVec 16
  | 0, r, _ => r
  | n + 1, r, b => takeBit poly (takeBits n r b) (b.getLsbD n)

/-- The register takes some bytes, bit by bit. -/
def serial (r : BitVec 16) (l : List (BitVec 8)) : BitVec 16 := l.foldl (takeBits poly 8) r

variable {poly}

theorem shiftBit_xor (r s : BitVec 16) : shiftBit poly (r ^^^ s) = shiftBit poly r ^^^ shiftBit poly s := by
  unfold shiftBit
  rw [BitVec.getLsbD_xor, BitVec.ushiftRight_xor_distrib]
  cases r.getLsbD 0 <;> cases s.getLsbD 0
  · rfl
  · exact BitVec.xor_assoc ..
  · show r >>> 1 ^^^ s >>> 1 ^^^ poly = r >>> 1 ^^^ poly ^^^ s >>> 1
    rw [BitVec.xor_assoc, BitVec.xor_comm (s >>> 1), ← BitVec.xor_assoc]
  · show r >>> 1 ^^^ s >>> 1 = r >>> 1 ^^^ poly ^^^ (s >>> 1 ^^^ poly)
    rw [BitVec.xor_comm (s >>> 1) poly, ← BitVec.xor_assoc, BitVec.xor_assoc (r >>> 1),
      BitVec.xor_self, BitVec.xor_zero]

theorem bitWord_xor (c d : Bool) : bitWord (c ^^ d) = bitWord c ^^^ bitWord d := by
  cases c <;> cases d <;> rfl

theorem xor_xor_comm (r s t u : BitVec 16) : r ^^^ s ^^^ (t ^^^ u) = r ^^^ t ^^^ (s ^^^ u) := by
  rw [BitVec.xor_assoc, ← BitVec.xor_assoc s, BitVec.xor_comm s, BitVec.xor_assoc t, ← BitVec.xor_assoc]

theorem takeBits_xor (n : ℕ) (r s : BitVec 16) (b c : BitVec 8) :
    takeBits poly n (r ^^^ s) (b ^^^ c) = takeBits poly n r b ^^^ takeBits poly n s c := by
  induction n with
  | zero => rfl
  | succ n ih =>
    rw [takeBits, ih, takeBit, BitVec.getLsbD_xor, bitWord_xor, xor_xor_comm, shiftBit_xor]
    rfl

theorem takeBits_of_low_zero {n : ℕ} {r : BitVec 16} (hr : ∀ i < n, r.getLsbD i = false) :
    takeBits poly n r 0#8 = r >>> n := by
  induction n with
  | zero => exact (BitVec.ushiftRight_zero r).symm
  | succ n ih =>
    have hlow : (r >>> n).getLsbD 0 = false := by
      rw [BitVec.getLsbD_ushiftRight]
      exact hr n (Nat.lt_succ_self n)
    rw [takeBits, ih fun i hi => hr i (Nat.lt_succ_of_lt hi), takeBit, BitVec.getLsbD_zero, bitWord,
      if_neg Bool.false_ne_true, BitVec.xor_zero, shiftBit, hlow, if_neg Bool.false_ne_true,
      ← BitVec.shiftRight_add]

theorem takeBits_self (n : ℕ) (hn : n ≤ 8) (b : BitVec 8) :
    takeBits poly n (b.setWidth 16) b = b.setWidth 16 >>> n := by
  induction n with
  | zero => exact (BitVec.ushiftRight_zero _).symm
  | succ n ih =>
    have hlow : (b.setWidth 16 >>> n ^^^ bitWord (b.getLsbD n)).getLsbD 0 = false := by
      have hn : n < 16 := by omega
      rw [BitVec.getLsbD_xor, BitVec.getLsbD_ushiftRight, BitVec.getLsbD_setWidth]
      cases b.getLsbD n <;> simp [bitWord, hn]
    have hshift : (bitWord (b.getLsbD n)) >>> 1 = 0#16 := by
      cases b.getLsbD n <;> rfl
    rw [takeBits, ih (Nat.le_of_succ_le hn), takeBit, shiftBit, hlow, if_neg Bool.false_ne_true,
      BitVec.ushiftRight_xor_distrib, hshift, BitVec.xor_zero, ← BitVec.shiftRight_add]

/-- The table has what eight bits do to the register. -/
def IsTable (poly : BitVec 16) (T : BitVec 8 → BitVec 16) : Prop := ∀ b, T b = takeBits poly 8 0#16 b

variable {T : BitVec 8 → BitVec 16}

/-- **A word of the table stands for eight bits.** -/
theorem takeBits_eq_step (hT : IsTable poly T) (r : BitVec 16) (b : BitVec 8) : takeBits poly 8 r b = step T r b := by
  -- the low byte of the register and the same byte of the data cancel out
  have hlow : (lo r).setWidth 16 >>> 8 = 0#16 := by
    apply BitVec.eq_of_getLsbD_eq
    intro i hi
    simp [lo]
  have hr : r = (lo r).setWidth 16 ^^^ (0#16 ^^^ (r ^^^ (lo r).setWidth 16)) := by
    rw [BitVec.zero_xor, BitVec.xor_comm r, ← BitVec.xor_assoc, BitVec.xor_self, BitVec.zero_xor]
  have hb : b = lo r ^^^ (lo r ^^^ b ^^^ 0#8) := by
    rw [BitVec.xor_zero, ← BitVec.xor_assoc, BitVec.xor_self, BitVec.zero_xor]
  have hzero : ∀ i < 8, (r ^^^ (lo r).setWidth 16).getLsbD i = false := by
    intro i hi
    simp [lo, hi, show i < 16 by omega]
  calc takeBits poly 8 r b
      = takeBits poly 8 ((lo r).setWidth 16 ^^^ (0#16 ^^^ (r ^^^ (lo r).setWidth 16)))
          (lo r ^^^ (lo r ^^^ b ^^^ 0#8)) := by rw [← hr, ← hb]
    _ = takeBits poly 8 0#16 (lo r ^^^ b) ^^^ takeBits poly 8 (r ^^^ (lo r).setWidth 16) 0#8 := by
        rw [takeBits_xor, takeBits_xor, takeBits_self 8 (Nat.le_refl 8), hlow, BitVec.zero_xor]
    _ = step T r b := by
        rw [takeBits_of_low_zero hzero, BitVec.ushiftRight_xor_distrib, hlow, BitVec.xor_zero, ← hT, step]

/-- **A run by the table is a run bit by bit.** -/
theorem run_eq_serial (hT : IsTable poly T) (r : BitVec 16) (l : List (BitVec 8)) : run T r l = serial poly r l := by
  induction l generalizing r with
  | nil => rfl
  | cons b l ih =>
    show run T (step T r b) l = serial poly (takeBits poly 8 r b) l
    rw [takeBits_eq_step hT, ih]

end G4Common.Crc16
