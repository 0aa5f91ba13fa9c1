/-
Words of 32 bits and their four bytes, with the shifts and masks of C.
-/
import Mathlib.Data.BitVec

namespace G4Common

/-- Byte `k` of a word, the least significant byte first. -/
def byteAt (x : BitVec 32) (k : ℕ) : BitVec 8 := ((x >>> (8 * k)) &&& 0xFF#32).setWidth 8

/-- The word with the given bytes, the most significant byte first. -/
def wordOf (b3 b2 b1 b0 : BitVec 8) : BitVec 32 :=
  b3.setWidth 32 <<< 24 ||| b2.setWidth 32 <<< 16 ||| b1.setWidth 32 <<< 8 ||| b0.setWidth 32

theorem toNat_byteAt (x : BitVec 32) (k : ℕ) : (byteAt x k).toNat = x.toNat / 2 ^ (8 * k) % 256 := by
  have hmask : ∀ n : ℕ, n &&& 255 = n % 256 := fun n => Nat.and_two_pow_sub_one_eq_mod n 8
  rw [byteAt, BitVec.toNat_setWidth, BitVec.toNat_and, BitVec.toNat_ushiftRight, Nat.shiftRight_eq_div_pow]
  show (x.toNat / 2 ^ (8 * k) &&& 255) % 256 = _
  rw [hmask, Nat.mod_mod]

theorem toNat_wordOf (b3 b2 b1 b0 : BitVec 8) :
    (wordOf b3 b2 b1 b0).toNat = b3.toNat * 2 ^ 24 + b2.toNat * 2 ^ 16 + b1.toNat * 2 ^ 8 + b0.toNat := by
  have h3 := b3.isLt
  have h2 := b2.isLt
  have h1 := b1.isLt
  have h0 := b0.isLt
  -- The four parts have no bit in common, so `|` is `+`.
  have hor : ∀ (i a b : ℕ), b < 2 ^ i → a * 2 ^ i ||| b = a * 2 ^ i + b := by
    intro i a b hb
    rw [← Nat.shiftLeft_eq, Nat.shiftLeft_add_eq_or_of_lt hb]
  simp only [wordOf, BitVec.toNat_or, BitVec.toNat_shiftLeft, BitVec.toNat_setWidth, Nat.shiftLeft_eq]
  rw [Nat.mod_eq_of_lt (by omega : b3.toNat < 2 ^ 32), Nat.mod_eq_of_lt (by omega : b2.toNat < 2 ^ 32),
    Nat.mod_eq_of_lt (by omega : b1.toNat < 2 ^ 32), Nat.mod_eq_of_lt (by omega : b0.toNat < 2 ^ 32),
    Nat.mod_eq_of_lt (by omega : b3.toNat * 2 ^ 24 < 2 ^ 32),
    Nat.mod_eq_of_lt (by omega : b2.toNat * 2 ^ 16 < 2 ^ 32),
    Nat.mod_eq_of_lt (by omega : b1.toNat * 2 ^ 8 < 2 ^ 32), Nat.or_assoc, Nat.or_assoc,
    hor 8 _ _ (by omega), hor 16 _ _ (by omega), hor 24 _ _ (by omega)]
  omega

theorem wordOf_eq_iff {x : BitVec 32} {b3 b2 b1 b0 : BitVec 8} :
    wordOf b3 b2 b1 b0 = x ↔ byteAt x 3 = b3 ∧ byteAt x 2 = b2 ∧ byteAt x 1 = b1 ∧ byteAt x 0 = b0 := by
  simp only [← BitVec.toNat_inj, toNat_wordOf, toNat_byteAt]
  have h3 := b3.isLt
  have h2 := b2.isLt
  have h1 := b1.isLt
  have h0 := b0.isLt
  have hx := x.isLt
  omega

end G4Common
