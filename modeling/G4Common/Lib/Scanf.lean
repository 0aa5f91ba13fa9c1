/-
The conversions `%c` and `%wX` of `fscanf()`, on the text that is still to be read.

A hexadecimal number is read as far as its width allows, so numbers may stand next to each other.
`HexPairs` says that a text is made of pairs of digits, one pair for each byte; `scanHex_pair` and
`scanHex_two_pairs` read it back.
-/
import Mathlib.Data.Char
import Mathlib.Data.List.TakeWhile
import Mathlib.Data.BitVec

namespace G4Common.Scanf

open List

def isSpace (c : Char) : Bool := c.toNat = 32 ∨ 9 ≤ c.toNat ∧ c.toNat ≤ 13

/-- The value of a hexadecimal digit. -/
def hexVal (c : Char) : Option ℕ :=
  if 48 ≤ c.toNat ∧ c.toNat ≤ 57 then some (c.toNat - 48)
  else if 65 ≤ c.toNat ∧ c.toNat ≤ 70 then some (c.toNat - 55)
  else if 97 ≤ c.toNat ∧ c.toNat ≤ 102 then some (c.toNat - 87)
  else none

/-- The value of a sequence of digits. -/
def hexNum (s : List Char) : ℕ := s.foldl (fun n c => 16 * n + (hexVal c).getD 0) 0

/-- White space in a format: all white space is passed over. -/
def skipSpace (s : List Char) : List Char := s.dropWhile isSpace

/-- `%wX`: white space is passed over, then at most `w` digits are read.  Signs and the prefix `0x` are not
covered. -/
def scanHex (w : ℕ) (s : List Char) : Option (ℕ × List Char) :=
  let digits := ((skipSpace s).take w).takeWhile fun c => (hexVal c).isSome
  if digits = [] then none else some (hexNum digits, (skipSpace s).drop digits.length)

def hexDigit (x : ℕ) : Char := Char.ofNat (if x < 10 then 48 + x else 55 + x)

/-- The digits of some bytes. -/
def hexDigits (bs : List (BitVec 8)) : List Char :=
  bs.flatMap fun b => [hexDigit (b.toNat / 16), hexDigit (b.toNat % 16)]

/-- A text of pairs of digits, with the bytes that they stand for. -/
def HexPairs : List Char → List (BitVec 8) → Prop
  | [], bs => bs = []
  | [_], _ => False
  | c :: d :: s, bs => ∃ x y bs', hexVal c = some x ∧ hexVal d = some y ∧
      bs = BitVec.ofNat 8 (16 * x + y) :: bs' ∧ HexPairs s bs'

variable {c d : Char} {r s : List Char} {n w x y : ℕ}

theorem hexVal_lt (h : hexVal c = some x) : x < 16 := by
  unfold hexVal at h
  split_ifs at h <;> simp only [Option.some.injEq] at h <;> omega

theorem isSpace_of_hexVal (h : hexVal c = some x) : isSpace c = false := by
  unfold hexVal at h
  unfold isSpace
  split_ifs at h <;> simp only [decide_eq_false_iff_not] <;> omega

theorem skipSpace_of_not (h : isSpace c = false) (s : List Char) : skipSpace (c :: s) = c :: s := by
  rw [skipSpace, dropWhile_cons_of_neg (by simp [h])]

theorem skipSpace_append {t : List Char} (h : ∀ c ∈ s, isSpace c) : skipSpace (s ++ t) = skipSpace t := by
  induction s with
  | nil => rfl
  | cons c s ih =>
    rw [cons_append, skipSpace, dropWhile_cons_of_pos (h c mem_cons_self)]
    exact ih fun d hd => h d (mem_cons_of_mem _ hd)

theorem hexNum_lt (s : List Char) : hexNum s < 16 ^ s.length := by
  have hfold : ∀ n, s.foldl (fun n c => 16 * n + (hexVal c).getD 0) n < (n + 1) * 16 ^ s.length := by
    induction s with
    | nil =>
      intro n
      simp
    | cons c s ih =>
      intro n
      have hdigit : (hexVal c).getD 0 < 16 := by
        rcases hc : hexVal c with - | x
        · decide
        · exact hexVal_lt hc
      refine Nat.lt_of_lt_of_le (ih _) ?_
      rw [length_cons, Nat.pow_succ, Nat.mul_comm (16 ^ s.length), ← Nat.mul_assoc]
      apply Nat.mul_le_mul_right
      show 16 * n + (hexVal c).getD 0 + 1 ≤ (n + 1) * 16
      omega
  have h := hfold 0
  rwa [Nat.zero_add, Nat.one_mul] at h

theorem scanHex_lt (h : scanHex w s = some (n, r)) : n < 16 ^ w := by
  rw [scanHex] at h
  split_ifs at h
  simp only [Option.some.injEq, Prod.mk.injEq] at h
  rw [← h.1]
  refine Nat.lt_of_lt_of_le (hexNum_lt _) (Nat.pow_le_pow_right (by decide) ?_)
  exact (( takeWhile_prefix _).length_le).trans (length_take_le _ _)

theorem length_scanHex_le (h : scanHex w s = some (n, r)) : r.length ≤ s.length := by
  rw [scanHex] at h
  split_ifs at h
  simp only [Option.some.injEq, Prod.mk.injEq] at h
  rw [← h.2, length_drop]
  exact (Nat.sub_le _ _).trans (dropWhile_suffix _).length_le

theorem scanHex_pair (hc : hexVal c = some x) (hd : hexVal d = some y)
    (s : List Char) : scanHex 2 (c :: d :: s) = some (16 * x + y, s) := by
  simp [scanHex, skipSpace_of_not (isSpace_of_hexVal hc), hc, hd, hexNum]

theorem scanHex_two_pairs {e f : Char} {z : ℕ} (hc : hexVal c = some x) (hd : hexVal d = some y)
    (he : hexVal e = some z) (hf : hexVal f = some w) (s : List Char) :
    scanHex 4 (c :: d :: e :: f :: s) = some (16 * (16 * (16 * x + y) + z) + w, s) := by
  simp [scanHex, skipSpace_of_not (isSpace_of_hexVal hc), hc, hd, he, hf, hexNum]

theorem HexPairs.cons {b : BitVec 8} {bs : List (BitVec 8)} (h : HexPairs s (b :: bs)) :
    ∃ c d t x y, s = c :: d :: t ∧ hexVal c = some x ∧ hexVal d = some y ∧ b.toNat = 16 * x + y ∧
      HexPairs t bs := by
  match s, h with
  | [], h => cases h
  | [_], h => cases h
  | c :: d :: t, h =>
    obtain ⟨x, y, _, hx, hy, hb, ht⟩ := h
    obtain ⟨rfl, rfl⟩ := cons_eq_cons.1 hb
    refine ⟨c, d, t, x, y, rfl, hx, hy, ?_, ht⟩
    have := hexVal_lt hx
    have := hexVal_lt hy
    rw [BitVec.toNat_ofNat]
    omega

theorem HexPairs.nil (h : HexPairs s []) : s = [] := by
  match s, h with
  | [], _ => rfl
  | [_], h => cases h
  | c :: d :: t, h =>
    obtain ⟨x, y, _, -, -, hb, -⟩ := h
    cases hb

theorem HexPairs.scanHex_two {b : BitVec 8} {bs : List (BitVec 8)} (h : HexPairs s (b :: bs))
    (r : List Char) : ∃ t, scanHex 2 (s ++ r) = some (b.toNat, t ++ r) ∧ HexPairs t bs := by
  obtain ⟨c, d, t, x, y, rfl, hx, hy, hb, ht⟩ := h.cons
  refine ⟨t, ?_, ht⟩
  rw [hb]
  exact scanHex_pair hx hy (t ++ r)

theorem hexVal_hexDigit (h : x < 16) : hexVal (hexDigit x) = some x := by
  revert x
  decide

theorem hexPairs_hexDigits (bs : List (BitVec 8)) : HexPairs (hexDigits bs) bs := by
  induction bs with
  | nil => rfl
  | cons b bs ih =>
    have hb := b.isLt
    refine ⟨b.toNat / 16, b.toNat % 16, bs, hexVal_hexDigit (by omega), hexVal_hexDigit (by omega), ?_, ih⟩
    rw [Nat.div_add_mod, BitVec.ofNat_toNat, BitVec.setWidth_eq]

end G4Common.Scanf
