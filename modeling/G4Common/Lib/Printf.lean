/-
The conversions `%d`, `%0wd` and `%02X` of `snprintf()`, a number that is cut off, texts of fields with commas
between them, and the fields of such a text.

A text is split at its commas (`List.splitOn`).  A field is free of commas when it is printed from a number
(`comma_notMem_printInt`), so the fields are found again where they were written (`splitOn_fields`).
-/
import Mathlib

namespace G4Common.Printf

open List

/-! ### Numbers -/

/-- `%0wd`; `%d` for `w = 0`. -/
def printInt (w : ℕ) (n : ℤ) : List Char :=
  let digits := Nat.toDigits 10 n.natAbs
  if n < 0 then '-' :: (replicate (w - 1 - digits.length) '0' ++ digits)
  else replicate (w - digits.length) '0' ++ digits

def hexChar (x : ℕ) : Char := if x < 10 then Char.ofNat (48 + x) else Char.ofNat (55 + x)

def printHexByte (b : UInt8) : List Char := [hexChar (b.toNat / 16), hexChar (b.toNat % 16)]

theorem printInt_ne_nil (w : ℕ) (n : ℤ) : printInt w n ≠ [] := by
  rw [printInt]
  split
  · exact cons_ne_nil _ _
  · exact append_ne_nil_of_right_ne_nil _ Nat.toDigits_ne_nil

theorem mem_printInt {w : ℕ} {n : ℤ} {c : Char} (h : c ∈ printInt w n) : c = '-' ∨ c.isDigit = true := by
  have hpadded : ∀ k, c ∈ replicate k '0' ++ Nat.toDigits 10 n.natAbs → c.isDigit = true := by
    intro k hc
    rcases mem_append.1 hc with hc | hc
    · rw [eq_of_mem_replicate hc]
      rfl
    · exact Nat.isDigit_of_mem_toDigits (by decide) (by decide) hc
  rw [printInt] at h
  split at h
  · rcases mem_cons.1 h with h | h
    · exact .inl h
    · exact .inr (hpadded _ h)
  · exact .inr (hpadded _ h)

theorem comma_notMem_printInt (w : ℕ) (n : ℤ) : ',' ∉ printInt w n := by
  intro h
  rcases mem_printInt h with h | h
  · exact nomatch h
  · exact nomatch h

theorem hexChar_ne_comma {x : ℕ} (h : x < 16) : ',' ≠ hexChar x := by
  revert x
  decide

theorem comma_notMem_printHexByte (b : UInt8) : ',' ∉ printHexByte b := by
  have hb : b.toNat < 256 := b.toNat_lt
  intro h
  rcases mem_cons.1 h with h | h
  · exact hexChar_ne_comma (by omega) h
  · exact hexChar_ne_comma (by omega) (mem_singleton.1 h)

theorem length_printInt_le {w k : ℕ} {n : ℤ} (h0 : 0 ≤ n) (hn : n.natAbs < 10 ^ k) (hk : 0 < k) (hw : w ≤ k) :
    (printInt w n).length ≤ k := by
  have hlen := (Nat.length_toDigits_le_iff (by decide) hk).2 hn
  rw [printInt, if_neg (Int.not_lt.2 h0), length_append, length_replicate]
  omega

theorem length_printInt_le_succ {w k : ℕ} {n : ℤ} (hn : n.natAbs < 10 ^ k) (hk : 0 < k) (hw : w ≤ k) :
    (printInt w n).length ≤ k + 1 := by
  have hlen := (Nat.length_toDigits_le_iff (by decide) hk).2 hn
  rw [printInt]
  split
  · rw [length_cons, length_append, length_replicate]
    omega
  · rw [length_append, length_replicate]
    omega

/-! ### A text that is cut off -/

/-- `%d` into a buffer of `size` bytes: what does not fit is cut off. -/
def snprintfInt (size : ℕ) (n : ℤ) : List Char := (printInt 0 n).take (size - 1)

def leadDigit (n : ℕ) : ℕ := if n < 10 then n else leadDigit (n / 10)

theorem leadDigit_lt (n : ℕ) : leadDigit n < 10 := by
  fun_induction leadDigit n with
  | case1 n h => exact h
  | case2 n h ih => exact ih

theorem head?_toDigits (n : ℕ) : (Nat.toDigits 10 n).head? = some (leadDigit n).digitChar := by
  fun_induction leadDigit n with
  | case1 n h => rw [Nat.toDigits_of_lt_base h, head?_cons]
  | case2 n h ih =>
    rw [Nat.toDigits_of_base_le (by decide) (Nat.le_of_not_lt h), head?_append, ih]
    rfl

theorem snprintfInt_two (n : ℕ) : snprintfInt 2 n = [(leadDigit n).digitChar] := by
  have hhead := head?_toDigits n
  unfold snprintfInt printInt
  rw [if_neg (Int.not_lt.mpr (Int.natCast_nonneg n)), Nat.zero_sub, Int.natAbs_natCast]
  show (Nat.toDigits 10 n).take 1 = _
  rw [take_one, hhead]
  rfl

theorem digitChar_inj {m n : ℕ} (hm : m < 10) (hn : n < 10) (h : m.digitChar = n.digitChar) : m = n := by
  have hvalue := congrArg Char.toNat h
  rw [Nat.toNat_digitChar_of_lt_ten hm, Nat.toNat_digitChar_of_lt_ten hn] at hvalue
  exact Nat.add_left_cancel hvalue

/-! ### Fields -/

theorem splitOn_fields {fields : List (List Char)} (h : ∀ f ∈ fields, ',' ∉ f) (rest : List Char) :
    (fields.flatMap (fun f => f ++ [',']) ++ rest).splitOn ',' = fields ++ rest.splitOn ',' := by
  induction fields with
  | nil => rfl
  | cons f fields ih =>
    have hsplit := splitOn_append_cons_self_of_not_mem (h f mem_cons_self)
      (fields.flatMap (fun f => f ++ [',']) ++ rest)
    rw [flatMap_cons, append_assoc, append_assoc, singleton_append, hsplit,
      ih fun g hg => h g (mem_cons_of_mem _ hg), cons_append]

/-- The first of every four fields. -/
def everyFourth {α : Type} : List α → List α
  | a :: _ :: _ :: _ :: l => a :: everyFourth l
  | _ => []

theorem everyFourth_splitOn {α : Type} {a b c d : α → List Char} (ha : ∀ x, ',' ∉ a x) (hb : ∀ x, ',' ∉ b x)
    (hc : ∀ x, ',' ∉ c x) (hd : ∀ x, ',' ∉ d x) {tail : List Char} (ht : ',' ∉ tail) (xs : List α)
    {first : List Char} (hf : ',' ∉ first) :
    everyFourth ((first ++ (xs.flatMap (fun x => ',' :: a x ++ ',' :: b x ++ ',' :: c x ++ ',' :: d x) ++
      tail)).splitOn ',').tail = xs.map a := by
  induction xs generalizing first with
  | nil =>
    rw [flatMap_nil, nil_append, splitOn_eq_singleton (by simp [hf, ht])]
    rfl
  | cons x xs ih =>
    have hrest := ih (hd x)
    generalize hr : xs.flatMap (fun x => ',' :: a x ++ ',' :: b x ++ ',' :: c x ++ ',' :: d x) ++ tail = rest at hrest
    have hsplit : (first ++ ((x :: xs).flatMap (fun x => ',' :: a x ++ ',' :: b x ++ ',' :: c x ++ ',' :: d x) ++
        tail)).splitOn ',' = first :: a x :: b x :: c x :: (d x ++ rest).splitOn ',' := by
      rw [flatMap_cons, append_assoc, hr]
      simp only [cons_append, append_assoc]
      rw [splitOn_append_cons_self_of_not_mem hf, splitOn_append_cons_self_of_not_mem (ha x),
        splitOn_append_cons_self_of_not_mem (hb x), splitOn_append_cons_self_of_not_mem (hc x)]
    obtain ⟨f, _, hfs⟩ := exists_cons_of_ne_nil (splitOn_ne_nil ',' (d x ++ rest))
    rw [hfs] at hrest
    rw [hsplit, hfs, tail_cons, everyFourth, map_cons]
    exact congrArg _ hrest

end G4Common.Printf
