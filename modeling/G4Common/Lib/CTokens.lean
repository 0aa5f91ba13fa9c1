/-
Further functions of the C library on strings: `strstr()`, `strtok_r()` one call at a time, and `strtoul()` with the base
found from the number itself.

A text of words with one blank between each two is read back word by word (`strtokR_spaced`), and a word that starts with
a hexadecimal number has its value, whatever comes behind it (`strtoul_hex`).
-/
import G4Common.Lib.CString
import Mathlib.Data.List.Infix

namespace G4Common.CString

open Scanf List Option

/-! ### Occurrences -/

/-- `strstr()`: what is before the first occurrence, and what is behind it. -/
def strstr (needle : List Char) : List Char → Option (List Char × List Char)
  | [] => if needle = [] then some ([], []) else none
  | c :: s =>
    if needle.isPrefixOf (c :: s) then some ([], (c :: s).drop needle.length)
    else (strstr needle s).map fun r => (c :: r.1, r.2)

variable {needle s t : List Char}
variable {delims digits rest w : List Char}

theorem strstr_eq_none_iff : strstr needle s = none ↔ ¬ needle <:+: s := by
  induction s with
  | nil =>
    rw [strstr, infix_nil]
    split
    · rename_i h
      exact iff_of_false (some_ne_none _) (not_not_intro h)
    · rename_i h
      exact iff_of_true rfl h
  | cons c s ih =>
    rw [strstr, infix_cons_iff]
    split
    · rename_i h
      exact iff_of_false (some_ne_none _) fun hn => hn (.inl ( isPrefixOf_iff_prefix.1 h))
    · rename_i h
      rw [map_eq_none_iff, ih, not_or]
      exact (and_iff_right fun hp => h ( isPrefixOf_iff_prefix.2 hp)).symm

theorem strstr_eq_some {a b : List Char} (h : strstr needle s = some (a, b)) : s = a ++ needle ++ b := by
  induction s generalizing a b with
  | nil =>
    rw [strstr] at h
    split at h
    · rename_i hneedle
      cases h
      rw [hneedle]
      rfl
    · cases h
  | cons c s ih =>
    rw [strstr] at h
    split at h
    · rename_i hprefix
      obtain ⟨r, hr⟩ := isPrefixOf_iff_prefix.1 hprefix
      cases h
      rw [← hr, drop_left]
      rfl
    obtain ⟨⟨_, _⟩, hrest, heq⟩ := map_eq_some_iff.1 h
    obtain ⟨rfl, rfl⟩ := Prod.mk.inj heq
    rw [ih hrest]
    rfl

section

variable {c : Char} {needle : List Char} (hs : ∀ d ∈ s, d ≠ c)
include hs

theorem strstr_append (t : List Char) :
    strstr (c :: needle) (s ++ t) = (strstr (c :: needle) t).map fun r => (s ++ r.1, r.2) := by
  induction s with
  | nil =>
    show strstr (c :: needle) t = (strstr (c :: needle) t).map id
    rw [Option.map_id, id]
  | cons d s ih =>
    have hne : ¬ (c :: needle).isPrefixOf (d :: (s ++ t)) = true := by
      intro h
      obtain ⟨r, hr⟩ := isPrefixOf_iff_prefix.1 h
      exact hs d mem_cons_self (cons.inj hr).1.symm
    rw [cons_append, strstr, if_neg hne, ih fun x hx => hs x (mem_cons_of_mem _ hx), Option.map_map]
    rfl

theorem strstr_skip (t : List Char) : strstr (c :: needle) (s ++ ((c :: needle) ++ t)) = some (s, t) := by
  have hprefix : (c :: needle).isPrefixOf (c :: (needle ++ t)) = true :=
    isPrefixOf_iff_prefix.2 (prefix_append (c :: needle) t)
  rw [strstr_append hs, cons_append, strstr, if_pos hprefix, length_cons, drop_succ_cons, drop_left]
  show some (s ++ [], t) = _
  rw [append_nil]

theorem strstr_of_notMem : strstr (c :: needle) s = none := by
  have h := @strstr_append s c needle hs []
  rw [append_nil] at h
  rw [h]
  rfl

end

/-! ### Tokens, one at a time -/

/-- `strtok_r()`: a token, and what is left for the next call. -/
def strtokR (delims s : List Char) : Option (List Char) × List Char :=
  let s := s.dropWhile fun c => c ∈ delims
  if s = [] then (none, [])
  else (some (s.takeWhile fun c => c ∉ delims), (s.dropWhile fun c => c ∉ delims).drop 1)

/-- The string as it is after a token has been cut off: it ends behind the token. -/
def cutToken (delims s : List Char) : List Char :=
  (s.takeWhile fun c => c ∈ delims) ++ (s.dropWhile fun c => c ∈ delims).takeWhile fun c => c ∉ delims

theorem cutToken_prefix (delims s : List Char) : cutToken delims s <+: s := by
  obtain ⟨t, ht⟩ := takeWhile_prefix (p := fun c => decide (c ∉ delims)) (l := s.dropWhile fun c => c ∈ delims)
  refine ⟨t, ?_⟩
  rw [cutToken, append_assoc, ht, takeWhile_append_dropWhile]

/-- Words with a blank between each two. -/
def spaced : List (List Char) → List Char
  | [] => []
  | [w] => w
  | w :: v :: ws => w ++ ' ' :: spaced (v :: ws)

theorem mem_spaced {c : Char} {ws : List (List Char)} (h : c ∈ spaced ws) : c = ' ' ∨ ∃ w ∈ ws, c ∈ w := by
  induction ws with
  | nil => exact nomatch h
  | cons w ws ih =>
    rcases ws with - | ⟨v, _⟩
    · exact .inr ⟨w, mem_cons_self, h⟩
    rcases mem_append.1 h with h | h
    · exact .inr ⟨w, mem_cons_self, h⟩
    rcases mem_cons.1 h with h | h
    · exact .inl h
    · rcases ih h with h | ⟨u, hu, h⟩
      · exact .inl h
      · exact .inr ⟨u, mem_cons_of_mem _ hu, h⟩

theorem length_le_spaced {ws : List (List Char)} (h : ∀ w ∈ ws, w ≠ []) : ws.length ≤ (spaced ws).length := by
  induction ws with
  | nil => exact Nat.le_refl _
  | cons w ws ih =>
    obtain ⟨hw, hws⟩ := forall_mem_cons.1 h
    have hpos := length_pos_iff.2 hw
    rcases ws with - | ⟨v, ws⟩
    · exact hpos
    · have hle := ih hws
      rw [spaced, length_append, @length_cons _ ' ' (spaced (v :: ws)), length_cons]
      omega

/-- A word is not empty and has no delimiters. -/
def IsWord (delims w : List Char) : Prop := w ≠ [] ∧ ∀ c ∈ w, c ∉ delims

theorem length_strtokR {s r : List Char} (h : strtokR delims s = (some w, r)) : r.length < s.length := by
  rw [strtokR] at h
  split at h
  · cases h
  rename_i hne
  obtain ⟨-, rfl⟩ := Prod.mk.inj h
  have hskip := (dropWhile_suffix (l := s) fun c => decide (c ∈ delims)).length_le
  have hdrop := (dropWhile_suffix (l := s.dropWhile fun c => decide (c ∈ delims))
    fun c => decide (c ∉ delims)).length_le
  have hpos := length_pos_iff.2 hne
  rw [length_drop]
  omega

theorem strtokR_word (hw : IsWord delims w) : strtokR delims w = (some w, []) := by
  obtain ⟨hne, hall⟩ := hw
  have hskip : w.dropWhile (fun c => c ∈ delims) = w := by
    rcases w with - | ⟨c, w⟩
    · rfl
    · exact dropWhile_cons_of_neg (by rw [decide_eq_true_eq]; exact hall c mem_cons_self)
  have hp : ∀ c ∈ w, decide (c ∉ delims) = true := fun c hc => decide_eq_true (hall c hc)
  rw [strtokR]
  rw [hskip, if_neg hne, takeWhile_eq_self_iff.2 hp, dropWhile_eq_nil_iff.2 hp]
  rfl

theorem strtokR_word_blank (hw : IsWord delims w) (hblank : ' ' ∈ delims) (s : List Char) :
    strtokR delims (w ++ ' ' :: s) = (some w, s) := by
  obtain ⟨hne, hall⟩ := hw
  have hskip : (w ++ ' ' :: s).dropWhile (fun c => c ∈ delims) = w ++ ' ' :: s := by
    rcases w with - | ⟨c, w⟩
    · exact absurd rfl hne
    · exact dropWhile_cons_of_neg (by rw [decide_eq_true_eq]; exact hall c mem_cons_self)
  have hp : ∀ c ∈ w, decide (c ∉ delims) = true := fun c hc => decide_eq_true (hall c hc)
  have hq : decide (' ' ∉ delims) = false := decide_eq_false (not_not_intro hblank)
  rw [strtokR]
  rw [hskip, if_neg (append_ne_nil_of_left_ne_nil hne _), takeWhile_append_of_pos hp,
    dropWhile_append_of_pos hp, takeWhile_cons, dropWhile_cons, hq]
  show (some (w ++ []), s) = _
  rw [append_nil]

/-- **Words are read back** one by one. -/
theorem strtokR_spaced {ws : List (List Char)} (hw : IsWord delims w) (hblank : ' ' ∈ delims) :
    strtokR delims (spaced (w :: ws)) = (some w, spaced ws) := by
  rcases ws with - | ⟨v, _⟩
  · exact strtokR_word hw
  · exact strtokR_word_blank hw hblank _

/-! ### Numbers -/

/-- `strtoul(s, NULL, 0)`, with an `unsigned long` of 64 bits. -/
def strtoul (s : List Char) : ℕ :=
  let s := skipSpace s
  let negative := s.head? = some '-'
  let s := if s.head? = some '-' ∨ s.head? = some '+' then s.drop 1 else s
  let n :=
    if s.head? = some '0' then
      if ((s.drop 1).head?.map Char.toLower) = some 'x' then digitsVal 16 (s.drop 2) else digitsVal 8 s
    else digitsVal 10 s
  if 2 ^ 64 ≤ n then 2 ^ 64 - 1
  else if negative then (2 ^ 64 - n) % 2 ^ 64
  else n

section

variable (hdigits : ∀ c ∈ digits, (hexVal c).isSome = true)
    (hrest : ∀ c ∈ rest.head?, hexVal c = none)
include hdigits hrest

theorem digitsVal_hex : digitsVal 16 (digits ++ rest) = hexNum digits := by
  have hp : ∀ c ∈ digits, ((hexVal c).any fun x => x < 16) = true := by
    intro c hc
    obtain ⟨x, hx⟩ := isSome_iff_exists.1 (hdigits c hc)
    rw [hx]
    exact decide_eq_true (hexVal_lt hx)
  have hend : rest.takeWhile (fun c => (hexVal c).any fun x => x < 16) = [] := by
    rcases rest with - | ⟨c, _⟩
    · rfl
    · apply takeWhile_cons_of_neg
      rw [hrest c rfl]
      exact Bool.false_ne_true
  rw [digitsVal, takeWhile_append_of_pos hp, hend, append_nil]
  rfl

/-- **A hexadecimal number** at the start. -/
theorem strtoul_hex (hlt : hexNum digits < 2 ^ 64) : strtoul ('0' :: 'x' :: (digits ++ rest)) = hexNum digits := by
  have hskip : skipSpace ('0' :: 'x' :: (digits ++ rest)) = '0' :: 'x' :: (digits ++ rest) := skipSpace_of_not rfl _
  have hlow : (some 'x').map Char.toLower = some 'x' := rfl
  have hsign : ¬ (some '0' = some '-' ∨ some '0' = some '+') := by decide
  have hminus : ¬ some '0' = some '-' := by decide
  simp only [strtoul, hskip, head?_cons, if_neg hsign, if_neg hminus, if_true, drop_succ_cons, drop_zero,
    hlow, digitsVal_hex hdigits hrest, if_neg (Nat.not_le.2 hlt)]

end

end G4Common.CString
