/-
The two string helpers of `gps/utils/loc_misc_utils.cpp`.

Splitting writes a NUL over each delimiter and keeps where the pieces start; it is right as long as the length of the
string is an `int`, or the last piece is found before the count of characters ends.  Trimming moves what is behind the
leading spaces to the front and cuts off what follows the last character that is no space; where there is no such
character nothing is cut off, so a string of spaces is left as it is.
-/
import G4Common.Gps.LocCfgComplete
import Mathlib.Data.List.DropRight
import Mathlib.Tactic.NormNum

namespace G4Common.Gps

open List Scanf

/-- The variables of `loc_util_split_string()`. -/
structure SplitState where
  raw_string : List Char
  split_strings : List ℕ
  num_split_strings : ℕ

/-- The loop of `loc_util_split_string()`, with `k` rounds left until `raw_string_length`. -/
def splitLoop (max : ℕ) (delimiter : Char) : ℕ → ℕ → SplitState → SplitState
  | 0, _, st => st
  | k + 1, i, st =>
    let c := st.raw_string.getD i '\x00'
    let end_string : Bool := c = '\x00'
    if c = delimiter ∨ end_string then
      let st := { st with raw_string := st.raw_string.set i '\x00', num_split_strings := st.num_split_strings + 1 }
      if 0 < k ∧ st.num_split_strings < max then
        let st := { st with split_strings := st.split_strings ++ [i + 1] }
        if end_string then st else splitLoop max delimiter k (i + 1) st
      else st
    else splitLoop max delimiter k (i + 1) st

/-- `raw_string_length`, an `int`. -/
def rawStringLength (s : List Char) : ℤ := ((s.length : ℤ) + 1).bmod 4294967296

/-- `loc_util_split_string()`, for the string `s` with its NUL behind it. -/
def locUtilSplitString (s : List Char) (max : ℕ) (delimiter : Char) : SplitState :=
  splitLoop max delimiter (rawStringLength s).toNat 0 ⟨s ++ ['\x00'], [0], 0⟩

/-- The string that starts at a place. -/
def stringAt (raw : List Char) (p : ℕ) : List Char := (raw.drop p).takeWhile (· ≠ '\x00')

/-- What is returned in `split_strings_ptr`. -/
def SplitState.strings (st : SplitState) : List (List Char) :=
  (st.split_strings.take st.num_split_strings).map (stringAt st.raw_string)

/-- The string without the spaces at its two ends. -/
def trimmed (s : List Char) : List Char := (s.dropWhile isSpace).rdropWhile isSpace

/-- `loc_util_trim_space()` removes the spaces at the ends, and a second time there are none. -/
def TrimRight (s : List Char) : Prop :=
  locUtilTrimSpace s = trimmed s ∧ locUtilTrimSpace (locUtilTrimSpace s) = locUtilTrimSpace s

/-- `loc_util_split_string()` finds the first fields; if these are all, they are the string. -/
def SplitRight (s : List Char) (max : ℕ) (d : Char) : Prop :=
  (locUtilSplitString s max d).num_split_strings = min max (1 + s.count d) ∧
    (locUtilSplitString s max d).strings = (s.splitOn d).take (min max (1 + s.count d)) ∧
    (1 + s.count d ≤ max → [d].intercalate (locUtilSplitString s max d).strings = s)

/-- The length is an `int`, or the fields end within it. -/
def SplitFits (s : List Char) (max : ℕ) (d : Char) : Prop :=
  rawStringLength s = s.length + 1 ∨ max ≤ (s.take (rawStringLength s).toNat).count d

variable {s u rest : List Char} {d : Char} {max k n : ℕ}

/-! ### Trimming -/

theorem trim_fold_eq (s : List Char) : s.foldl trimStep ⟨false, [], none⟩ =
    if blank s then ⟨false, [], none⟩ else ⟨true, s.dropWhile isSpace, some (trimmed s).length⟩ := by
  induction s using reverseRecOn with
  | nil => rfl
  | append_singleton s c ih =>
    rw [foldl_append, foldl_cons, foldl_nil, ih, blank_append]
    have hsingle : blank [c] = isSpace c := Bool.and_true _
    rcases hs : blank s with - | -
    · have hdrop : (s ++ [c]).dropWhile isSpace = s.dropWhile isSpace ++ [c] := by
        rw [dropWhile_append, if_neg]
        rw [List.isEmpty_iff, dropWhile_eq_nil_iff]
        exact fun h => by simp [blank, all_eq_true.2 h] at hs
      rw [trimmed, trimmed, hdrop, hsingle]
      rcases hc : isSpace c with - | -
      · rw [rdropWhile_concat_neg _ _ _ (by simp [hc])]
        simp [trimStep, hc]
      · rw [rdropWhile_concat_pos _ _ _ hc]
        simp [trimStep, hc]
    have hdrop : (s ++ [c]).dropWhile isSpace = [c].dropWhile isSpace := by
      rw [dropWhile_append, if_pos]
      rw [List.isEmpty_iff, dropWhile_eq_nil_iff]
      exact all_eq_true.1 hs
    rw [trimmed, trimmed, hdrop, hsingle]
    rcases hc : isSpace c with - | - <;> simp [trimStep, hc, rdropWhile_singleton]

/-- **Trimming**: a string of spaces is left as it is. -/
theorem locUtilTrimSpace_eq (s : List Char) : locUtilTrimSpace s = if blank s then s else trimmed s := by
  rw [locUtilTrimSpace, trim_fold_eq]
  split_ifs with h
  · rfl
  · exact (prefix_iff_eq_take.1 ( rdropWhile_prefix _ _)).symm

theorem blank_false_iff : blank s = false ↔ ∃ c ∈ s, isSpace c = false := by
  simp [blank]

theorem trimmed_trimmed (s : List Char) : trimmed (trimmed s) = trimmed s := by
  have hdrop : (trimmed s).dropWhile isSpace = trimmed s := by
    obtain ⟨r, hr⟩ := rdropWhile_prefix isSpace (s.dropWhile isSpace)
    change trimmed s ++ r = _ at hr
    rcases ht : trimmed s with - | ⟨c, t⟩
    · rfl
    · have hc := head?_dropWhile_not isSpace s
      rw [← hr, ht] at hc
      exact dropWhile_cons_of_neg (by simpa using hc)
  rw [trimmed, hdrop, trimmed]
  exact rdropWhile_idempotent _ _

theorem trimRight_iff (s : List Char) : TrimRight s ↔ s = [] ∨ blank s = false := by
  have hblank : blank s = true → trimmed s = [] := fun h => by
    rw [trimmed, dropWhile_eq_nil_iff.2 (all_eq_true.1 h)]
    rfl
  rcases hs : blank s with - | -
  · have heq : locUtilTrimSpace s = trimmed s := by simp [locUtilTrimSpace_eq, hs]
    refine iff_of_true ⟨heq, ?_⟩ (.inr rfl)
    rw [heq, locUtilTrimSpace_eq, trimmed_trimmed, ite_self]
  · have heq : locUtilTrimSpace s = s := by simp [locUtilTrimSpace_eq, hs]
    rw [TrimRight, heq, heq, hblank hs]
    simp

/-! ### Splitting -/

theorem splitLoop_cons {c : Char} (hc : c ≠ '\x00') (k : ℕ) (u rest : List Char) (ps : List ℕ) (n : ℕ) :
    splitLoop max d (k + 1) u.length ⟨u ++ c :: rest ++ ['\x00'], ps, n⟩ =
      if c = d then
        if 0 < k ∧ n + 1 < max then
          splitLoop max d k (u ++ ['\x00']).length
            ⟨u ++ ['\x00'] ++ rest ++ ['\x00'], ps ++ [u.length + 1], n + 1⟩
        else ⟨u ++ ['\x00'] ++ rest ++ ['\x00'], ps, n + 1⟩
      else splitLoop max d k (u ++ [c]).length ⟨u ++ [c] ++ rest ++ ['\x00'], ps, n⟩ := by
  have hget : (u ++ c :: rest ++ ['\x00']).getD u.length '\x00' = c := by simp [getD]
  have hset : (u ++ c :: rest ++ ['\x00']).set u.length '\x00' = u ++ ['\x00'] ++ rest ++ ['\x00'] := by simp
  have hmove : u ++ c :: rest ++ ['\x00'] = u ++ [c] ++ rest ++ ['\x00'] := by simp
  rw [splitLoop, hget, hset]
  simp only [hc, decide_false, Bool.false_eq_true, or_false, if_false, length_append, length_singleton, hmove]

theorem splitLoop_nul (u : List Char) (ps : List ℕ) (n : ℕ) :
    splitLoop max d 1 u.length ⟨u ++ ['\x00'], ps, n⟩ = ⟨u ++ ['\x00'], ps, n + 1⟩ := by
  simp [splitLoop, getD]

theorem count_splitLoop (hk : k ≤ rest.length) (hnul : '\x00' ∉ rest) (ps : List ℕ) {n : ℕ} (hn : n < max) :
    (splitLoop max d k u.length ⟨u ++ rest ++ ['\x00'], ps, n⟩).num_split_strings =
      min max (n + (rest.take k).count d) := by
  induction k generalizing u rest ps n with
  | zero => simp [splitLoop, hn.le]
  | succ k ih =>
    rcases rest with - | ⟨c, _⟩
    · simp at hk
    obtain ⟨hc, hnul⟩ := not_or.1 (fun h => hnul (mem_cons.2 h))
    rw [length_cons] at hk
    rw [splitLoop_cons (Ne.symm hc), take_succ_cons, count_cons]
    rcases eq_or_ne c d with rfl | hd
    · rw [if_pos rfl, if_pos (beq_self_eq_true c)]
      split_ifs with hgo
      · rw [ih (by omega) hnul _ hgo.2]
        omega
      show n + 1 = _
      rcases not_and_or.1 hgo with h | h
      · obtain rfl : k = 0 := by omega
        simp
        omega
      · omega
    · rw [if_neg hd, if_neg (by simpa using hd)]
      exact ih (by omega) hnul _ hn

theorem stringAt_closed {p : ℕ} (hp : p ≤ u.length) (hnul : '\x00' ∉ u.drop p) (t : List Char) :
    stringAt (u ++ '\x00' :: t) p = u.drop p := by
  rw [stringAt, drop_append_of_le_length hp, takeWhile_append_of_pos, takeWhile_cons_of_neg (by simp), append_nil]
  intro c hc
  exact decide_eq_true fun h => hnul (h ▸ hc)

theorem take_modifyHead {α : Type*} (f : α → α) (m : ℕ) (l : List α) :
    (l.modifyHead f).take m = (l.take m).modifyHead f := by
  cases l <;> cases m <;> rfl

/-- **Splitting**: the piece that was begun goes on with the first field of the rest, and the other fields follow. -/
theorem splitLoop_fields (hfit : k = rest.length + 1 ∨ max ≤ n + (rest.take k).count d) (hnul : '\x00' ∉ rest)
    {p : ℕ} (hp : p ≤ u.length) (hpre : '\x00' ∉ u.drop p) (ps : List ℕ) (hn : n < max) :
    ∃ w more, splitLoop max d k u.length ⟨u ++ rest ++ ['\x00'], ps ++ [p], n⟩ =
        ⟨u ++ w, ps ++ p :: more, n + 1 + more.length⟩ ∧
      (p :: more).map (stringAt (u ++ w)) =
        ((rest.splitOn d).take (max - n)).modifyHead (u.drop p ++ ·) := by
  induction rest generalizing u p ps n k with
  | nil =>
    have hk : k = 1 := hfit.resolve_right (by simp; omega)
    obtain ⟨m, hm⟩ : ∃ m, max - n = m + 1 := ⟨max - n - 1, by omega⟩
    refine ⟨['\x00'], [], ?_, ?_⟩
    · rw [hk, append_nil, splitLoop_nul]
      rfl
    · rw [map_singleton, stringAt_closed hp hpre, splitOn_nil, hm]
      simp
  | cons c rest ih =>
    obtain ⟨hc, hnul⟩ := not_or.1 (fun h => hnul (mem_cons.2 h))
    obtain ⟨k, rfl⟩ : ∃ r, k = r + 1 := by
      rcases k with - | k
      · simp at hfit
        omega
      · exact ⟨k, rfl⟩
    rw [take_succ_cons, count_cons, length_cons] at hfit
    rw [splitLoop_cons (Ne.symm hc), splitOn_cons_eq_if_modifyHead]
    rcases eq_or_ne c d with rfl | hd
    · rw [if_pos rfl, if_pos (beq_self_eq_true c)]
      rw [if_pos (beq_self_eq_true c)] at hfit
      obtain ⟨m, hm⟩ : ∃ m, max - n = m + 1 := ⟨max - n - 1, by omega⟩
      rcases Nat.lt_or_ge (n + 1) max with hgo | hgo
      · have hpos : 0 < k := by
          rcases k with - | k
          · simp at hfit
            omega
          · exact Nat.succ_pos k
        obtain ⟨w, more, hrun, hmap⟩ := ih (n := n + 1) (k := k) (u := u ++ ['\x00']) (p := u.length + 1)
          (by omega) hnul (by simp) (by simp) (ps ++ [p]) hgo
        refine ⟨'\x00' :: w, (u.length + 1) :: more, ?_, ?_⟩
        · rw [if_pos ⟨hpos, hgo⟩, hrun]
          simp
          omega
        rw [map_cons, stringAt_closed hp hpre, append_cons, hmap, hm, take_succ_cons, modifyHead_cons,
          append_nil, (by omega : max - (n + 1) = m)]
        simp only [length_append, length_singleton, Nat.le_refl, drop_eq_nil_of_le, nil_append]
        exact congrArg _ (congrFun modifyHead_id _)
      rw [if_neg fun h => absurd h.2 (Nat.not_lt.2 hgo)]
      refine ⟨'\x00' :: (rest ++ ['\x00']), [], by simp, ?_⟩
      rw [map_singleton, stringAt_closed hp hpre, (by omega : max - n = 1)]
      simp
    rw [if_neg hd, if_neg (by simpa using hd)]
    rw [if_neg (by simpa using hd)] at hfit
    have hdrop : (u ++ [c]).drop p = u.drop p ++ [c] := drop_append_of_le_length hp
    obtain ⟨w, more, hrun, hmap⟩ := ih (n := n) (k := k) (u := u ++ [c]) (p := p) (by omega) hnul
      (by simp; omega) (by simp [hdrop, hpre, hc]) ps hn
    refine ⟨c :: w, more, ?_, ?_⟩
    · rw [hrun]
      simp
    rw [append_cons, hmap, hdrop, take_modifyHead, modifyHead_modifyHead]
    congr 1
    funext l
    simp

theorem length_splitOn (s : List Char) : (s.splitOn d).length = 1 + s.count d := by
  induction s with
  | nil => rfl
  | cons c s ih =>
    rw [splitOn_cons_eq_if_modifyHead, count_cons]
    split_ifs
    · rw [length_cons, ih]
      omega
    · rw [length_modifyHead, ih, Nat.add_zero]

theorem rawStringLength_le (s : List Char) : rawStringLength s ≤ s.length + 1 := by
  have h := Int.bmod_def ((s.length : ℤ) + 1) 4294967296
  norm_num at h
  unfold rawStringLength
  split at h <;> omega

theorem splitRight_iff (hnul : '\x00' ∉ s) (hmax : 1 ≤ max) : SplitRight s max d ↔ SplitFits s max d := by
  rw [SplitRight, SplitFits, locUtilSplitString]
  constructor
  · rintro ⟨hcount, -⟩
    by_contra hno
    obtain ⟨hlen, _⟩ := not_or.1 hno
    have hle : (rawStringLength s).toNat ≤ s.length := by
      have := rawStringLength_le s
      omega
    have hcut := (s.take_sublist (rawStringLength s).toNat).count_le d
    have hfound := hcount.symm.trans (count_splitLoop (u := []) (d := d) hle hnul [0] hmax)
    omega
  intro _
  have hfit' : (rawStringLength s).toNat = s.length + 1 ∨ max ≤ 0 + (s.take (rawStringLength s).toNat).count d := by
    omega
  obtain ⟨w, more, hrun, hmap⟩ :=
    splitLoop_fields (u := []) (p := 0) hfit' hnul (Nat.le_refl _) not_mem_nil [] hmax
  have hmap' : (0 :: more).map (stringAt w) = (s.splitOn d).take max := hmap.trans (congrFun modifyHead_id _)
  have hlen : 1 + more.length = min max (1 + s.count d) := by
    have h := congrArg length hmap'
    rw [length_map, length_cons, length_take, length_splitOn] at h
    omega
  have hrun' : splitLoop max d (rawStringLength s).toNat 0 ⟨s ++ ['\x00'], [0], 0⟩ =
      ⟨w, 0 :: more, 1 + more.length⟩ := by
    rw [← Nat.zero_add 1]
    exact hrun
  have hstrings : (SplitState.mk w (0 :: more) (1 + more.length)).strings = (s.splitOn d).take max := by
    rw [SplitState.strings, take_of_length_le (by exact Nat.le_of_eq (Nat.add_comm more.length 1))]
    exact hmap'
  rw [hrun', hstrings]
  refine ⟨hlen, ?_, fun hall => ?_⟩
  · rw [← length_splitOn, ← take_take, take_length]
  · rw [take_of_length_le ((length_splitOn ..).trans_le hall), intercalate_splitOn]

/-- **The string helpers** are right for a string that has a character other than spaces, or none at all, and whose
fields end within an `int`. -/
theorem misc_utils_iff (hnul : '\x00' ∉ s) (hmax : 1 ≤ max) :
    (TrimRight s ∧ SplitRight s max d) ↔ (s = [] ∨ ∃ c ∈ s, isSpace c = false) ∧ SplitFits s max d := by
  rw [trimRight_iff, splitRight_iff hnul hmax, blank_false_iff]

theorem misc_utils_iff_sample : (TrimRight " a;b ".toList ∧ SplitRight " a;b ".toList 2 ';') ↔
    (" a;b ".toList = [] ∨ ∃ c ∈ " a;b ".toList, isSpace c = false) ∧ SplitFits " a;b ".toList 2 ';' :=
  misc_utils_iff (by decide) (by decide)

/-- A string of one blank is not made empty. -/
theorem blank_not_trimmed : ¬ ∀ (s : List Char) (max : ℕ) (d : Char), '\x00' ∉ s → d ≠ '\x00' → 1 ≤ max →
    TrimRight s ∧ SplitRight s max d := by
  intro h
  have htrim : locUtilTrimSpace [' '] = [] := (h [' '] 1 ';' (by decide) (by decide) (by decide)).1.1
  exact nomatch htrim

end G4Common.Gps
