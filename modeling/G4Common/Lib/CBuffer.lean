/-
C arrays as buffers: the lists that their cells hold, and writing a list to them.
-/
import G4Common.Lib.CArray
import Mathlib.Data.List.Basic

namespace G4Common.CArray

open Function List Option

variable {α : Type*}

/-- The contents of the `n` cells from `i` on. -/
def slice (a : CArray α) (i n : ℕ) : List α := (range' i n).map a.get

/-- Memory that holds a list. -/
def ofList [Inhabited α] (l : List α) : CArray α := ⟨l.length, fun i => l.getD i default⟩

/-- Write a list to the cells from `i` on. -/
def writeList (a : CArray α) (i : ℕ) : List α → Option (CArray α)
  | [] => some a
  | x :: l => (a.write i x).bind fun a => writeList a (i + 1) l

variable {a b : CArray α} {i n : ℕ}
variable {l : List α}

@[simp] theorem length_slice : (a.slice i n).length = n := by
  simp [slice]

@[simp] theorem slice_zero : a.slice i 0 = [] := rfl

theorem slice_succ : a.slice i (n + 1) = a.get i :: a.slice (i + 1) n := by
  simp [slice, range'_succ]

theorem slice_add (m : ℕ) : a.slice i (n + m) = a.slice i n ++ a.slice (i + n) m := by
  simp [slice, ← range'_append_1]

theorem drop_slice (m : ℕ) : (a.slice i n).drop m = a.slice (i + m) (n - m) := by
  simp [slice, ← map_drop, drop_range']

theorem slice_congr (h : ∀ j, i ≤ j → j < i + n → a.get j = b.get j) : a.slice i n = b.slice i n := by
  apply map_congr_left
  intro j hj
  rw [mem_range'_1] at hj
  exact h j hj.1 hj.2

theorem getElem?_slice (j : ℕ) (hj : j < n) : (a.slice i n)[j]? = some (a.get (i + j)) := by
  simp [slice, hj]

theorem slice_ofList [Inhabited α] (l : List α) (h : i + n ≤ l.length) : (ofList l).slice i n = (l.drop i).take n := by
  apply ext_getElem?
  intro j
  by_cases hj : j < n
  · rw [getElem?_slice j hj, getElem?_take_of_lt hj, getElem?_drop]
    have hlt : i + j < l.length := by omega
    simp [ofList, List.getD, List.getElem?_eq_getElem hlt]
  · rw [getElem?_eq_none (by simp; omega), getElem?_eq_none (by simp; omega)]

/-- **Writing a list inside the array** changes its own cells only. -/
theorem writeList_of_le (h : i + l.length ≤ a.size) :
    ∃ a', a.writeList i l = some a' ∧ a'.size = a.size ∧ a'.slice i l.length = l ∧
      ∀ j, j < i ∨ i + l.length ≤ j → a'.get j = a.get j := by
  induction l generalizing a i with
  | nil => exact ⟨a, rfl, rfl, rfl, fun _ _ => rfl⟩
  | cons x l ih =>
    rw [length_cons] at h
    have hlt : i < a.size := by omega
    have hle : i + 1 + l.length ≤ (a.set i x).size := by
      rw [size_set]
      omega
    obtain ⟨a', hw, hsize, hslice, hframe⟩ := ih hle
    refine ⟨a', ?_, hsize, ?_, ?_⟩
    · rw [writeList, write_of_lt hlt, bind_some, hw]
    · rw [length_cons, slice_succ, hslice, hframe i (.inl (by omega)), get_set, update_self]
    · intro j hj
      rw [length_cons] at hj
      rw [hframe j (by omega), get_set, update_of_ne (by omega)]

theorem isSome_writeList (hi : i ≤ a.size) : (a.writeList i l).isSome ↔ i + l.length ≤ a.size := by
  constructor
  · intro h
    induction l generalizing a i with
    | nil => exact hi
    | cons x l ih =>
      by_cases hlt : i < a.size
      · rw [writeList, write_of_lt hlt, bind_some] at h
        have hle := ih (a := a.set i x) hlt h
        rw [size_set] at hle
        rw [length_cons]
        omega
      · rw [writeList, write, if_neg hlt] at h
        cases h
  intro h
  obtain ⟨_, hw, -⟩ := writeList_of_le h
  rw [hw]
  rfl

theorem writeList_append {m : List α} :
    a.writeList i (l ++ m) = (a.writeList i l).bind fun a => a.writeList (i + l.length) m := by
  induction l generalizing a i with
  | nil => rfl
  | cons x l ih =>
    rw [cons_append, writeList, writeList, bind_assoc]
    refine congrArg (Option.bind _) (funext fun a => ?_)
    rw [ih, length_cons, Nat.add_assoc, Nat.add_comm 1]

end G4Common.CArray
