/-
C arrays with checked access.

A C program that leaves an array has no meaning, so the models of this project
run in `Option`: `none` is an access outside an array (or a loop that does not
stop), and a theorem that a call returns `some` says that no such access
happens on the way.

`CArray α` is the content of an array together with its number of cells.  The
null pointer is the array without cells: every access to it fails.

The two search loops that C code writes over arrays are here as well:
`findCell` is `for (cnt = a; cnt < a + n; cnt++) if (p(cnt)) ...`, with the
test itself allowed to fail.
-/
import Mathlib.Logic.Function.Basic
import Mathlib.Order.Basic
import Mathlib.Tactic.Common

namespace G4Common

/-! ### Arrays -/

/-- A C array: its number of cells and their contents. -/
structure CArray (α : Type*) where
  size : ℕ
  get : ℕ → α

namespace CArray

variable {α : Type*}

/-- The null pointer: no cell may be accessed. -/
def null [Inhabited α] : CArray α := ⟨0, fun _ => default⟩

/-- Fresh memory of `n` cells, set to zero. -/
def zeros [Inhabited α] (n : ℕ) : CArray α := ⟨n, fun _ => default⟩

/-- Memory of `n` cells with the contents `f`. -/
def ofFn [Inhabited α] (n : ℕ) (f : ℕ → α) : CArray α :=
  ⟨n, fun i => if i < n then f i else default⟩

/-- `a[i]`, inside the array only. -/
def read (a : CArray α) (i : ℕ) : Option α :=
  if i < a.size then some (a.get i) else none

/-- The array after `a[i] = v`. -/
def set (a : CArray α) (i : ℕ) (v : α) : CArray α :=
  { a with get := Function.update a.get i v }

/-- `a[i] = v`, inside the array only. -/
def write (a : CArray α) (i : ℕ) (v : α) : Option (CArray α) :=
  if i < a.size then some (a.set i v) else none

/-- Set the first `n` cells to zero. -/
def clear [Inhabited α] (a : CArray α) (n : ℕ) : Option (CArray α) :=
  if n ≤ a.size then some { a with get := fun i => if i < n then default else a.get i } else none

variable {a : CArray α} {i : ℕ} {v : α}

@[simp] theorem size_set : (a.set i v).size = a.size := rfl

@[simp] theorem get_set : (a.set i v).get = Function.update a.get i v := rfl

theorem read_of_lt (h : i < a.size) : a.read i = some (a.get i) := if_pos h

theorem write_of_lt (h : i < a.size) : a.write i v = some (a.set i v) := if_pos h

theorem clear_ofFn [Inhabited α] (n : ℕ) (f : ℕ → α) : (ofFn n f).clear n = some (zeros n) := by
  have hget : (fun i => if i < n then (default : α) else if i < n then f i else default) = fun _ => default := by
    funext i
    split <;> rfl
  simp [clear, ofFn, zeros, hget]

theorem clear_of_lt [Inhabited α] {n : ℕ} (h : a.size < n) : a.clear n = none := if_neg (by omega)

end CArray

/-! ### Searching loops -/

/-- The first of the `n` positions from `cnt` on that satisfies `p`; the inner
`none` says that there is none. -/
def findCell (p : ℕ → Option Bool) : ℕ → ℕ → Option (Option ℕ)
  | 0, _ => some none
  | n + 1, cnt => do
    if ← p cnt then
      return some cnt
    findCell p n (cnt + 1)

/-- **A searching loop returns the first hit**, provided its test can be made
at every position. -/
theorem findCell_spec {p : ℕ → Option Bool} {q : ℕ → Bool} {n cnt : ℕ}
    (hp : ∀ i, cnt ≤ i → i < cnt + n → p i = some (q i)) :
    (findCell p n cnt = some none ∧ ∀ i, cnt ≤ i → i < cnt + n → q i = false) ∨
    ∃ k, findCell p n cnt = some (some k) ∧ cnt ≤ k ∧ k < cnt + n ∧ q k ∧
      ∀ i, cnt ≤ i → i < k → q i = false := by
  induction n generalizing cnt with
  | zero =>
    refine .inl ⟨rfl, fun i h1 h2 => ?_⟩
    omega
  | succ n ih =>
    have hcnt := hp cnt (Nat.le_refl _) (by omega)
    cases hq : q cnt with
    | true =>
      refine .inr ⟨cnt, ?_, Nat.le_refl _, by omega, hq, fun i h1 h2 => ?_⟩
      · simp [findCell, hcnt, hq]
      · omega
    | false =>
      have hstep : findCell p (n + 1) cnt = findCell p n (cnt + 1) := by
        simp [findCell, hcnt, hq]
      have hbelow : ∀ i, cnt ≤ i → i < cnt + 1 → q i = false := by
        intro i h1 h2
        obtain rfl : i = cnt := by omega
        exact hq
      rw [hstep]
      rcases @ih (cnt + 1) fun i h1 h2 => hp i (by omega) (by omega) with
        ⟨hnone, hall⟩ | ⟨k, hk, _, _, hqk, hall⟩
      · refine .inl ⟨hnone, fun i h1 h2 => ?_⟩
        rcases Nat.lt_or_ge i (cnt + 1) with hi | hi
        · exact hbelow i h1 hi
        · exact hall i hi (by omega)
      refine .inr ⟨k, hk, by omega, by omega, hqk, fun i h1 h2 => ?_⟩
      rcases Nat.lt_or_ge i (cnt + 1) with hi | hi
      · exact hbelow i h1 hi
      · exact hall i hi h2

end G4Common
