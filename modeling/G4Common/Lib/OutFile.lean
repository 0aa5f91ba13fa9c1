/-
A file that is written from its start with `write()`, where a call may write less than it is asked to or fail.

The answers of the calls are given by `w`: call number `k` fails when `w k` is `none`, and otherwise writes at most
`w k` elements.  The program adds up what the calls return, an error as `-1`.  When the calls could not write more than
expected and are not too many, the sum is as expected only if each call wrote everything (`wrote_writeAll_iff`).
-/
import Mathlib

namespace G4Common

open List

section OutFile

variable {α : Type*} (w : ℕ → Option ℕ)

/-- What is in the file, the sum of the results as a `size_t`, and what the calls were to write. -/
structure OutFile (α : Type*) where
  bytes : List α
  wrote : BitVec 64
  calls : List (List α)

/-- A file that was just opened. -/
def OutFile.opened : OutFile α := ⟨[], 0, []⟩

/-- `wrote += write(out_fd, buf, …)` -/
def OutFile.write (o : OutFile α) (buf : List α) : OutFile α :=
  match w o.calls.length with
  | none => ⟨o.bytes, o.wrote - 1, o.calls ++ [buf]⟩
  | some n => ⟨o.bytes ++ buf.take n, o.wrote + BitVec.ofNat 64 (min n buf.length), o.calls ++ [buf]⟩

def OutFile.writeAll (o : OutFile α) (bufs : List (List α)) : OutFile α := bufs.foldl (OutFile.write w) o

/-- Call number `k` writes everything. -/
def Full (k : ℕ) (buf : List α) : Prop := ∃ n, w k = some n ∧ buf.length ≤ n

/-- All calls write everything, the first being number `k`. -/
def AllFull (k : ℕ) (bufs : List (List α)) : Prop := ∀ i buf, bufs[i]? = some buf → Full w (k + i) buf

/-- What call number `k` returns. -/
def writeResult (k : ℕ) (buf : List α) : ℤ :=
  match w k with
  | none => -1
  | some n => min n buf.length

/-- The sum of the results, the first call being number `k`. -/
def resultSum : ℕ → List (List α) → ℤ
  | _, [] => 0
  | k, buf :: bufs => writeResult w k buf + resultSum (k + 1) bufs

variable {w} {k : ℕ} {buf : List α} {bufs bufs' : List (List α)} {o : OutFile α}

/-! ### One call -/

theorem calls_write (o : OutFile α) (buf : List α) : (o.write w buf).calls = o.calls ++ [buf] := by
  rw [OutFile.write]
  cases w o.calls.length <;> rfl

theorem wrote_write (o : OutFile α) (buf : List α) :
    (o.write w buf).wrote = o.wrote + BitVec.ofInt 64 (writeResult w o.calls.length buf) := by
  rw [OutFile.write, writeResult]
  cases w o.calls.length with
  | none =>
    show o.wrote - 1#64 = o.wrote + BitVec.ofInt 64 (-1)
    rw [BitVec.sub_eq_add_neg]
    rfl
  | some n =>
    have hmin : min (n : ℤ) buf.length = (min n buf.length : ℕ) := by omega
    dsimp only
    rw [hmin, BitVec.ofInt_natCast]

theorem bytes_write (h : Full w o.calls.length buf) : (o.write w buf).bytes = o.bytes ++ buf := by
  obtain ⟨n, hn, hle⟩ := h
  rw [OutFile.write, hn]
  show o.bytes ++ buf.take n = _
  rw [take_of_length_le hle]

theorem neg_one_le_writeResult (k : ℕ) (buf : List α) : -1 ≤ writeResult w k buf := by
  rw [writeResult]
  cases w k with
  | none => exact Int.le_refl _
  | some n =>
    dsimp only
    omega

theorem writeResult_le (k : ℕ) (buf : List α) : writeResult w k buf ≤ buf.length := by
  rw [writeResult]
  cases w k with
  | none =>
    dsimp only
    omega
  | some => exact min_le_right _ _

theorem full_iff : Full w k buf ↔ writeResult w k buf = buf.length := by
  rw [writeResult, Full]
  cases w k with
  | none =>
    constructor
    · rintro ⟨n, hn, -⟩
      exact absurd hn.symm (Option.some_ne_none n)
    · intro h
      dsimp only at h
      omega
  | some n =>
    constructor
    · rintro ⟨m, hm, _⟩
      cases hm
      dsimp only
      omega
    · intro h
      dsimp only at h
      exact ⟨n, rfl, by omega⟩

/-! ### Many calls -/

theorem writeAll_append : o.writeAll w (bufs ++ bufs') = (o.writeAll w bufs).writeAll w bufs' := foldl_append

theorem writeAll_singleton : o.writeAll w [buf] = o.write w buf := rfl

theorem calls_writeAll (o : OutFile α) (bufs : List (List α)) : (o.writeAll w bufs).calls = o.calls ++ bufs := by
  induction bufs generalizing o with
  | nil => exact (append_nil _).symm
  | cons buf bufs ih =>
    show ((o.write w buf).writeAll w bufs).calls = _
    rw [ih, calls_write, append_assoc, singleton_append]

theorem wrote_writeAll (o : OutFile α) (bufs : List (List α)) :
    (o.writeAll w bufs).wrote = o.wrote + BitVec.ofInt 64 (resultSum w o.calls.length bufs) := by
  induction bufs generalizing o with
  | nil => exact (BitVec.add_zero _).symm
  | cons buf bufs ih =>
    show ((o.write w buf).writeAll w bufs).wrote = _
    rw [ih, wrote_write, calls_write, length_append, resultSum, BitVec.ofInt_add, BitVec.add_assoc]
    rfl

theorem allFull_cons : AllFull w k (buf :: bufs) ↔ Full w k buf ∧ AllFull w (k + 1) bufs := by
  constructor
  · intro h
    refine ⟨h 0 buf rfl, ?_⟩
    intro i b hb
    rw [Nat.add_right_comm, Nat.add_assoc]
    exact h (i + 1) b hb
  rintro ⟨hbuf, hbufs⟩ i b hb
  cases i with
  | zero =>
    cases hb
    exact hbuf
  | succ i =>
    have := hbufs i b hb
    rwa [Nat.add_right_comm, Nat.add_assoc] at this

theorem bytes_writeAll (h : AllFull w o.calls.length bufs) : (o.writeAll w bufs).bytes = o.bytes ++ bufs.flatten := by
  induction bufs generalizing o with
  | nil => exact (append_nil _).symm
  | cons buf bufs ih =>
    obtain ⟨hbuf, hbufs⟩ := allFull_cons.1 h
    have hlen : (o.write w buf).calls.length = o.calls.length + 1 := by rw [calls_write, length_append]; rfl
    show ((o.write w buf).writeAll w bufs).bytes = _
    rw [ih (by rw [hlen]; exact hbufs), bytes_write hbuf, append_assoc, flatten_cons]

theorem neg_length_le_resultSum (k : ℕ) (bufs : List (List α)) : -(bufs.length : ℤ) ≤ resultSum w k bufs := by
  induction bufs generalizing k with
  | nil => exact Int.le_refl _
  | cons buf bufs ih =>
    rw [resultSum, length_cons]
    have := neg_one_le_writeResult (w := w) k buf
    have := ih (k + 1)
    omega

theorem resultSum_le (k : ℕ) (bufs : List (List α)) : resultSum w k bufs ≤ bufs.flatten.length := by
  induction bufs generalizing k with
  | nil => exact Int.le_refl _
  | cons buf bufs ih =>
    rw [resultSum, flatten_cons, length_append]
    have := writeResult_le (w := w) k buf
    have := ih (k + 1)
    omega

theorem allFull_iff : AllFull w k bufs ↔ resultSum w k bufs = bufs.flatten.length := by
  induction bufs generalizing k with
  | nil => exact ⟨fun _ => rfl, nofun⟩
  | cons buf bufs ih =>
    rw [allFull_cons, full_iff, ih, resultSum, flatten_cons, length_append]
    have := writeResult_le (w := w) k buf
    have := resultSum_le (w := w) (k + 1) bufs
    constructor
    · rintro ⟨_, _⟩
      omega
    · intro h
      constructor <;> omega

omit w in
theorem length_le_length_flatten {bufs : List (List α)} (h : ∀ buf ∈ bufs, 0 < buf.length) :
    bufs.length ≤ bufs.flatten.length := by
  induction bufs with
  | nil => exact Nat.le_refl _
  | cons buf bufs ih =>
    rw [length_cons, flatten_cons, length_append]
    have hbuf := h buf mem_cons_self
    have hbufs := ih fun b hb => h b (mem_cons_of_mem _ hb)
    omega

theorem wrote_writeAll_iff {expected : ℕ} (hle : bufs.flatten.length ≤ expected)
    (hbound : expected + bufs.length < 2 ^ 64) :
    (OutFile.opened.writeAll w bufs).wrote = BitVec.ofNat 64 expected ↔
      bufs.flatten.length = expected ∧ AllFull w 0 bufs := by
  have hlow := neg_length_le_resultSum (w := w) 0 bufs
  have hhigh := resultSum_le (w := w) 0 bufs
  have hwrote : (OutFile.opened.writeAll w bufs).wrote = BitVec.ofInt 64 (resultSum w 0 bufs) := by
    rw [wrote_writeAll]
    exact BitVec.zero_add _
  rw [hwrote, allFull_iff, ← BitVec.ofInt_natCast, ← BitVec.toNat_inj, BitVec.toNat_ofInt, BitVec.toNat_ofInt]
  constructor
  · intro h
    constructor <;> omega
  · rintro ⟨hlen, hsum⟩
    rw [hsum, hlen]

end OutFile

end G4Common
