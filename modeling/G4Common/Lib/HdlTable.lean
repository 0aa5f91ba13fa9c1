/-
Objects that are installed under a handle, and the records of who installed them.

A program installs objects elsewhere, gets a handle for each, and deletes them by
handle.  A handle that is given is not in use, and a deletion of a handle that is
not in use is counted as a wrong one.  The program keeps the handles in records of
its own.  `Ledger` says that the records are right: the objects installed are
exactly those recorded, each once, and no deletion was wrong so far.

Records that are spread over the slots of a table are put together by `slotRecs`.
A change of one slot leaves the other records (`slotRecs_split`), and a slot without
records may go, the later ones moving up (`slotRecs_shift`).
-/
import Mathlib.Data.List.Range
import Mathlib.Data.List.Perm.Basic
import Mathlib.Logic.Function.Basic

namespace G4Common

open Function List

/-- The installed objects, by handle, with the number of wrong deletions. -/
structure HdlTable (H O : Type*) where
  installed : H → Option O
  wrong : ℕ

namespace HdlTable

variable {H O : Type*} [DecidableEq H] {t t' : HdlTable H O} {h : H} {o : O} {l l' d : List (H × O)}

def empty : HdlTable H O := ⟨fun _ => none, 0⟩

/-- Install an object under a handle; `none` if the handle is in use. -/
def add (t : HdlTable H O) (h : H) (o : O) : Option (HdlTable H O) :=
  if (t.installed h).isSome then none
  else some { t with installed := update t.installed h (some o) }

def del (t : HdlTable H O) (h : H) : HdlTable H O × Bool :=
  if (t.installed h).isSome then
    ({ t with installed := update t.installed h none }, true)
  else ({ t with wrong := t.wrong + 1 }, false)

def refuse (t : HdlTable H O) (h : H) : HdlTable H O :=
  if (t.installed h).isSome then t else { t with wrong := t.wrong + 1 }

/-- The records are exactly what is installed, and no deletion was wrong. -/
structure Ledger (t : HdlTable H O) (l : List (H × O)) : Prop where
  nodup : (l.map Prod.fst).Nodup
  mem_iff : ∀ h o, t.installed h = some o ↔ (h, o) ∈ l
  wrong : t.wrong = 0

omit [DecidableEq H] in
theorem Ledger.nil : Ledger (empty : HdlTable H O) [] where
  nodup := nodup_nil
  mem_iff := fun _ _ => by simp [empty]
  wrong := rfl

omit [DecidableEq H] in
theorem Ledger.perm (hl : Ledger t l) (hp : l.Perm l') : Ledger t l' where
  nodup := (hp.map Prod.fst).nodup_iff.mp hl.nodup
  mem_iff := fun h o => (hl.mem_iff h o).trans hp.mem_iff
  wrong := hl.wrong

theorem Ledger.add (hl : Ledger t l) (ha : t.add h o = some t') : Ledger t' ((h, o) :: l) := by
  unfold HdlTable.add at ha
  split at ha
  · exact nomatch ha
  rename_i hno
  cases ha
  have hnone : t.installed h = none := by simpa using hno
  have hfresh : h ∉ l.map Prod.fst := by
    intro hmem
    obtain ⟨x, hx, rfl⟩ := mem_map.mp hmem
    have hsome := (hl.mem_iff x.1 x.2).mpr hx
    exact nomatch hnone.symm.trans hsome
  refine ⟨nodup_cons.mpr ⟨hfresh, hl.nodup⟩, fun h' o' => ?_, hl.wrong⟩
  dsimp only
  rcases eq_or_ne h' h with rfl | hh
  · rw [update_self, mem_cons]
    constructor
    · intro heq
      rw [Option.some.inj heq]
      exact .inl rfl
    · rintro (heq | hmem)
      · rw [(Prod.mk.inj heq).2]
      · exact absurd (mem_map.mpr ⟨_, hmem, rfl⟩) hfresh
  rw [update_of_ne hh, mem_cons, hl.mem_iff]
  constructor
  · exact .inr
  · rintro (heq | hmem)
    · exact absurd (Prod.mk.inj heq).1 hh
    · exact hmem

theorem Ledger.del (hl : Ledger t ((h, o) :: l)) : (t.del h).2 ∧ Ledger (t.del h).1 l := by
  have hsome : t.installed h = some o := (hl.mem_iff h o).mpr (mem_cons_self ..)
  have hnd := nodup_cons.mp hl.nodup
  unfold HdlTable.del
  rw [if_pos (by simp [hsome])]
  refine ⟨rfl, hnd.2, fun h' o' => ?_, hl.wrong⟩
  dsimp only
  rcases eq_or_ne h' h with rfl | hh
  · rw [update_self]
    constructor
    · intro heq
      exact nomatch heq
    · intro hmem
      exact absurd (mem_map.mpr ⟨_, hmem, rfl⟩) hnd.1
  rw [update_of_ne hh, hl.mem_iff, mem_cons]
  constructor
  · rintro (heq | hmem)
    · exact absurd (Prod.mk.inj heq).1 hh
    · exact hmem
  · exact .inr

/-- Install an object under several handles. -/
def addAll (t : HdlTable H O) (o : O) : List H → Option (HdlTable H O)
  | [] => some t
  | h :: hs => (t.add h o).bind fun t => t.addAll o hs

/-- Delete by several handles. -/
def delAll (t : HdlTable H O) (hs : List H) : HdlTable H O := hs.foldl (fun t h => (t.del h).1) t

variable {hs : List H}

theorem Ledger.addAll (hl : Ledger t l) (ha : t.addAll o hs = some t') : Ledger t' (hs.map (fun h => (h, o)) ++ l) := by
  induction hs generalizing t l with
  | nil =>
    cases ha
    exact hl
  | cons _ _ ih =>
    obtain ⟨_, hadd, ha⟩ := Option.bind_eq_some_iff.mp ha
    exact (ih (hl.add hadd) ha).perm perm_middle

theorem Ledger.delAll (hl : Ledger t (hs.map (fun h => (h, o)) ++ l)) : Ledger (t.delAll hs) l := by
  induction hs generalizing t with
  | nil => exact hl
  | cons _ _ ih => exact ih (Ledger.del hl).2

omit [DecidableEq H] in
/-- A failed deletion of a recorded object changes nothing. -/
theorem Ledger.refuse (hl : Ledger t l) (hmem : h ∈ l.map Prod.fst) : t.refuse h = t := by
  obtain ⟨x, hx, rfl⟩ := mem_map.mp hmem
  have hsome := (hl.mem_iff x.1 x.2).mpr hx
  unfold HdlTable.refuse
  rw [hsome]
  rfl

end HdlTable

/-! ### Records in slots -/

section

variable {R : Type*} {f f' : ℕ → List R} {i n : ℕ}

/-- The records of the first `n` slots. -/
def slotRecs (f : ℕ → List R) (n : ℕ) : List R := (range n).flatMap f

theorem slotRecs_succ : slotRecs f (n + 1) = slotRecs f n ++ f n := by
  simp [slotRecs, range_succ]

theorem slotRecs_congr (h : ∀ j < n, f' j = f j) : slotRecs f' n = slotRecs f n :=
  flatMap_congr fun j hj => h j (mem_range.mp hj)

theorem slotRecs_shift (hi : i < n) (hnil : f i = []) (hlow : ∀ j < i, f' j = f j)
    (hhigh : ∀ j, i ≤ j → j + 1 < n → f' j = f (j + 1)) : slotRecs f' (n - 1) = slotRecs f n := by
  induction n with
  | zero => exact absurd hi (Nat.not_lt_zero i)
  | succ n ih =>
    rw [Nat.add_sub_cancel, slotRecs_succ]
    rcases eq_or_ne i n with rfl | _
    · rw [hnil, append_nil]
      exact slotRecs_congr hlow
    -- the last slot moves up by one
    obtain ⟨m, rfl⟩ : ∃ m, n = m + 1 := ⟨n - 1, by omega⟩
    rw [slotRecs_succ, hhigh m (by omega) (by omega)]
    have hm := ih (by omega) fun j hj hlt => hhigh j hj (by omega)
    rw [Nat.add_sub_cancel] at hm
    rw [hm]

theorem slotRecs_split (hi : i < n) (hf : ∀ j, j ≠ i → f' j = f j) :
    ∃ l, (slotRecs f n).Perm (f i ++ l) ∧ (slotRecs f' n).Perm (f' i ++ l) := by
  have hp : (range n).Perm (i :: (range n).erase i) := perm_cons_erase (mem_range.mpr hi)
  have hrest : ((range n).erase i).flatMap f' = ((range n).erase i).flatMap f := by
    refine flatMap_congr fun j hj => hf j ?_
    rintro rfl
    exact nodup_range.not_mem_erase hj
  refine ⟨((range n).erase i).flatMap f, hp.flatMap_right f, ?_⟩
  rw [← hrest]
  exact hp.flatMap_right f'

end

end G4Common
