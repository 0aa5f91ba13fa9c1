/-
The list of chips of `dtbtool` (`dtbtool/dtbtool.c`) and its order.

`chip_list` is a list of nodes; a node has the eight numbers that identify it and a master, the first node that was
read from the same DTB file.  `chip_add()` looks for the place of a node by its first four numbers, so nodes that agree
in these stay in the order in which they came.  The table of device trees is to be sorted by all eight
(`dtbtool/dtbtool.txt`).
-/
import G4Common.Lib.KeyInsert
import Mathlib.Data.List.Induction
import Mathlib.Data.List.Lex
import Mathlib.Data.Nat.Notation
import Mathlib.Order.Nat

namespace G4Common.Dtbtool

open List

/-! ### Nodes -/

/-- The numbers that identify a chip. -/
structure ChipId where
  chipset : UInt32
  platform : UInt32
  subtype : UInt32
  revNum : UInt32
  pmic_model : UInt32 × UInt32 × UInt32 × UInt32
deriving DecidableEq

/-- A `chipInfo_t`; masters are numbered. -/
structure ChipNode where
  id : ChipId
  master : ℕ
deriving DecidableEq

/-- The comparison of `chip_add()`. -/
def ChipId.before (c x : ChipId) : Bool :=
  c.chipset < x.chipset ∨
    (c.chipset = x.chipset ∧ (c.platform < x.platform ∨ (c.platform = x.platform ∧ (c.subtype < x.subtype ∨
            (c.subtype = x.subtype ∧ c.revNum < x.revNum)))))

/-- `chip_add()`, from a node of the list on; `none` for a duplicate. -/
def chipAdd (c : ChipNode) : List ChipNode → Option (List ChipNode)
  | [] => some [c]
  | x :: l =>
    if c.id.before x.id then some (c :: x :: l)
    else if c.id.chipset = x.id.chipset ∧ c.id.platform = x.id.platform ∧ c.id.subtype = x.id.subtype ∧
        c.id.revNum = x.id.revNum ∧ c.id.pmic_model.1 = x.id.pmic_model.1 ∧
        c.id.pmic_model.2.1 = x.id.pmic_model.2.1 ∧ c.id.pmic_model.2.2.1 = x.id.pmic_model.2.2.1 ∧
        c.id.pmic_model.2.2.2 = x.id.pmic_model.2.2.2 then none
    else (chipAdd c l).map fun l => x :: l

/-- `chip_list` after a call, whether or not it was a duplicate. -/
def chipStep (l : List ChipNode) (c : ChipNode) : List ChipNode := (chipAdd c l).getD l

def chipRun (cs : List ChipNode) : List ChipNode := cs.foldl chipStep []

/-! ### Keys -/

/-- The numbers that `chip_add()` sorts by. -/
def ChipId.placeKey (c : ChipId) : List ℕ :=
  [c.chipset.toNat, c.platform.toNat, c.subtype.toNat, c.revNum.toNat]

/-- All numbers, in the order in which the table is to be sorted. -/
def ChipId.tableKey (c : ChipId) : List ℕ :=
  [c.chipset.toNat, c.platform.toNat, c.subtype.toNat, c.revNum.toNat, c.pmic_model.1.toNat, c.pmic_model.2.1.toNat,
    c.pmic_model.2.2.1.toNat, c.pmic_model.2.2.2.toNat]

variable {c x : ChipId}

theorem before_iff : c.before x ↔ c.placeKey < x.placeKey := by
  simp only [ChipId.before, decide_eq_true_eq, ChipId.placeKey, cons_lt_cons_iff, UInt32.lt_iff_toNat_lt,
    UInt32.toNat_inj, lt_irrefl, and_false, or_false]

theorem tableKey_injective (h : c.tableKey = x.tableKey) : c = x := by
  obtain ⟨_, _, _, _, _, _, _, _⟩ := c
  obtain ⟨_, _, _, _, _, _, _, _⟩ := x
  simp only [ChipId.tableKey, cons.injEq, UInt32.toNat_inj, and_true] at h
  obtain ⟨rfl, rfl, rfl, rfl, rfl, rfl, rfl, rfl⟩ := h
  rfl

theorem tableKey_lt_of_placeKey_lt (h : c.placeKey < x.placeKey) : c.tableKey < x.tableKey := by
  simp only [ChipId.placeKey, ChipId.tableKey, cons_lt_cons_iff, lt_irrefl, and_false, or_false] at h ⊢
  omega

theorem sameId_iff :
    (c.chipset = x.chipset ∧ c.platform = x.platform ∧ c.subtype = x.subtype ∧ c.revNum = x.revNum ∧
      c.pmic_model.1 = x.pmic_model.1 ∧ c.pmic_model.2.1 = x.pmic_model.2.1 ∧
      c.pmic_model.2.2.1 = x.pmic_model.2.2.1 ∧ c.pmic_model.2.2.2 = x.pmic_model.2.2.2) ↔ c = x := by
  constructor
  · rintro ⟨h1, h2, h3, h4, h5, h6, h7, h8⟩
    apply tableKey_injective
    rw [ChipId.tableKey, ChipId.tableKey, h1, h2, h3, h4, h5, h6, h7, h8]
  · rintro rfl
    exact ⟨rfl, rfl, rfl, rfl, rfl, rfl, rfl, rfl⟩

theorem chipAdd_eq (c : ChipNode) (l : List ChipNode) :
    chipAdd c l = keyInsert (fun x : ChipNode => x.id.placeKey) (fun x y => decide (x.id = y.id)) c l := by
  induction l with
  | nil => rfl
  | cons _ _ ih =>
    simp only [chipAdd, keyInsert, before_iff, sameId_iff, ih, decide_eq_true_eq]

/-! ### Runs -/

section Runs

variable {l : List ChipNode} {c : ChipNode}

/-- Sorted by the first four numbers. -/
def Placed (l : List ChipNode) : Prop := l.Pairwise fun x y => x.id.placeKey ≤ y.id.placeKey

theorem chipStep_cases (hs : Placed l) : (c.id ∈ l.map ChipNode.id ∧ chipAdd c l = none ∧ chipStep l c = l) ∨
    (c.id ∉ l.map ChipNode.id ∧ chipAdd c l = some (chipStep l c) ∧ ∃ p q, l = p ++ q ∧ chipStep l c = p ++ c :: q ∧
      (∀ x ∈ p, x.id.placeKey ≤ c.id.placeKey) ∧ ∀ x ∈ q, c.id.placeKey < x.id.placeKey) := by
  have hnone : chipAdd c l = none ↔ c.id ∈ l.map ChipNode.id := by
    rw [chipAdd_eq, keyInsert_eq_none_iff _ hs, mem_map]
    · exact exists_congr fun x => and_congr_right fun _ => by rw [decide_eq_true_eq, eq_comm]
    · intro x hx
      rw [of_decide_eq_true hx]
  cases hadd : chipAdd c l with
  | none => exact .inl ⟨hnone.1 hadd, rfl, by rw [chipStep, hadd]; rfl⟩
  | some l' =>
    have hstep : chipStep l c = l' := by rw [chipStep, hadd]; rfl
    have hnot : c.id ∉ l.map ChipNode.id := by
      rw [← hnone, hadd]
      exact Option.some_ne_none l'
    rw [chipAdd_eq] at hadd
    rw [hstep]
    exact .inr ⟨hnot, rfl, keyInsert_eq_some hs hadd⟩

theorem placed_chipStep (hs : Placed l) : Placed (chipStep l c) := by
  rw [chipStep]
  cases hadd : chipAdd c l with
  | none => exact hs
  | some =>
    rw [chipAdd_eq] at hadd
    exact pairwise_keyInsert hs hadd

theorem placed_foldl (hs : Placed l) (cs : List ChipNode) : Placed (cs.foldl chipStep l) :=
  foldlRecOn cs chipStep hs fun _ hs _ _ => placed_chipStep hs

theorem placed_chipRun (cs : List ChipNode) : Placed (chipRun cs) := placed_foldl List.Pairwise.nil cs

theorem mem_map_id_chipStep (hs : Placed l) {i : ChipId} :
    i ∈ (chipStep l c).map ChipNode.id ↔ i = c.id ∨ i ∈ l.map ChipNode.id := by
  rcases chipStep_cases (c := c) hs with ⟨hmem, -, hstep⟩ | ⟨-, -, p, q, rfl, hstep, -, -⟩
  · rw [hstep]
    constructor
    · exact .inr
    · rintro (rfl | h)
      · exact hmem
      · exact h
  · rw [hstep, map_append, map_cons, mem_append, mem_cons, map_append, mem_append]
    exact or_left_comm

theorem mem_map_id_foldl (hs : Placed l) (cs : List ChipNode) (i : ChipId) :
    i ∈ (cs.foldl chipStep l).map ChipNode.id ↔ i ∈ l.map ChipNode.id ∨ i ∈ cs.map ChipNode.id := by
  induction cs generalizing l with
  | nil => exact (or_iff_left not_mem_nil).symm
  | cons _ _ ih =>
    rw [foldl_cons, ih (placed_chipStep hs), mem_map_id_chipStep hs, map_cons, mem_cons, or_assoc]
    exact or_left_comm

theorem mem_map_id_chipRun (cs : List ChipNode) (i : ChipId) :
    i ∈ (chipRun cs).map ChipNode.id ↔ i ∈ cs.map ChipNode.id := by
  rw [chipRun, mem_map_id_foldl List.Pairwise.nil]
  exact or_iff_right not_mem_nil

/-! ### The order of the table -/

/-- Sorted by all numbers, without duplicates. -/
def TableSorted (l : List ChipNode) : Prop := l.Pairwise fun x y => x.id.tableKey < y.id.tableKey

/-- A node with numbers that were not there before comes after all nodes with the same first four numbers. -/
def ComesLast (before : List ChipNode) (c : ChipNode) : Prop :=
  c.id ∉ before.map ChipNode.id → ∀ x ∈ before, x.id.placeKey = c.id.placeKey → x.id.tableKey < c.id.tableKey

def CallsInOrder (cs : List ChipNode) : Prop := ∀ before c after, cs = before ++ c :: after → ComesLast before c

theorem tableSorted_insert {p q : List ChipNode} (hp : ∀ x ∈ p, x.id.placeKey ≤ c.id.placeKey)
    (hq : ∀ x ∈ q, c.id.placeKey < x.id.placeKey) :
    TableSorted (p ++ c :: q) ↔ TableSorted (p ++ q) ∧
      ∀ x ∈ p ++ q, x.id.placeKey = c.id.placeKey → x.id.tableKey < c.id.tableKey := by
  rw [TableSorted, TableSorted, pairwise_append, pairwise_cons, pairwise_append]
  constructor
  · rintro ⟨hpp, ⟨-, hqq⟩, hpq⟩
    refine ⟨⟨hpp, hqq, fun x hx y hy => hpq x hx y (mem_cons_of_mem _ hy)⟩, ?_⟩
    intro x hx heq
    rcases mem_append.1 hx with hx | hx
    · exact hpq x hx c mem_cons_self
    · exact absurd heq (ne_of_gt (hq x hx))
  rintro ⟨⟨hpp, hqq, hpq⟩, hlast⟩
  refine ⟨hpp, ⟨fun y hy => tableKey_lt_of_placeKey_lt (hq y hy), hqq⟩, ?_⟩
  intro x hx y hy
  rcases mem_cons.1 hy with rfl | hy
  · rcases lt_or_eq_of_le (hp x hx) with hlt | heq
    · exact tableKey_lt_of_placeKey_lt hlt
    · exact hlast x (mem_append_left _ hx) heq
  · exact hpq x hx y hy

theorem tableSorted_chipStep (hs : Placed l) : TableSorted (chipStep l c) ↔ TableSorted l ∧ ComesLast l c := by
  rcases chipStep_cases (c := c) hs with ⟨hmem, -, hstep⟩ | ⟨hnot, -, p, q, hl, hstep, hp, hq⟩
  · rw [hstep]
    exact (and_iff_left fun hnot => absurd hmem hnot).symm
  · rw [hstep, tableSorted_insert hp hq, ← hl, ComesLast]
    exact and_congr_right fun _ => ⟨fun h _ => h, fun h => h hnot⟩

theorem comesLast_congr {l' : List ChipNode} (h : ∀ i, i ∈ l.map ChipNode.id ↔ i ∈ l'.map ChipNode.id) :
    ComesLast l c ↔ ComesLast l' c := by
  have hall : ∀ m : List ChipNode, (∀ x ∈ m, x.id.placeKey = c.id.placeKey → x.id.tableKey < c.id.tableKey) ↔
        ∀ i ∈ m.map ChipNode.id, i.placeKey = c.id.placeKey → i.tableKey < c.id.tableKey :=
    fun m => (forall_mem_map
      (P := fun i : ChipId => i.placeKey = c.id.placeKey → i.tableKey < c.id.tableKey)).symm
  rw [ComesLast, ComesLast, hall, hall, h c.id]
  exact imp_congr_right fun _ => forall_congr' fun i => by rw [h i]

theorem callsInOrder_concat (cs : List ChipNode) (c : ChipNode) :
    CallsInOrder (cs ++ [c]) ↔ CallsInOrder cs ∧ ComesLast cs c := by
  constructor
  · intro h
    refine ⟨?_, h cs c [] rfl⟩
    intro before x after heq
    refine h before x (after ++ [c]) ?_
    rw [heq, append_assoc, cons_append]
  rintro ⟨h, hlast⟩ before x after heq
  cases after using reverseRecOn with
  | nil =>
    obtain ⟨rfl, hx⟩ := append_inj' heq rfl
    obtain rfl := (cons.inj hx).1
    exact hlast
  | append_singleton after =>
    rw [← cons_append, ← append_assoc] at heq
    exact h before x after (append_inj' heq rfl).1

/-- The list is sorted by all numbers when nodes with the same first four numbers come in the order of the others. -/
theorem chip_list_sorted_iff (cs : List ChipNode) : TableSorted (chipRun cs) ↔ CallsInOrder cs := by
  induction cs using reverseRecOn with
  | nil => exact iff_of_true List.Pairwise.nil fun before c after h => absurd h (by simp)
  | append_singleton cs c ih =>
    have hrun : chipRun (cs ++ [c]) = chipStep (chipRun cs) c := foldl_concat _ _ _ _
    rw [hrun, tableSorted_chipStep (placed_chipRun cs), ih, callsInOrder_concat,
      comesLast_congr (mem_map_id_chipRun cs)]

end Runs

/-- A board with a power chip that is given by its model. -/
def boardWith (pmic : UInt32) (master : ℕ) : ChipNode := ⟨⟨206, 8, 0, 0, (pmic, 0, 0, 0)⟩, master⟩

/-- Two boards that differ in the model only stay as they came. -/
theorem chip_list_unsorted : chipRun [boardWith 10 0, boardWith 9 1] = [boardWith 10 0, boardWith 9 1] ∧
    ¬ TableSorted (chipRun [boardWith 10 0, boardWith 9 1]) := by
  have hrun : chipRun [boardWith 10 0, boardWith 9 1] = [boardWith 10 0, boardWith 9 1] := by decide
  refine ⟨hrun, ?_⟩
  rw [hrun]
  intro h
  exact absurd ((pairwise_cons.1 h).1 _ (mem_singleton_self _)) (by decide)

end G4Common.Dtbtool
