/-
Binary trees whose nodes are sorted by rank, with a size in every node.

The rank of an object is given by a comparison that comes from a key (`Ranking`): a number greater than zero
means that the first object ranks higher.  A tree is `Ordered` if nothing below a node ranks higher than the
node, and `Sized` if every size is the number of nodes below, the node included.  The objects in a tree are a
multiset, so equal ranks and equal objects are allowed.
-/
import Mathlib.Data.Multiset.AddSub
import Mathlib.Order.Lattice

namespace G4Common

universe u v

/-- A comparison that is a total preorder by a key. -/
structure Ranking (α : Type u) (K : Type v) [LinearOrder K] where
  ranks : α → α → ℤ
  key : α → K
  ranks_pos : ∀ x y, 0 < ranks x y ↔ key y < key x

/-- A tree; `null` is the null pointer. -/
inductive RankTree (α : Type u)
  | null
  | node (size : ℤ) (left right : RankTree α) (data : α)

namespace RankTree

variable {α : Type u}

def isNull : RankTree α → Bool
  | null => true
  | node _ _ _ _ => false

def size : RankTree α → ℤ
  | null => 0
  | node s _ _ _ => s

/-- The object in the root, or `d`. -/
def dataD (d : α) : RankTree α → α
  | null => d
  | node _ _ _ x => x

def elems : RankTree α → Multiset α
  | null => 0
  | node _ l r x => x ::ₘ (l.elems + r.elems)

/-- Every size is the number of nodes. -/
def Sized : RankTree α → Prop
  | null => True
  | node s l r _ => s = l.size + r.size + 1 ∧ l.Sized ∧ r.Sized

variable {K : Type v} [LinearOrder K] (R : Ranking α K)

/-- Nothing below a node outranks it. -/
def Ordered : RankTree α → Prop
  | null => True
  | node _ l r x => (∀ y ∈ l.elems + r.elems, ¬0 < R.ranks y x) ∧ l.Ordered ∧ r.Ordered

variable {R}
variable {x y : α}

@[simp] theorem isNull_iff {t : RankTree α} : t.isNull ↔ t = null := by
  cases t <;> simp [isNull]

@[simp] theorem elems_null : (null : RankTree α).elems = 0 := rfl

@[simp] theorem elems_node (s : ℤ) (l r : RankTree α) (x : α) : (node s l r x).elems = x ::ₘ (l.elems + r.elems) := rfl

theorem Sized.size_eq {t : RankTree α} (h : t.Sized) : t.size = t.elems.card := by
  induction t with
  | null => rfl
  | node s l r x ihl ihr =>
    obtain ⟨hs, hl, hr⟩ := h
    rw [size, hs, ihl hl, ihr hr, elems_node, Multiset.card_cons, Multiset.card_add]
    push_cast
    rfl

theorem not_outRanks_trans {z : α} (hxy : ¬0 < R.ranks x y) (hyz : ¬0 < R.ranks y z) : ¬0 < R.ranks x z := by
  rw [R.ranks_pos, not_lt] at *
  exact hxy.trans hyz

theorem not_outRanks_self (x : α) : ¬0 < R.ranks x x := by
  rw [R.ranks_pos]
  exact lt_irrefl _

theorem not_outRanks_of_outRanks (h : 0 < R.ranks x y) : ¬0 < R.ranks y x := by
  rw [R.ranks_pos] at *
  exact h.asymm

theorem Ordered.not_outRanks_root {s : ℤ} {l r : RankTree α} (h : (node s l r x).Ordered R)
    (hy : y ∈ (node s l r x).elems) : ¬0 < R.ranks y x := by
  rcases Multiset.mem_cons.1 hy with rfl | hy
  · exact not_outRanks_self y
  · exact h.1 y hy

end RankTree

end G4Common
