/-
Walks over trees of nodes with a first child and a next sibling, as XML libraries keep them.

A walk handles the nodes of a level one after the other.  It works on a node with a state, and
goes to the children of those nodes whose label says so before it goes on.  The work on a node
may fail, and then the walk fails.

`walk_eq_foldlM` turns the recursion into a loop over the list of the nodes that are visited.
`foldlM_isSome_iff` says when such a loop does not fail, for work that fails or not by a part
of the state of which it is known how it goes on.
-/
import Mathlib.Tactic.Common

namespace G4Common

open Option

/-- The nodes of a level, from one node on: its label, its children and what comes after it. -/
inductive Forest (α : Type*)
  | nil
  | node (a : α) (children next : Forest α)

namespace Forest

variable {α σ : Type*} (descend : α → Bool) (act : σ → α → Forest α → Option σ)

/-- The walk.  The work sees the label and the children of a node. -/
def walk : Forest α → σ → Option σ
  | .nil, s => some s
  | .node a children next, s =>
    (act s a children).bind fun s =>
      (if descend a then walk children s else some s).bind (walk next)

/-- The nodes that are visited, in the order of the visits. -/
def visits : Forest α → List (α × Forest α)
  | .nil => []
  | .node a children next =>
    (a, children) :: ((if descend a then visits children else []) ++ visits next)

/-- **A walk is a loop over the visits.** -/
theorem walk_eq_foldlM (t : Forest α) (s : σ) :
    walk descend act t s = (visits descend t).foldlM (fun s x => act s x.1 x.2) s := by
  induction t generalizing s with
  | nil => rfl
  | node a _ _ ihc ihn =>
    rw [walk, visits, List.foldlM_cons]
    refine congrArg (Option.bind _) (funext fun s => ?_)
    rw [List.foldlM_append]
    by_cases hd : descend a = true
    · rw [if_pos hd, if_pos hd, ihc]
      exact congrArg (bind _) (funext ihn)
    · rw [if_neg hd, if_neg hd]
      exact ihn s

end Forest

/-- **When a loop does not fail.**  If the work on `x` does not fail exactly where `ok` holds of a
part `g` of the state, and `next` says how this part goes on, then the loop does not fail exactly
if `ok` holds at every step. -/
theorem foldlM_isSome_iff {σ τ β : Type*} {f : σ → β → Option σ} (g : σ → τ) (next : τ → β → τ)
    (ok : τ → β → Prop) (hok : ∀ s x, (f s x).isSome ↔ ok (g s) x)
    (hnext : ∀ s x s', f s x = some s' → g s' = next (g s) x) (l : List β) (s : σ) :
    (l.foldlM f s).isSome ↔ ∀ p x q, l = p ++ x :: q → ok (p.foldl next (g s)) x := by
  induction l generalizing s with
  | nil => simp
  | cons y l ih =>
    rw [List.foldlM_cons]
    cases hf : f s y with
    | none =>
      have hno : ¬ ok (g s) y := by
        rw [← hok, hf]
        simp
      refine iff_of_false (by simp) fun h => hno ?_
      exact h [] y l rfl
    | some s' =>
      have hy : ok (g s) y := by
        rw [← hok, hf]
        rfl
      rw [bind_eq_bind, bind_some, ih s', hnext s y s' hf]
      constructor
      · intro h p x q hl
        cases p with
        | nil =>
          obtain ⟨rfl, -⟩ := List.cons_eq_cons.1 hl
          exact hy
        | cons _ p =>
          obtain ⟨rfl, hrest⟩ := List.cons_eq_cons.1 hl
          exact h p x q hrest
      · intro h p x q hl
        exact h (y :: p) x q (by rw [hl, List.cons_append])

end G4Common
