/-
Records of independent fields.

A record is tested field by field.  Two such tests, of which the first one can be passed, are the same test exactly if
they are the same test of every field (`pi_iff`).

A record is written by a list of keys with values.  A part of it that only one key writes is what its value makes of it
(`view_writes`); if two keys write it, their order counts (`view_writes_pair`).

A word is compared under a mask.  The words that agree with a given one determine the mask (`masks_eq_iff`): the word
that differs from it in all other bits is one of them.
-/
import Mathlib.Logic.Function.Basic
import Mathlib.Data.List.Nodup
import Mathlib.Tactic.Common

namespace G4Common.Fields

open List

/-! ### Tests -/

theorem pi_iff {F : Type*} {X : F → Type*} {r s : (f : F) → X f → Prop} (hpass : ∀ f, ∃ v, r f v) :
    (∀ x : (f : F) → X f, (∀ f, r f (x f)) ↔ ∀ f, s f (x f)) ↔ ∀ f v, r f v ↔ s f v := by
  classical
  choose x hr using hpass
  constructor
  · intro hall f v
    have hs := (hall x).1 hr
    have hone : ∀ q : (f : F) → X f → Prop, (∀ g, q g (x g)) → ((∀ g, q g (Function.update x f v g)) ↔ q f v) := by
      intro q hq
      rw [Function.forall_update_iff x fun g y => q g y]
      exact and_iff_left fun g _ => hq g
    rw [← hone r hr, hall, hone s hs]
  · exact fun hone x => forall_congr' fun f => hone f (x f)

/-! ### Writes -/

section

variable {K V S X : Type*} {write : K → V → S → S} {g h : V → X → X} {k k' : K}
  {l : List (K × V)}

/-- The values are written one after the other. -/
def writes (write : K → V → S → S) (l : List (K × V)) (s : S) : S := l.foldl (fun s i => write i.1 i.2 s) s

/-- A key comes before another one. -/
def Before (k k' : K) (l : List (K × V)) : Prop := [k, k'].Sublist (l.map Prod.fst)

theorem not_before (hk : k ∉ l.map Prod.fst ∨ k' ∉ l.map Prod.fst) : ¬Before k k' l := by
  intro hbefore
  have hsub := hbefore.subset
  rcases hk with hk | hk
  · exact hk (hsub mem_cons_self)
  · exact hk (hsub (mem_cons_of_mem _ mem_cons_self))

variable [DecidableEq K]

theorem lookup_eq_none (hk : k ∉ l.map Prod.fst) : l.lookup k = none := by
  rw [lookup_eq_none_iff]
  rintro i hi
  exact bne_iff_ne.2 fun heq => hk (heq ▸ mem_map_of_mem hi)

theorem lookup_cons_of_ne {j : K} (hj : j ≠ k) (v : V) : ((j, v) :: l).lookup k = l.lookup k := by
  rw [lookup_cons, beq_eq_false_iff_ne.2 hj.symm]

theorem lookup_isSome : (l.lookup k).isSome ↔ k ∈ l.map Prod.fst := by
  induction l with
  | nil => simp
  | cons i l ih =>
    obtain ⟨j, v⟩ := i
    rcases eq_or_ne j k with rfl | hk
    · simp
    · rw [lookup_cons_of_ne hk, map_cons, mem_cons, or_iff_right hk.symm]
      exact ih

/-- **A part that one key writes.** -/
theorem view_writes (view : S → X)
    (hview : ∀ i ∈ l, ∀ s, view (write i.1 i.2 s) = if i.1 = k then g i.2 (view s) else view s)
    (hnodup : (l.map Prod.fst).Nodup) (s : S) : view (writes write l s) = (l.lookup k).elim id g (view s) := by
  induction l generalizing s with
  | nil => rfl
  | cons i l ih =>
    obtain ⟨j, v⟩ := i
    obtain ⟨hj, hrest⟩ := nodup_cons.1 hnodup
    show view (writes write l (write j v s)) = _
    rw [ih (fun i hi => hview i (mem_cons_of_mem _ hi)) hrest, hview _ mem_cons_self]
    rcases eq_or_ne j k with rfl | hne
    · rw [if_pos rfl, lookup_eq_none hj, lookup_cons_self]
      rfl
    · rw [if_neg hne, lookup_cons_of_ne hne]

open Classical in
/-- **A part that two keys write.** -/
theorem view_writes_pair (view : S → X) (hview : ∀ i ∈ l, ∀ s, view (write i.1 i.2 s) =
      if i.1 = k then g i.2 (view s) else if i.1 = k' then h i.2 (view s) else view s)
    (hne : k ≠ k') (hnodup : (l.map Prod.fst).Nodup) (s : S) : view (writes write l s) =
      if Before k k' l then (l.lookup k').elim id h ((l.lookup k).elim id g (view s))
      else (l.lookup k).elim id g ((l.lookup k').elim id h (view s)) := by
  induction l generalizing s with
  | nil =>
    rw [if_neg (not_before (.inl not_mem_nil))]
    rfl
  | cons i l ih =>
    obtain ⟨j, v⟩ := i
    obtain ⟨hj, hrest⟩ := nodup_cons.1 hnodup
    show view (writes write l (write j v s)) = _
    rw [ih (fun i hi => hview i (mem_cons_of_mem _ hi)) hrest, hview _ mem_cons_self]
    rcases eq_or_ne j k with rfl | hjk
    · -- the other key comes behind it, if at all
      have hbefore : Before j k' ((j, v) :: l) ↔ k' ∈ l.map Prod.fst := by
        rw [Before, map_cons, cons_sublist_cons, singleton_sublist]
      rw [if_pos rfl, if_neg (not_before (.inl hj)), lookup_eq_none hj, lookup_cons_self, lookup_cons_of_ne hne, hbefore]
      split
      · rfl
      · rename_i hk'
        rw [lookup_eq_none hk']
        rfl
    have hbefore : Before k k' ((j, v) :: l) ↔ Before k k' l := by
      rw [Before, map_cons, sublist_cons_iff]
      refine or_iff_left ?_
      rintro ⟨r, hr, -⟩
      exact hjk (cons.inj hr).1.symm
    rw [if_neg hjk, hbefore, lookup_cons_of_ne hjk]
    rcases eq_or_ne j k' with rfl | hjk'
    · rw [if_pos rfl, if_neg (not_before (.inr hj)), if_neg (not_before (.inr hj)), lookup_eq_none hj,
        lookup_cons_self]
      rfl
    · rw [if_neg hjk', lookup_cons_of_ne hjk']

end

/-! ### Masks -/

section

variable {w : ℕ}

theorem xor_not_and (a m : BitVec w) : (a ^^^ ~~~m) &&& m = a &&& m := by
  ext i hi
  rw [BitVec.getElem_and, BitVec.getElem_xor, BitVec.getElem_not, BitVec.getElem_and]
  cases a[i] <;> cases m[i] <;> rfl

theorem and_eq_of_xor_not {a m m' : BitVec w} (h : (a ^^^ ~~~m') &&& m = a &&& m) : m &&& m' = m := by
  ext i hi
  have hbit := congrArg (fun v : BitVec w => v[i]) h
  simp only [BitVec.getElem_and, BitVec.getElem_xor, BitVec.getElem_not] at hbit
  rw [BitVec.getElem_and]
  revert hbit
  cases a[i] <;> cases m[i] <;> cases m'[i] <;> simp

/-- **A mask is known** from the words that agree under it with a given one. -/
theorem masks_eq_iff {ι : Type*} (a m m' : ι → BitVec w) :
    (∀ x : ι → BitVec w, (∀ i, x i &&& m i = a i &&& m i) ↔ ∀ i, x i &&& m' i = a i &&& m' i) ↔ m = m' := by
  constructor
  · intro hall
    have h1 := (hall fun i => a i ^^^ ~~~m' i).2 fun i => xor_not_and _ _
    have h2 := (hall fun i => a i ^^^ ~~~m i).1 fun i => xor_not_and _ _
    funext i
    rw [← and_eq_of_xor_not (h1 i), BitVec.and_comm, and_eq_of_xor_not (h2 i)]
  · rintro rfl x
    exact Iff.rfl

end

end G4Common.Fields
