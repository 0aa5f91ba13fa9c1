/-
Components that share some state and handle every event one after the other.  A component
may change the shared state and itself, or leave; it does not touch the others.

A condition on the calls is a condition on the shared state and the component before each
of them (`AllCalls`).  What every call keeps is kept by the whole round
(`dispatch_invariant`), and so is what the calls of the given components keep of the shared
state alone (`dispatch_shared`).

The rounds of a run are the steps of a machine; a condition on them is a condition on the
state before each step (`AllSteps`), and what every step keeps is kept by the run
(`run_invariant`).  The steps of a kind are counted by `countSteps`.
-/
import Mathlib.Data.List.Basic

namespace G4Common.Broadcast

open List

variable {G W : Type*}

/-- One round: every component handles the event. -/
def dispatch (cb : G → W → G × Option W) : G → List W → G × List W
  | g, [] => (g, [])
  | g, w :: l =>
    let rest := dispatch cb (cb g w).1 l
    (rest.1, (cb g w).2.toList ++ rest.2)

/-- A condition holds at every call of a round. -/
def AllCalls (cb : G → W → G × Option W) (P : G → W → Prop) : G → List W → Prop
  | _, [] => True
  | g, w :: l => P g w ∧ AllCalls cb P (cb g w).1 l

instance AllCalls.decidable (cb : G → W → G × Option W) (P : G → W → Prop) [∀ g w, Decidable (P g w)] :
    ∀ g l, Decidable (AllCalls cb P g l)
  | _, [] => inferInstanceAs (Decidable True)
  | g, w :: l =>
    have := AllCalls.decidable cb P (cb g w).1 l
    inferInstanceAs (Decidable (P g w ∧ AllCalls cb P (cb g w).1 l))

variable {cb : G → W → G × Option W} {P : G → W → Prop} {g : G} {l l1 l2 : List W}

theorem dispatch_append : dispatch cb g (l1 ++ l2) = ((dispatch cb (dispatch cb g l1).1 l2).1,
        (dispatch cb g l1).2 ++ (dispatch cb (dispatch cb g l1).1 l2).2) := by
  induction l1 generalizing g with
  | nil => rfl
  | cons _ _ ih =>
    rw [cons_append, dispatch, ih, dispatch]
    simp only [append_assoc]

theorem allCalls_append : AllCalls cb P g (l1 ++ l2) ↔ AllCalls cb P g l1 ∧ AllCalls cb P (dispatch cb g l1).1 l2 := by
  induction l1 generalizing g with
  | nil => exact (iff_of_eq (true_and _)).symm
  | cons _ _ ih =>
    rw [cons_append, AllCalls, ih, AllCalls, and_assoc]
    rfl

theorem mem_dispatch {w' : W} : w' ∈ (dispatch cb g l).2 ↔
      ∃ pre w post, l = pre ++ w :: post ∧ (cb (dispatch cb g pre).1 w).2 = some w' := by
  constructor
  · induction l generalizing g with
    | nil => exact nofun
    | cons w l ih =>
      intro h
      rcases mem_append.mp h with hw | hl
      · exact ⟨[], w, l, rfl, Option.mem_toList.mp hw⟩
      · obtain ⟨pre, v, post, rfl, hv⟩ := ih hl
        exact ⟨w :: pre, v, post, rfl, hv⟩
  · rintro ⟨_, w, _, rfl, hw⟩
    rw [dispatch_append]
    exact mem_append_right _ (mem_append_left _ (Option.mem_toList.mpr hw))

theorem dispatch_map_sublist {X : Type*} {f : W → X} (h : ∀ g w w', (cb g w).2 = some w' → f w' = f w) :
    ((dispatch cb g l).2.map f).Sublist (l.map f) := by
  induction l generalizing g with
  | nil => exact List.Sublist.refl _
  | cons w _ ih =>
    rw [dispatch, map_append, map_cons]
    rcases hw : (cb g w).2 with _ | w'
    · exact ih.cons _
    · rw [← h g w w' hw]
      exact ih.cons_cons _

theorem dispatch_keeps {X : Type*} {f : G → X} (h : ∀ w ∈ l, ∀ g, f (cb g w).1 = f g) :
    f (dispatch cb g l).1 = f g := by
  induction l generalizing g with
  | nil => rfl
  | cons w _ ih =>
    have hrest := ih (g := (cb g w).1) fun v hv => h v (mem_cons_of_mem _ hv)
    exact hrest.trans (h w mem_cons_self g)

theorem dispatch_sole {X : Type*} {f : G → X} {pre post : List W} {w : W}
    (h : ∀ v ∈ pre ++ post, ∀ g, f (cb g v).1 = f g) :
    f (dispatch cb g pre).1 = f g ∧
      f (dispatch cb g (pre ++ w :: post)).1 = f (cb (dispatch cb g pre).1 w).1 := by
  constructor
  · exact dispatch_keeps fun v hv => h v (mem_append_left _ hv)
  · rw [dispatch_append]
    exact dispatch_keeps fun v hv => h v (mem_append_right _ hv)

theorem dispatch_invariant {I : G → List W → Prop} (hstep : ∀ g w pre post, P g w → I g (pre ++ w :: post) →
      I (cb g w).1 (pre ++ ((cb g w).2.toList ++ post)))
    (hP : AllCalls cb P g l) (hI : I g l) : I (dispatch cb g l).1 (dispatch cb g l).2 := by
  -- the components before the next call are those that have handled the event
  suffices h : ∀ pre, I g (pre ++ l) → I (dispatch cb g l).1 (pre ++ (dispatch cb g l).2) from h [] hI
  clear hI
  induction l generalizing g with
  | nil => exact fun _ h => h
  | cons w l ih =>
    intro pre h
    have hnext := hstep g w pre l hP.1 h
    rw [← append_assoc] at hnext
    have := ih hP.2 _ hnext
    rwa [append_assoc] at this

theorem dispatch_shared {R : G → Prop} (hstep : ∀ w ∈ l, ∀ g, P g w → R g → R (cb g w).1)
    (hP : AllCalls cb P g l) (hR : R g) : R (dispatch cb g l).1 := by
  induction l generalizing g with
  | nil => exact hR
  | cons w _ ih =>
    refine ih (fun w' hw' => hstep w' (mem_cons_of_mem _ hw')) hP.2 ?_
    exact hstep w mem_cons_self g hP.1 hR

/-! ### Runs -/

variable {S A : Type*}

/-- A condition holds at every step of a run. -/
def AllSteps (step : S → A → S) (P : S → A → Prop) : S → List A → Prop
  | _, [] => True
  | s, a :: l => P s a ∧ AllSteps step P (step s a) l

instance AllSteps.decidable (step : S → A → S) (P : S → A → Prop) [∀ s a, Decidable (P s a)] :
    ∀ s l, Decidable (AllSteps step P s l)
  | _, [] => inferInstanceAs (Decidable True)
  | s, a :: l =>
    have := AllSteps.decidable step P (step s a) l
    inferInstanceAs (Decidable (P s a ∧ AllSteps step P (step s a) l))

variable {step : S → A → S} {Q : S → A → Prop} {s : S} {acts : List A} {a : A}

theorem allSteps_append {acts' : List A} :
    AllSteps step Q s (acts ++ acts') ↔ AllSteps step Q s acts ∧ AllSteps step Q (acts.foldl step s) acts' := by
  induction acts generalizing s with
  | nil => exact (iff_of_eq (true_and _)).symm
  | cons a acts ih =>
    show Q s a ∧ AllSteps step Q (step s a) (acts ++ acts') ↔ (Q s a ∧ AllSteps step Q (step s a) acts) ∧ _
    rw [ih, and_assoc]
    rfl

theorem run_invariant {I : S → Prop} (hstep : ∀ s a, Q s a → I s → I (step s a))
    (hQ : AllSteps step Q s acts) (hI : I s) : I (acts.foldl step s) := by
  induction acts generalizing s with
  | nil => exact hI
  | cons a _ ih => exact ih hQ.2 (hstep s a hQ.1 hI)

/-- The number of steps of a run that are of some kind. -/
def countSteps (step : S → A → S) (p : S → A → Bool) : S → List A → ℕ
  | _, [] => 0
  | s, a :: l => (p s a).toNat + countSteps step p (step s a) l

theorem countSteps_balance {I : S → Prop} {p q : S → A → Bool} {f : S → ℕ} (hI : I s)
    (hkeep : ∀ s a, I s → I (step s a)) (hstep : ∀ s a, I s → f (step s a) + (p s a).toNat = f s + (q s a).toNat) :
    f (acts.foldl step s) + countSteps step p s acts = f s + countSteps step q s acts := by
  induction acts generalizing s with
  | nil => rfl
  | cons a acts ih =>
    have hrest := ih (hkeep s a hI)
    have hone := hstep s a hI
    show f (acts.foldl step (step s a)) + ((p s a).toNat + countSteps step p (step s a) acts) =
      f s + ((q s a).toNat + countSteps step q (step s a) acts)
    omega

theorem countSteps_le {p : S → A → Bool} {f : S → ℕ} (hstep : ∀ s a, f (step s a) + (p s a).toNat ≤ f s) :
    f (acts.foldl step s) + countSteps step p s acts ≤ f s := by
  induction acts generalizing s with
  | nil => exact Nat.le_refl _
  | cons a acts ih =>
    have hrest := ih (s := step s a)
    have hone := hstep s a
    show f (acts.foldl step (step s a)) + ((p s a).toNat + countSteps step p (step s a) acts) ≤ f s
    omega

end G4Common.Broadcast
