/-
What holds at every step of a run.

A program takes steps; a step may be impossible, and then the run ends.  `AtSteps step Q s es`
says that `Q` holds of each state and the event that comes next, on the run of the events
`es` from the state `s`.

Two such properties are compared step by step (`AtSteps.congr`): as long as an invariant
holds, one is as good as the other, and the other one keeps the invariant.  In this way the
question when a property holds along whole runs is answered by looking at one step.  If the
property fails once, the invariant may be lost from there on, but so may the other
property, and neither holds of the run.
-/
import Mathlib.Logic.Basic

namespace G4Common

variable {S E : Type*}

/-- `Q` holds at every step of the run of the events from the state. -/
def AtSteps (step : S → E → Option S) (Q : S → E → Prop) : S → List E → Prop
  | _, [] => True
  | s, e :: es => Q s e ∧ ∀ s', step s e = some s' → AtSteps step Q s' es

variable {step : S → E → Option S} {A P Q : S → E → Prop} {I : S → Prop} {s : S} {es : List E}

theorem AtSteps.of_forall (h : ∀ s e, Q s e) : AtSteps step Q s es := by
  induction es generalizing s with
  | nil => trivial
  | cons e _ ih => exact ⟨h s e, fun s' _ => ih⟩

/-- A condition that is enough for `P` at a step, and keeps the invariant, is enough for `P`
along a run. -/
theorem AtSteps.imp (himp : ∀ s e, I s → Q s e → P s e)
    (hkeep : ∀ s e s', I s → Q s e → step s e = some s' → I s') (h : I s)
    (hQ : AtSteps step Q s es) : AtSteps step P s es := by
  induction es generalizing s with
  | nil => trivial
  | cons e _ ih =>
    refine ⟨himp s e h hQ.1, fun s' hs => ?_⟩
    exact ih (hkeep s e s' h hQ.1 hs) (hQ.2 s' hs)

/-- **Exact conditions for runs.**  Where the invariant holds, `P` holds at a step if and
only if `Q` does, and a step with `Q` keeps the invariant. -/
theorem AtSteps.congr (hiff : ∀ s e, I s → A s e → (P s e ↔ Q s e))
    (hkeep : ∀ s e s', I s → A s e → Q s e → step s e = some s' → I s') (h : I s)
    (hA : AtSteps step A s es) : AtSteps step P s es ↔ AtSteps step Q s es := by
  induction es generalizing s with
  | nil => exact Iff.rfl
  | cons e es ih =>
    have hhead := hiff s e h hA.1
    have htail : Q s e → ∀ s', step s e = some s' → (AtSteps step P s' es ↔ AtSteps step Q s' es) :=
      fun hQ s' hs => ih (hkeep s e s' h hA.1 hQ hs) (hA.2 s' hs)
    constructor
    · rintro ⟨hP, hrest⟩
      have hQ := hhead.mp hP
      exact ⟨hQ, fun s' hs => (htail hQ s' hs).mp (hrest s' hs)⟩
    · rintro ⟨hQ, hrest⟩
      exact ⟨hhead.mpr hQ, fun s' hs => (htail hQ s' hs).mpr (hrest s' hs)⟩

theorem AtSteps.iff_of_step (hiff : ∀ s e, I s → (P s e ↔ Q s e))
    (hkeep : ∀ s e s', I s → Q s e → step s e = some s' → I s') (h : I s) : AtSteps step P s es ↔ AtSteps step Q s es :=
  AtSteps.congr (fun s e hI _ => hiff s e hI) (fun s e s' hI _ hQ hs => hkeep s e s' hI hQ hs) h
    (AtSteps.of_forall (Q := fun _ _ => True) fun _ _ => trivial)

end G4Common
