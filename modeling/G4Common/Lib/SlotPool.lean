/-
Pools of slots, and who owns what is in them.

A slot holds a handle and says whether it is in use.  Slots are taken from the
front: the first one that is not in use (`takeFree`).  They are given back by
handle: the first one with that handle, whether it is in use or not (`release`).
A slot that is not in use keeps its old handle, so a search by handle is right
only if no earlier slot has the handle of one in use (`Distinct`).

The owners of handles are given by a partial function `hold`.  Each handle that is
in use may have at most one owner (`Holds`), or exactly one (`Owns`).  Where handles
are handed out in turn, those that are spent are kept in a list (`Account`).
-/
import Mathlib.Logic.Function.Basic
import G4Common.Lib.Slots

namespace G4Common

open Function List

/-- A slot of a pool. -/
structure Slot (H : Type*) where
  hdl : H
  valid : Bool
  deriving DecidableEq, Repr

namespace Slot

variable {H : Type*}

def Valid (l : List (Slot H)) (h : H) : Prop :=
  ∃ s ∈ l, s.valid = true ∧ s.hdl = h

/-- The number of free slots. -/
def free (l : List (Slot H)) : ℕ := l.countP fun s => !s.valid

/-- No earlier slot has the handle of a slot in use. -/
def Distinct (l : List (Slot H)) : Prop :=
  l.Pairwise fun a b => b.valid = true → a.hdl ≠ b.hdl

/-- Take the first free slot; its handle becomes `f` of the old one. -/
def takeFree (f : H → H) (l : List (Slot H)) : Option (H × List (Slot H)) :=
  updateFirst (fun s => !s.valid) (fun s => (f s.hdl, ⟨f s.hdl, true⟩)) l

/-- Give back the first slot with a handle. -/
def release [DecidableEq H] (h : H) (l : List (Slot H)) : Option (List (Slot H)) :=
  (updateFirst (fun s => decide (s.hdl = h)) (fun s => ((), ⟨s.hdl, false⟩)) l).map Prod.snd

variable {l l' l1 l2 : List (Slot H)} {f : H → H} {h h' : H} {x : Slot H}

theorem valid_split : Valid (l1 ++ x :: l2) h ↔ x.valid ∧ x.hdl = h ∨ Valid (l1 ++ l2) h := by
  constructor
  · rintro ⟨s, hs, hv, hh⟩
    rcases mem_replace hs with rfl | hs
    · exact .inl ⟨hv, hh⟩
    · exact .inr ⟨s, hs, hv, hh⟩
  · rintro (⟨hv, hh⟩ | ⟨s, hs, hv, hh⟩)
    · exact ⟨x, by simp, hv, hh⟩
    · exact ⟨s, mem_of_others hs, hv, hh⟩

theorem free_split : free (l1 ++ x :: l2) = free (l1 ++ l2) + if x.valid then 0 else 1 := by
  simp only [free, countP_append, countP_cons]
  cases x.valid with
  | true => simp
  | false => simp; omega

theorem Distinct.of_nodup (h : (l.map Slot.hdl).Nodup) : Distinct l := by
  refine (pairwise_map.mp h).imp ?_
  intro a b hne _
  exact hne

theorem Distinct.others (hd : Distinct (l1 ++ x :: l2)) (hx : x.valid) : ¬ Valid (l1 ++ l2) x.hdl := by
  rintro ⟨s, hs, hv, hh⟩
  obtain ⟨-, hpair, hcross⟩ := pairwise_append.mp hd
  obtain ⟨htail, -⟩ := pairwise_cons.mp hpair
  rcases mem_append.mp hs with hs | hs
  · exact hcross s hs x (mem_cons_self ..) hx hh
  · exact htail s hs hv hh.symm

theorem takeFree_eq_none : takeFree f l = none ↔ free l = 0 := by
  unfold takeFree free
  rw [updateFirst_eq_none, countP_eq_zero]
  constructor
  · intro hall x hx
    simpa using hall x hx
  · intro hall x hx
    simpa using hall x hx

theorem Distinct.takeFree (hd : Distinct l) (ht : takeFree f l = some (h, l')) (hno : ¬ Valid l h) :
    Distinct l' ∧ (∀ h', Valid l' h' ↔ Valid l h' ∨ h' = h) ∧ free l = free l' + 1 := by
  obtain ⟨_, x, _, rfl, hused, hx, rfl, rfl⟩ := updateFirst_eq_some.mp ht
  have hfree : x.valid = false := by simpa using hx
  refine ⟨pairwise_replace hd (fun y hy _ heq => ?_) (fun y hy hv heq => ?_), fun h' => ?_, ?_⟩
  · -- the slots before are in use
    have hy' : y.valid = true := by simpa using hused y hy
    exact hno ⟨y, mem_append_left _ hy, hy', heq⟩
  · exact hno ⟨y, mem_append_right _ (mem_cons_of_mem _ hy), hv, heq.symm⟩
  · rw [valid_split, valid_split, hfree]
    simp only [true_and, Bool.false_eq_true, false_and, false_or]
    rw [or_comm, eq_comm]
  · rw [free_split, free_split, hfree]
    simp

theorem map_hdl_takeFree (ht : takeFree id l = some (h, l')) : l'.map Slot.hdl = l.map Slot.hdl := by
  obtain ⟨_, x, _, rfl, -, -, -, rfl⟩ := updateFirst_eq_some.mp ht
  simp

theorem not_valid_of_takeFree (hnd : (l.map Slot.hdl).Nodup) (ht : takeFree id l = some (h, l')) : ¬ Valid l h := by
  obtain ⟨_, x, _, rfl, -, hx, rfl, -⟩ := updateFirst_eq_some.mp ht
  have hfree : x.valid = false := by simpa using hx
  rw [map_append, map_cons, nodup_middle, ← map_append] at hnd
  rw [valid_split, hfree]
  rintro (⟨hv, -⟩ | ⟨s, hs, -, hh⟩)
  · exact nomatch hv
  · exact (nodup_cons.mp hnd).1 (mem_map.mpr ⟨s, hs, hh⟩)

theorem length_takeFree (ht : takeFree f l = some (h, l')) : l'.length = l.length := by
  obtain ⟨_, x, _, rfl, -, -, -, rfl⟩ := updateFirst_eq_some.mp ht
  simp

variable [DecidableEq H]

theorem Distinct.release (hd : Distinct l) (hv : Valid l h) :
    ∃ l', Slot.release h l = some l' ∧ Distinct l' ∧ (∀ h', Valid l' h' ↔ Valid l h' ∧ h' ≠ h) ∧
      free l' = free l + 1 ∧ l'.map Slot.hdl = l.map Slot.hdl := by
  cases hr : updateFirst (fun s : Slot H => decide (s.hdl = h)) (fun s => ((), ⟨s.hdl, false⟩)) l with
  | none =>
    obtain ⟨s, hs, -, hh⟩ := hv
    have hno := updateFirst_eq_none.mp hr s hs
    simp [hh] at hno
  | some t =>
    obtain ⟨u, _⟩ := t
    obtain ⟨_, x, _, rfl, hbefore, hx, -, rfl⟩ := updateFirst_eq_some.mp hr
    obtain rfl : x.hdl = h := of_decide_eq_true hx
    -- the slot in use is not behind the one that is found
    have hxv : x.valid = true := by
      obtain ⟨s, hs, hsv, hsh⟩ := hv
      rcases mem_replace hs with rfl | hs'
      · exact hsv
      rcases mem_append.mp hs' with hs' | hs'
      · have hne := hbefore s hs'
        simp [hsh] at hne
      · obtain ⟨-, hpair, -⟩ := pairwise_append.mp hd
        exact absurd hsh.symm ((pairwise_cons.mp hpair).1 s hs' hsv)
    refine ⟨_, by rw [Slot.release, hr]; rfl, pairwise_replace hd ?_ ?_, fun h' => ?_, ?_, by simp⟩
    · exact nofun
    · intro y hy hyv
      obtain ⟨-, hpair, -⟩ := pairwise_append.mp hd
      exact (pairwise_cons.mp hpair).1 y hy hyv
    · rw [valid_split, valid_split]
      simp only [Bool.false_eq_true, false_and, false_or, hxv, true_and]
      constructor
      · intro hv'
        exact ⟨Or.inr hv', fun heq => hd.others hxv (heq ▸ hv')⟩
      · rintro ⟨heq | hv', hne⟩
        · exact absurd heq.symm hne
        · exact hv'
    · rw [free_split, free_split, hxv]
      simp

end Slot

/-! ### Owners -/

section

variable {ι H : Type*} {hold : ι → Option H} {valid valid' : H → Prop} {x : ι} {h : H}

/-- What is held is in use, and has one holder. -/
structure Holds (hold : ι → Option H) (valid : H → Prop) : Prop where
  used : ∀ x h, hold x = some h → valid h
  inj : ∀ x y h, hold x = some h → hold y = some h → x = y

/-- Moreover, what is in use is held. -/
structure Owns (hold : ι → Option H) (valid : H → Prop) : Prop extends Holds hold valid where
  onto : ∀ h, valid h → ∃ x, hold x = some h

variable [DecidableEq ι]

theorem Holds.give (ho : Holds hold valid) (hno : ∀ y, hold y ≠ some h)
    (hv : ∀ h', valid h' → valid' h') (hh : valid' h) : Holds (update hold x (some h)) valid' where
  used := fun y h' hy => by
    by_cases hyx : y = x
    · rw [hyx, update_self] at hy
      exact Option.some.inj hy ▸ hh
    · rw [update_of_ne hyx] at hy
      exact hv h' (ho.used y h' hy)
  inj := fun y z h' hy hz => by
    by_cases hyx : y = x
    · by_cases hzx : z = x
      · rw [hyx, hzx]
      · rw [hyx, update_self] at hy
        rw [update_of_ne hzx, ← hy] at hz
        exact absurd hz (hno z)
    rw [update_of_ne hyx] at hy
    by_cases hzx : z = x
    · rw [hzx, update_self] at hz
      rw [← hz] at hy
      exact absurd hy (hno y)
    · rw [update_of_ne hzx] at hz
      exact ho.inj y z h' hy hz

theorem Holds.drop (ho : Holds hold valid) (hx : hold x = some h)
    (hv : ∀ h', valid h' → h' ≠ h → valid' h') : Holds (update hold x none) valid' where
  used := fun y h' hy => by
    have hyx : y ≠ x := by
      rintro rfl
      rw [update_self] at hy
      exact nomatch hy
    rw [update_of_ne hyx] at hy
    refine hv h' (ho.used y h' hy) ?_
    rintro rfl
    exact hyx (ho.inj y x _ hy hx)
  inj := fun y z h' hy hz => by
    have hold' : ∀ {w : ι}, update hold x none w = some h' → hold w = some h' := by
      intro w hw
      by_cases hwx : w = x
      · rw [hwx, update_self] at hw
        exact nomatch hw
      · rwa [update_of_ne hwx] at hw
    exact ho.inj y z h' (hold' hy) (hold' hz)

theorem Owns.give (ho : Owns hold valid) (hno : ¬ valid h) (hx : hold x = none)
    (hv : ∀ h', valid' h' ↔ valid h' ∨ h' = h) : Owns (update hold x (some h)) valid' where
  toHolds := ho.toHolds.give (fun y hy => hno (ho.used y h hy))
    (fun h' hh' => (hv h').mpr (.inl hh')) ((hv h).mpr (.inr rfl))
  onto := fun h' hh' => by
    rcases (hv h').mp hh' with hh' | rfl
    · obtain ⟨y, hy⟩ := ho.onto h' hh'
      have hyx : y ≠ x := by
        rintro rfl
        exact nomatch hx.symm.trans hy
      exact ⟨y, by rwa [update_of_ne hyx]⟩
    · exact ⟨x, by rw [update_self]⟩

theorem Owns.drop (ho : Owns hold valid) (hx : hold x = some h)
    (hv : ∀ h', valid' h' ↔ valid h' ∧ h' ≠ h) : Owns (update hold x none) valid' where
  toHolds := ho.toHolds.drop hx fun h' hh' hne => (hv h').mpr ⟨hh', hne⟩
  onto := fun h' hh' => by
    obtain ⟨hh', hne⟩ := (hv h').mp hh'
    obtain ⟨y, hy⟩ := ho.onto h' hh'
    have hyx : y ≠ x := by
      rintro rfl
      exact hne (Option.some.inj (hy.symm.trans hx))
    exact ⟨y, by rwa [update_of_ne hyx]⟩

theorem Owns.move (ho : Owns hold valid) {y : ι} (hx : hold x = some h) (hy : hold y = none) :
    Owns (update (update hold x none) y (some h)) valid := by
  have hxy : y ≠ x := by
    rintro rfl
    rw [hy] at hx
    cases hx
  have hdrop := ho.drop hx fun _ => Iff.rfl
  refine hdrop.give (fun hh => hh.2 rfl) ?_ ?_
  · rw [update_of_ne hxy]
    exact hy
  intro h'
  constructor
  · intro hv
    by_cases heq : h' = h
    · exact .inr heq
    · exact .inl ⟨hv, heq⟩
  · rintro (hv | rfl)
    · exact hv.1
    · exact ho.used x h' hx

end

/-! ### Accounts -/

section Accounts

variable {ι : Type*} {hold : ι → Option ℕ} {spent : List ℕ} {allocated : ℕ}

/-- Numbers are handed out in turn.  Each of them is held by one holder at most, until it is spent, once. -/
structure Account (hold : ι → Option ℕ) (spent : List ℕ) (allocated : ℕ) : Prop where
  holds : Holds hold fun p => p < allocated ∧ p ∉ spent
  nodup : spent.Nodup
  lt : ∀ p ∈ spent, p < allocated

theorem Account.burn (h : Account hold spent allocated) : Account hold (allocated :: spent) (allocated + 1) where
  holds := by
    refine ⟨?_, h.holds.inj⟩
    intro x p hp
    obtain ⟨hlt, hmem⟩ := h.holds.used x p hp
    refine ⟨Nat.lt_succ_of_lt hlt, ?_⟩
    rw [mem_cons, not_or]
    exact ⟨Nat.ne_of_lt hlt, hmem⟩
  nodup := nodup_cons.2 ⟨fun hmem => Nat.lt_irrefl _ (h.lt _ hmem), h.nodup⟩
  lt p hp := by
    rcases mem_cons.1 hp with rfl | hp
    · exact Nat.lt_succ_self _
    · exact Nat.lt_succ_of_lt (h.lt p hp)

variable [DecidableEq ι]

theorem Account.give (h : Account hold spent allocated) (x : ι) :
    Account (update hold x (some allocated)) spent (allocated + 1) where
  holds := by
    refine h.holds.give ?_ ?_ ?_
    · intro y hy
      exact absurd (h.holds.used y allocated hy).1 (Nat.lt_irrefl _)
    · exact fun p hp => ⟨Nat.lt_succ_of_lt hp.1, hp.2⟩
    · exact ⟨Nat.lt_succ_self _, fun hmem => Nat.lt_irrefl _ (h.lt _ hmem)⟩
  nodup := h.nodup
  lt p hp := Nat.lt_succ_of_lt (h.lt p hp)

theorem Account.spend {spent' : List ℕ} {x : ι} {p : ℕ} (h : Account hold spent allocated) (hx : hold x = some p)
    (hperm : spent'.Perm (p :: spent)) : Account (update hold x none) spent' allocated where
  holds := by
    refine h.holds.drop hx ?_
    intro p' hp' hne
    refine ⟨hp'.1, ?_⟩
    rw [hperm.mem_iff, mem_cons, not_or]
    exact ⟨hne, hp'.2⟩
  nodup := hperm.nodup_iff.2 (nodup_cons.2 ⟨(h.holds.used x p hx).2, h.nodup⟩)
  lt p' hp' := by
    rw [hperm.mem_iff] at hp'
    rcases mem_cons.1 hp' with rfl | hp'
    · exact (h.holds.used x p' hx).1
    · exact h.lt p' hp'

theorem Account.move {x y : ι} {p : ℕ} (h : Account hold spent allocated) (hx : hold x = some p) :
    Account (update (update hold x none) y (some p)) spent allocated where
  holds := by
    have hp := h.holds.used x p hx
    have hdrop : Holds (update hold x none) fun p' => (p' < allocated ∧ p' ∉ spent) ∧ p' ≠ p :=
      h.holds.drop hx fun p' hp' hne => ⟨hp', hne⟩
    refine hdrop.give ?_ (fun p' hp' => hp'.1) hp
    exact fun z hz => (hdrop.used z p hz).2 rfl
  nodup := h.nodup
  lt := h.lt

end Accounts

end G4Common
