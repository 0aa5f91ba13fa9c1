/-
Walks over records that carry their length, as `NLMSG_OK` and `NLMSG_NEXT` do it, or
`RTA_OK` and `RTA_NEXT`: a record starts with a header, its length counts the header, and the
next record starts at the next multiple of four.  The work on a record may end the walk.

Lengths are natural numbers.  Where all records are padded, what is left never gets smaller
than zero.  `walkRecords` takes a bound on the number of records; over records that lie one after
the other, their number is enough and the walk is a visit of each in turn (`walkRecords_eq_visit`).
-/
import Mathlib

namespace G4Common.Tlv

/-- A length with its padding. -/
def align (n : ℕ) : ℕ := (n + 3) / 4 * 4

theorem le_align (n : ℕ) : n ≤ align n := by
  unfold align
  omega

variable {σ : Type*}

/-- The records from `off` on, with `rest` bytes left.  `f` gets the place of a record and
what is left from there. -/
def walkRecords (hdr : ℕ) (len : ℕ → ℕ) (f : σ → ℕ → ℕ → σ × Bool) : ℕ → ℕ → ℕ → σ → σ
  | 0, _, _, s => s
  | n + 1, off, rest, s =>
    if hdr ≤ rest ∧ hdr ≤ len off ∧ len off ≤ rest then
      let r := f s off rest
      if r.2 then r.1 else walkRecords hdr len f n (off + align (len off)) (rest - align (len off)) r.1
    else s

/-- Records of the given sizes lie one after the other. -/
def Laid (hdr : ℕ) (len : ℕ → ℕ) : ℕ → List ℕ → Prop
  | _, [] => True
  | off, n :: ns => hdr ≤ len off ∧ align (len off) = n ∧ Laid hdr len (off + n) ns

/-- Each record in turn, until the work on one ends it. -/
def visit (f : σ → ℕ → ℕ → σ × Bool) : ℕ → List ℕ → σ → σ
  | _, [], s => s
  | off, n :: ns, s =>
    let r := f s off (n + ns.sum)
    if r.2 then r.1 else visit f (off + n) ns r.1

variable {hdr : ℕ} {len : ℕ → ℕ} {f : σ → ℕ → ℕ → σ × Bool} {s : σ}

/-- **The walk visits records that lie one after the other.** -/
theorem walkRecords_eq_visit {fuel off : ℕ} {ns : List ℕ} (hhdr : 0 < hdr) (h : Laid hdr len off ns)
    (hfuel : ns.length ≤ fuel) : walkRecords hdr len f fuel off ns.sum s = visit f off ns s := by
  induction ns generalizing fuel off s with
  | nil =>
    cases fuel with
    | zero => rfl
    | succ => exact if_neg fun hok => Nat.not_lt.mpr hok.1 hhdr
  | cons n ns ih =>
    obtain ⟨_, halign, hrest⟩ := h
    cases fuel with
    | zero => exact absurd hfuel (Nat.not_succ_le_zero _)
    | succ fuel =>
      have hle := le_align (len off)
      have hok : hdr ≤ (n :: ns).sum ∧ hdr ≤ len off ∧ len off ≤ (n :: ns).sum := by
        rw [List.sum_cons]
        omega
      have hleft : (n :: ns).sum - n = ns.sum := by
        rw [List.sum_cons, Nat.add_sub_cancel_left]
      rw [walkRecords, if_pos hok, halign, hleft, visit, List.sum_cons]
      dsimp only
      rw [ih hrest (Nat.le_of_succ_le_succ hfuel)]

theorem walkRecords_invariant {I : σ → Prop} (hstep : ∀ s off rest, I s → I (f s off rest).1) {fuel off rest : ℕ}
    (hs : I s) : I (walkRecords hdr len f fuel off rest s) := by
  induction fuel generalizing off rest s with
  | zero => exact hs
  | succ _ ih =>
    rw [walkRecords]
    split
    · dsimp only
      split
      · exact hstep _ _ _ hs
      · exact ih (hstep _ _ _ hs)
    · exact hs

end G4Common.Tlv
