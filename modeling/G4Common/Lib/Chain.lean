/-
Chains of cells in an index-addressed memory.

A memory is read through one function `nxt : ℕ → ℕ`, the link field of every
cell; index `0` is the null link.  `Seg nxt e l f` says that following `nxt`
from `e` visits exactly the cells of `l` and arrives at `f`; a chain is a
segment that arrives at `0`.

On top of segments, `Chained` describes a hash table with an overflow area:
cells `1 .. T-1` are bucket heads, cells `T+1 .. N-1` are overflow cells, and
`D b` is the chain of bucket `b`.  The four operations such a table has are
proved here once, from the effect they have on the link, back-link and
occupancy functions and from nothing else:

* `Chained.insertHead` — occupy an empty bucket;
* `Chained.append` — link a free overflow cell behind the last cell;
* `Chained.unlink` — take the successor of a cell out of its chain;
* `Chained.removeHead` — free a bucket whose chain is the head alone.

Each is stated with the weakest frame: cells that are not occupied may change
in any way.  `Chained.insert` joins the first two.

A second table that refers to the members of the first is described by
`Pairing`: the references in the two directions undo each other.
-/
import Mathlib.Data.List.Nodup
import Mathlib.Data.List.Perm.Subperm
import Mathlib.Order.Interval.Finset.Nat
import Mathlib.Logic.Function.Basic

namespace G4Common

open Function List

/-! ### Segments -/

/-- `Seg nxt e l f`: from `e` the links visit the cells of `l`, none of them
null, and then arrive at `f`. -/
def Seg (nxt : ℕ → ℕ) : ℕ → List ℕ → ℕ → Prop
  | e, [], f => e = f
  | e, x :: l, f => e = x ∧ x ≠ 0 ∧ Seg nxt (nxt x) l f

variable {nxt nxt' : ℕ → ℕ} {e f p x : ℕ} {l l1 l2 : List ℕ}

@[simp] theorem seg_nil : Seg nxt e [] f ↔ e = f := Iff.rfl

@[simp] theorem seg_cons : Seg nxt e (x :: l) f ↔ e = x ∧ x ≠ 0 ∧ Seg nxt (nxt x) l f := Iff.rfl

theorem seg_append : Seg nxt e (l1 ++ l2) f ↔ ∃ m, Seg nxt e l1 m ∧ Seg nxt m l2 f := by
  induction l1 generalizing e with
  | nil => simp
  | cons _ _ ih =>
    simp only [cons_append, seg_cons, ih]
    constructor
    · rintro ⟨he, hx, m, h1, h2⟩
      exact ⟨m, ⟨he, hx, h1⟩, h2⟩
    · rintro ⟨m, ⟨he, hx, h1⟩, h2⟩
      exact ⟨he, hx, m, h1, h2⟩

theorem Seg.congr (h : ∀ x ∈ l, nxt' x = nxt x) (hs : Seg nxt e l f) : Seg nxt' e l f := by
  induction l generalizing e with
  | nil => exact hs
  | cons x _ ih =>
    obtain ⟨he, hx, hrest⟩ := hs
    refine ⟨he, hx, ?_⟩
    rw [h x (by simp)]
    exact ih (fun y hy => h y (by simp [hy])) hrest

theorem Seg.ne_zero (hs : Seg nxt e l f) (hx : x ∈ l) : x ≠ 0 := by
  induction l generalizing e with
  | nil => simp at hx
  | cons _ _ ih =>
    obtain ⟨-, hy, hrest⟩ := hs
    rcases mem_cons.mp hx with rfl | hx
    · exact hy
    · exact ih hrest hx

theorem Seg.unique (h1 : Seg nxt e l1 0) (h2 : Seg nxt e l2 0) : l1 = l2 := by
  induction l1 generalizing e l2 with
  | nil =>
    cases l2 with
    | nil => rfl
    | cons => exact absurd (h2.1.symm.trans h1) h2.2.1
  | cons _ _ ih =>
    cases l2 with
    | nil => exact absurd (h1.1.symm.trans h2) h1.2.1
    | cons =>
      obtain ⟨rfl, -, h1⟩ := h1
      obtain ⟨rfl, -, h2⟩ := h2
      rw [ih h1 h2]

theorem Seg.suffix (hs : Seg nxt e (l1 ++ x :: l2) 0) : Seg nxt (nxt x) l2 0 := by
  obtain ⟨m, -, -, -, h⟩ := seg_append.mp hs
  exact h

section

variable (hs : Seg nxt e l 0)
include hs

/-- **A chain has no cycle**: a cell met twice would start two chains of
different length. -/
theorem Seg.nodup : l.Nodup := by
  induction l generalizing e with
  | nil => simp
  | cons x l ih =>
    obtain ⟨-, -, hrest⟩ := hs
    refine nodup_cons.mpr ⟨fun hmem => ?_, ih hrest⟩
    obtain ⟨_, _, rfl⟩ := append_of_mem hmem
    have heq := hrest.suffix.unique hrest
    have hlen := congrArg length heq
    simp only [length_append, length_cons] at hlen
    omega

theorem Seg.head_mem (he : e ≠ 0) : e ∈ l := by
  cases l with
  | nil => exact absurd hs he
  | cons => simp [hs.1]

theorem Seg.next_mem (hp : p ∈ l) (hn : nxt p ≠ 0) : nxt p ∈ l := by
  obtain ⟨_, _, rfl⟩ := append_of_mem hp
  have := hs.suffix.head_mem hn
  simp [this]

theorem Seg.split_next (hp : p ∈ l) (hn : nxt p ≠ 0) : ∃ l1 l2, l = l1 ++ p :: nxt p :: l2 := by
  obtain ⟨l1, l2, rfl⟩ := append_of_mem hp
  have h := hs.suffix
  cases l2 with
  | nil => exact absurd h hn
  | cons _ l2 => exact ⟨l1, l2, by rw [h.1]⟩

theorem Seg.split_last (hp : p ∈ l) (hn : nxt p = 0) : ∃ l1, l = l1 ++ [p] := by
  obtain ⟨l1, l2, rfl⟩ := append_of_mem hp
  have h := hs.suffix
  cases l2 with
  | nil => exact ⟨l1, rfl⟩
  | cons => exact absurd (h.1.symm.trans hn) h.2.1

end

theorem Seg.redirect (hs : Seg nxt e (l ++ [p]) 0) (hframe : ∀ x ∈ l, nxt' x = nxt x) (hp : nxt' p = f) :
    Seg nxt' e (l ++ [p]) f := by
  obtain ⟨m, h1, hm, hp0, -⟩ := seg_append.mp hs
  exact seg_append.mpr ⟨m, h1.congr hframe, hm, hp0, hp⟩

theorem Seg.erase_next {nxt nxt' : ℕ → ℕ} {s p e : ℕ} {l : List ℕ} (hs : Seg nxt s l 0)
    (hp : p ∈ l) (he : nxt p = e) (he0 : e ≠ 0) (hnp : nxt' p = nxt e)
    (hnxt : ∀ x ∈ l, x ≠ p → x ≠ e → nxt' x = nxt x) : Seg nxt' s (l.erase e) 0 := by
  have hnd := hs.nodup
  obtain ⟨l1, l2, hl⟩ := hs.split_next hp (he ▸ he0)
  rw [he] at hl
  rw [hl, nodup_append] at hnd
  obtain ⟨-, hnd2, hdis⟩ := hnd
  simp only [nodup_cons, mem_cons, not_or] at hnd2
  have hpe : p ≠ e := hnd2.1.1
  have herase : l.erase e = l1 ++ p :: l2 := by
    rw [hl, erase_append_right _ (fun hx => hdis e hx e (by simp) rfl),
      erase_cons_tail (by simpa using hpe), erase_cons_head]
  rw [herase]
  rw [hl] at hs
  obtain ⟨m, h1, hm, hp0, _, -, h2⟩ := seg_append.mp hs
  refine seg_append.mpr ⟨m, h1.congr fun x hx => ?_, hm, hp0, ?_⟩
  · exact hnxt x (by simp [hl, hx]) (hdis x hx p (by simp)) (hdis x hx e (by simp))
  rw [hnp]
  refine h2.congr fun x hx => hnxt x (by simp [hl, hx]) ?_ ?_
  · rintro rfl
    exact hnd2.1.2 hx
  · rintro rfl
    exact hnd2.2.1 hx

/-! ### Walking a chain -/

/-- Follow the links from `e` for at most `n` cells; `none` when the null link
is not reached within them. -/
def follow (nxt : ℕ → ℕ) : ℕ → ℕ → Option (List ℕ)
  | 0, e => if e = 0 then some [] else none
  | n + 1, e => if e = 0 then some [] else (follow nxt n (nxt e)).map (e :: ·)

theorem follow_eq_some {n : ℕ} : follow nxt n e = some l ↔ Seg nxt e l 0 ∧ l.length ≤ n := by
  induction n generalizing e l with
  | zero =>
    cases l with
    | nil | cons => by_cases he : e = 0 <;> simp [follow, he]
  | succ _ ih =>
    by_cases he : e = 0
    · cases l with
      | nil => simp [follow, he]
      | cons =>
        simp only [follow, he, if_true, seg_cons]
        constructor
        · intro h
          simp at h
        · rintro ⟨⟨h0, hx, -⟩, -⟩
          exact absurd h0.symm hx
    cases l with
    | nil => simp [follow, he]
    | cons _ l =>
      simp only [follow, if_neg he, Option.map_eq_some_iff, cons.injEq, seg_cons,
        length_cons, Nat.add_le_add_iff_right]
      constructor
      · rintro ⟨_, hl', rfl, rfl⟩
        obtain ⟨h1, h2⟩ := ih.mp hl'
        exact ⟨⟨rfl, he, h1⟩, h2⟩
      · rintro ⟨⟨rfl, -, h1⟩, h2⟩
        exact ⟨l, ih.mpr ⟨h1, h2⟩, rfl, rfl⟩

theorem length_le_of_mem_Ioo {a b : ℕ} (hl : l.Nodup) (h : ∀ x ∈ l, a < x ∧ x < b) : l.length ≤ b - a - 1 := by
  have hsub : l.toFinset ⊆ Finset.Ioo a b := by
    intro x hx
    exact Finset.mem_Ioo.mpr (h x (mem_toFinset.mp hx))
  have hcard := Finset.card_le_card hsub
  rwa [toFinset_card_of_nodup hl, Nat.card_Ioo] at hcard

/-! ### A chained hash table with an overflow area -/

/-- The occupied cells form one chain per bucket: bucket heads lie in
`1 .. T-1`, all other cells in `T+1 .. N-1`, and `prev` undoes `nxt`. -/
structure Chained (T N : ℕ) (nxt prev : ℕ → ℕ) (used : ℕ → Prop)
    (D : ℕ → List ℕ) : Prop where
  seg : ∀ b, D b ≠ [] → Seg nxt b (D b) 0
  head : ∀ b, D b ≠ [] → 0 < b ∧ b < T
  tail : ∀ b e, e ∈ D b → e ≠ b → T < e ∧ e < N
  disj : ∀ b b' e, e ∈ D b → e ∈ D b' → b = b'
  used_iff : ∀ e, used e ↔ ∃ b, e ∈ D b
  back : ∀ b p, p ∈ D b → nxt p ≠ 0 → prev (nxt p) = p

namespace Chained

variable {T N b : ℕ} {prev prev' : ℕ → ℕ} {used used' : ℕ → Prop} {D : ℕ → List ℕ}

theorem empty (hused : ∀ e, ¬ used e) : Chained T N nxt prev used fun _ => [] where
  seg := fun _ h => absurd rfl h
  head := fun _ h => absurd rfl h
  tail := fun _ _ h => by simp at h
  disj := fun _ _ _ h => by simp at h
  used_iff := fun e => by simp [hused e]
  back := fun _ _ h => by simp at h

section

variable (h : Chained T N nxt prev used D)
include h

theorem seg_of_mem (he : e ∈ D b) : Seg nxt b (D b) 0 :=
  h.seg b (ne_nil_of_mem he)

theorem ne_zero (he : e ∈ D b) : e ≠ 0 := (h.seg_of_mem he).ne_zero he

theorem head_mem (hb : D b ≠ []) : b ∈ D b :=
  (h.seg b hb).head_mem (Nat.pos_iff_ne_zero.mp (h.head b hb).1)

theorem eq_of_lt (he : e ∈ D b) (hT : e < T) : e = b := by
  by_contra hne
  have := (h.tail b e he hne).1
  omega

theorem lt_of_mem (hTN : T ≤ N) (he : e ∈ D b) : e < N := by
  by_cases heb : e = b
  · have := (h.head b (ne_nil_of_mem he)).2
    omega
  · exact (h.tail b e he heb).2

theorem used_range (he : used e) : 0 < e ∧ (e < T ∨ T < e ∧ e < N) := by
  obtain ⟨b, hb⟩ := (h.used_iff e).mp he
  refine ⟨Nat.pos_of_ne_zero (h.ne_zero hb), ?_⟩
  by_cases heb : e = b
  · exact .inl (heb ▸ (h.head b (ne_nil_of_mem hb)).2)
  · exact .inr (h.tail b e hb heb)

theorem mem_own (hb : used b) (hT : b < T) : b ∈ D b := by
  obtain ⟨_, hb'⟩ := (h.used_iff b).mp hb
  have := h.eq_of_lt hb' hT
  rwa [← this] at hb'

theorem nil_of_not_used (hb : ¬ used b) : D b = [] := by
  by_contra hne
  exact hb ((h.used_iff b).mpr ⟨b, h.head_mem hne⟩)

theorem next_used (he : used e) (hn : nxt e ≠ 0) : used (nxt e) := by
  obtain ⟨b, hb⟩ := (h.used_iff e).mp he
  exact (h.used_iff _).mpr ⟨b, (h.seg_of_mem hb).next_mem hb hn⟩

theorem prev_next (he : used e) (hn : nxt e ≠ 0) : prev (nxt e) = e := by
  obtain ⟨b, hb⟩ := (h.used_iff e).mp he
  exact h.back b e hb hn

theorem next_overflow (he : used e) (hn : nxt e ≠ 0) : T < nxt e ∧ nxt e < N := by
  obtain ⟨b, hb⟩ := (h.used_iff e).mp he
  have hs := h.seg_of_mem hb
  refine h.tail b _ (hs.next_mem hb hn) fun heq => ?_
  obtain ⟨l1, _, hl⟩ := hs.split_next hb hn
  have hnd := hs.nodup
  rw [hl, heq] at hs hnd
  cases l1 with
  | nil | cons =>
    obtain ⟨rfl, -⟩ := hs
    simp at hnd

theorem next_ne (he : used e) : nxt e ≠ e := by
  intro heq
  have hr := h.used_range he
  obtain ⟨b, hb⟩ := (h.used_iff e).mp he
  have hs := h.seg_of_mem hb
  obtain ⟨_, _, hl⟩ := hs.split_next hb (by omega)
  have hnd := hs.nodup
  rw [hl, heq] at hnd
  simp [nodup_append] at hnd

theorem next_next_ne (he : used e) (hn : nxt e ≠ 0) : nxt (nxt e) ≠ e := by
  intro heq
  have hr := h.used_range he
  obtain ⟨b, hb⟩ := (h.used_iff e).mp he
  have hs := h.seg_of_mem hb
  obtain ⟨_, l2, hl⟩ := hs.split_next hb hn
  have hnd := hs.nodup
  rw [hl] at hs hnd
  -- the rest of the chain would start at `e` again
  have hrest : Seg nxt e l2 0 := by
    have := hs.suffix.2.2
    rwa [heq] at this
  have hmem := hrest.head_mem (by omega)
  simp [nodup_append, hmem] at hnd

/-- An overflow cell on a chain is the successor of the cell its back link
names. -/
theorem next_prev (he : used e) (hT : T ≤ e) : used (prev e) ∧ nxt (prev e) = e := by
  obtain ⟨b, hb⟩ := (h.used_iff e).mp he
  have hs := h.seg_of_mem hb
  obtain ⟨l1, _, hl⟩ := append_of_mem hb
  rcases eq_nil_or_concat l1 with rfl | ⟨_, p, rfl⟩
  · -- `e` would be the head of the chain
    rw [hl] at hs
    have := (h.head b (by simp [hl])).2
    have hbe := hs.1
    omega
  have hp : p ∈ D b := by simp [hl]
  have hnp : nxt p = e := by
    rw [hl, concat_eq_append, append_assoc] at hs
    exact hs.suffix.1
  have hback := h.back b p hp (by rw [hnp]; exact h.ne_zero hb)
  rw [hnp] at hback
  rw [hback]
  exact ⟨(h.used_iff p).mpr ⟨b, hp⟩, hnp⟩

theorem prev_mem (he : e ∈ D b) (hT : T ≤ e) : prev e ∈ D b := by
  obtain ⟨hpu, hpn⟩ := h.next_prev ((h.used_iff e).mpr ⟨b, he⟩) hT
  obtain ⟨b', hb'⟩ := (h.used_iff _).mp hpu
  have hmem := (h.seg_of_mem hb').next_mem hb' (by rw [hpn]; exact h.ne_zero he)
  rw [hpn] at hmem
  rwa [h.disj b b' e he hmem]

theorem follow_head (hTN : T ≤ N) (hb : D b ≠ []) : follow nxt N b = some (D b) := by
  refine follow_eq_some.mpr ⟨h.seg b hb, ?_⟩
  have hlen := length_le_of_mem_Ioo (a := 0) (b := N + 1) (h.seg b hb).nodup fun x hx =>
    ⟨Nat.pos_of_ne_zero (h.ne_zero hx), Nat.lt_succ_of_lt (h.lt_of_mem hTN hx)⟩
  omega

/-- A walk that keeps some of the occupied cells.  The walk of an empty bucket
visits its head, but does not keep it. -/
theorem follow_filter (hTN : T < N) (hzero : ∀ x, x < T → ¬ used x → nxt x = 0) (hb : b < T) {P : ℕ → Bool}
    (hP : ∀ x, x < T → P x → used x) : (follow nxt N b).map (filter P) = some ((D b).filter P) := by
  by_cases hD : D b = []
  · have hu : ¬ used b := fun hu => by
      have := h.mem_own hu hb
      simp [hD] at this
    have hPb : P b = false := by
      by_contra hPb
      exact hu (hP b hb (by simpa using hPb))
    by_cases hb0 : b = 0
    · have hfollow : follow nxt N b = some [] := follow_eq_some.mpr ⟨hb0, Nat.zero_le _⟩
      simp [hfollow, hD]
    · have hfollow : follow nxt N b = some [b] :=
        follow_eq_some.mpr ⟨⟨rfl, hb0, hzero b hb hu⟩, by simp; omega⟩
      simp [hfollow, hD, hPb]
  · rw [h.follow_head (Nat.le_of_lt hTN) hD]
    rfl

theorem congr (hnxt : ∀ x, used x → nxt' x = nxt x)
    (hprev : ∀ x, used x → prev' x = prev x) (hused : ∀ x, used' x ↔ used x) : Chained T N nxt' prev' used' D where
  seg := fun b hb => (h.seg b hb).congr fun x hx => hnxt x ((h.used_iff x).mpr ⟨b, hx⟩)
  head := h.head
  tail := h.tail
  disj := h.disj
  used_iff := fun x => (hused x).trans (h.used_iff x)
  back := by
    intro b q hq hn
    have hu := (h.used_iff q).mpr ⟨b, hq⟩
    rw [hnxt q hu] at hn ⊢
    rw [hprev _ (h.next_used hu hn)]
    exact h.back b q hq hn

end

/-! #### The four operations -/

theorem mem_of_mem_update (hsub : l ⊆ D b) {c x : ℕ} (hx : x ∈ update D b l c) : x ∈ D c := by
  rcases eq_or_ne c b with rfl | hc
  · rw [update_self] at hx
    exact hsub hx
  · rwa [update_of_ne hc] at hx

theorem grow {D' : ℕ → List ℕ} (h : Chained T N nxt prev used D) (hfree : ¬ used e)
    (hmem : ∀ c x, x ∈ D' c ↔ x ∈ D c ∨ c = b ∧ x = e)
    (hused : ∀ x, used' x ↔ used x ∨ x = e) (htail : e ≠ b → T < e ∧ e < N)
    (hseg : ∀ c, D' c ≠ [] → Seg nxt' c (D' c) 0) (hhead : ∀ c, D' c ≠ [] → 0 < c ∧ c < T)
    (hback : ∀ c q, q ∈ D' c → nxt' q ≠ 0 → prev' (nxt' q) = q) : Chained T N nxt' prev' used' D' := by
  have hold : ∀ {c x}, x ∈ D c → used x := fun hx => (h.used_iff _).mpr ⟨_, hx⟩
  refine ⟨hseg, hhead, ?_, ?_, ?_, hback⟩
  · intro c x hx hne
    rcases (hmem c x).mp hx with hx | ⟨rfl, rfl⟩
    · exact h.tail c x hx hne
    · exact htail hne
  · intro c c' x hx hx'
    rcases (hmem c x).mp hx with hc | ⟨hcb, hxe⟩ <;>
      rcases (hmem c' x).mp hx' with hc' | ⟨hcb', hxe'⟩
    · exact h.disj c c' x hc hc'
    · exact absurd (hold (hxe' ▸ hc)) hfree
    · exact absurd (hold (hxe ▸ hc')) hfree
    · rw [hcb, hcb']
  intro x
  rw [hused, h.used_iff]
  constructor
  · rintro (⟨c, hc⟩ | rfl)
    · exact ⟨c, (hmem c x).mpr (.inl hc)⟩
    · exact ⟨b, (hmem b x).mpr (.inr ⟨rfl, rfl⟩)⟩
  rintro ⟨c, hc⟩
  rcases (hmem c x).mp hc with hc | ⟨-, rfl⟩
  · exact .inl ⟨c, hc⟩
  · exact .inr rfl

theorem shrink {D' : ℕ → List ℕ} (h : Chained T N nxt prev used D)
    (hmem : ∀ c x, x ∈ D' c ↔ x ∈ D c ∧ x ≠ e) (hused : ∀ x, used' x ↔ used x ∧ x ≠ e)
    (hseg : ∀ c, D' c ≠ [] → Seg nxt' c (D' c) 0) (hhead : ∀ c, D' c ≠ [] → 0 < c ∧ c < T)
    (hback : ∀ c q, q ∈ D c → q ≠ e → nxt' q ≠ 0 → prev' (nxt' q) = q) : Chained T N nxt' prev' used' D' := by
  refine ⟨hseg, hhead, ?_, ?_, ?_, ?_⟩
  · intro c x hx hne
    exact h.tail c x ((hmem c x).mp hx).1 hne
  · intro c c' x hx hx'
    exact h.disj c c' x ((hmem c x).mp hx).1 ((hmem c' x).mp hx').1
  · intro x
    rw [hused, h.used_iff]
    constructor
    · rintro ⟨⟨c, hc⟩, hxe⟩
      exact ⟨c, (hmem c x).mpr ⟨hc, hxe⟩⟩
    · rintro ⟨c, hc⟩
      obtain ⟨hc, hxe⟩ := (hmem c x).mp hc
      exact ⟨⟨c, hc⟩, hxe⟩
  · intro c q hq hn
    obtain ⟨hq, hqe⟩ := (hmem c q).mp hq
    exact hback c q hq hqe hn

section

variable (h : Chained T N nxt prev used D)
include h

theorem insertHead (hb0 : 0 < b) (hbT : b < T) (hfree : ¬ used b) (hnb : nxt' b = 0)
    (hnxt : ∀ x, used x → nxt' x = nxt x) (hprev : ∀ x, used x → prev' x = prev x)
    (hused : ∀ x, used' x ↔ used x ∨ x = b) : Chained T N nxt' prev' used' (update D b [b]) := by
  have hnil := h.nil_of_not_used hfree
  have hold : ∀ {c x}, x ∈ D c → used x := fun hx => (h.used_iff _).mpr ⟨_, hx⟩
  have hmem : ∀ c x, x ∈ update D b [b] c ↔ x ∈ D c ∨ c = b ∧ x = b := by
    intro c x
    rcases eq_or_ne c b with rfl | hc
    · simp [hnil]
    · simp [hc]
  refine h.grow hfree hmem hused (fun hne => absurd rfl hne) ?_ ?_ ?_
  · intro c hc
    rcases eq_or_ne c b with rfl | hcb
    · simp [hnb, Nat.pos_iff_ne_zero.mp hb0]
    · rw [update_of_ne hcb] at hc ⊢
      exact (h.seg c hc).congr fun x hx => hnxt x (hold hx)
  · intro c hc
    by_cases hcb : c = b
    · exact hcb ▸ ⟨hb0, hbT⟩
    · rw [update_of_ne hcb] at hc
      exact h.head c hc
  intro c q hq hn
  rcases (hmem c q).mp hq with hq | ⟨-, rfl⟩
  · rw [hnxt q (hold hq)] at hn ⊢
    rw [hprev _ (h.next_used (hold hq) hn)]
    exact h.back c q hq hn
  · exact absurd hnb hn

theorem append (hp : p ∈ D b) (hlast : nxt p = 0) (heT : T < e) (heN : e < N) (hfree : ¬ used e)
    (hnp : nxt' p = e) (hne : nxt' e = 0) (hpe : prev' e = p) (hnxt : ∀ x, used x → x ≠ p → nxt' x = nxt x)
    (hprev : ∀ x, used x → prev' x = prev x) (hused : ∀ x, used' x ↔ used x ∨ x = e) :
    Chained T N nxt' prev' used' (update D b (D b ++ [e])) := by
  have hold : ∀ {c x}, x ∈ D c → used x := fun hx => (h.used_iff _).mpr ⟨_, hx⟩
  have he0 : e ≠ 0 := by omega
  have hmem : ∀ c x, x ∈ update D b (D b ++ [e]) c ↔ x ∈ D c ∨ c = b ∧ x = e := by
    intro c x
    rcases eq_or_ne c b with rfl | hc
    · simp
    · simp [hc]
  have hne_nil : ∀ c, update D b (D b ++ [e]) c ≠ [] → D c ≠ [] := by
    intro c hc
    by_cases hcb : c = b
    · exact hcb ▸ ne_nil_of_mem hp
    · rwa [update_of_ne hcb] at hc
  refine h.grow hfree hmem hused (fun _ => ⟨heT, heN⟩) ?_ (fun c hc => h.head c (hne_nil c hc)) ?_
  · intro c hc
    rcases eq_or_ne c b with rfl | hcb
    · rw [update_self]
      obtain ⟨l1, hl⟩ := (h.seg_of_mem hp).split_last hp hlast
      have hs := h.seg_of_mem hp
      have hnd := hs.nodup
      rw [hl] at hs hnd ⊢
      have hframe : ∀ x ∈ l1, nxt' x = nxt x := by
        intro x hx
        refine hnxt x (hold (c := c) (by simp [hl, hx])) ?_
        rintro rfl
        exact (nodup_append.mp hnd).2.2 x hx x (by simp) rfl
      exact seg_append.mpr ⟨e, hs.redirect hframe hnp, rfl, he0, hne⟩
    have hc' := hne_nil c hc
    rw [update_of_ne hcb]
    refine (h.seg c hc').congr fun x hx => hnxt x (hold hx) ?_
    rintro rfl
    exact hcb (h.disj c b x hx hp)
  intro c q hq hn
  rcases (hmem c q).mp hq with hq | ⟨-, rfl⟩
  · by_cases hqp : q = p
    · rw [hqp, hnp, hpe]
    · rw [hnxt q (hold hq) hqp] at hn ⊢
      rw [hprev _ (h.next_used (hold hq) hn)]
      exact h.back c q hq hn
  · exact absurd hne hn

theorem unlink (hp : p ∈ D b) (he : nxt p = e) (he0 : e ≠ 0) (hnp : nxt' p = nxt e)
    (hback : nxt e ≠ 0 → prev' (nxt e) = p) (hnxt : ∀ x, used x → x ≠ p → x ≠ e → nxt' x = nxt x)
    (hprev : ∀ x, used x → x ≠ e → x ≠ nxt e → prev' x = prev x) (hused : ∀ x, used' x ↔ used x ∧ x ≠ e) :
    Chained T N nxt' prev' used' (update D b ((D b).erase e)) := by
  have hold : ∀ {c x}, x ∈ D c → used x := fun hx => (h.used_iff _).mpr ⟨_, hx⟩
  have hs := h.seg_of_mem hp
  have heb : e ∈ D b := he ▸ hs.next_mem hp (he ▸ he0)
  have hmem : ∀ c x, x ∈ update D b ((D b).erase e) c ↔ x ∈ D c ∧ x ≠ e := by
    intro c x
    rcases eq_or_ne c b with rfl | hc
    · rw [update_self, hs.nodup.mem_erase_iff]
      exact and_comm
    rw [update_of_ne hc]
    refine ⟨fun hx => ⟨hx, ?_⟩, And.left⟩
    rintro rfl
    exact hc (h.disj c b x hx heb)
  have hne_nil : ∀ c, update D b ((D b).erase e) c ≠ [] → D c ≠ [] := by
    intro c hc
    by_cases hcb : c = b
    · exact hcb ▸ ne_nil_of_mem hp
    · rwa [update_of_ne hcb] at hc
  refine h.shrink hmem hused ?_ (fun c hc => h.head c (hne_nil c hc)) ?_
  · intro c hc
    rcases eq_or_ne c b with rfl | hcb
    · rw [update_self]
      exact hs.erase_next hp he he0 hnp fun x hx => hnxt x (hold hx)
    have hc' := hne_nil c hc
    rw [update_of_ne hcb]
    refine (h.seg c hc').congr fun x hx => hnxt x (hold hx) ?_ ?_
    · rintro rfl
      exact hcb (h.disj c b x hx hp)
    · rintro rfl
      exact hcb (h.disj c b x hx heb)
  intro c q hq hqe hn
  by_cases hqp : q = p
  · rw [hqp, hnp] at hn ⊢
    exact hback hn
  rw [hnxt q (hold hq) hqp hqe] at hn ⊢
  have hu := h.next_used (hold hq) hn
  -- the successor of `q` is neither `e` nor the successor of `e`: both
  -- have another predecessor
  have hqne : nxt q ≠ e := by
    intro hqe'
    have h1 := h.back c q hq hn
    have h2 := h.back b p hp (he ▸ he0)
    rw [hqe'] at h1
    rw [he] at h2
    exact hqp (h1.symm.trans h2)
  have hqnn : nxt q ≠ nxt e := by
    intro hqe'
    have h1 := h.back c q hq hn
    have h2 := h.back b e heb (hqe' ▸ hn)
    rw [hqe'] at h1
    exact hqe (h1.symm.trans h2)
  rw [hprev _ hu hqne hqnn]
  exact h.back c q hq hn

theorem removeHead (hb : used b) (hbT : b < T) (hnb : nxt b = 0) (hnxt : ∀ x, used x → x ≠ b → nxt' x = nxt x)
    (hprev : ∀ x, used x → x ≠ b → prev' x = prev x) (hused : ∀ x, used' x ↔ used x ∧ x ≠ b) :
    Chained T N nxt' prev' used' (update D b []) := by
  have hold : ∀ {c x}, x ∈ D c → used x := fun hx => (h.used_iff _).mpr ⟨_, hx⟩
  have hbb := h.mem_own hb hbT
  have hDb : D b = [b] := by
    refine (h.seg_of_mem hbb).unique ?_
    simp [hnb, h.ne_zero hbb]
  have hmem : ∀ c x, x ∈ update D b [] c ↔ x ∈ D c ∧ x ≠ b := by
    intro c x
    rcases eq_or_ne c b with rfl | hc
    · simp [hDb]
    rw [update_of_ne hc]
    refine ⟨fun hx => ⟨hx, ?_⟩, And.left⟩
    rintro rfl
    exact hc (h.disj c x x hx hbb)
  have hne_nil : ∀ c, update D b [] c ≠ [] → c ≠ b ∧ D c ≠ [] := by
    intro c hc
    rcases eq_or_ne c b with rfl | hcb
    · simp at hc
    · rw [update_of_ne hcb] at hc
      exact ⟨hcb, hc⟩
  refine h.shrink hmem hused ?_ (fun c hc => h.head c (hne_nil c hc).2) ?_
  · intro c hc
    obtain ⟨hcb, hc'⟩ := hne_nil c hc
    rw [update_of_ne hcb]
    refine (h.seg c hc').congr fun x hx => hnxt x (hold hx) ?_
    rintro rfl
    exact hcb (h.disj c x x hx hbb)
  intro c q hq hqb hn
  rw [hnxt q (hold hq) hqb] at hn ⊢
  have hof := h.next_overflow (hold hq) hn
  rw [hprev _ (h.next_used (hold hq) hn) (by omega)]
  exact h.back c q hq hn

end

/-- `e` is a free cell for a new member of bucket `b`, to be linked behind `p`
(`0` when the bucket is empty). -/
def Slot (T N : ℕ) (nxt : ℕ → ℕ) (used : ℕ → Prop) (D : ℕ → List ℕ) (b e p : ℕ) : Prop :=
  (p = 0 ∧ e = b ∧ 0 < b ∧ b < T ∧ ¬ used b) ∨
  (p ∈ D b ∧ nxt p = 0 ∧ T < e ∧ e < N ∧ ¬ used e)

section

variable {nxt : ℕ → ℕ} {e p : ℕ}

theorem Slot.free (hs : Slot T N nxt used D b e p) : ¬ used e := by
  rcases hs with ⟨-, rfl, -, -, h⟩ | ⟨-, -, -, -, h⟩ <;> exact h

theorem Slot.pos (hs : Slot T N nxt used D b e p) : e ≠ 0 := by
  rcases hs with ⟨-, rfl, h, -⟩ | ⟨-, -, h, -⟩ <;> omega

theorem Slot.lt (hs : Slot T N nxt used D b e p) (hTN : T ≤ N) : e < N := by
  rcases hs with ⟨-, rfl, -, h, -⟩ | ⟨-, -, -, h, -⟩ <;> omega

theorem Slot.prev_used (h : Chained T N nxt prev used D)
    (hs : Slot T N nxt used D b e p) (hp : p ≠ 0) : used p ∧ p ≠ e := by
  rcases hs with ⟨h0, -⟩ | ⟨hpb, -, -, -, hfree⟩
  · exact absurd h0 hp
  have hup := (h.used_iff p).mpr ⟨b, hpb⟩
  refine ⟨hup, ?_⟩
  rintro rfl
  exact hfree hup

theorem Slot.prev_last (hs : Slot T N nxt used D b e p) (hp : p ≠ 0) : nxt p = 0 := by
  rcases hs with ⟨h0, -⟩ | ⟨-, hlast, -⟩
  · exact absurd h0 hp
  · exact hlast

theorem Slot.prev_eq_zero (h : Chained T N nxt prev used D) (hs : Slot T N nxt used D b e p) : p = 0 ↔ ¬ used b := by
  rcases hs with ⟨h0, -, -, -, hfree⟩ | ⟨hpb, -⟩
  · exact iff_of_true h0 hfree
  · exact iff_of_false (h.ne_zero hpb) fun hfree =>
      hfree ((h.used_iff b).mpr ⟨b, h.head_mem (ne_nil_of_mem hpb)⟩)

end

/-- **Insertion**: occupy a slot and link it behind its predecessor. -/
theorem insert (h : Chained T N nxt prev used D) (hs : Slot T N nxt used D b e p)
    (hne : nxt' e = 0) (hnp : p ≠ 0 → nxt' p = e) (hpe : p ≠ 0 → prev' e = p)
    (hnxt : ∀ x, used x → x ≠ p → nxt' x = nxt x) (hprev : ∀ x, used x → prev' x = prev x)
    (hused : ∀ x, used' x ↔ used x ∨ x = e) : Chained T N nxt' prev' used' (update D b (D b ++ [e])) := by
  rcases hs with ⟨rfl, rfl, hb0, hbT, hfree⟩ | ⟨hp, hlast, heT, heN, hfree⟩
  · rw [h.nil_of_not_used hfree, nil_append]
    refine h.insertHead hb0 hbT hfree hne (fun x hx => ?_) hprev hused
    exact hnxt x hx (Nat.pos_iff_ne_zero.mp (h.used_range hx).1)
  · have hp0 := h.ne_zero hp
    exact h.append hp hlast heT heN hfree (hnp hp0) hne (hpe hp0) hnxt hprev hused

/-- A walk while a slot is being filled: `lk` says whether the predecessor
already leads to it. -/
theorem follow_inserting (h : Chained T N nxt prev used D) (hTN : T < N)
    (hzero : ∀ x, ¬ used x → nxt x = 0) (hs : Slot T N nxt used D b e p) {lk : Bool}
    (hne : nxt' e = 0) (hnp : p ≠ 0 → nxt' p = if lk = true then e else 0)
    (hnxt : ∀ x, x ≠ e → (x = p → p = 0) → nxt' x = nxt x) {a : ℕ} (ha : a < T) {P : ℕ → Bool}
    (hP : ∀ x, x < T → P x → used x ∨ x = e) :
    (follow nxt' N a).map (filter P) =
      some ((if a = b ∧ (p = 0 ∨ lk) then D a ++ [e] else D a).filter P) := by
  have hfree := hs.free
  by_cases hlinked : p = 0 ∨ lk = true
  · have hnp' : p ≠ 0 → nxt' p = e := fun hp => by
      rw [hnp hp, if_pos (hlinked.resolve_left hp)]
    have hins : Chained T N nxt' (update prev e p) (fun x => used x ∨ x = e) (update D b (D b ++ [e])) := by
      refine h.insert hs hne hnp' (fun _ => update_self ..) (fun x hx hxp => ?_)
        (fun x hx => update_of_ne ?_ _ _) fun _ => Iff.rfl
      · exact hnxt x (fun heq => hfree (heq ▸ hx)) fun heq => absurd heq hxp
      · rintro rfl
        exact hfree hx
    have hzero' : ∀ x, ¬ (used x ∨ x = e) → nxt' x = 0 := fun x hx => by
      rw [not_or] at hx
      rw [hnxt x hx.2 fun heq => ?_, hzero x hx.1]
      by_contra hp
      exact hx.1 (heq ▸ (hs.prev_used h hp).1)
    rw [hins.follow_filter hTN (fun x _ => hzero' x) ha hP]
    rcases eq_or_ne a b with rfl | hab
    · simp [hlinked]
    · simp [hab]
  -- the new cell is in the overflow area and nothing leads to it
  rw [not_or] at hlinked
  obtain ⟨hp0, hlk⟩ := hlinked
  have hover : p ∈ D b ∧ nxt p = 0 ∧ T < e := by
    rcases hs with ⟨h0, -⟩ | ⟨hp, hlast, hTe, -⟩
    · exact absurd h0 hp0
    · exact ⟨hp, hlast, hTe⟩
  have hsame : ∀ x, x ≠ e → nxt' x = nxt x := fun x hx => by
    by_cases hxp : x = p
    · rw [hxp, hnp hp0, if_neg hlk, hover.2.1]
    · exact hnxt x hx fun heq => absurd heq hxp
  have hold : Chained T N nxt' prev used D := by
    refine h.congr (fun x hx => hsame x ?_) (fun _ _ => rfl) fun _ => Iff.rfl
    rintro rfl
    exact hfree hx
  have hzero' : ∀ x, ¬ used x → nxt' x = 0 := fun x hx => by
    by_cases hxe : x = e
    · rw [hxe, hne]
    · rw [hsame x hxe, hzero x hx]
  have hP' : ∀ x, x < T → P x = true → used x := fun x hx hPx =>
    (hP x hx hPx).resolve_right fun heq => by
      have := hover.2.2
      omega
  rw [hold.follow_filter hTN (fun x _ => hzero' x) ha hP', if_neg fun hand => hand.2.elim hp0 hlk]

end Chained

/-! ### Cross references between two tables -/

/-- The members `L` of one table and the occupied cells of another name each
other: `link` leads from a member to its cell, `payload` back; payload `0`
marks a cell that is not occupied. -/
structure Pairing (L : ℕ → Prop) (link payload : ℕ → ℕ) : Prop where
  pos : ∀ e, L e → e ≠ 0
  fwd : ∀ e, L e → payload (link e) = e
  bwd : ∀ i, payload i ≠ 0 → L (payload i) ∧ link (payload i) = i

namespace Pairing

variable {L L' : ℕ → Prop} {link link' payload payload' : ℕ → ℕ} {i s : ℕ}

theorem empty (hL : ∀ e, ¬ L e) (hp : ∀ i, payload i = 0) : Pairing L link payload where
  pos := fun e h => absurd h (hL e)
  fwd := fun e h => absurd h (hL e)
  bwd := fun i h => absurd (hp i) h

section

variable (h : Pairing L link payload)
include h

theorem payload_inj (hi : payload i ≠ 0) (heq : payload i = payload s) : i = s := by
  have h1 := (h.bwd i hi).2
  have h2 := (h.bwd s (heq ▸ hi)).2
  rw [← h1, heq, h2]

theorem insert (he : e ≠ 0) (hi : payload i = 0)
    (hle : link' e = i) (hlink : ∀ x, L x → x ≠ e → link' x = link x) (hpi : payload' i = e)
    (hpay : ∀ j, j ≠ i → payload' j = payload j) (hL : ∀ x, L' x ↔ L x ∨ x = e)
    (hnew : ¬ L e) : Pairing L' link' payload' where
  pos := by
    intro x hx
    rcases (hL x).mp hx with hx | rfl
    · exact h.pos x hx
    · exact he
  fwd := by
    intro x hx
    by_cases hxe : x = e
    · rw [hxe, hle, hpi]
    have hx' := ((hL x).mp hx).resolve_right hxe
    have hxl : payload (link x) = x := h.fwd x hx'
    have hne : link x ≠ i := by
      intro hi'
      rw [hi', hi] at hxl
      exact h.pos x hx' hxl.symm
    rw [hlink x hx' hxe, hpay _ hne, hxl]
  bwd := by
    intro j hj
    by_cases hji : j = i
    · rw [hji, hpi]
      exact ⟨(hL e).mpr (.inr rfl), hle⟩
    rw [hpay j hji] at hj ⊢
    obtain ⟨h1, h2⟩ := h.bwd j hj
    refine ⟨(hL _).mpr (.inl h1), ?_⟩
    rw [hlink _ h1 (fun hje => hnew (hje ▸ h1)), h2]

theorem remove (he : L e) (hi : link e = i) (hlink : ∀ x, L x → x ≠ e → link' x = link x)
    (hpi : payload' i = 0) (hpay : ∀ j, j ≠ i → payload' j = payload j)
    (hL : ∀ x, L' x ↔ L x ∧ x ≠ e) : Pairing L' link' payload' where
  pos := fun x hx => h.pos x ((hL x).mp hx).1
  fwd := by
    intro x hx
    obtain ⟨hx, hxe⟩ := (hL x).mp hx
    rw [hlink x hx hxe, hpay, h.fwd x hx]
    intro hxi
    have h1 := h.fwd x hx
    have h2 := h.fwd e he
    rw [hxi] at h1
    rw [hi] at h2
    exact hxe (h1.symm.trans h2)
  bwd := by
    intro j hj
    have hji : j ≠ i := by
      rintro rfl
      exact hj hpi
    rw [hpay j hji] at hj ⊢
    obtain ⟨h1, h2⟩ := h.bwd j hj
    have hje : payload j ≠ e := by
      intro hje
      rw [hje, hi] at h2
      exact hji h2.symm
    exact ⟨(hL _).mpr ⟨h1, hje⟩, (hlink _ h1 hje).trans h2⟩

theorem move (hi : payload i = 0) (hs : payload s ≠ 0) (hpi : payload' i = payload s) (hps : payload' s = 0)
    (hpay : ∀ j, j ≠ i → j ≠ s → payload' j = payload j)
    (hls : link' (payload s) = i) (hlink : ∀ x, L x → x ≠ payload s → link' x = link x) : Pairing L link' payload' where
  pos := h.pos
  fwd := by
    intro x hx
    by_cases hxs : x = payload s
    · rw [hxs, hls, hpi]
    have hxl := h.fwd x hx
    have hne_i : link x ≠ i := by
      intro hxi
      rw [hxi, hi] at hxl
      exact h.pos x hx hxl.symm
    have hne_s : link x ≠ s := by
      intro hxs'
      rw [hxs'] at hxl
      exact hxs hxl.symm
    rw [hlink x hx hxs, hpay _ hne_i hne_s, hxl]
  bwd := by
    intro j hj
    by_cases hji : j = i
    · rw [hji, hpi]
      exact ⟨(h.bwd s hs).1, hls⟩
    by_cases hjs : j = s
    · exact absurd (hjs ▸ hps) hj
    rw [hpay j hji hjs] at hj ⊢
    obtain ⟨h1, h2⟩ := h.bwd j hj
    refine ⟨h1, ?_⟩
    rw [hlink _ h1 (fun heq => hjs (h.payload_inj hj heq)), h2]

end

end Pairing

end G4Common
