/-
The links of the list of chips (`chip_add()` of `dtbtool/dtbtool.c`).

Nodes are in memory, at addresses; `0` is `NULL`.  `chip_add()` walks along `next` and changes the links of the new node
and of its neighbours, one by one.  The caller allocates a node and fills it in before the call, so what its links were
does not matter; a node is fresh when it is not in the list.

The walk is the insertion of `ChipList.lean` (`chipAddLinked_refines`): what is behind the place of the node is not
compared, and has no duplicate since the list is sorted by the first four numbers.
-/
import G4Common.Dtbtool.Image
import G4Common.Lib.DoublyLinked

namespace G4Common.Dtbtool

open DoublyLinked Function List Option Bool

/-! ### Memory -/

/-- `chip_list`, and the nodes in memory. -/
structure ChipMem where
  chip_list : ℕ
  node : ℕ → Option (DCell ChipNode)

namespace ChipMem

def setNext (s : ChipMem) (p q : ℕ) : Option ChipMem :=
  (s.node p).map fun c => { s with node := update s.node p (some { c with next := q }) }

def setPrev (s : ChipMem) (p q : ℕ) : Option ChipMem :=
  (s.node p).map fun c => { s with node := update s.node p (some { c with prev := q }) }

/-- The caller fills in a node. -/
def fill (s : ChipMem) (a : ℕ) (cell : DCell ChipNode) : ChipMem :=
  { s with node := update s.node a (some cell) }

end ChipMem

/-- The loop of `chip_add()`, from the node `x` on, with a bound on its turns; `none` when the bound is reached or a
node is not in memory. -/
def chipAddLoop : ℕ → ℕ → ℕ → ChipMem → Option (ℤ × ChipMem)
  | 0, _, _, _ => none
  | fuel + 1, c, x, s => do
    let cn ← s.node c
    let xn ← s.node x
    if cn.data.id.before xn.data.id then
      if xn.prev = 0 then
        let s ← s.setNext c x
        let s ← s.setPrev c 0
        let s ← s.setPrev x c
        some (RC_SUCCESS, { s with chip_list := c })
      else
        let s ← s.setNext c x
        let s ← s.setPrev c (← s.node x).prev
        let s ← s.setNext (← s.node x).prev c
        let s ← s.setPrev x c
        some (RC_SUCCESS, s)
    else if cn.data.id.chipset = xn.data.id.chipset ∧ cn.data.id.platform = xn.data.id.platform ∧
        cn.data.id.subtype = xn.data.id.subtype ∧ cn.data.id.revNum = xn.data.id.revNum ∧
        cn.data.id.pmic_model.1 = xn.data.id.pmic_model.1 ∧ cn.data.id.pmic_model.2.1 = xn.data.id.pmic_model.2.1 ∧
        cn.data.id.pmic_model.2.2.1 = xn.data.id.pmic_model.2.2.1 ∧
        cn.data.id.pmic_model.2.2.2 = xn.data.id.pmic_model.2.2.2 then
      some (RC_ERROR, s)
    else if xn.next = 0 then
      let s ← s.setPrev c x
      let s ← s.setNext c 0
      let s ← s.setNext x c
      some (RC_SUCCESS, s)
    else chipAddLoop fuel c xn.next s

def chipAddLinked (fuel c : ℕ) (s : ChipMem) : Option (ℤ × ChipMem) :=
  if s.chip_list = 0 then do
    let s ← { s with chip_list := c }.setNext c 0
    let s ← s.setPrev c 0
    some (RC_SUCCESS, s)
  else chipAddLoop fuel c s.chip_list s

/-- A call for a node that the caller has filled in. -/
def chipCall (fuel : ℕ) (s : ChipMem) (a : ℕ) (cell : DCell ChipNode) : Option (ℤ × ChipMem) :=
  chipAddLinked fuel a (s.fill a cell)

/-! ### Lists in memory -/

/-- Insertion of a node with its address. -/
def linkInsert (c : ℕ × ChipNode) (l : List (ℕ × ChipNode)) : Option (List (ℕ × ChipNode)) :=
  keyInsert (fun x => x.2.id.placeKey) (fun x y => decide (x.2.id = y.2.id)) c l

/-- The nodes from `chip_list` on. -/
structure ChipsAt (s : ChipMem) (l : List (ℕ × ChipNode)) : Prop where
  seg : ∃ e, DSeg s.node 0 s.chip_list l e 0
  nodup : (l.map Prod.fst).Nodup

section Calls

variable {s : ChipMem} {l pre suf : List (ℕ × ChipNode)} {c x : ℕ × ChipNode} {cell : DCell ChipNode}

theorem ChipsAt.insert {s' : ChipMem} {m k e : ℕ} {l1 l2 : List (ℕ × ChipNode)}
    (h1 : DSeg s.node 0 s.chip_list l1 m k) (h2 : DSeg s.node m k l2 e 0) (hnodup : ((l1 ++ l2).map Prod.fst).Nodup)
    (hc : c.1 ∉ (l1 ++ l2).map Prod.fst) (hne : c.1 ≠ 0) (hhead : s'.chip_list = if l1 = [] then c.1 else s.chip_list)
    (hput : PutBetween s.node s'.node l1 l2 c.1 m k c.2) : ChipsAt s' (l1 ++ c :: l2) := by
  constructor
  · refine ⟨if l2 = [] then c.1 else e, ?_⟩
    rw [hhead]
    exact h1.insert h2 hnodup hne hput
  · have hperm : ((l1 ++ c :: l2).map Prod.fst).Perm (c.1 :: (l1 ++ l2).map Prod.fst) := perm_middle.map Prod.fst
    rw [hperm.nodup_iff, nodup_cons]
    exact ⟨hc, hnodup⟩

/-- What a call does from the node `x` on, with the nodes `pre` before it. -/
inductive CallResult (s : ChipMem) (c : ℕ × ChipNode) (pre l : List (ℕ × ChipNode)) : Option (ℤ × ChipMem) → Prop
  | duplicate (h : linkInsert c l = none) : CallResult s c pre l (some (RC_ERROR, s))
  | inserted {s' : ChipMem} {l' : List (ℕ × ChipNode)} (h : linkInsert c l = some l') (hs : ChipsAt s' (pre ++ l')) :
    CallResult s c pre l (some (RC_SUCCESS, s'))

theorem chipAddLoop_head {fuel n p k : ℕ} (hc : s.node c.1 = some ⟨c.2, n, p⟩) (hx : s.node x.1 = some ⟨x.2, k, 0⟩)
    (hne : c.1 ≠ x.1) (hlt : c.2.id.before x.2.id) :
    chipAddLoop (fuel + 1) c.1 x.1 s = some (RC_SUCCESS, ⟨c.1, update (update s.node c.1
      (some ⟨c.2, x.1, 0⟩)) x.1 (some ⟨x.2, k, c.1⟩)⟩) := by
  rw [chipAddLoop]
  simp only [hc, hx, hlt, ChipMem.setNext, ChipMem.setPrev, bind_eq_bind, bind_some, if_true,
    map_some, update_self, update_of_ne hne.symm, update_idem]

theorem chipAddLoop_inner {fuel n p k m : ℕ} {y : DCell ChipNode} (hc : s.node c.1 = some ⟨c.2, n, p⟩)
    (hx : s.node x.1 = some ⟨x.2, k, m⟩) (hy : s.node m = some y) (hm : m ≠ 0) (hne : c.1 ≠ x.1) (hcm : c.1 ≠ m)
    (hmx : m ≠ x.1) (hlt : c.2.id.before x.2.id) :
    chipAddLoop (fuel + 1) c.1 x.1 s = some (RC_SUCCESS, ⟨s.chip_list, update (update
      (update s.node c.1 (some ⟨c.2, x.1, m⟩)) m (some { y with next := c.1 })) x.1
      (some ⟨x.2, k, c.1⟩)⟩) := by
  rw [chipAddLoop]
  simp only [hc, hx, hy, hlt, if_neg hm, ChipMem.setNext, ChipMem.setPrev, bind_eq_bind, bind_some,
    if_true, map_some, update_self, update_of_ne hne.symm, update_of_ne hcm.symm,
    update_of_ne hmx.symm, update_idem]

theorem chipAddLoop_last {fuel n p m : ℕ} (hc : s.node c.1 = some ⟨c.2, n, p⟩) (hx : s.node x.1 = some ⟨x.2, 0, m⟩)
    (hne : c.1 ≠ x.1) (hlt : c.2.id.before x.2.id = false) (hid : c.2.id ≠ x.2.id) :
    chipAddLoop (fuel + 1) c.1 x.1 s = some (RC_SUCCESS, ⟨s.chip_list, update (update s.node c.1
      (some ⟨c.2, 0, x.1⟩)) x.1 (some ⟨x.2, c.1, m⟩)⟩) := by
  rw [chipAddLoop]
  simp only [hc, hx, hlt, sameId_iff, if_neg hid, ChipMem.setNext, ChipMem.setPrev, bind_eq_bind,
    bind_some, if_true, map_some, update_self, update_of_ne hne.symm,
    update_idem, false_eq_true, if_false]

theorem chipsAt_head {k e : ℕ} (hs : ChipsAt s (x :: suf)) (hseg : DSeg s.node 0 x.1 (x :: suf) e 0)
    (hx : s.node x.1 = some ⟨x.2, k, 0⟩) (hfresh : c.1 ∉ (x :: suf).map Prod.fst) (hne : c.1 ≠ 0) (hcx : c.1 ≠ x.1) :
    ChipsAt ⟨c.1, update (update s.node c.1 (some ⟨c.2, x.1, 0⟩)) x.1 (some ⟨x.2, k, c.1⟩)⟩
      (c :: x :: suf) := by
  have hnil : DSeg s.node 0 x.1 [] 0 x.1 := ⟨rfl, rfl⟩
  refine ChipsAt.insert (s := ⟨x.1, s.node⟩) hnil hseg hs.nodup hfresh hne (if_pos rfl).symm ⟨?_, ?_, ?_, ?_⟩
  · show update _ _ _ c.1 = _
    rw [update_of_ne hcx, update_self]
  · intro hl
    exact absurd rfl hl
  · intro _ y hy
    cases hx.symm.trans hy
    exact update_self ..
  intro r hr _ hrx
  show update _ _ _ r = _
  rw [update_of_ne (hrx (cons_ne_nil _ _)), update_of_ne]
  rintro rfl
  exact hfresh hr

theorem chipsAt_inner {m k e : ℕ} {y : DCell ChipNode} (hs : ChipsAt s (pre ++ x :: suf)) (hnil : pre ≠ [])
    (hpre : DSeg s.node 0 s.chip_list pre m x.1) (hseg : DSeg s.node m x.1 (x :: suf) e 0)
    (hx : s.node x.1 = some ⟨x.2, k, m⟩) (hy : s.node m = some y) (hfresh : c.1 ∉ (pre ++ x :: suf).map Prod.fst)
    (hne : c.1 ≠ 0) (hcx : c.1 ≠ x.1) (hcm : c.1 ≠ m) (hmx : m ≠ x.1) :
    ChipsAt ⟨s.chip_list, update (update (update s.node c.1 (some ⟨c.2, x.1, m⟩)) m
      (some { y with next := c.1 })) x.1 (some ⟨x.2, k, c.1⟩)⟩ (pre ++ c :: x :: suf) := by
  refine ChipsAt.insert hpre hseg hs.nodup hfresh hne (if_neg hnil).symm ⟨?_, ?_, ?_, ?_⟩
  · show update _ _ _ c.1 = _
    rw [update_of_ne hcx, update_of_ne hcm, update_self]
  · intro _ z hz
    cases hy.symm.trans hz
    show update _ _ _ m = _
    rw [update_of_ne hmx, update_self]
  · intro _ z hz
    cases hx.symm.trans hz
    exact update_self ..
  intro r hr hrm hrx
  show update _ _ _ r = _
  rw [update_of_ne (hrx (cons_ne_nil _ _)), update_of_ne (hrm hnil), update_of_ne]
  rintro rfl
  exact hfresh hr

theorem chipsAt_last {m : ℕ} (hs : ChipsAt s (pre ++ [x])) (hseg : DSeg s.node 0 s.chip_list (pre ++ [x]) x.1 0)
    (hx : s.node x.1 = some ⟨x.2, 0, m⟩) (hfresh : c.1 ∉ (pre ++ [x]).map Prod.fst) (hne : c.1 ≠ 0) (hcx : c.1 ≠ x.1) :
    ChipsAt ⟨s.chip_list, update (update s.node c.1 (some ⟨c.2, 0, x.1⟩)) x.1
      (some ⟨x.2, c.1, m⟩)⟩ (pre ++ [x, c]) := by
  have hnil : pre ++ [x] ≠ [] := concat_ne_nil _ _
  have hend : DSeg s.node x.1 0 [] x.1 0 := ⟨rfl, rfl⟩
  rw [← append_nil (pre ++ [x])] at hfresh
  rw [append_cons]
  refine ChipsAt.insert hseg hend (by rw [append_nil]; exact hs.nodup) hfresh hne (if_neg hnil).symm
    ⟨?_, ?_, ?_, ?_⟩
  · show update _ _ _ c.1 = _
    rw [update_of_ne hcx, update_self]
  · intro _ z hz
    cases hx.symm.trans hz
    exact update_self ..
  · intro hl
    exact absurd rfl hl
  intro r hr hrx _
  show update _ _ _ r = _
  rw [update_of_ne (hrx hnil), update_of_ne]
  rintro rfl
  exact hfresh hr

theorem linkInsert_before (hlt : c.2.id.before x.2.id) : linkInsert c (x :: suf) = some (c :: x :: suf) := by
  rw [linkInsert, keyInsert, if_pos (before_iff.1 hlt)]

theorem linkInsert_same (hlt : c.2.id.before x.2.id = false) (hid : c.2.id = x.2.id) :
    linkInsert c (x :: suf) = none := by
  rw [linkInsert, keyInsert, if_neg, if_pos (decide_eq_true hid)]
  rw [← before_iff, hlt]
  exact false_ne_true

theorem linkInsert_behind (hlt : c.2.id.before x.2.id = false) (hid : c.2.id ≠ x.2.id) :
    linkInsert c (x :: suf) = (linkInsert c suf).map (cons x) := by
  rw [linkInsert, keyInsert, if_neg, if_neg (by rw [decide_eq_true_eq]; exact hid)]
  · rfl
  · rw [← before_iff, hlt]
    exact false_ne_true

theorem CallResult.passed {r : Option (ℤ × ChipMem)} (hlt : c.2.id.before x.2.id = false) (hid : c.2.id ≠ x.2.id)
    (h : CallResult s c (pre ++ [x]) suf r) : CallResult s c pre (x :: suf) r := by
  have hstep : linkInsert c (x :: suf) = _ := linkInsert_behind hlt hid
  cases h with
  | duplicate hnone =>
    apply CallResult.duplicate
    rw [hstep, hnone]
    rfl
  | inserted hsome hs =>
    rw [← append_cons] at hs
    refine CallResult.inserted ?_ hs
    rw [hstep, hsome]
    rfl

theorem chipAddLoop_spec (fuel : ℕ) (hs : ChipsAt s (pre ++ x :: suf)) (hfresh : c.1 ∉ (pre ++ x :: suf).map Prod.fst)
    (hne : c.1 ≠ 0) {n p : ℕ} (hc : s.node c.1 = some ⟨c.2, n, p⟩) :
    (chipAddLoop fuel c.1 x.1 s = none ∧ fuel ≤ suf.length) ∨
      CallResult s c pre (x :: suf) (chipAddLoop fuel c.1 x.1 s) := by
  induction fuel generalizing pre x suf with
  | zero => exact .inl ⟨rfl, Nat.zero_le _⟩
  | succ fuel ih =>
    obtain ⟨e, hseg⟩ := hs.seg
    obtain ⟨m, k, hpre, rfl, hx0, r, hx, hsuf⟩ := dSeg_append.1 hseg
    have hmem : x.1 ∈ (pre ++ x :: suf).map Prod.fst := by
      rw [map_append, map_cons]
      exact mem_append_right _ mem_cons_self
    have hcx : c.1 ≠ x.1 := fun heq => hfresh (heq ▸ hmem)
    have hrest : DSeg s.node m x.1 (x :: suf) e 0 := ⟨rfl, hx0, r, hx, hsuf⟩
    rcases hlt : c.2.id.before x.2.id with - | -
    · by_cases hid : c.2.id = x.2.id
      · -- A duplicate: nothing has been changed.
        right
        have hloop : chipAddLoop (fuel + 1) c.1 x.1 s = some (RC_ERROR, s) := by
          rw [chipAddLoop]
          simp only [hc, hx, hlt, sameId_iff, if_pos hid, bind_eq_bind, bind_some, false_eq_true,
            if_false]
        rw [hloop]
        exact CallResult.duplicate (linkInsert_same hlt hid)
      rcases suf with - | ⟨y, _⟩
      · right
        obtain ⟨rfl, rfl⟩ := hsuf
        rw [chipAddLoop_last hc hx hcx hlt hid]
        exact CallResult.inserted (linkInsert_behind hlt hid) (chipsAt_last hs hseg hx hfresh hne hcx)
      -- The walk goes on behind `x`.
      obtain ⟨rfl, hy0, -⟩ := hsuf
      have hloop : chipAddLoop (fuel + 1) c.1 x.1 s = chipAddLoop fuel c.1 y.1 s := by
        rw [chipAddLoop]
        simp only [hc, hx, hlt, sameId_iff, if_neg hid, if_neg hy0, bind_eq_bind, bind_some,
          false_eq_true, if_false]
      rw [hloop]
      rw [append_cons] at hs hfresh
      rcases ih hs hfresh with ⟨hnone, hle⟩ | hres
      · exact .inl ⟨hnone, Nat.succ_le_succ hle⟩
      · exact .inr (hres.passed hlt hid)
    right
    rcases eq_or_ne pre [] with rfl | hnil
    · obtain ⟨rfl, _⟩ := hpre
      rw [chipAddLoop_head hc hx hcx hlt]
      exact CallResult.inserted (linkInsert_before hlt) (chipsAt_head hs hrest hx hfresh hne hcx)
    obtain ⟨hm0, hm, y, hy, -⟩ := hpre.last hnil
    have hnodup := hs.nodup
    rw [map_append, nodup_append] at hnodup
    have hmx : m ≠ x.1 := hnodup.2.2 m hm x.1 mem_cons_self
    have hcm : c.1 ≠ m := by
      rintro heq
      apply hfresh
      rw [heq, map_append]
      exact mem_append_left _ hm
    rw [chipAddLoop_inner hc hx hy hm0 hcx hcm hmx hlt]
    exact CallResult.inserted (linkInsert_before hlt) (chipsAt_inner hs hnil hpre hrest hx hy hfresh hne hcx hcm hmx)

theorem ChipsAt.congr {s' : ChipMem} (hs : ChipsAt s l) (hhead : s'.chip_list = s.chip_list)
    (hnode : ∀ a ∈ l.map Prod.fst, s'.node a = s.node a) : ChipsAt s' l := by
  obtain ⟨e, hseg⟩ := hs.seg
  refine ⟨⟨e, ?_⟩, hs.nodup⟩
  rw [hhead]
  exact hseg.congr hnode

theorem ChipsAt.fill (hs : ChipsAt s l) {a : ℕ} (hfresh : a ∉ l.map Prod.fst) : ChipsAt (s.fill a cell) l := by
  have hnode : ∀ b ∈ l.map Prod.fst, (s.fill a cell).node b = s.node b := by
    intro b hb
    apply update_of_ne
    rintro rfl
    exact hfresh hb
  exact hs.congr (show (s.fill a cell).chip_list = s.chip_list from rfl) hnode

/-- **A call** does what the insertion does. -/
theorem chipCall_spec (fuel : ℕ) (hs : ChipsAt s l) {a : ℕ} (hfresh : a ∉ l.map Prod.fst) (hne : a ≠ 0) :
    (chipCall fuel s a cell = none ∧ fuel ≤ l.length) ∨
      CallResult (s.fill a cell) (a, cell.data) [] l (chipCall fuel s a cell) := by
  have hfill : ChipsAt (s.fill a cell) l := hs.fill hfresh
  have hcell : (s.fill a cell).node a = some ⟨cell.data, cell.next, cell.prev⟩ := update_self ..
  obtain ⟨e, hseg⟩ := hfill.seg
  rw [chipCall, chipAddLinked]
  rcases l with - | ⟨x, l⟩
  · right
    rw [if_pos hseg.2.symm]
    have hcall : (do
        let s ← { s.fill a cell with chip_list := a }.setNext a 0
        let s ← s.setPrev a 0
        some (RC_SUCCESS, s)) = some (RC_SUCCESS, ⟨a, update s.node a (some ⟨cell.data, 0, 0⟩)⟩) := by
      simp only [ChipMem.setNext, ChipMem.setPrev, ChipMem.fill, update_self, update_idem,
        map_some, bind_eq_bind, bind_some]
    rw [hcall]
    refine CallResult.inserted rfl ⟨⟨a, rfl, hne, 0, update_self .., rfl, rfl⟩, nodup_singleton a⟩
  obtain ⟨hx, hx0, -⟩ := hseg
  rw [if_neg hx0, hx]
  have hspec := @chipAddLoop_spec (s.fill a cell) [] l (a, cell.data) x fuel hfill hfresh hne _ _ hcell
  rcases hspec with ⟨hnone, hle⟩ | hres
  · exact .inl ⟨hnone, Nat.le_succ_of_le hle⟩
  · exact .inr hres

theorem chipAdd_map_snd (c : ℕ × ChipNode) (l : List (ℕ × ChipNode)) :
    chipAdd c.2 (l.map Prod.snd) = (linkInsert c l).map (map Prod.snd) := by
  rw [chipAdd_eq]
  exact keyInsert_map Prod.snd c l

/-- The calls refine those of the list: from `l`, with addresses, they give the same result and the list that
`chipAdd` gives. -/
theorem chipAddLinked_refines (hs : ChipsAt s l) {a : ℕ} (hfresh : a ∉ l.map Prod.fst) (hne : a ≠ 0) :
    ∃ rc s' l', chipCall (l.length + 1) s a cell = some (rc, s') ∧ ChipsAt s' l' ∧
      (rc = RC_ERROR ↔ chipAdd cell.data (l.map Prod.snd) = none) ∧
      l'.map Prod.snd = chipStep (l.map Prod.snd) cell.data := by
  have hmap := chipAdd_map_snd (a, cell.data) l
  rcases @chipCall_spec s l cell (l.length + 1) hs a hfresh hne with ⟨-, hle⟩ | hres
  · exact absurd hle (Nat.not_succ_le_self _)
  generalize chipCall (l.length + 1) s a cell = r at hres
  cases hres with
  | duplicate h =>
    rw [h] at hmap
    refine ⟨RC_ERROR, s.fill a cell, l, rfl, hs.fill hfresh, iff_of_true rfl hmap, ?_⟩
    rw [chipStep, hmap]
    rfl
  | inserted h hs' =>
    rw [h] at hmap
    refine ⟨RC_SUCCESS, _, _, rfl, hs', iff_of_false (by decide) ?_, ?_⟩
    · rw [hmap]
      exact some_ne_none _
    · rw [chipStep, hmap]
      rfl

/-- A node in front of another. -/
theorem chipAddLinked_refines_sample :
    ∃ rc s' l', chipCall 2 ⟨5, fun a => if a = 5 then some ⟨⟨⟨2, 0, 0, 0, 0, 0, 0, 0⟩, 0⟩, 0, 0⟩ else none⟩ 7
        ⟨⟨⟨1, 0, 0, 0, 0, 0, 0, 0⟩, 1⟩, 0, 0⟩ = some (rc, s') ∧ ChipsAt s' l' ∧
      (rc = RC_ERROR ↔ chipAdd ⟨⟨1, 0, 0, 0, 0, 0, 0, 0⟩, 1⟩ [⟨⟨2, 0, 0, 0, 0, 0, 0, 0⟩, 0⟩] = none) ∧
      l'.map Prod.snd = chipStep [⟨⟨2, 0, 0, 0, 0, 0, 0, 0⟩, 0⟩] ⟨⟨1, 0, 0, 0, 0, 0, 0, 0⟩, 1⟩ :=
  chipAddLinked_refines (l := [(5, ⟨⟨2, 0, 0, 0, 0, 0, 0, 0⟩, 0⟩)])
    ⟨⟨5, rfl, by decide, 0, rfl, rfl, rfl⟩, List.nodup_singleton 5⟩ (by decide) (by decide)

end Calls

/-! ### Runs -/

/-- The nodes that are visited from the node `p` on along `next`. -/
def nextWalk (node : ℕ → Option (DCell ChipNode)) : ℕ → ℕ → Option (List (ℕ × ChipNode))
  | 0, _ => none
  | fuel + 1, p =>
    if p = 0 then some []
    else do
      let c ← node p
      let l ← nextWalk node fuel c.next
      some ((p, c.data) :: l)

/-- The walk from `chip_list` visits the nodes of `l`, each once, and the links back agree with it. -/
structure WellLinked (s : ChipMem) (l : List (ℕ × ChipNode)) : Prop where
  walk : nextWalk s.node (l.length + 1) s.chip_list = some l
  once : (l.map Prod.fst).Nodup
  head : ∀ x ∈ l.head?, ∃ c, s.node x.1 = some c ∧ c.prev = 0
  tail : ∀ x ∈ l.getLast?, ∃ c, s.node x.1 = some c ∧ c.next = 0
  back : ∀ x ∈ l, ∃ c, s.node x.1 = some c ∧ (c.next ≠ 0 → ∃ d, s.node c.next = some d ∧ d.prev = x.1)

/-- The states that calls for fresh nodes lead to, and the nodes that were accepted.  What else is in memory may be
changed between the calls. -/
inductive ChipRuns : ChipMem → List (ℕ × ChipNode) → Prop
  | start (node : ℕ → Option (DCell ChipNode)) : ChipRuns ⟨0, node⟩ []
  | call {s : ChipMem} {accepted : List (ℕ × ChipNode)} {a : ℕ} {cell : DCell ChipNode} {fuel : ℕ} {rc : ℤ}
    {s' : ChipMem} (h : ChipRuns s accepted) (hne : a ≠ 0) (hfresh : a ∉ accepted.map Prod.fst)
    (hcall : chipCall fuel s a cell = some (rc, s')) :
    ChipRuns s' (if rc = RC_SUCCESS then accepted ++ [(a, cell.data)] else accepted)
  | other {s s' : ChipMem} {accepted : List (ℕ × ChipNode)} (h : ChipRuns s accepted)
    (hhead : s'.chip_list = s.chip_list) (hnode : ∀ a ∈ accepted.map Prod.fst, s'.node a = s.node a) :
    ChipRuns s' accepted

section Runs

variable {s : ChipMem} {l accepted : List (ℕ × ChipNode)} {node : ℕ → Option (DCell ChipNode)} {b p e q : ℕ}

theorem nextWalk_of_dSeg (h : DSeg node b p l e 0) : nextWalk node (l.length + 1) p = some l := by
  induction l generalizing b p with
  | nil =>
    obtain ⟨-, rfl⟩ := h
    rfl
  | cons _ _ ih =>
    obtain ⟨rfl, hne, n, hx, hrest⟩ := h
    rw [length_cons, nextWalk, if_neg hne, hx]
    simp only [bind_eq_bind, bind_some, ih hrest]

theorem back_of_dSeg (h : DSeg node b p l e 0) {x : ℕ × ChipNode} (hx : x ∈ l) :
    ∃ c, node x.1 = some c ∧ (c.next ≠ 0 → ∃ d, node c.next = some d ∧ d.prev = x.1) := by
  induction l generalizing b p with
  | nil => exact nomatch hx
  | cons _ l ih =>
    obtain ⟨rfl, _, n, hy, hrest⟩ := h
    rcases mem_cons.1 hx with rfl | hx
    · refine ⟨_, hy, ?_⟩
      intro hn
      rcases l with - | ⟨z, l⟩
      · exact absurd hrest.2.symm hn
      · exact (hrest.first (cons_ne_nil _ _)).2.2
    · exact ih hrest hx

theorem ChipsAt.wellLinked (hs : ChipsAt s l) : WellLinked s l := by
  obtain ⟨e, hseg⟩ := hs.seg
  refine ⟨nextWalk_of_dSeg hseg, hs.nodup, ?_, ?_, fun x hx => back_of_dSeg hseg hx⟩
  · intro x hx
    rcases l with - | ⟨y, l⟩
    · exact absurd hx (not_mem_none _)
    cases hx
    obtain ⟨hhead, -, n, hy, -⟩ := hseg
    rw [hhead] at hy
    exact ⟨_, hy, rfl⟩
  intro x hx
  obtain ⟨l, rfl⟩ := getLast?_eq_some_iff.1 hx
  obtain ⟨m, k, -, rfl, -, n, hcell, -, rfl⟩ := dSeg_append.1 hseg
  exact ⟨_, hcell, rfl⟩

theorem chipsAt_of_chipRuns (h : ChipRuns s accepted) :
    ∃ l, ChipsAt s l ∧ l.Perm accepted ∧ l.Pairwise fun x y => x.2.id.placeKey ≤ y.2.id.placeKey := by
  induction h with
  | start => exact ⟨[], ⟨⟨0, rfl, rfl⟩, nodup_nil⟩, List.Perm.nil, List.Pairwise.nil⟩
  | @call s _ a cell fuel _ _ _ hne hfresh hcall ih =>
    obtain ⟨l, hs, hperm, hsorted⟩ := ih
    have hnot : a ∉ l.map Prod.fst := fun hmem => hfresh ((hperm.map Prod.fst).mem_iff.1 hmem)
    rcases @chipCall_spec s l cell fuel hs a hnot hne with ⟨hnone, -⟩ | hres
    · rw [hcall] at hnone
      cases hnone
    rw [hcall] at hres
    cases hres with
    | duplicate => exact ⟨l, hs.fill hnot, hperm, hsorted⟩
    | inserted hins hs' =>
      refine ⟨_, hs', ?_, pairwise_keyInsert hsorted hins⟩
      obtain ⟨_, _, rfl, rfl, -, -⟩ := keyInsert_eq_some hsorted hins
      rw [if_pos rfl]
      exact (perm_middle.trans (hperm.cons _)).trans (perm_append_singleton _ _).symm
  | other _ hhead hnode ih =>
    obtain ⟨l, hs, hperm, hsorted⟩ := ih
    refine ⟨l, hs.congr hhead ?_, hperm, hsorted⟩
    intro a ha
    exact hnode a ((hperm.map Prod.fst).mem_iff.1 ha)

/-- **The list is a set.**  In each state that calls lead to, the walk from `chip_list` visits the accepted nodes, each
once, and the links back agree with it.  A call for a fresh node returns `RC_ERROR` exactly when the numbers of the node
are in the list, and has changed nothing then; otherwise the node is put in. -/
theorem chip_add_keeps_set (h : ChipRuns s accepted) : ∃ l, WellLinked s l ∧ l.Perm accepted ∧
      ∀ a cell, a ≠ 0 → a ∉ accepted.map Prod.fst → ∀ fuel, accepted.length < fuel →
        ∃ rc s', chipCall fuel s a cell = some (rc, s') ∧
          (rc = RC_ERROR ↔ ∃ x ∈ l, x.2.id = cell.data.id) ∧
          (rc = RC_ERROR → s' = s.fill a cell ∧ WellLinked s' l) ∧
          (rc ≠ RC_ERROR → rc = RC_SUCCESS ∧
            ∃ pre suf, l = pre ++ suf ∧ WellLinked s' (pre ++ (a, cell.data) :: suf)) := by
  obtain ⟨l, hs, hperm, hsorted⟩ := chipsAt_of_chipRuns h
  refine ⟨l, hs.wellLinked, hperm, ?_⟩
  intro a cell hne hfresh fuel hfuel
  have hnot : a ∉ l.map Prod.fst := fun hmem => hfresh ((hperm.map Prod.fst).mem_iff.1 hmem)
  have hdup : linkInsert (a, cell.data) l = none ↔ ∃ x ∈ l, x.2.id = cell.data.id := by
    rw [linkInsert, keyInsert_eq_none_iff _ hsorted]
    · exact exists_congr fun x => and_congr_right fun _ => by rw [decide_eq_true_eq, eq_comm]
    · intro x hx
      rw [of_decide_eq_true hx]
  rcases @chipCall_spec s l cell fuel hs a hnot hne with ⟨-, hle⟩ | hres
  · rw [hperm.length_eq] at hle
    exact absurd hfuel (Nat.not_lt.2 hle)
  generalize chipCall fuel s a cell = r at hres
  cases hres with
  | duplicate hnone =>
    refine ⟨RC_ERROR, _, rfl, iff_of_true rfl (hdup.1 hnone), ?_, fun hrc => absurd rfl hrc⟩
    exact fun _ => ⟨rfl, (hs.fill hnot).wellLinked⟩
  | inserted hins hs' =>
    have hrc : RC_SUCCESS ≠ RC_ERROR := by decide
    refine ⟨RC_SUCCESS, _, rfl, iff_of_false hrc ?_, fun heq => absurd heq hrc, fun _ => ⟨rfl, ?_⟩⟩
    · rw [← hdup, hins]
      exact some_ne_none _
    · obtain ⟨pre, suf, rfl, rfl, -, -⟩ := keyInsert_eq_some hsorted hins
      exact ⟨pre, suf, rfl, hs'.wellLinked⟩

/-- A second node with the numbers of a board is a duplicate, whatever its links were. -/
theorem chip_add_keeps_set_board : ∃ s, chipCall 1 ⟨0, fun _ => none⟩ 1 ⟨boardWith 10 0, 0, 0⟩ = some (RC_SUCCESS, s) ∧
    ∃ l, WellLinked s l ∧ l.Perm [(1, boardWith 10 0)] ∧
      ∃ s', chipCall 2 s 2 ⟨boardWith 10 1, 7, 7⟩ = some (RC_ERROR, s') := by
  have hcall : chipCall 1 ⟨0, fun _ => none⟩ 1 ⟨boardWith 10 0, 0, 0⟩ = some (RC_SUCCESS, ⟨1, _⟩) := rfl
  have hrun := ChipRuns.call (ChipRuns.start fun _ => none) Nat.one_ne_zero not_mem_nil hcall
  obtain ⟨l, hl, hperm, hnext⟩ := chip_add_keeps_set hrun
  refine ⟨_, hcall, l, hl, hperm, ?_⟩
  obtain ⟨_, s', hcall', hrc, -⟩ := hnext 2 ⟨boardWith 10 1, 7, 7⟩ (by decide) (by decide) 2 (by decide)
  have hmem : (1, boardWith 10 0) ∈ l := hperm.mem_iff.2 mem_cons_self
  rw [hrc.2 ⟨_, hmem, rfl⟩] at hcall'
  exact ⟨s', hcall'⟩

end Runs

end G4Common.Dtbtool
