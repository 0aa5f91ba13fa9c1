/-
The list of NAT interfaces of `IPACM_Config` (`ipacm/inc/IPACM_Config.h`,
`ipacm/src/IPACM_Config.cpp`).

The array `pNatIfaces` has room for `ipa_num_ipa_interfaces` names, and the first
`ipa_nat_iface_entries` of them count.  `AddNatIfaces()` counts first and asks for room
afterwards, with a strict comparison: the name that would take the last place is counted
and not stored, and any later one makes the count larger than the array.  `DelNatIfaces()`
and `GetNatIfaces()` then leave the array.

The list is right in a run if and only if there is a place to spare at every addition
(`natIfaces_iff`); an interface without a name may take the last place, for the names
that were never stored read as empty.

A function returns `none` if it reads or writes outside the array.
-/
import G4Common.Ipacm.Xml
import G4Common.Lib.StepRuns

namespace G4Common.Ipacm

open List Option

/-! ### Names -/

/-- The name of an interface: a C string that fits the array with its end. -/
structure IfaceName where
  chars : List UInt8
  fits : chars.length < ifaceNameLen
  ends : 0 ∉ chars
  deriving DecidableEq

def IfaceName.empty : IfaceName := ⟨[], by decide, by decide⟩

/-! ### The array -/

section

variable {α : Type} [DecidableEq α]

def writeAt (l : List α) (i : ℕ) (x : α) : Option (List α) :=
  if i < l.length then some (l.set i x) else none

/-- The first loop of `DelNatIfaces()`: look for a name in `m` entries from entry `i` on; the
inner `none` says that it is not there. -/
def findEntry (x : α) (l : List α) : ℕ → ℕ → Option (Option ℕ)
  | 0, _ => some none
  | m + 1, i => do
    let y ← l[i]?
    if x = y then some (some i) else findEntry x l m (i + 1)

/-- The second loop: the next `m` entries behind entry `i` move up by one, and each of them is
reset after it is copied. -/
def moveUp (z : α) : ℕ → ℕ → List α → Option (List α)
  | 0, _, l => some l
  | m + 1, i, l => do
    let y ← l[i + 1]?
    let l ← writeAt l i y
    let l ← writeAt l (i + 1) z
    moveUp z m (i + 1) l

variable {x y z : α} {l l1 l2 rest : List α}

omit [DecidableEq α] in
theorem writeAt_split : writeAt (l1 ++ x :: rest) l1.length y = some (l1 ++ y :: rest) := by
  unfold writeAt
  rw [if_pos (by simp), set_append_right _ _ le_rfl, Nat.sub_self, set_cons_zero]

theorem findEntry_skip (hx : x ∉ l2) (m : ℕ) : findEntry x (l1 ++ l2 ++ rest) (l2.length + m) l1.length
      = findEntry x (l1 ++ l2 ++ rest) m (l1.length + l2.length) := by
  induction l2 generalizing l1 with
  | nil => simp
  | cons y l2 ih =>
    obtain ⟨hne, hx⟩ := not_or.mp fun h => hx (mem_cons.mpr h)
    have hrec := @ih (l1 ++ [y]) hx
    have hread : (l1 ++ (y :: l2) ++ rest)[l1.length]? = some y := by
      rw [append_assoc, getElem?_append_right le_rfl, Nat.sub_self]
      rfl
    have hlist : l1 ++ [y] ++ l2 ++ rest = l1 ++ (y :: l2) ++ rest := by simp
    have hlen : (l1 ++ [y]).length = l1.length + 1 := by simp
    rw [hlist, hlen] at hrec
    have hm : (y :: l2).length + m = l2.length + m + 1 := by
      rw [length_cons]
      omega
    rw [hm, findEntry, hread]
    show (if x = y then _ else _) = _
    rw [if_neg hne, hrec, length_cons]
    congr 1
    omega

omit [DecidableEq α] in
/-- The entries behind an entry that was reset move up, and the reset entry comes last. -/
theorem moveUp_split : moveUp z l2.length l1.length (l1 ++ z :: (l2 ++ rest)) = some (l1 ++ l2 ++ z :: rest) := by
  induction l2 generalizing l1 with
  | nil => simp [moveUp]
  | cons y l2 ih =>
    have hread : (l1 ++ z :: (y :: l2 ++ rest))[l1.length + 1]? = some y := by
      rw [getElem?_append_right (by omega), Nat.add_sub_cancel_left]
      rfl
    have hcopy : writeAt (l1 ++ z :: (y :: l2 ++ rest)) l1.length y = some (l1 ++ [y] ++ y :: (l2 ++ rest)) := by
      rw [writeAt_split, append_assoc]
      rfl
    have hlen : l1.length + 1 = (l1 ++ [y]).length := by simp
    have hreset : writeAt (l1 ++ [y] ++ y :: (l2 ++ rest)) (l1 ++ [y]).length z
        = some (l1 ++ [y] ++ z :: (l2 ++ rest)) := writeAt_split
    rw [length_cons, moveUp, hread]
    show (writeAt (l1 ++ z :: (y :: l2 ++ rest)) l1.length y).bind _ = _
    rw [hcopy, hlen]
    show (writeAt (l1 ++ [y] ++ y :: (l2 ++ rest)) (l1 ++ [y]).length z).bind _ = _
    rw [hreset]
    show moveUp z l2.length (l1 ++ [y]).length (l1 ++ [y] ++ z :: (l2 ++ rest)) = _
    rw [ih]
    simp

end

/-! ### The list -/

/-- `pNatIfaces` and `ipa_nat_iface_entries`.  The length of the array is
`ipa_num_ipa_interfaces`. -/
structure NatIfaceList where
  pNatIfaces : List IfaceName
  natIfaceEntries : ℕ
  deriving DecidableEq

namespace NatIfaceList

variable (s : NatIfaceList)

def addNatIfaces (devName : IfaceName) : NatIfaceList :=
  let entries := s.natIfaceEntries + 1
  if entries < s.pNatIfaces.length then ⟨s.pNatIfaces.set (entries - 1) devName, entries⟩
  else ⟨s.pNatIfaces, entries⟩

def delNatIfaces (devName : IfaceName) : Option NatIfaceList := do
  match ← findEntry devName s.pNatIfaces s.natIfaceEntries 0 with
  | none => some s
  | some i =>
    let l ← writeAt s.pNatIfaces i .empty
    let l ← moveUp IfaceName.empty (s.natIfaceEntries - 1 - i) i l
    some ⟨l, s.natIfaceEntries - 1⟩

/-- `GetNatIfaces()`: the names that are copied, or the error. -/
def getNatIfaces (nIfaces : ℕ) : Option (Except ℤ (List IfaceName)) :=
  if nIfaces = 0 then some (.error (-1))
  else ((range nIfaces).mapM fun cnt => s.pNatIfaces[cnt]?).map .ok

end NatIfaceList

/-- The calls. -/
inductive NatIfaceOp
  | add (devName : IfaceName)
  | del (devName : IfaceName)
  deriving DecidableEq

/-- The list, with the names that were added and not yet removed, in the order in which they
came. -/
structure NatIfaceRun where
  list : NatIfaceList
  held : List IfaceName

namespace NatIfaceRun

/-- `IPACM_Config::Init()`, for `n` interfaces. -/
def init (n : ℕ) : NatIfaceRun := ⟨⟨replicate n .empty, 0⟩, []⟩

def step (s : NatIfaceRun) : NatIfaceOp → Option NatIfaceRun
  | .add devName => some ⟨s.list.addNatIfaces devName, s.held ++ [devName]⟩
  | .del devName => (s.list.delNatIfaces devName).map fun list => ⟨list, s.held.erase devName⟩

/-- The list is right: the count is within the array, its entries are the names held as long as
there are not too many, and the names can be read. -/
structure Right (s : NatIfaceRun) : Prop where
  within : s.list.natIfaceEntries ≤ s.list.pNatIfaces.length
  names : s.held.length ≤ s.list.pNatIfaces.length →
    s.list.pNatIfaces.take s.list.natIfaceEntries = s.held
  read : s.list.getNatIfaces s.list.natIfaceEntries ≠ none

/-- The call stays within the array and leaves the list right; deleting a name that is not held
changes nothing. -/
def Keeps (s : NatIfaceRun) (op : NatIfaceOp) : Prop :=
  ∃ s', s.step op = some s' ∧ s'.Right ∧ ∀ devName, op = .del devName → devName ∉ s.held → s' = s

/-- There is a place to spare at an addition. -/
def Spare (s : NatIfaceRun) : NatIfaceOp → Prop
  | .add devName => s.list.natIfaceEntries + 1 < s.list.pNatIfaces.length ∨
      s.list.natIfaceEntries + 1 = s.list.pNatIfaces.length ∧ devName = .empty
  | .del _ => True

/-- The array holds the names that are held, and is empty behind them. -/
def Filled (s : NatIfaceRun) : Prop :=
  ∃ k, s.list.pNatIfaces = s.held ++ replicate k .empty ∧
    s.list.natIfaceEntries = s.held.length

section

variable {s s' : NatIfaceRun} {devName : IfaceName}

theorem getNatIfaces_ne_none {l : NatIfaceList} {n : ℕ} (hn : n ≤ l.pNatIfaces.length) : l.getNatIfaces n ≠ none := by
  unfold NatIfaceList.getNatIfaces
  split
  · simp
  have hread : ∀ cnt ∈ range n, ∃ x, l.pNatIfaces[cnt]? = some x := by
    intro cnt hcnt
    have hlt : cnt < l.pNatIfaces.length := lt_of_lt_of_le (mem_range.mp hcnt) hn
    exact ⟨_, getElem?_eq_getElem hlt⟩
  have hall : ∀ cnts : List ℕ, (∀ cnt ∈ cnts, ∃ x, l.pNatIfaces[cnt]? = some x) →
      (cnts.mapM fun cnt => l.pNatIfaces[cnt]?) ≠ none := by
    intro cnts
    induction cnts with
    | nil => intro _; simp
    | cons cnt _ ih =>
      intro h
      obtain ⟨x, hx⟩ := h cnt (mem_cons_self ..)
      have hrest := ih fun c hc => h c (mem_cons_of_mem _ hc)
      obtain ⟨_, hxs⟩ := ne_none_iff_exists'.mp hrest
      simp [mapM_cons, hx, hxs]
  intro h
  exact hall _ hread (map_eq_none_iff.mp h)

theorem Filled.init (n : ℕ) : (init n).Filled := ⟨n, rfl, rfl⟩

theorem Filled.right (h : s.Filled) : s.Right := by
  obtain ⟨k, hl, hn⟩ := h
  have hle : s.list.natIfaceEntries ≤ s.list.pNatIfaces.length := by
    rw [hl, hn, length_append]
    omega
  refine ⟨hle, fun _ => ?_, getNatIfaces_ne_none hle⟩
  rw [hl, hn]
  exact take_left

/-- An addition with a place to spare keeps the array filled, and no other one leaves the list
right. -/
theorem Filled.add (h : s.Filled) : (Spare s (.add devName) →
      NatIfaceRun.Filled ⟨s.list.addNatIfaces devName, s.held ++ [devName]⟩) ∧
    (NatIfaceRun.Right ⟨s.list.addNatIfaces devName, s.held ++ [devName]⟩ → Spare s (.add devName)) := by
  obtain ⟨⟨l, n⟩, held⟩ := s
  obtain ⟨k, hl, hn⟩ := h
  dsimp only at hl hn
  subst hl hn
  have hlen : (held ++ replicate k IfaceName.empty).length = held.length + k := by simp
  unfold Spare NatIfaceList.addNatIfaces
  dsimp only
  rw [hlen, Nat.add_sub_cancel]
  by_cases hroom : held.length + 1 < held.length + k
  · -- there is a place behind the one that is taken
    obtain ⟨k, rfl⟩ : ∃ j, k = j + 1 := ⟨k - 1, by omega⟩
    rw [if_pos hroom]
    refine ⟨fun _ => ⟨k, ?_, by simp⟩, fun _ => Or.inl hroom⟩
    rw [replicate_succ, set_append_right _ _ le_rfl, Nat.sub_self, set_cons_zero]
    simp
  rw [if_neg hroom]
  constructor
  · rintro (hlt | ⟨_, rfl⟩)
    · exact absurd hlt hroom
    · -- the last place stays empty, and that is the name
      obtain rfl : k = 1 := by omega
      exact ⟨0, by simp, by simp⟩
  rintro ⟨hwithin, hnames, -⟩
  dsimp only at hwithin hnames
  rw [hlen] at hwithin hnames
  obtain rfl : k = 1 := by omega
  have htake := hnames (by simp)
  rw [take_of_length_le (by simp)] at htake
  have hlast := (append_cancel_left htake)
  exact .inr ⟨rfl, (cons.inj hlast).1.symm⟩

theorem Filled.del (h : s.Filled) (devName : IfaceName) :
    ∃ s', s.step (.del devName) = some s' ∧ s'.Filled ∧ (devName ∉ s.held → s' = s) := by
  obtain ⟨⟨l, n⟩, held⟩ := s
  obtain ⟨k, hl, hn⟩ := h
  dsimp only at hl hn
  subst hl hn
  by_cases hmem : devName ∈ held
  · -- the entry is found and reset, and the later ones move up to close the gap
    obtain ⟨l1, l2, rfl, hx⟩ := eq_append_cons_of_mem hmem
    have hfind : findEntry devName (l1 ++ devName :: l2 ++ replicate k IfaceName.empty)
        (l1 ++ devName :: l2).length 0 = some (some l1.length) := by
      have hlist : l1 ++ devName :: l2 ++ replicate k IfaceName.empty
          = [] ++ l1 ++ devName :: (l2 ++ replicate k IfaceName.empty) := by simp
      have hlen : (l1 ++ devName :: l2).length = l1.length + (l2.length + 1) := by simp
      have hread : ([] ++ l1 ++ devName :: (l2 ++ replicate k IfaceName.empty))[l1.length]?
          = some devName := by
        rw [nil_append, getElem?_append_right le_rfl, Nat.sub_self]
        rfl
      rw [hlist, hlen, ← length_nil, findEntry_skip hx, length_nil, Nat.zero_add, findEntry, hread]
      exact if_pos rfl
    have hreset : writeAt (l1 ++ devName :: l2 ++ replicate k IfaceName.empty) l1.length IfaceName.empty
        = some (l1 ++ IfaceName.empty :: (l2 ++ replicate k IfaceName.empty)) := by
      rw [append_assoc, cons_append, writeAt_split]
    have hcount : (l1 ++ devName :: l2).length - 1 - l1.length = l2.length := by
      simp only [length_append, length_cons]
      omega
    refine ⟨⟨⟨l1 ++ l2 ++ IfaceName.empty :: replicate k IfaceName.empty,
      (l1 ++ devName :: l2).length - 1⟩, l1 ++ l2⟩, ?_, ⟨k + 1, rfl, ?_⟩, fun hno => absurd hmem hno⟩
    · have herase : (l1 ++ devName :: l2).erase devName = l1 ++ l2 := by
        rw [erase_append_right _ hx, erase_cons_head]
      unfold step NatIfaceList.delNatIfaces
      dsimp only
      rw [hfind, herase]
      show Option.map _ ((writeAt _ l1.length IfaceName.empty).bind _) = _
      rw [hreset]
      show Option.map _ ((moveUp IfaceName.empty _ l1.length _).bind _) = _
      rw [hcount, moveUp_split]
      rfl
    · simp
  -- the search goes through all entries in use
  refine ⟨⟨⟨held ++ replicate k IfaceName.empty, held.length⟩, held⟩, ?_, ⟨k, rfl, rfl⟩, fun _ => rfl⟩
  have hfind : findEntry devName (held ++ replicate k IfaceName.empty) held.length 0 = some none := by
    have hskip := @findEntry_skip _ _ devName [] held (replicate k IfaceName.empty) hmem 0
    simpa [findEntry] using hskip
  unfold step NatIfaceList.delNatIfaces
  dsimp only
  rw [hfind, erase_of_not_mem hmem]
  rfl

/-- One call keeps the list right if and only if it is not an addition without a place to
spare. -/
theorem Filled.keeps_iff (h : s.Filled) (op : NatIfaceOp) : Keeps s op ↔ Spare s op := by
  cases op with
  | add =>
    constructor
    · rintro ⟨s', hs, hright, -⟩
      cases hs
      exact h.add.2 hright
    · intro hspare
      exact ⟨_, rfl, (h.add.1 hspare).right, nofun⟩
  | del devName =>
    obtain ⟨s', hs, hfilled, hsame⟩ := h.del devName
    refine iff_of_true ⟨s', hs, hfilled.right, ?_⟩ trivial
    intro _ heq hno
    obtain rfl := NatIfaceOp.del.inj heq
    exact hsame hno

theorem Filled.step (h : s.Filled) {op : NatIfaceOp} (hspare : Spare s op) (hs : s.step op = some s') : s'.Filled := by
  cases op with
  | add =>
    cases hs
    exact h.add.1 hspare
  | del devName =>
    obtain ⟨_, hs1, hfilled, -⟩ := h.del devName
    cases hs1.symm.trans hs
    exact hfilled

end

/-- **The list of NAT interfaces** is right after every call of a run if and only if there is a
place to spare at every addition. -/
theorem natIfaces_iff (n : ℕ) (ops : List NatIfaceOp) :
    AtSteps step Keeps (init n) ops ↔ AtSteps step Spare (init n) ops :=
  AtSteps.iff_of_step (fun _ op h => h.keeps_iff op) (fun _ _ _ h hspare hs => h.step hspare hs)
    (Filled.init n)

def rndis0 : IfaceName := ⟨[114, 110, 100, 105, 115, 48], by decide, by decide⟩

def wlan0 : IfaceName := ⟨[119, 108, 97, 110, 48], by decide, by decide⟩

/-- With two interfaces configured, the second one is counted and not stored. -/
theorem natIfaces_fails : ¬ AtSteps step Keeps (init 2) [.add rndis0, .add wlan0] := by
  rintro ⟨-, hrest⟩
  obtain ⟨hkeeps, -⟩ := hrest _ rfl
  have hfilled := (@Filled.add _ rndis0 (Filled.init 2)).1 (.inl (by decide))
  have hspare := (hfilled.keeps_iff (.add wlan0)).mp hkeeps
  revert hspare
  unfold Spare
  decide

end NatIfaceRun

end G4Common.Ipacm
