/-
Who owns the filter rules of the interfaces.

The links of a table are seen as a partial function `F` on pairs of clients, and
the clients as a function `E` to their interface and address.  `FltOwned` says that
in each interface the filter slots in use are exactly those whose handle is held
by a link of a client of that interface, and by one only, and that the rule behind
a handle is the one for the two ends of that link.  `HdrOwned` is what is needed of
the headers.

One direction of a pair is made or refused as a whole, depending on the free slots
(`addLinkRules_fits`, `addLinkRules_blocked`), and taken back as a whole
(`delOffloadLink_owned`).
-/
import G4Common.Ipacm.LanPools

namespace G4Common.Ipacm

open Function List Option

variable {A K κ ρ : Type}

/-- The filter handles that links of clients of interface `i` hold. -/
def fltHeld (E : ℕ → Option (ℕ × A)) (F : ℕ × ℕ → Option OffloadLinkInfo) (i : ℕ) (x : ℕ × ℕ) :
    Option UInt32 :=
  if (E x.1).map Prod.fst = some i then (F x).map OffloadLinkInfo.fltRuleHdl else none

/-- The header handles that links to clients of interface `i` hold. -/
def hdrHeld (E : ℕ → Option (ℕ × A)) (F : ℕ × ℕ → Option OffloadLinkInfo) (i : ℕ) (x : ℕ × ℕ) :
    Option UInt32 :=
  if (E x.2).map Prod.fst = some i then (F x).map OffloadLinkInfo.hdrHdl else none

/-- The filter slots in use are those that links hold, each held once, with the rule
for its link. -/
structure FltOwned (E : ℕ → Option (ℕ × A)) (F : ℕ × ℕ → Option OffloadLinkInfo)
    (pool : ℕ → LanPool A) : Prop where
  nodup : ∀ i, ((pool i).fltRule.map Slot.hdl).Nodup
  length : ∀ i, (pool i).fltRule.length = 3
  num : ∀ i, (pool i).numFltRule.toNat + Slot.free (pool i).fltRule = 3
  owns : ∀ i, Owns (fltHeld E F i) (Slot.Valid (pool i).fltRule)
  rule : ∀ x l i j a b, F x = some l → E x.1 = some (i, a) → E x.2 = some (j, b) →
    (pool i).rule l.fltRuleHdl = some (a, b)

/-- The headers of the links are installed. -/
structure HdrOwned (E : ℕ → Option (ℕ × A)) (F : ℕ × ℕ → Option OffloadLinkInfo)
    (pool : ℕ → LanPool A) : Prop where
  distinct : ∀ i, Slot.Distinct (pool i).hdr
  length : ∀ i, (pool i).hdr.length = 3
  holds : ∀ i, Holds (hdrHeld E F i) (Slot.Valid (pool i).hdr)

/-- The handles of a link can be deleted. -/
def Deletable (l : OffloadLinkInfo) : Prop :=
  l.hdrHdl ≠ 0 ∧ 0 < l.rtRuleHdl.length ∧ l.rtRuleHdl.length ≤ maxNumProp

structure PoolOwned (E : ℕ → Option (ℕ × A)) (F : ℕ × ℕ → Option OffloadLinkInfo)
    (pool : ℕ → LanPool A) : Prop where
  flt : FltOwned E F pool
  hdr : HdrOwned E F pool
  good : ∀ x l, F x = some l → Deletable l

section

variable {E : ℕ → Option (ℕ × A)} {F : ℕ × ℕ → Option OffloadLinkInfo} {pool pool' : ℕ → LanPool A}
  {x : ℕ × ℕ} {l : OffloadLinkInfo} {i j : ℕ} {a b : A}

theorem fltHeld_update_self (hx : E x.1 = some (i, a)) (o : Option OffloadLinkInfo) : fltHeld E (update F x o) i =
      update (fltHeld E F i) x (o.map OffloadLinkInfo.fltRuleHdl) := by
  funext y
  rcases eq_or_ne y x with rfl | hy
  · simp [fltHeld, hx]
  · rw [update_of_ne hy]
    simp [fltHeld, update_of_ne hy]

theorem fltHeld_update_of_ne {i' : ℕ} (hx : E x.1 = some (i, a)) (hne : i' ≠ i)
    (o : Option OffloadLinkInfo) : fltHeld E (update F x o) i' = fltHeld E F i' := by
  funext y
  rcases eq_or_ne y x with rfl | hy
  · simp [fltHeld, hx, hne.symm]
  · simp [fltHeld, update_of_ne hy]

theorem hdrHeld_update_self (hx : E x.2 = some (i, a)) (o : Option OffloadLinkInfo) : hdrHeld E (update F x o) i =
      update (hdrHeld E F i) x (o.map OffloadLinkInfo.hdrHdl) := by
  funext y
  rcases eq_or_ne y x with rfl | hy
  · simp [hdrHeld, hx]
  · rw [update_of_ne hy]
    simp [hdrHeld, update_of_ne hy]

theorem hdrHeld_update_of_ne {i' : ℕ} (hx : E x.2 = some (i, a)) (hne : i' ≠ i)
    (o : Option OffloadLinkInfo) : hdrHeld E (update F x o) i' = hdrHeld E F i' := by
  funext y
  rcases eq_or_ne y x with rfl | hy
  · simp [hdrHeld, hx, hne.symm]
  · simp [hdrHeld, update_of_ne hy]

theorem fltHeld_of_link (hx : E x.1 = some (i, a)) (hl : F x = some l) : fltHeld E F i x = some l.fltRuleHdl := by
  simp [fltHeld, hx, hl]

theorem hdrHeld_of_link (hx : E x.2 = some (i, a)) (hl : F x = some l) : hdrHeld E F i x = some l.hdrHdl := by
  simp [hdrHeld, hx, hl]

/-- The parts for filters are the same. -/
def SameFlt (pool pool' : ℕ → LanPool A) : Prop :=
  ∀ i, (pool' i).fltRule = (pool i).fltRule ∧ (pool' i).numFltRule = (pool i).numFltRule ∧
    (pool' i).rule = (pool i).rule

/-- The parts for headers are the same. -/
def SameHdr (pool pool' : ℕ → LanPool A) : Prop :=
  ∀ i, (pool' i).hdr = (pool i).hdr

theorem FltOwned.congr (h : FltOwned E F pool) (hp : SameFlt pool pool') : FltOwned E F pool' where
  nodup := fun i => (hp i).1 ▸ h.nodup i
  length := fun i => (hp i).1 ▸ h.length i
  num := fun i => by
    rw [(hp i).1, (hp i).2.1]
    exact h.num i
  owns := fun i => (hp i).1 ▸ h.owns i
  rule := fun x l i j a b hl ha hb => by
    rw [(hp i).2.2]
    exact h.rule x l i j a b hl ha hb

theorem HdrOwned.congr (h : HdrOwned E F pool) (hp : SameHdr pool pool') : HdrOwned E F pool' where
  distinct := fun i => hp i ▸ h.distinct i
  length := fun i => hp i ▸ h.length i
  holds := fun i => hp i ▸ h.holds i

theorem HdrOwned.change (h : HdrOwned E F pool) {hl : List (Slot UInt32)} (hd : Slot.Distinct hl) (hlen : hl.length = 3)
    (hv : ∀ y g, hdrHeld E F i y = some g → Slot.Valid (pool i).hdr g → Slot.Valid hl g) :
    HdrOwned E F (update pool i { pool i with hdr := hl }) := by
  refine ⟨fun i' => ?_, fun i' => ?_, fun i' => ?_⟩
  · rcases eq_or_ne i' i with rfl | hi'
    · rwa [update_self]
    · rw [update_of_ne hi']
      exact h.distinct i'
  · rcases eq_or_ne i' i with rfl | hi'
    · rwa [update_self]
    · rw [update_of_ne hi']
      exact h.length i'
  rcases eq_or_ne i' i with rfl | hi'
  · rw [update_self]
    exact ⟨fun y g hy => hv y g hy ((h.holds i').used y g hy), (h.holds i').inj⟩
  · rw [update_of_ne hi']
    exact h.holds i'

theorem FltOwned.give (h : FltOwned E F pool) {f : UInt32} {fl : List (Slot UInt32)}
    (hF : F x = none) (hi : E x.1 = some (i, a)) (hj : E x.2 = some (j, b)) (hl : l.fltRuleHdl = f)
    (ht : Slot.takeFree id (pool i).fltRule = some (f, fl)) :
    FltOwned E (update F x (some l)) (update pool i { pool i with
        fltRule := fl
        numFltRule := (pool i).numFltRule + 1
        rule := update (pool i).rule f (some (a, b)) }) := by
  have hno := Slot.not_valid_of_takeFree (h.nodup i) ht
  obtain ⟨-, hvalid, _⟩ := (Slot.Distinct.of_nodup (h.nodup i)).takeFree ht hno
  have hnum := h.num i
  constructor
  · intro i'
    rcases eq_or_ne i' i with rfl | hi'
    · rw [update_self, Slot.map_hdl_takeFree ht]
      exact h.nodup i'
    · rw [update_of_ne hi']
      exact h.nodup i'
  · intro i'
    rcases eq_or_ne i' i with rfl | hi'
    · rw [update_self, Slot.length_takeFree ht]
      exact h.length i'
    · rw [update_of_ne hi']
      exact h.length i'
  · intro i'
    rcases eq_or_ne i' i with rfl | hi'
    · rw [update_self]
      dsimp only
      have hsucc : ((pool i').numFltRule + 1).toNat = (pool i').numFltRule.toNat + 1 := by
        rw [UInt8.toNat_add]
        simp
        omega
      omega
    · rw [update_of_ne hi']
      exact h.num i'
  · intro i'
    rcases eq_or_ne i' i with rfl | hi'
    · rw [update_self, fltHeld_update_self hi, map_some, hl]
      refine (h.owns i').give hno ?_ hvalid
      simp [fltHeld, hF]
    · rw [update_of_ne hi', fltHeld_update_of_ne hi hi']
      exact h.owns i'
  intro y g i' j' a' b' hy ha' hb'
  rcases eq_or_ne y x with rfl | hyx
  · rw [update_self] at hy
    cases hy
    cases hi.symm.trans ha'
    cases hj.symm.trans hb'
    rw [update_self]
    dsimp only
    rw [hl, update_self]
  rw [update_of_ne hyx] at hy
  have hrule := h.rule y g i' j' a' b' hy ha' hb'
  by_cases hi' : i' = i
  · subst hi'
    -- the handle of another link was in use
    have hne : g.fltRuleHdl ≠ f := by
      rintro rfl
      exact hno ((h.owns i').used y _ (fltHeld_of_link ha' hy))
    rw [update_self]
    dsimp only
    rwa [update_of_ne hne]
  · rwa [update_of_ne hi']

theorem FltOwned.drop (h : FltOwned E F pool) (hF : F x = some l) (hi : E x.1 = some (i, a)) :
    ∃ fl, Slot.release l.fltRuleHdl (pool i).fltRule = some fl ∧
      FltOwned E (update F x none) (update pool i { pool i with
        fltRule := fl
        numFltRule := (pool i).numFltRule - 1
        rule := update (pool i).rule l.fltRuleHdl none }) := by
  have hheld := fltHeld_of_link hi hF
  obtain ⟨fl, hr, -, hvalid, _, hmap⟩ := (Slot.Distinct.of_nodup (h.nodup i)).release
    ((h.owns i).used x _ hheld)
  have hnum := h.num i
  have hlen : fl.length = 3 := by
    rw [← h.length i, ← length_map (f := Slot.hdl), hmap, length_map]
  refine ⟨fl, hr, ?_, ?_, ?_, ?_, ?_⟩
  · intro i'
    rcases eq_or_ne i' i with rfl | hi'
    · rw [update_self, hmap]
      exact h.nodup i'
    · rw [update_of_ne hi']
      exact h.nodup i'
  · intro i'
    rcases eq_or_ne i' i with rfl | hi'
    · rw [update_self]
      exact hlen
    · rw [update_of_ne hi']
      exact h.length i'
  · intro i'
    rcases eq_or_ne i' i with rfl | hi'
    · rw [update_self]
      dsimp only
      -- one slot is in use, so the counter is not zero
      have hle : Slot.free fl ≤ fl.length := countP_le_length
      have hone : (1 : UInt8) ≤ (pool i').numFltRule := UInt8.le_iff_toNat_le.mpr (by simp; omega)
      have hpred := UInt8.toNat_sub_of_le _ _ hone
      have hone' : (1 : UInt8).toNat = 1 := rfl
      omega
    · rw [update_of_ne hi']
      exact h.num i'
  · intro i'
    rcases eq_or_ne i' i with rfl | hi'
    · rw [update_self, fltHeld_update_self hi]
      exact (h.owns i').drop hheld hvalid
    · rw [update_of_ne hi', fltHeld_update_of_ne hi hi']
      exact h.owns i'
  intro y g i' j' a' b' hy ha' hb'
  have hyx : y ≠ x := by
    rintro rfl
    rw [update_self] at hy
    exact nomatch hy
  rw [update_of_ne hyx] at hy
  have hrule := h.rule y g i' j' a' b' hy ha' hb'
  rcases eq_or_ne i' i with rfl | hi'
  · have hne : g.fltRuleHdl ≠ l.fltRuleHdl := fun heq =>
      hyx ((h.owns i').inj y x _ (fltHeld_of_link ha' hy) (heq ▸ hheld))
    rw [update_self]
    dsimp only
    rwa [update_of_ne hne]
  · rwa [update_of_ne hi']

theorem HdrOwned.give (h : HdrOwned E F pool) (hj : E x.2 = some (j, b))
    (hno : ∀ y, hdrHeld E F j y ≠ some l.hdrHdl) (hv : Slot.Valid (pool j).hdr l.hdrHdl) :
    HdrOwned E (update F x (some l)) pool where
  distinct := h.distinct
  length := h.length
  holds := fun i' => by
    rcases eq_or_ne i' j with rfl | hi'
    · rw [hdrHeld_update_self hj, map_some]
      exact (h.holds i').give hno (fun _ hg => hg) hv
    · rw [hdrHeld_update_of_ne hj hi']
      exact h.holds i'

theorem HdrOwned.forget (h : HdrOwned E F pool) (hF : F x = some l) (hj : E x.2 = some (j, b)) :
    HdrOwned E (update F x none) pool ∧ Slot.Valid (pool j).hdr l.hdrHdl ∧
      ∀ y, hdrHeld E (update F x none) j y ≠ some l.hdrHdl := by
  have hheld := hdrHeld_of_link hj hF
  refine ⟨⟨h.distinct, h.length, fun i' => ?_⟩, (h.holds j).used x _ hheld, fun y hy => ?_⟩
  · rcases eq_or_ne i' j with rfl | hi'
    · rw [hdrHeld_update_self hj]
      exact (h.holds i').drop hheld fun g hg _ => hg
    · rw [hdrHeld_update_of_ne hj hi']
      exact h.holds i'
  rw [hdrHeld_update_self hj] at hy
  by_cases hyx : y = x
  · rw [hyx, update_self] at hy
    exact nomatch hy
  · rw [update_of_ne hyx] at hy
    exact hyx ((h.holds j).inj y x _ hy hheld)

end

/-! ### The calls for one direction -/

/-- The free filter slots of an interface. -/
def fltFree (k : LanIfaces A) (i : ℕ) : ℕ := Slot.free (k.pool i).fltRule

/-- The free header slots of an interface. -/
def hdrFree (k : LanIfaces A) (i : ℕ) : ℕ := Slot.free (k.pool i).hdr

def takeOne (f : ℕ → ℕ) (i : ℕ) : ℕ → ℕ := update f i (f i - 1)

/-- A link from interface `i` to interface `j` can be made, with these free slots. -/
structure DirFits (props : IfaceProps) (ff hf : ℕ → ℕ) (i j : ℕ) : Prop where
  rx : props.rxProp i = true
  flt : 0 < ff i
  tx : ∃ n, props.txProp j = some (n + 1)
  hdr : 0 < hf j

/-- A link from interface `i` to interface `j` is refused, with these free slots. -/
def DirBlocked (props : IfaceProps) (ff hf : ℕ → ℕ) (i j : ℕ) : Prop :=
  props.txProp j = none ∨
    (∃ n, props.txProp j = some (n + 1)) ∧ (hf j = 0 ∨ props.rxProp i = false ∨ ff i = 0)

section

variable {props : IfaceProps} {k : LanIfaces A} {E : ℕ → Option (ℕ × A)}
  {F : ℕ × ℕ → Option OffloadLinkInfo} {c q : ClientInfo A} {a b : ℕ} {l : OffloadLinkInfo}
variable {i j : ℕ}

theorem mem_usedHdls {l : List (Slot UInt32)} {h : UInt32} : h ∈ usedHdls l ↔ Slot.Valid l h := by
  simp [usedHdls, Slot.Valid, and_assoc]

theorem length_usedHdls {l : List (Slot UInt32)} : (usedHdls l).length ≤ l.length := by
  unfold usedHdls
  rw [length_map]
  exact length_filter_le ..

theorem sameFlt_setHdr (i : ℕ) (hl : List (Slot UInt32)) :
    SameFlt k.pool (k.setPool i { k.pool i with hdr := hl }).pool := by
  intro i'
  show (update k.pool i _ i').fltRule = _ ∧ (update k.pool i _ i').numFltRule = _ ∧ (update k.pool i _ i').rule = _
  rcases eq_or_ne i' i with rfl | hi'
  · rw [update_self]
    exact ⟨rfl, rfl, rfl⟩
  · rw [update_of_ne hi']
    exact ⟨rfl, rfl, rfl⟩

theorem sameHdr_setFlt {p : LanPool A} (hp : p.hdr = (k.pool i).hdr) : SameHdr k.pool (k.setPool i p).pool := by
  intro i'
  show (update k.pool i _ i').hdr = _
  rcases eq_or_ne i' i with rfl | hi'
  · rw [update_self, hp]
  · rw [update_of_ne hi']

theorem sameFlt_delHdr (i : ℕ) (g : UInt32) : SameFlt k.pool (delLan2LanHdr k i g).1.pool := by
  unfold delLan2LanHdr
  split
  · exact fun _ => ⟨rfl, rfl, rfl⟩
  · split
    · exact fun _ => ⟨rfl, rfl, rfl⟩
    · exact sameFlt_setHdr i _

theorem sameHdr_delFlt (i : ℕ) (f : UInt32) : SameHdr k.pool (delLan2LanFltRule k i f).1.pool := by
  unfold delLan2LanFltRule
  split
  · exact fun _ => rfl
  · exact sameHdr_setFlt rfl

theorem sameHdr_addFlt (props : IfaceProps) (k : LanIfaces A) (i : ℕ) (x y : A) :
    SameHdr k.pool (addLan2LanFltRule props k i x y).1.pool := by
  unfold addLan2LanFltRule
  split
  · exact fun _ => rfl
  split
  · exact fun _ => rfl
  · split
    · exact fun _ => rfl
    · exact sameHdr_setFlt rfl

theorem delLan2LanFltRule_owned {x : ℕ × ℕ} {u : A} (h : FltOwned E F k.pool)
    (hF : F x = some l) (hi : E x.1 = some (i, u)) :
    (delLan2LanFltRule k i l.fltRuleHdl).2 ∧
      FltOwned E (update F x none) (delLan2LanFltRule k i l.fltRuleHdl).1.pool := by
  obtain ⟨_, hfl, hflt⟩ := h.drop hF hi
  simp only [delLan2LanFltRule, hfl, LanIfaces.setPool]
  exact ⟨trivial, hflt⟩

theorem delLan2LanHdr_owned {g : UInt32} (h : HdrOwned E F k.pool) (hne : g ≠ 0)
    (hv : Slot.Valid (k.pool j).hdr g) (hno : ∀ y, hdrHeld E F j y ≠ some g) :
    (delLan2LanHdr k j g).2 ∧ HdrOwned E F (delLan2LanHdr k j g).1.pool ∧
      hdrFree (delLan2LanHdr k j g).1 = update (hdrFree k) j (hdrFree k j + 1) := by
  obtain ⟨hl, hhl, hd, hvalid, hfree, hmap⟩ := (h.distinct j).release hv
  have hlen : hl.length = 3 := by
    rw [← h.length j, ← length_map (f := Slot.hdl), hmap, length_map]
  simp only [delLan2LanHdr, if_neg hne, hhl, LanIfaces.setPool]
  refine ⟨trivial, h.change hd hlen fun y g' hy hg' => (hvalid g').mpr ⟨hg', ?_⟩, ?_⟩
  · rintro rfl
    exact hno y hy
  funext i'
  rcases eq_or_ne i' j with rfl | hi'
  · rw [update_self]
    simp only [hdrFree, update_self]
    exact hfree
  · rw [update_of_ne hi']
    simp only [hdrFree, update_of_ne hi']

theorem delOffloadLink_owned (props : IfaceProps) (h : PoolOwned E F k.pool) (hF : F (a, b) = some l) {x y : A}
    (hi : E a = some (i, x)) (hj : E b = some (j, y)) :
    (delOffloadLink (lan2LanOps props) k i j l).2 ∧ PoolOwned E (update F (a, b) none)
        (delOffloadLink (lan2LanOps props) k i j l).1.pool := by
  obtain ⟨hne, hpos, hle⟩ := h.good _ _ hF
  obtain ⟨htrue, hflt⟩ := delLan2LanFltRule_owned (x := (a, b)) h.flt hF hi
  -- the link is without its filter, then without its header
  have hsame := sameHdr_delFlt (k := k) i l.fltRuleHdl
  obtain ⟨hhdr, hv, hno⟩ := (h.hdr.congr hsame).forget (x := (a, b)) hF hj
  obtain ⟨htrue', hhdr', -⟩ := delLan2LanHdr_owned hhdr hne hv hno
  refine ⟨?_, hflt.congr (sameFlt_delHdr j _), hhdr', fun z g hz => ?_⟩
  · show ((delLan2LanFltRule k i l.fltRuleHdl).2 && decide (_ ∧ _) && _) = true
    rw [htrue]
    simp only [hpos, hle, and_self, decide_true, Bool.true_and]
    exact htrue'
  by_cases hzx : z = (a, b)
  · rw [hzx, update_self] at hz
    exact nomatch hz
  · rw [update_of_ne hzx] at hz
    exact h.good z g hz

theorem addLan2LanHdr_fits (h : HdrOwned E F k.pool) (u v : MacAddr)
    (htx : ∃ n, props.txProp j = some (n + 1)) (hroom : 0 < hdrFree k j) :
    ∃ g, (addLan2LanHdr props k j u v).2 = some g ∧ g ≠ 0 ∧ (∀ y, hdrHeld E F j y ≠ some g) ∧
      Slot.Valid ((addLan2LanHdr props k j u v).1.pool j).hdr g ∧
      HdrOwned E F (addLan2LanHdr props k j u v).1.pool ∧
      SameFlt k.pool (addLan2LanHdr props k j u v).1.pool ∧
      hdrFree (addLan2LanHdr props k j u v).1 = takeOne (hdrFree k) j := by
  obtain ⟨n, hn⟩ := htx
  have hlen := h.length j
  obtain ⟨hfresh, hne⟩ := k.supply.fresh k.supply.call (usedHdls (k.pool j).hdr)
    (hlen ▸ length_usedHdls)
  rw [mem_usedHdls] at hfresh
  cases ht : Slot.takeFree (fun _ => k.supply.newHdl k.supply.call (usedHdls (k.pool j).hdr))
      (k.pool j).hdr with
  | none => exact absurd (Slot.takeFree_eq_none.mp ht) (Nat.pos_iff_ne_zero.mp hroom)
  | some r =>
    obtain ⟨g, hl⟩ := r
    obtain rfl : g = k.supply.newHdl k.supply.call (usedHdls (k.pool j).hdr) := by
      obtain ⟨_, z, _, -, -, -, hg, -⟩ := updateFirst_eq_some.mp ht
      exact hg
    obtain ⟨hd, hvalid, _⟩ := (h.distinct j).takeFree ht hfresh
    have hres : addLan2LanHdr props k j u v =
        ((k.setPool j { k.pool j with hdr := hl }).calls 1,
          some (k.supply.newHdl k.supply.call (usedHdls (k.pool j).hdr))) := by
      simp only [addLan2LanHdr, hn, ht]
    rw [hres]
    refine ⟨_, rfl, hne, fun y hy => hfresh ((h.holds j).used y _ hy), ?_, ?_, ?_, ?_⟩
    · show Slot.Valid (update k.pool j _ j).hdr _
      rw [update_self]
      exact (hvalid _).mpr (.inr rfl)
    · exact h.change hd ((Slot.length_takeFree ht).trans hlen) fun y g' _ hg' =>
        (hvalid g').mpr (.inl hg')
    · exact sameFlt_setHdr j hl
    funext i'
    show Slot.free (update k.pool j _ i').hdr = _
    rcases eq_or_ne i' j with rfl | hi'
    · rw [update_self, takeOne, update_self]
      show Slot.free hl = Slot.free (k.pool i').hdr - 1
      omega
    · rw [update_of_ne hi', takeOne, update_of_ne hi']
      rfl

theorem addLan2LanFltRule_fits {x : ℕ × ℕ} {u v : A} (h : FltOwned E F k.pool)
    (hF : F x = none) (hi : E x.1 = some (i, u)) (hj : E x.2 = some (j, v))
    (hrx : props.rxProp i) (hroom : 0 < fltFree k i) :
    ∃ f, (addLan2LanFltRule props k i u v).2 = some f ∧
      (∀ l : OffloadLinkInfo, l.fltRuleHdl = f →
        FltOwned E (update F x (some l)) (addLan2LanFltRule props k i u v).1.pool) ∧
      fltFree (addLan2LanFltRule props k i u v).1 = takeOne (fltFree k) i := by
  have hnum := h.num i
  have hroom' : 0 < Slot.free (k.pool i).fltRule := hroom
  have hless : ¬ (k.pool i).numFltRule ≥ maxOffloadPair := by
    rw [ge_iff_le, UInt8.le_iff_toNat_le]
    show ¬ 3 ≤ (k.pool i).numFltRule.toNat
    omega
  cases ht : Slot.takeFree id (k.pool i).fltRule with
  | none => exact absurd (Slot.takeFree_eq_none.mp ht) (Nat.pos_iff_ne_zero.mp hroom)
  | some r =>
    obtain ⟨f, fl⟩ := r
    have hno := Slot.not_valid_of_takeFree (h.nodup i) ht
    obtain ⟨-, -, _⟩ := (Slot.Distinct.of_nodup (h.nodup i)).takeFree ht hno
    have hres : addLan2LanFltRule props k i u v = (k.setPool i { k.pool i with
        fltRule := fl
        numFltRule := (k.pool i).numFltRule + 1
        rule := update (k.pool i).rule f (some (u, v)) }, some f) := by
      unfold addLan2LanFltRule
      rw [if_neg (by simp [hrx]), if_neg hless, ht]
    rw [hres]
    refine ⟨f, rfl, fun l hl => h.give hF hi hj hl ht, ?_⟩
    funext i'
    show Slot.free (update k.pool i _ i').fltRule = _
    rcases eq_or_ne i' i with rfl | hi'
    · rw [update_self, takeOne, update_self]
      show Slot.free fl = Slot.free (k.pool i').fltRule - 1
      omega
    · rw [update_of_ne hi', takeOne, update_of_ne hi']
      rfl

theorem addLan2LanFltRule_blocked {u v : A} (h : FltOwned E F k.pool) (hno : props.rxProp i = false ∨ fltFree k i = 0) :
    addLan2LanFltRule props k i u v = (k, none) := by
  unfold addLan2LanFltRule
  rcases hno with hrx | hfull
  · rw [if_pos hrx]
  have hnum := h.num i
  have hfull' : Slot.free (k.pool i).fltRule = 0 := hfull
  have hge : (k.pool i).numFltRule ≥ maxOffloadPair := by
    rw [ge_iff_le, UInt8.le_iff_toNat_le]
    show 3 ≤ (k.pool i).numFltRule.toNat
    omega
  rw [if_pos hge]
  split <;> rfl

theorem fltFree_congr {k' : LanIfaces A} (h : SameFlt k.pool k'.pool) : fltFree k' = fltFree k := by
  funext i
  simp only [fltFree, (h i).1]

theorem hdrFree_congr {k' : LanIfaces A} (h : SameHdr k.pool k'.pool) : hdrFree k' = hdrFree k := by
  funext i
  simp only [hdrFree, h i]

theorem addLan2LanRtRule_eq {n : ℕ} (hn : props.txProp j = some n) (u v : A) (g : UInt32) :
    ∃ rt, addLan2LanRtRule props k j u v g = (k.calls n, some rt) ∧ rt.length = n :=
  ⟨_, by rw [addLan2LanRtRule, hn], by simp⟩

theorem addLinkRules_fits (h : PoolOwned E F k.pool) (hc : E a = some (c.pIface, c.ip))
    (hq : E b = some (q.pIface, q.ip)) (hF : F (a, b) = none)
    (hfit : DirFits props (fltFree k) (hdrFree k) c.pIface q.pIface) :
    ∃ l, (addLinkRules (lan2LanOps props) k c q b).2 = some l ∧
      PoolOwned E (update F (a, b) (some l))
        (addLinkRules (lan2LanOps props) k c q b).1.pool ∧
      fltFree (addLinkRules (lan2LanOps props) k c q b).1 = takeOne (fltFree k) c.pIface ∧
      hdrFree (addLinkRules (lan2LanOps props) k c q b).1 = takeOne (hdrFree k) q.pIface := by
  obtain ⟨n, hn⟩ := hfit.tx
  have hhdr := addLan2LanHdr_fits h.hdr c.macAddr q.macAddr hfit.tx hfit.hdr
  generalize hk1 : addLan2LanHdr props k q.pIface c.macAddr q.macAddr = r1 at hhdr
  obtain ⟨g, hg, hne, hno, hv, hhdr, hsame, hfree⟩ := hhdr
  -- the routing rules change no slot
  obtain ⟨rt, hrt, hlen⟩ := addLan2LanRtRule_eq (k := r1.1) hn c.ip q.ip g
  have hflt := addLan2LanFltRule_fits (k := r1.1.calls (n + 1)) (x := (a, b)) (h.flt.congr hsame) hF
    hc hq hfit.rx (by
      have heq : fltFree (r1.1.calls (n + 1)) = fltFree k := fltFree_congr hsame
      rw [heq]
      exact hfit.flt)
  have hsame' := sameHdr_addFlt props (r1.1.calls (n + 1)) c.pIface c.ip q.ip
  generalize hk2 : addLan2LanFltRule props (r1.1.calls (n + 1)) c.pIface c.ip q.ip = r2 at hflt hsame'
  obtain ⟨f, hf, hflt, hffree⟩ := hflt
  have hres : addLinkRules (lan2LanOps props) k c q b = (r2.1, some ⟨b, f, rt, g⟩) := by
    simp only [addLinkRules, lan2LanOps, hk1, hg, hrt, hk2, hf]
  rw [hres]
  refine ⟨_, rfl, ⟨hflt _ rfl, ?_, fun z l hz => ?_⟩, ?_, ?_⟩
  · exact (hhdr.give (x := (a, b)) (l := ⟨b, f, rt, g⟩) hq hno hv).congr hsame'
  · by_cases hzx : z = (a, b)
    · rw [hzx, update_self] at hz
      rw [← some.inj hz]
      exact ⟨hne, by show 0 < rt.length; omega, hlen ▸ props.tx_le _ _ hn⟩
    · rw [update_of_ne hzx] at hz
      exact h.good z l hz
  · rw [hffree]
    exact congrArg (takeOne · c.pIface) (fltFree_congr hsame)
  · rw [hdrFree_congr hsame']
    exact hfree

theorem addLinkRules_blocked (h : PoolOwned E F k.pool)
    (hblk : DirBlocked props (fltFree k) (hdrFree k) c.pIface q.pIface) :
    (addLinkRules (lan2LanOps props) k c q b).2 = none ∧
      PoolOwned E F (addLinkRules (lan2LanOps props) k c q b).1.pool ∧
      fltFree (addLinkRules (lan2LanOps props) k c q b).1 = fltFree k ∧
      hdrFree (addLinkRules (lan2LanOps props) k c q b).1 = hdrFree k := by
  rcases hblk with htx | ⟨⟨n, hn⟩, hblk⟩
  · have hres : addLinkRules (lan2LanOps props) k c q b = (k, none) := by
      simp only [addLinkRules, lan2LanOps, addLan2LanHdr, htx]
    rw [hres]
    exact ⟨rfl, h, rfl, rfl⟩
  by_cases hfull : hdrFree k q.pIface = 0
  · -- no header slot
    have hres : addLinkRules (lan2LanOps props) k c q b = (k, none) := by
      simp only [addLinkRules, lan2LanOps, addLan2LanHdr, hn, Slot.takeFree_eq_none.mpr hfull]
    rw [hres]
    exact ⟨rfl, h, rfl, rfl⟩
  -- the header is taken back
  have hhdr := addLan2LanHdr_fits h.hdr c.macAddr q.macAddr ⟨n, hn⟩ (Nat.pos_of_ne_zero hfull)
  generalize hk1 : addLan2LanHdr props k q.pIface c.macAddr q.macAddr = r1 at hhdr
  obtain ⟨g, hg, hne, hno, hv, hhdr, hsame, hfree⟩ := hhdr
  obtain ⟨_, hrt, -⟩ := addLan2LanRtRule_eq (k := r1.1) hn c.ip q.ip g
  have hffree : fltFree (r1.1.calls (n + 1)) = fltFree k := fltFree_congr hsame
  have hflt : addLan2LanFltRule props (r1.1.calls (n + 1)) c.pIface c.ip q.ip = (r1.1.calls (n + 1), none) := by
    refine addLan2LanFltRule_blocked (h.flt.congr hsame) ?_
    rw [hffree]
    exact hblk.resolve_left hfull
  obtain ⟨-, hhdr', hfree'⟩ := delLan2LanHdr_owned (k := r1.1.calls (n + 1)) hhdr hne hv hno
  have hsame' := sameFlt_delHdr (k := r1.1.calls (n + 1)) q.pIface g
  have hres : addLinkRules (lan2LanOps props) k c q b =
      ((delLan2LanHdr (r1.1.calls (n + 1)) q.pIface g).1, none) := by
    simp only [addLinkRules, lan2LanOps, hk1, hg, hrt, hflt, delLan2LanRtRule]
  rw [hres]
  refine ⟨rfl, ⟨(h.flt.congr hsame).congr hsame', hhdr', h.good⟩, ?_, ?_⟩
  · exact (fltFree_congr hsame').trans hffree
  · have hfree1 : hdrFree (r1.1.calls (n + 1)) = takeOne (hdrFree k) q.pIface := hfree
    rw [hfree', hfree1, takeOne, update_self, update_idem]
    rw [Nat.sub_add_cancel (Nat.pos_of_ne_zero hfull), update_eq_self]

end

end G4Common.Ipacm
