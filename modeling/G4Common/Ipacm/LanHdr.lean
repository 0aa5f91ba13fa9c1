/-
The header slots of `IPACM_Lan` for offload links, with failing calls of the kernel
(`add_lan2lan_hdr()` and `del_lan2lan_hdr()` of `ipacm/src/IPACM_Lan.cpp`).

`add_lan2lan_hdr()` marks a slot as valid before its name is made and the header is added,
and the way out of a failure leaves the mark.  `del_lan2lan_hdr()` deletes the header first and
then releases the first slot with its handle, whether the slot is valid or not; a slot that was
released keeps its handle, and the kernel may give the handle again.

The slots are right in a run if and only if no addition fails once it has its slot, and the
first slot with the handle of a header that is deleted is a valid one (`lan2lanHdr_iff`).

Not modelled: the content of the headers, pointers that are null, and `malloc()` that fails.
-/
import G4Common.Ipacm.EthClients
import G4Common.Ipacm.LanPools
import G4Common.Lib.StepRuns

namespace G4Common.Ipacm

open Function List Option

/-! ### The calls -/

/-- `tx_prop`, as the IP types of its properties, and two sizes of the kernel:
`IPA_HDR_MAX_SIZE` and `IPA_RESOURCE_NAME_MAX`. -/
structure LanHdrEnv where
  txProp : Option (List IpType)
  hdrMaxSize : ℕ
  resourceNameMax : ℕ

/-- What the kernel answers: the length of the partial header, if it copies one; the handle and
the status of the new header, if the ioctl succeeds. -/
structure HdrAnswer where
  copyHeader : Option ℕ
  addHeader : Option (UInt32 × ℤ)

/-- `lan2lan_hdr_hdl_v4` and `lan2lan_hdr_hdl_v6`. -/
abbrev LanHdrSlots := IpType → List (Slot UInt32)

/-- `IPA_LAN_TO_LAN_USB_HDR_NAME_V4` and `_V6`, with the number of the slot. -/
def lan2lanHdrName (iptype : IpType) (j : ℕ) : String :=
  (match iptype with
  | .v4 => "Lan2Lan_USB_v4"
  | .v6 => "Lan2Lan_USB_v6") ++ toString j

section

variable (env : LanHdrEnv) (iptype : IpType) (hdr : LanHdrSlots)

/-- `add_lan2lan_hdr()`: the result, the handle if one is written for the caller, and the slots.
Without a property of the IP type the loop does nothing. -/
def addLan2lanHdr (answer : HdrAnswer) : Bool × Option UInt32 × LanHdrSlots :=
  match env.txProp with
  | none => (false, none, hdr)
  | some tx =>
    if iptype ∈ tx then
      match answer.copyHeader with
      | none => (false, none, hdr)
      | some hdrLen =>
        if hdrLen > env.hdrMaxSize then (false, none, hdr)
        else
          match (hdr iptype).findIdx? fun slot => !slot.valid with
          | none => (false, none, hdr)
          | some j =>
            -- the slot is taken here
            let taken := update hdr iptype
              ((hdr iptype).modify j fun slot => { slot with valid := true })
            if (lan2lanHdrName iptype j).length > env.resourceNameMax then (false, none, taken)
            else
              match answer.addHeader with
              | none => (false, none, taken)
              | some (hdrHdl, status) =>
                if status ≠ 0 then (false, none, taken)
                else
                  (true, some hdrHdl, update hdr iptype ((hdr iptype).modify j fun _ => ⟨hdrHdl, true⟩))
    else (true, none, hdr)

/-- `DeleteHeaderHdl()`, by what the kernel answers. -/
def hdrDeleted (hdrHdl : UInt32) (ok : Bool) : Bool := hdrHdl ≠ 0 ∧ ok = true

def delLan2lanHdr (hdrHdl : UInt32) (ok : Bool) : Bool × LanHdrSlots :=
  if hdrDeleted hdrHdl ok = false then (false, hdr)
  else
    match Slot.release hdrHdl (hdr iptype) with
    | none => (false, hdr)
    | some l => (true, update hdr iptype l)

end

/-! ### Runs -/

/-- The calls, with the answers of the kernel. -/
inductive LanHdrCall
  | add (iptype : IpType) (answer : HdrAnswer)
  | del (iptype : IpType) (hdrHdl : UInt32) (ok : Bool)

/-- The slots, and the headers that were added and not deleted. -/
structure LanHdrRun where
  hdr : LanHdrSlots
  live : IpType → List UInt32

namespace LanHdrRun

/-- The constructor sets the slots to zero. -/
def init : LanHdrRun := ⟨fun _ => replicate maxOffloadPair.toNat ⟨0, false⟩, fun _ => []⟩

def step (env : LanHdrEnv) (s : LanHdrRun) : LanHdrCall → Option LanHdrRun
  | .add iptype answer =>
    let r := addLan2lanHdr env iptype s.hdr answer
    some ⟨r.2.2, update s.live iptype (r.2.1.toList ++ s.live iptype)⟩
  | .del iptype hdrHdl ok =>
    some ⟨(delLan2lanHdr iptype s.hdr hdrHdl ok).2,
      fun ip => if hdrDeleted hdrHdl ok then (s.live ip).erase hdrHdl else s.live ip⟩

/-- What the kernel does: the handle of a new header is not that of a live one, and a header that
is deleted is live. -/
def Plausible (s : LanHdrRun) : LanHdrCall → Prop
  | .add _ answer => ∀ hdrHdl, answer.addHeader = some (hdrHdl, 0) → ∀ ip, hdrHdl ∉ s.live ip
  | .del _ hdrHdl ok => hdrDeleted hdrHdl ok = true → ∃ ip, hdrHdl ∈ s.live ip

/-- The valid slots hold the handles of the live headers, one slot for each. -/
def Right (s : LanHdrRun) : Prop := ∀ ip, (usedHdls (s.hdr ip)).Perm (s.live ip)

/-- The call leaves the slots right, and a failed addition leaves them as they are. -/
def Keeps (env : LanHdrEnv) (s : LanHdrRun) (call : LanHdrCall) : Prop :=
  (∀ s', s.step env call = some s' → s'.Right) ∧ ∀ iptype answer, call = .add iptype answer →
      (addLan2lanHdr env iptype s.hdr answer).1 = false →
      (addLan2lanHdr env iptype s.hdr answer).2.2 = s.hdr

/-- The addition gets slot `j`: there is a property of the IP type, the partial header is copied
and not too long, and the slot is the first one that is not valid. -/
def Takes (env : LanHdrEnv) (s : LanHdrRun) (iptype : IpType) (answer : HdrAnswer) (j : ℕ) : Prop :=
  (∃ tx, env.txProp = some tx ∧ iptype ∈ tx) ∧
    (∃ hdrLen, answer.copyHeader = some hdrLen ∧ hdrLen ≤ env.hdrMaxSize) ∧
    (s.hdr iptype).findIdx? (fun slot => !slot.valid) = some j

/-- An addition that gets a slot succeeds; the first slot with the handle of a header that is
deleted is valid. -/
def Careful (env : LanHdrEnv) (s : LanHdrRun) : LanHdrCall → Prop
  | .add iptype answer => ∀ j, Takes env s iptype answer j →
      (lan2lanHdrName iptype j).length ≤ env.resourceNameMax ∧ ∃ hdrHdl, answer.addHeader = some (hdrHdl, 0)
  | .del iptype hdrHdl ok => hdrDeleted hdrHdl ok = true →
      ∃ slot, (s.hdr iptype).find? (fun slot => slot.hdl = hdrHdl) = some slot ∧ slot.valid = true

/-- The slots are right, and the live headers have different handles. -/
structure Ok (s : LanHdrRun) : Prop where
  right : s.Right
  nodup : ∀ ip, (s.live ip).Nodup
  apart : ∀ h, h ∈ s.live .v4 → h ∉ s.live .v6

end LanHdrRun

/-! ### One slot -/

section

variable {l l1 l2 : List (Slot UInt32)} {x : Slot UInt32} {h : UInt32} {j : ℕ}

theorem usedHdls_split : (usedHdls (l1 ++ x :: l2)).Perm
    ((if x.valid then [x.hdl] else []) ++ usedHdls (l1 ++ l2)) := by
  unfold usedHdls
  simp only [filter_append, filter_cons, map_append]
  cases x.valid with
  | true => exact perm_middle
  | false => exact List.Perm.refl _

theorem findIdx?_free (hj : l.findIdx? (fun slot => !slot.valid) = some j) :
    ∃ l1 x l2, l = l1 ++ x :: l2 ∧ l1.length = j ∧ x.valid = false := by
  obtain ⟨hlt, hfree, -⟩ := findIdx?_eq_some_iff_getElem.mp hj
  refine ⟨l.take j, l[j], l.drop (j + 1), ?_, ?_, by simpa using hfree⟩
  · rw [← drop_eq_getElem_cons hlt, take_append_drop]
  · rw [length_take]
    omega

theorem modify_split {f : Slot UInt32 → Slot UInt32} : (l1 ++ x :: l2).modify l1.length f = l1 ++ f x :: l2 := by
  rw [modify_eq_take_cons_drop (by simp)]
  simp

theorem usedHdls_fill (hj : l.findIdx? (fun slot => !slot.valid) = some j) :
    (usedHdls (l.modify j fun _ => ⟨h, true⟩)).Perm (h :: usedHdls l) := by
  obtain ⟨l1, x, l2, rfl, rfl, hx⟩ := findIdx?_free hj
  rw [modify_split]
  have hold := @usedHdls_split l1 l2 x
  rw [hx] at hold
  exact usedHdls_split.trans (hold.symm.cons h)

theorem length_usedHdls_mark (hj : l.findIdx? (fun slot => !slot.valid) = some j) :
    (usedHdls (l.modify j fun slot => { slot with valid := true })).length = (usedHdls l).length + 1 := by
  obtain ⟨l1, x, l2, rfl, rfl, hx⟩ := findIdx?_free hj
  rw [modify_split]
  have hold := (@usedHdls_split l1 l2 x).length_eq
  have hnew := (@usedHdls_split l1 l2 { x with valid := true }).length_eq
  rw [hx] at hold
  rw [hnew, hold]
  simp

theorem release_split (hx : l.find? (fun slot => slot.hdl = h) = some x) : ∃ l1 l2, l = l1 ++ x :: l2 ∧ x.hdl = h ∧
      Slot.release h l = some (l1 ++ ⟨x.hdl, false⟩ :: l2) := by
  obtain ⟨hh, l1, l2, rfl, hno⟩ := find?_eq_some_iff_append.mp hx
  have hfind : updateFirst (fun s : Slot UInt32 => decide (s.hdl = h))
      (fun s => ((), (⟨s.hdl, false⟩ : Slot UInt32))) (l1 ++ x :: l2)
      = some ((), l1 ++ ⟨x.hdl, false⟩ :: l2) :=
    updateFirst_eq_some.mpr ⟨l1, x, l2, rfl, fun y hy => by simpa using hno y hy, hh, rfl, rfl⟩
  refine ⟨l1, l2, rfl, by simpa using hh, ?_⟩
  unfold Slot.release
  rw [hfind]
  rfl

theorem release_eq_none (hx : l.find? (fun slot => slot.hdl = h) = none) : Slot.release h l = none := by
  unfold Slot.release
  rw [updateFirst_eq_none.mpr fun y hy => by simpa using find?_eq_none.mp hx y hy]
  rfl

theorem usedHdls_release (hx : x.valid) :
    (usedHdls (l1 ++ x :: l2)).Perm (x.hdl :: usedHdls (l1 ++ ⟨x.hdl, false⟩ :: l2)) := by
  have hold := @usedHdls_split l1 l2 x
  have hnew := @usedHdls_split l1 l2 ⟨x.hdl, false⟩
  rw [hx] at hold
  exact hold.trans (hnew.symm.cons _)

theorem usedHdls_release_stale (hx : x.valid = false) :
    (usedHdls (l1 ++ ⟨x.hdl, false⟩ :: l2)).Perm (usedHdls (l1 ++ x :: l2)) := by
  have hold := @usedHdls_split l1 l2 x
  have hnew := @usedHdls_split l1 l2 ⟨x.hdl, false⟩
  rw [hx] at hold
  exact hnew.trans hold.symm

end

/-! ### One call -/

namespace LanHdrRun

section

variable {env : LanHdrEnv} {s s' : LanHdrRun} {iptype : IpType} {answer : HdrAnswer}
variable {hdrHdl : UInt32} {ok : Bool}

/-- What an addition does: it gets no slot and changes nothing; it gets one and succeeds; or it
gets one, fails, and the slot stays marked. -/
theorem addLan2lanHdr_cases (env : LanHdrEnv) (s : LanHdrRun) (iptype : IpType) (answer : HdrAnswer) :
    ((∀ j, ¬ Takes env s iptype answer j) ∧
      ∃ res, addLan2lanHdr env iptype s.hdr answer = (res, none, s.hdr)) ∨
    ∃ j, Takes env s iptype answer j ∧
      (((lan2lanHdrName iptype j).length ≤ env.resourceNameMax ∧
        ∃ h, answer.addHeader = some (h, 0) ∧ addLan2lanHdr env iptype s.hdr answer =
          (true, some h, update s.hdr iptype
            ((s.hdr iptype).modify j fun _ => ⟨h, true⟩))) ∨
      ¬ ((lan2lanHdrName iptype j).length ≤ env.resourceNameMax ∧
        ∃ h, answer.addHeader = some (h, 0)) ∧ addLan2lanHdr env iptype s.hdr answer =
          (false, none, update s.hdr iptype
            ((s.hdr iptype).modify j fun slot => { slot with valid := true }))) := by
  unfold addLan2lanHdr Takes
  cases htx : env.txProp with
  | none => exact .inl ⟨by simp, _, rfl⟩
  | some tx =>
  by_cases hmem : iptype ∈ tx
  swap
  · exact .inl ⟨by simp [hmem], _, if_neg hmem⟩
  cases hcopy : answer.copyHeader with
  | none => exact .inl ⟨by simp, _, if_pos hmem⟩
  | some hdrLen =>
  by_cases hlen : hdrLen > env.hdrMaxSize
  · refine .inl ⟨?_, _, (if_pos hmem).trans (if_pos hlen)⟩
    rintro j ⟨-, ⟨l, hl, _⟩, -⟩
    cases hl
    omega
  cases hslot : (s.hdr iptype).findIdx? (fun slot => !slot.valid) with
  | none => exact .inl ⟨by simp, _, (if_pos hmem).trans (if_neg hlen)⟩
  | some j =>
  refine .inr ⟨j, ⟨⟨tx, rfl, hmem⟩, ⟨hdrLen, rfl, by omega⟩, rfl⟩, ?_⟩
  simp only [if_pos hmem, if_neg hlen]
  by_cases hname : (lan2lanHdrName iptype j).length > env.resourceNameMax
  · exact .inr ⟨fun h => by omega, if_pos hname⟩
  rw [if_neg hname]
  cases hadd : answer.addHeader with
  | none => exact .inr ⟨by simp, rfl⟩
  | some r =>
    obtain ⟨h, status⟩ := r
    rcases eq_or_ne status 0 with rfl | hstatus
    · exact .inl ⟨by omega, h, rfl, rfl⟩
    · refine .inr ⟨?_, if_pos hstatus⟩
      rintro ⟨-, _, heq⟩
      exact hstatus (Prod.mk.inj (some.inj heq)).2

theorem step_add_untaken {res : Bool} (hrun : addLan2lanHdr env iptype s.hdr answer = (res, none, s.hdr)) :
    s.step env (.add iptype answer) = some s := by
  simp only [step, hrun, toList_none, nil_append, update_eq_self]

theorem Ok.fill (h : s.Ok) {j : ℕ} {hdl : UInt32} (hfree : (s.hdr iptype).findIdx? (fun slot => !slot.valid) = some j)
    (hfresh : ∀ ip, hdl ∉ s.live ip) :
    Ok ⟨update s.hdr iptype ((s.hdr iptype).modify j fun _ => ⟨hdl, true⟩),
      update s.live iptype (hdl :: s.live iptype)⟩ := by
  refine ⟨fun ip => ?_, fun ip => ?_, fun x hx4 hx6 => ?_⟩
  · dsimp only
    rcases eq_or_ne ip iptype with rfl | hip
    · rw [update_self, update_self]
      exact (usedHdls_fill hfree).trans ((h.right ip).cons hdl)
    · rw [update_of_ne hip, update_of_ne hip]
      exact h.right ip
  · dsimp only
    rcases eq_or_ne ip iptype with rfl | hip
    · rw [update_self]
      exact nodup_cons.mpr ⟨hfresh ip, h.nodup ip⟩
    · rw [update_of_ne hip]
      exact h.nodup ip
  dsimp only at hx4 hx6
  cases iptype with
  | v4 =>
    rw [update_self] at hx4
    rw [update_of_ne (by decide)] at hx6
    rcases mem_cons.mp hx4 with rfl | hx4
    · exact hfresh _ hx6
    · exact h.apart x hx4 hx6
  | v6 =>
    rw [update_self] at hx6
    rw [update_of_ne (by decide)] at hx4
    rcases mem_cons.mp hx6 with rfl | hx6
    · exact hfresh _ hx4
    · exact h.apart x hx4 hx6

theorem Ok.add (h : s.Ok) (hnew : Plausible s (.add iptype answer)) :
    (Keeps env s (.add iptype answer) ↔ Careful env s (.add iptype answer)) ∧
      (Careful env s (.add iptype answer) → ∀ s', s.step env (.add iptype answer) = some s' → s'.Ok) := by
  rcases addLan2lanHdr_cases env s iptype answer with
    ⟨hno, _, hrun⟩ | ⟨j, htakes, ⟨hname, hdl, hadd, hrun⟩ | ⟨hbad, hrun⟩⟩
  · -- no slot is taken
    have hcareful : Careful env s (.add iptype answer) := fun j hj => absurd hj (hno j)
    refine ⟨iff_of_true ⟨fun s' hs => ?_, fun ip a heq _ => ?_⟩ hcareful, fun _ s' hs => ?_⟩
    · rw [step_add_untaken hrun, some.injEq] at hs
      exact hs ▸ h.right
    · obtain ⟨rfl, rfl⟩ := LanHdrCall.add.inj heq
      rw [hrun]
    · rw [step_add_untaken hrun, some.injEq] at hs
      exact hs ▸ h
  · -- the header has its slot
    have hcareful : Careful env s (.add iptype answer) := by
      intro _ hj'
      cases htakes.2.2.symm.trans hj'.2.2
      exact ⟨hname, hdl, hadd⟩
    have hstep : ∀ s', s.step env (.add iptype answer) = some s' → s'.Ok := by
      intro s' hs
      simp only [step, hrun, toList_some, singleton_append, some.injEq] at hs
      subst hs
      exact h.fill htakes.2.2 (hnew hdl hadd)
    refine ⟨iff_of_true ⟨fun s' hs => (hstep s' hs).right, fun ip a heq hres => ?_⟩ hcareful, fun _ => hstep⟩
    obtain ⟨rfl, rfl⟩ := LanHdrCall.add.inj heq
    rw [hrun] at hres
    exact nomatch hres
  -- the slot is lost
  have hnot : ¬ Careful env s (.add iptype answer) := fun hc => hbad (hc j htakes)
  refine ⟨iff_of_false ?_ hnot, fun hc => absurd hc hnot⟩
  rintro ⟨-, hsame⟩
  have hslots := hsame iptype answer rfl (by rw [hrun])
  rw [hrun] at hslots
  have hmark := length_usedHdls_mark htakes.2.2
  have heq := congrFun hslots iptype
  dsimp only at heq
  rw [update_self] at heq
  rw [heq] at hmark
  omega

theorem Ok.notMem_live (h : s.Ok) {ip ip' : IpType} (hmem : hdrHdl ∈ s.live ip) (hne : ip' ≠ ip) :
    hdrHdl ∉ s.live ip' := by
  cases ip with
  | v4 =>
    cases ip' with
    | v4 => exact absurd rfl hne
    | v6 => exact h.apart hdrHdl hmem
  | v6 =>
    cases ip' with
    | v4 => exact fun hmem' => h.apart hdrHdl hmem' hmem
    | v6 => exact absurd rfl hne

theorem step_del_refused (hno : hdrDeleted hdrHdl ok = false) : s.step env (.del iptype hdrHdl ok) = some s := by
  simp only [step, delLan2lanHdr, hno, if_true, Bool.false_eq_true, if_false]

theorem addFailed_del : ∀ ip answer, LanHdrCall.del iptype hdrHdl ok = .add ip answer →
    (addLan2lanHdr env ip s.hdr answer).1 = false →
    (addLan2lanHdr env ip s.hdr answer).2.2 = s.hdr :=
  nofun

theorem step_del_done (hdel : hdrDeleted hdrHdl ok) : s.step env (.del iptype hdrHdl ok) = some
      ⟨(delLan2lanHdr iptype s.hdr hdrHdl ok).2, fun ip => (s.live ip).erase hdrHdl⟩ := by
  simp only [step, hdel, if_true]

theorem Ok.not_keeps_del (h : s.Ok) (hdel : hdrDeleted hdrHdl ok) {ip : IpType} (hmem : hdrHdl ∈ s.live ip)
    (hlen : (usedHdls ((delLan2lanHdr iptype s.hdr hdrHdl ok).2 ip)).length =
      (usedHdls (s.hdr ip)).length) : ¬ Keeps env s (.del iptype hdrHdl ok) := by
  rintro ⟨hright, -⟩
  have hperm := (hright _ (step_del_done hdel) ip).length_eq
  have hold := (h.right ip).length_eq
  have hpos := length_pos_of_mem hmem
  dsimp only at hperm
  rw [length_erase_of_mem hmem] at hperm
  omega

theorem Ok.release (h : s.Ok) {x : Slot UInt32} {l1 l2 : List (Slot UInt32)}
    (hl : s.hdr iptype = l1 ++ x :: l2) (hvalid : x.valid) :
    Ok ⟨update s.hdr iptype (l1 ++ ⟨x.hdl, false⟩ :: l2),
      fun ip => (s.live ip).erase x.hdl⟩ := by
  have hold := h.right iptype
  rw [hl] at hold
  have hused := (@usedHdls_release l1 l2 x hvalid).symm.trans hold
  have hlive : x.hdl ∈ s.live iptype := hused.subset (mem_cons_self ..)
  refine ⟨fun ip => ?_, fun ip => (h.nodup ip).erase _, fun y hy4 hy6 => ?_⟩
  · dsimp only
    rcases eq_or_ne ip iptype with rfl | hip
    · rw [update_self]
      have herase := hused.erase x.hdl
      rwa [erase_cons_head] at herase
    · -- the handle is not one of the other IP type
      rw [update_of_ne hip, erase_of_not_mem (h.notMem_live hlive hip)]
      exact h.right ip
  · exact h.apart y (mem_of_mem_erase hy4) (mem_of_mem_erase hy6)

theorem Ok.del (h : s.Ok) (hlive : Plausible s (.del iptype hdrHdl ok)) :
    (Keeps env s (.del iptype hdrHdl ok) ↔ Careful env s (.del iptype hdrHdl ok)) ∧
      (Careful env s (.del iptype hdrHdl ok) → ∀ s', s.step env (.del iptype hdrHdl ok) = some s' → s'.Ok) := by
  by_cases hdel : hdrDeleted hdrHdl ok = true
  swap
  · rw [Bool.not_eq_true] at hdel
    have hcareful : Careful env s (.del iptype hdrHdl ok) := fun hd => absurd (hdel.symm.trans hd) (by simp)
    have hstep := @step_del_refused env s iptype hdrHdl ok hdel
    refine ⟨iff_of_true ⟨fun s' hs => ?_, addFailed_del⟩ hcareful, fun _ s' hs => ?_⟩
    · rw [hstep, some.injEq] at hs
      exact hs ▸ h.right
    · rw [hstep, some.injEq] at hs
      exact hs ▸ h
  obtain ⟨ip0, hmem⟩ := hlive hdel
  have hdel' : ¬ hdrDeleted hdrHdl ok = false := by simp [hdel]
  cases hfind : (s.hdr iptype).find? (fun slot => slot.hdl = hdrHdl) with
  | none =>
    -- no slot has the handle, so none is released
    have hnot : ¬ Careful env s (.del iptype hdrHdl ok) := by
      intro hc
      obtain ⟨slot, hslot, -⟩ := hc hdel
      exact nomatch hfind.symm.trans hslot
    refine ⟨iff_of_false (h.not_keeps_del hdel hmem ?_) hnot, fun hc => absurd hc hnot⟩
    unfold delLan2lanHdr
    rw [if_neg hdel', release_eq_none hfind]
  | some x =>
    obtain ⟨l1, l2, hl, hx, hrelease⟩ := release_split hfind
    subst hx
    have hrun : (delLan2lanHdr iptype s.hdr x.hdl ok).2 = update s.hdr iptype (l1 ++ ⟨x.hdl, false⟩ :: l2) := by
      unfold delLan2lanHdr
      rw [if_neg hdel', hrelease]
    by_cases hvalid : x.valid = true
    · have hcareful : Careful env s (.del iptype x.hdl ok) := fun _ => ⟨x, hfind, hvalid⟩
      have hok : ∀ s', s.step env (.del iptype x.hdl ok) = some s' → s'.Ok := by
        intro s' hs
        rw [step_del_done hdel, hrun, some.injEq] at hs
        subst hs
        exact h.release hl hvalid
      exact ⟨iff_of_true ⟨fun s' hs => (hok s' hs).right, addFailed_del⟩ hcareful, fun _ => hok⟩
    -- the slot that is found is a stale one, and the valid one stays
    have hnot : ¬ Careful env s (.del iptype x.hdl ok) := by
      intro hc
      obtain ⟨_, hslot, hv⟩ := hc hdel
      cases hfind.symm.trans hslot
      exact hvalid hv
    refine ⟨iff_of_false (h.not_keeps_del hdel hmem ?_) hnot, fun hc => absurd hc hnot⟩
    rw [hrun]
    rcases eq_or_ne ip0 iptype with rfl | hip
    · rw [update_self, hl]
      exact (usedHdls_release_stale (Bool.not_eq_true _ ▸ hvalid)).length_eq
    · rw [update_of_ne hip]

theorem Ok.call (h : s.Ok) {call : LanHdrCall} (hk : Plausible s call) : (Keeps env s call ↔ Careful env s call) ∧
      (Careful env s call → ∀ s', s.step env call = some s' → s'.Ok) := by
  cases call with
  | add => exact h.add hk
  | del => exact h.del hk

theorem Ok.init : init.Ok where
  right := fun _ => List.Perm.refl _
  nodup := fun _ => nodup_nil
  apart := nofun

end

/-- **The header slots** are right after every call of a run, and no failed addition changes them,
if and only if no addition fails once it has its slot, and the first slot with the handle of a
header that is deleted is a valid one. -/
theorem lan2lanHdr_iff {env : LanHdrEnv} {calls : List LanHdrCall} (hk : AtSteps (step env) Plausible init calls) :
    AtSteps (step env) (Keeps env) init calls ↔ AtSteps (step env) (Careful env) init calls :=
  AtSteps.congr (fun _ _ h hk => (h.call hk).1) (fun _ _ s' h hk hc hs => (h.call hk).2 hc s' hs)
    Ok.init hk

/-- One property for sending for IPv4. -/
def sampleHdrEnv : LanHdrEnv := ⟨some [.v4], 255, 20⟩

/-- The call that adds an IPv4 header with handle 7, and the one that deletes it. -/
def sampleHdrCalls : List LanHdrCall := [.add .v4 ⟨some 14, some (7, 0)⟩, .del .v4 7 true]

theorem sampleHdrCalls_plausible : AtSteps (step sampleHdrEnv) Plausible init sampleHdrCalls := by
  refine ⟨fun h _ ip => not_mem_nil, fun s' hs => ⟨fun _ => ⟨.v4, ?_⟩, fun _ _ => trivial⟩⟩
  cases hs
  decide

theorem lan2lanHdr_sample : AtSteps (step sampleHdrEnv) (Keeps sampleHdrEnv) init sampleHdrCalls := by
  refine (lan2lanHdr_iff sampleHdrCalls_plausible).mpr ⟨fun j hj => ?_, fun s' hs => ?_⟩
  · have hj0 : (init.hdr .v4).findIdx? (fun slot => !slot.valid) = some 0 := by decide
    cases hj0.symm.trans hj.2.2
    exact ⟨by decide, 7, rfl⟩
  · cases hs
    exact ⟨fun _ => ⟨⟨7, true⟩, by decide, rfl⟩, fun _ _ => trivial⟩

/-- An addition that the kernel refuses keeps slot 0. -/
theorem lan2lanHdr_fails : ¬ AtSteps (step sampleHdrEnv) (Keeps sampleHdrEnv) init [.add .v4 ⟨some 14, none⟩] := by
  rintro ⟨⟨-, hsame⟩, -⟩
  have hslots := hsame .v4 ⟨some 14, none⟩ rfl (by decide)
  have hslot := congrArg (fun hdr : LanHdrSlots => (hdr .v4).map Slot.valid) hslots
  revert hslot
  decide

end LanHdrRun

end G4Common.Ipacm
