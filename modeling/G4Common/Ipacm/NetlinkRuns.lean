/-
Datagrams with several messages.

A datagram of padded messages is visited message by message (`ipaNlRecvMsg_concat`), but each
is decoded from the bytes of the first one, and the work on one may end the whole visit.  So
a datagram is handled as its messages would be, each in a datagram of its own, only if it has
at most one message, or if none of them would be received at all (`netlink_exact`).
-/
import G4Common.Ipacm.Netlink
import Mathlib.Algebra.Order.BigOperators.Group.List
import Mathlib.Algebra.Order.Ring.Nat

namespace G4Common.Ipacm

open Tlv List

/-! ### Messages -/

def bytesMem (l : List UInt8) : NlMem := fun i => l.getD i 0

/-- A padded message.  Its length counts the header and the structure after it, and nothing
is asked of the attributes. -/
structure NlMessage where
  bytes : List UInt8
  type : RtmType
  type_eq : RtmType.ofCode (leU16 (bytesMem bytes) 4) = some type
  len_ge : nlmsgHdrLen + type.metaLen ≤ leU32 (bytesMem bytes) 0
  padded : align (leU32 (bytesMem bytes) 0) = bytes.length

def nlConcat (ms : List NlMessage) : List UInt8 := ms.flatMap fun x => x.bytes

def nlSizes (ms : List NlMessage) : List ℕ := ms.map fun x => x.bytes.length

theorem NlMessage.hdrLen_le (x : NlMessage) : nlmsgHdrLen ≤ x.bytes.length := by
  have hlen := x.len_ge
  have hle := le_align (leU32 (bytesMem x.bytes) 0)
  rw [x.padded] at hle
  omega

theorem length_nlConcat (ms : List NlMessage) : (nlConcat ms).length = (nlSizes ms).sum := length_flatMap

section

variable {env : NlEnv} {m : NlMem} {s : NlState} {x : NlMessage} {ms : List NlMessage}
variable {dgram l l' : List UInt8} {info : NlRouteInfo} {buflen nlh off : ℕ}

/-- Memory holds some bytes from a place on. -/
def HoldsAt (m : NlMem) (off : ℕ) (l : List UInt8) : Prop := ∀ i (h : i < l.length), m (off + i) = l.get ⟨i, h⟩

theorem HoldsAt.left (h : HoldsAt m off (l ++ l')) : HoldsAt m off l := by
  intro i hi
  rw [h i (by rw [length_append]; omega)]
  simp [getElem_append_left hi]

theorem HoldsAt.right (h : HoldsAt m off (l ++ l')) : HoldsAt m (off + l.length) l' := by
  intro i _
  rw [Nat.add_assoc, h (l.length + i) (by rw [length_append]; omega)]
  simp

theorem holdsAt_nlBuffer : HoldsAt (nlBuffer env dgram) 0 dgram := by
  intro i hi
  simp [nlBuffer, hi]

theorem HoldsAt.header (h : HoldsAt m off x.bytes) :
    leU32 m off = leU32 (bytesMem x.bytes) 0 ∧ leU16 m (off + 4) = leU16 (bytesMem x.bytes) 4 := by
  have hbyte : ∀ i < nlmsgHdrLen, m (off + i) = bytesMem x.bytes i := by
    intro i hi
    have hlt : i < x.bytes.length := hi.trans_le x.hdrLen_le
    rw [h i hlt, bytesMem]
    simp [hlt]
  have h16 : ∀ i, i + 1 < nlmsgHdrLen → leU16 m (off + i) = leU16 (bytesMem x.bytes) i := by
    intro i hi
    rw [leU16, leU16, hbyte i (by omega), Nat.add_assoc, hbyte (i + 1) hi]
  refine ⟨?_, h16 4 (by decide)⟩
  rw [leU32, leU32, h16 2 (by decide)]
  exact congrArg (fun n => n + _) (h16 0 (by decide))

theorem laid_of_holdsAt (h : HoldsAt m off (nlConcat ms)) : Laid nlmsgHdrLen (leU32 m) off (nlSizes ms) := by
  induction ms generalizing off with
  | nil => trivial
  | cons x ms ih =>
    have hx : HoldsAt m off x.bytes := h.left
    have hlen := x.len_ge
    refine ⟨?_, ?_, ih h.right⟩
    · rw [hx.header.1]
      omega
    · rw [hx.header.1]
      exact x.padded

/-- **A datagram that fits is visited message by message.** -/
theorem ipaNlRecvMsg_concat (env : NlEnv) (hne : ms ≠ []) (hfits : (nlConcat ms).length ≤ nlMsgMaxLen) :
    ipaNlRecvMsg env (nlConcat ms) =
      visit (nlmsgBody env (nlBuffer env (nlConcat ms))) 0 (nlSizes ms) NlState.init := by
  have hlen : (nlConcat ms).length = (nlSizes ms).sum := length_nlConcat ms
  have hcount : (nlSizes ms).length ≤ (nlSizes ms).sum := by
    refine length_le_sum_of_one_le _ fun n hn => ?_
    obtain ⟨x, -, rfl⟩ := mem_map.mp hn
    exact le_trans (by decide) x.hdrLen_le
  have hpos : 0 < (nlSizes ms).length := by
    rw [nlSizes, length_map]
    exact length_pos_of_ne_nil hne
  rw [ipaNlRecvMsg, if_neg (by omega), ipaNlDecodeNlmsg, hlen]
  exact walkRecords_eq_visit (by decide) (laid_of_holdsAt holdsAt_nlBuffer) hcount

/-! ### Where messages are decoded -/

theorem decoded_named {i : UInt32} {f : NlState → NlState × Bool}
    (hf : ∀ s : NlState, (f s).1.decoded = s.decoded) : (s.named env i f).1.decoded = s.decoded := by
  unfold NlState.named
  split
  · exact hf s
  · rfl

/-! The parts of the work on a message decode nothing. -/

theorem decoded_linkChange {info : NlLinkInfo} : (linkChange env s info).1.decoded = s.decoded := by
  unfold linkChange
  split
  · exact decoded_named fun _ => rfl
  · rfl

theorem decoded_linkRunning {info : NlLinkInfo} : (linkRunning env s info).1.decoded = s.decoded := by
  unfold linkRunning
  split
  · exact decoded_named fun _ => rfl
  · split
    · exact decoded_named fun _ => rfl
    · rfl

theorem decoded_bootRouteAdd : (bootRouteAdd env s info).1.decoded = s.decoded := by
  unfold bootRouteAdd
  split
  · exact decoded_named fun _ => rfl
  · refine decoded_named fun s => ?_
    split <;> rfl

theorem decoded_kernelRouteAdd : (kernelRouteAdd env s info).1.decoded = s.decoded := by
  refine decoded_named fun s => ?_
  dsimp only
  split <;> split <;> rfl

theorem decoded_bootRouteDel : (bootRouteDel env s info).1.decoded = s.decoded := by
  unfold bootRouteDel
  split
  · exact decoded_named fun _ => rfl
  · refine decoded_named fun s => ?_
    split <;> rfl

theorem decoded_kernelRouteDel : (kernelRouteDel env s info).1.decoded = s.decoded := by
  refine decoded_named fun s => ?_
  dsimp only
  split <;> rfl

theorem decoded_both {r : NlState × Bool} {b : Bool} {f : NlState → NlState × Bool} {l : List ℕ}
    (hr : r.1.decoded = l) (hf : ∀ s : NlState, (f s).1.decoded = s.decoded) :
    (if r.2 then r else if b then f r.1 else r).1.decoded = l := by
  split
  · exact hr
  · split
    · exact (hf r.1).trans hr
    · exact hr

theorem decoded_nlmsgBody {t : RtmType} (ht : RtmType.ofCode (leU16 m (nlh + 4)) = some t) :
    (nlmsgBody env m s nlh buflen).1.decoded = s.decoded ++ [0] := by
  rw [nlmsgBody, ht]
  cases t with
  | newLink =>
    show (rtmNewLink env m s 0).1.decoded = _
    unfold rtmNewLink
    dsimp only
    split
    · rfl
    · split
      · exact decoded_linkChange
      · exact decoded_linkRunning.trans decoded_linkChange
  | delLink =>
    show (rtmDelLink env m s 0).1.decoded = _
    unfold rtmDelLink
    dsimp only
    split
    · rfl
    · exact decoded_named fun _ => rfl
  | newAddr => rfl
  | newRoute =>
    refine decoded_both ?_ fun s => decoded_kernelRouteAdd
    split
    · exact decoded_bootRouteAdd
    · rfl
  | delRoute =>
    refine decoded_both ?_ fun s => decoded_kernelRouteDel
    split
    · exact decoded_bootRouteDel
    · rfl
  | newNeigh | delNeigh => exact decoded_named fun _ => rfl

theorem decoded_nlmsgBody_zero (hs : ∀ p ∈ s.decoded, p = 0) :
    ∀ p ∈ (nlmsgBody env m s nlh buflen).1.decoded, p = 0 := by
  rcases ht : RtmType.ofCode (leU16 m (nlh + 4)) with _ | t
  · rw [nlmsgBody, ht]
    exact hs
  rw [decoded_nlmsgBody ht]
  intro p hp
  rcases mem_append.mp hp with hp | hp
  · exact hs p hp
  · exact mem_singleton.mp hp

/-! ### Message by message -/

/-- Where the messages from `off` on would be decoded, each in a datagram of its own. -/
def ownPlaces (env : NlEnv) : ℕ → List NlMessage → List ℕ
  | _, [] => []
  | off, x :: ms =>
    ((ipaNlRecvMsg env x.bytes).decoded.map fun p => off + p) ++ ownPlaces env (off + x.bytes.length) ms

/-- The events of a datagram are those of its messages, each in a datagram of its own, and
each message is decoded from its own bytes. -/
structure MessageByMessage (env : NlEnv) (ms : List NlMessage) : Prop where
  posted : (ipaNlRecvMsg env (nlConcat ms)).posted = ms.flatMap fun x => (ipaNlRecvMsg env x.bytes).posted
  decoded : (ipaNlRecvMsg env (nlConcat ms)).decoded = ownPlaces env 0 ms

theorem nlConcat_singleton (x : NlMessage) : nlConcat [x] = x.bytes := append_nil _

theorem ipaNlRecvMsg_of_large (h : nlMsgMaxLen < dgram.length) :
    ipaNlRecvMsg env dgram = NlState.init := if_pos (.inr h)

theorem decoded_single (x : NlMessage) :
    (ipaNlRecvMsg env x.bytes).decoded = if nlMsgMaxLen < x.bytes.length then [] else [0] := by
  split
  case isTrue hlarge =>
    rw [ipaNlRecvMsg_of_large hlarge]
    rfl
  case isFalse hfits =>
    have hvisit := ipaNlRecvMsg_concat env (cons_ne_nil x [])
    rw [nlConcat_singleton] at hvisit
    rw [hvisit (Nat.not_lt.mp hfits)]
    have htype : RtmType.ofCode (leU16 (nlBuffer env x.bytes) (0 + 4)) = some x.type := by
      rw [holdsAt_nlBuffer.header.2]
      exact x.type_eq
    have hbody : (nlmsgBody env (nlBuffer env x.bytes) NlState.init 0 (x.bytes.length + 0)).1.decoded = [0] :=
      decoded_nlmsgBody htype
    show (if (nlmsgBody env (nlBuffer env x.bytes) NlState.init 0 (x.bytes.length + 0)).2 then
      (nlmsgBody env (nlBuffer env x.bytes) NlState.init 0 (x.bytes.length + 0)).1 else
      (nlmsgBody env (nlBuffer env x.bytes) NlState.init 0 (x.bytes.length + 0)).1).decoded = [0]
    rw [ite_self]
    exact hbody

theorem ownPlaces_of_large (h : ∀ x ∈ ms, nlMsgMaxLen < x.bytes.length) : ownPlaces env off ms = [] := by
  induction ms generalizing off with
  | nil => rfl
  | cons x _ ih =>
    rw [ownPlaces, ih fun y hy => h y (mem_cons_of_mem _ hy), decoded_single, if_pos (h x mem_cons_self)]
    rfl

theorem ownPlaces_ne_nil (hx : x ∈ ms) (hfits : ¬ nlMsgMaxLen < x.bytes.length) : ownPlaces env off ms ≠ [] := by
  induction ms generalizing off with
  | nil => exact nomatch hx
  | cons _ _ ih =>
    rw [ownPlaces]
    rcases mem_cons.mp hx with rfl | hx
    · rw [decoded_single, if_neg hfits]
      exact cons_ne_nil _ _
    · exact append_ne_nil_of_right_ne_nil _ (ih hx)

theorem decoded_zero : ∀ p ∈ (ipaNlRecvMsg env dgram).decoded, p = 0 := by
  unfold ipaNlRecvMsg
  split
  · exact nofun
  · exact walkRecords_invariant (I := fun s : NlState => ∀ p ∈ s.decoded, p = 0)
      (fun s _ _ hs => decoded_nlmsgBody_zero hs) nofun

theorem second_mem_ownPlaces (env : NlEnv) {y : NlMessage} (hfits : (nlConcat (x :: y :: ms)).length ≤ nlMsgMaxLen) :
    x.bytes.length ∈ ownPlaces env 0 (x :: y :: ms) := by
  have hlen : (nlConcat (x :: y :: ms)).length = x.bytes.length + (y.bytes.length + (nlConcat ms).length) := by
    rw [nlConcat, flatMap_cons, flatMap_cons, length_append, length_append]
    rfl
  rw [ownPlaces, ownPlaces, decoded_single y, if_neg (by omega)]
  refine mem_append_right _ (mem_append_left _ ?_)
  rw [map_singleton, mem_singleton, Nat.zero_add, Nat.add_zero]

/-- **A datagram is handled message by message if and only if it has at most one message, or
none of its messages fits the buffer.** -/
theorem netlink_exact (env : NlEnv) (ms : List NlMessage) :
    MessageByMessage env ms ↔ ms.length ≤ 1 ∨ ∀ x ∈ ms, nlMsgMaxLen < x.bytes.length := by
  constructor
  · intro h
    by_contra hnot
    push Not at hnot
    obtain ⟨htwo, x, hx, hx'⟩ := hnot
    by_cases hfits : (nlConcat ms).length ≤ nlMsgMaxLen
    · -- the second message is not decoded, or from the bytes of the first one
      match ms, htwo with
      | x :: y :: ms, _ =>
        have hmem := second_mem_ownPlaces env hfits
        rw [← h.decoded] at hmem
        have hzero := decoded_zero _ hmem
        have hpos := x.hdrLen_le
        rw [hzero] at hpos
        exact nomatch hpos
    -- nothing is received
    have hdecoded := h.decoded
    rw [ipaNlRecvMsg_of_large (Nat.lt_of_not_le hfits)] at hdecoded
    exact ownPlaces_ne_nil hx (Nat.not_lt.mpr hx') hdecoded.symm
  rintro (hone | hlarge)
  · match ms, hone with
    | [], _ => exact ⟨rfl, rfl⟩
    | [x], _ =>
      refine ⟨?_, ?_⟩
      · rw [nlConcat_singleton, flatMap_singleton]
      · rw [nlConcat_singleton, ownPlaces, ownPlaces, append_nil]
        simp
  by_cases hnil : ms = []
  · subst hnil
    exact ⟨rfl, rfl⟩
  have hsum : nlMsgMaxLen < (nlConcat ms).length := by
    obtain ⟨x, hx⟩ := exists_mem_of_ne_nil ms hnil
    have hle : x.bytes.length ≤ (nlSizes ms).sum := le_sum_of_mem (mem_map_of_mem hx)
    rw [length_nlConcat]
    exact (hlarge x hx).trans_le hle
  have hposted : (ms.flatMap fun x => (ipaNlRecvMsg env x.bytes).posted) = [] := by
    rw [flatMap_eq_nil_iff]
    intro x hx
    rw [ipaNlRecvMsg_of_large (hlarge x hx)]
    rfl
  refine ⟨?_, ?_⟩
  · rw [hposted, ipaNlRecvMsg_of_large hsum]
    rfl
  · rw [ownPlaces_of_large hlarge, ipaNlRecvMsg_of_large hsum]
    rfl

end

/-- The bytes of an `RTM_NEWLINK` message for an interface that comes up. -/
def sampleNewLink (family index : UInt8) : List UInt8 :=
  [32, 0, 0, 0, 16, 0, 0, 0, 0, 0, 0, 0, 0, 0, 0, 0,
    family, 0, 0, 0, index, 0, 0, 0, 1, 0, 1, 0, 1, 0, 0, 0]

theorem sampleNewLink_header (family index : UInt8) : leU32 (bytesMem (sampleNewLink family index)) 0 = 32 ∧
      leU16 (bytesMem (sampleNewLink family index)) 4 = 16 := by
  simp [leU32, leU16, bytesMem, sampleNewLink]

/-- A message for a link that is up, and changes, with the family of the message. -/
def sampleMessage (family index : UInt8) : NlMessage where
  bytes := sampleNewLink family index
  type := .newLink
  type_eq := by rw [(sampleNewLink_header family index).2]; rfl
  len_ge := by rw [(sampleNewLink_header family index).1]; decide
  padded := by rw [(sampleNewLink_header family index).1]; rfl

def sampleNlEnv : NlEnv where
  hasName := fun _ => true
  fresh := ⟨.v4, 0, 0, 0, fun _ => 0, fun _ => 0⟩
  junk := fun _ => 0

/-- Interfaces 5 and 6 come up in one datagram: interface 5 comes up twice.  Behind a message
of the bridge, nothing comes up. -/
theorem netlink_fails :
    (ipaNlRecvMsg sampleNlEnv (nlConcat [sampleMessage 0 5, sampleMessage 0 6])).posted = [.linkUp 5, .linkUp 5] ∧
      ([sampleMessage 0 5, sampleMessage 0 6].flatMap fun x => (ipaNlRecvMsg sampleNlEnv x.bytes).posted) =
        [.linkUp 5, .linkUp 6] ∧
      (ipaNlRecvMsg sampleNlEnv (nlConcat [sampleMessage 7 4, sampleMessage 0 5])).posted = [] ∧
      ([sampleMessage 7 4, sampleMessage 0 5].flatMap fun x => (ipaNlRecvMsg sampleNlEnv x.bytes).posted) =
        [.linkUp 5] ∧
      ¬ MessageByMessage sampleNlEnv [sampleMessage 0 5, sampleMessage 0 6] := by
  refine ⟨rfl, rfl, rfl, rfl, fun h => ?_⟩
  have hposted := h.posted
  cases hposted

end G4Common.Ipacm
