/-
Where the attribute loops read (`ipa_nl_decode_rtm_addr()`, `.._neigh()` and `.._route()` of
`ipacm/src/IPACM_Netlink.cpp`).

The loops are those of the decoders, with 32 bits for the length that is left, and with a record of the accesses to
the message.  The length counts the bytes after the header of the message, but the first attribute begins behind the
header of the family, so at the end of the message some bytes are left, and one more attribute is looked for.  A copy
takes as many bytes as its destination has, whatever the length of the attribute.

So a loop stays inside only where it is stopped early (`StopsInside`), which attributes that fill their message never
do (`not_stopsInside_of_laid`).  A header that ends with the message is read behind it.
-/
import G4Common.Ipacm.Netlink

namespace G4Common.Ipacm

open Tlv List Option

/-! ### Accesses -/

/-- The messages with attributes. -/
inductive AttrMsg
  | addr | neigh | route
  deriving DecidableEq, Repr

/-- `sizeof(struct ifaddrmsg)`, `sizeof(struct ndmsg)` and `sizeof(struct rtmsg)`. -/
def AttrMsg.metaLen : AttrMsg → ℕ
  | .addr => 8
  | .neigh | .route => 12

/-- The fields that attributes are copied to. -/
inductive AttrField
  | prefixAddr | localAddr | lladdr | dstAddr | srcAddr | gatewayAddr | iifIndex | oifIndex | priority
  deriving DecidableEq, Repr

/-- The size of a field.  That of the data of a `sockaddr_storage` depends on the platform. -/
def AttrField.size (addrLen : ℕ) : AttrField → ℕ
  | .lladdr => 14
  | .iifIndex | .oifIndex | .priority => 4
  | .prefixAddr | .localAddr | .dstAddr | .srcAddr | .gatewayAddr => addrLen

/-- The `switch` over `rta_type`. -/
def AttrMsg.field : AttrMsg → ℕ → Option AttrField
  | .addr, 1 => some .prefixAddr
  | .addr, _ => none
  | .neigh, 1 => some .localAddr
  | .neigh, 2 => some .lladdr
  | .neigh, _ => none
  | .route, 1 => some .dstAddr
  | .route, 2 => some .srcAddr
  | .route, 3 => some .iifIndex
  | .route, 4 => some .oifIndex
  | .route, 5 => some .gatewayAddr
  | .route, 6 => some .priority
  | .route, _ => none

/-- What is read from a message: bytes of the header of an attribute, or bytes from the place of its data, with the
length of the data and the size of the destination. -/
inductive AttrAccess
  | header (off len : ℕ)
  | copy (off data len dest : ℕ)
  deriving DecidableEq, Repr

/-- An access to a message of `n` bytes is one that is allowed. -/
def AttrAccess.Inside (n : ℕ) : AttrAccess → Prop
  | .header off len => off + len ≤ n
  | .copy off data len dest => off + len ≤ n ∧ len ≤ data ∧ len ≤ dest

/-! ### Loops -/

/-- The variables of a loop: `rtah`, `buflen` and what is decoded, with the accesses so far. -/
structure AttrState (α : Type) where
  off : ℕ
  buflen : UInt32
  log : List AttrAccess
  info : α

section

variable {α : Type} (msg : AttrMsg) (addrLen : ℕ) (m : NlMem) (work : α → ℕ → ℕ → α)

def AttrState.reads (s : AttrState α) (a : AttrAccess) : AttrState α := { s with log := s.log ++ [a] }

/-- `RTA_OK`, the body of a loop and `RTA_NEXT`; whether the loop goes on. -/
def attrStep (s : AttrState α) : AttrState α × Bool :=
  if s.buflen.toNat < rtattrLen then (s, false)
  else
    let len := leU16 m s.off
    let s := s.reads (.header s.off 2)
    if len < rtattrLen ∨ s.buflen.toNat < len then (s, false)
    else
      let type := leU16 m (s.off + 2)
      let data := s.off + rtattrLen
      let s := s.reads (.header (s.off + 2) 2)
      let s := (msg.field type).elim s fun f => s.reads (.copy data (len - rtattrLen) (f.size addrLen) (f.size addrLen))
      ({ s with
          info := work s.info type data
          off := s.off + align len
          buflen := s.buflen - UInt32.ofNat (align len) }, true)

/-- A loop, if it ends after at most so many tests. -/
def attrLoop : ℕ → AttrState α → Option (AttrState α)
  | 0, _ => none
  | k + 1, s =>
    let r := attrStep msg addrLen m work s
    if r.2 then attrLoop k r.1 else some r.1

/-- The start of a loop, for a message of `n` bytes. -/
def attrStart (n : UInt32) (info : α) : AttrState α where
  off := nlmsgHdrLen + msg.metaLen
  buflen := n - UInt32.ofNat nlmsgHdrLen
  log := []
  info := info

/-- **A loop stays inside the message**: it ends, and all accesses are allowed. -/
def AttrsInside (n : UInt32) (info : α) : Prop :=
  ∃ k s, attrLoop msg addrLen m work k (attrStart msg n info) = some s ∧ ∀ a ∈ s.log, a.Inside n.toNat

/-- What is copied from the attribute at `p` is there. -/
def AttrFits (n p : ℕ) : Prop :=
  ∀ f ∈ msg.field (leU16 m (p + 2)),
    p + rtattrLen + f.size addrLen ≤ n ∧ f.size addrLen ≤ leU16 m p - rtattrLen

/-- From the attribute at `p` on, a message of `n` bytes stops the loop: attributes that fit follow each other until
one has no length that is possible, or one of them ends where the loop takes the end to be, which is behind the end of
the message by the size of the header of the family. -/
inductive StopsInside (n : ℕ) : ℕ → Prop
  | bad {p : ℕ} (hin : p + 2 ≤ n) (hlen : leU16 m p < rtattrLen ∨ n + msg.metaLen < p + leU16 m p) : StopsInside n p
  | last {p : ℕ} (hin : p + rtattrLen ≤ n) (hlen : rtattrLen ≤ leU16 m p) (hle : p + align (leU16 m p) ≤ n + msg.metaLen)
      (hend : n + msg.metaLen < p + align (leU16 m p) + rtattrLen) (hfits : AttrFits msg addrLen m n p) :
      StopsInside n p
  | next {p : ℕ} (hlen : rtattrLen ≤ leU16 m p) (hfits : AttrFits msg addrLen m n p)
      (hnext : StopsInside n (p + align (leU16 m p))) : StopsInside n p

end

section

variable {α : Type} {msg : AttrMsg} {addrLen : ℕ} {m : NlMem} {work : α → ℕ → ℕ → α} {s s' : AttrState α} {k n p : ℕ}

/-! ### Steps -/

theorem four_le_align {len : ℕ} (h : rtattrLen ≤ len) : rtattrLen ≤ align len := h.trans (le_align len)

theorem attrStep_short (h : s.buflen.toNat < rtattrLen) : attrStep msg addrLen m work s = (s, false) := if_pos h

theorem attrStep_bad (h : rtattrLen ≤ s.buflen.toNat) (hlen : leU16 m s.off < rtattrLen ∨ s.buflen.toNat < leU16 m s.off) :
    attrStep msg addrLen m work s = (s.reads (.header s.off 2), false) := by
  rw [attrStep, if_neg (Nat.not_lt.2 h)]
  exact if_pos hlen

/-- The accesses for an attribute. -/
def attrAccesses (msg : AttrMsg) (addrLen : ℕ) (m : NlMem) (p : ℕ) : List AttrAccess :=
  [.header p 2, .header (p + 2) 2] ++ (msg.field (leU16 m (p + 2))).toList.map fun f =>
    .copy (p + rtattrLen) (leU16 m p - rtattrLen) (f.size addrLen) (f.size addrLen)

/-- The state after an attribute. -/
def AttrState.next (msg : AttrMsg) (addrLen : ℕ) (m : NlMem) (work : α → ℕ → ℕ → α) (s : AttrState α) : AttrState α where
  off := s.off + align (leU16 m s.off)
  buflen := s.buflen - UInt32.ofNat (align (leU16 m s.off))
  log := s.log ++ attrAccesses msg addrLen m s.off
  info := work s.info (leU16 m (s.off + 2)) (s.off + rtattrLen)

theorem attrStep_next (hlen : rtattrLen ≤ leU16 m s.off) (hle : leU16 m s.off ≤ s.buflen.toNat) :
    attrStep msg addrLen m work s = (s.next msg addrLen m work, true) := by
  rw [attrStep, if_neg (Nat.not_lt.2 (hlen.trans hle))]
  refine (if_neg ?_).trans ?_
  · rintro (h | h)
    · exact Nat.not_lt.2 hlen h
    · exact Nat.not_lt.2 hle h
  rw [AttrState.next, attrAccesses]
  dsimp only [AttrState.reads]
  rcases msg.field (leU16 m (s.off + 2)) with - | f
  · simp
  · simp

theorem attrAccesses_inside : (∀ a ∈ attrAccesses msg addrLen m p, a.Inside n) ↔
    p + rtattrLen ≤ n ∧ AttrFits msg addrLen m n p := by
  rw [attrAccesses, AttrFits]
  rcases msg.field (leU16 m (p + 2)) with - | f
  · simp only [toList_none, map_nil, append_nil, forall_mem_cons, AttrAccess.Inside]
    have h4 : rtattrLen = 4 := rfl
    constructor
    · rintro ⟨-, h, -⟩
      exact ⟨by omega, fun f hf => absurd hf (not_mem_none f)⟩
    · rintro ⟨h, -⟩
      exact ⟨by omega, by omega, nofun⟩
  simp only [toList_some, map_cons, map_nil, cons_append, nil_append,
    forall_mem_cons, AttrAccess.Inside]
  have h4 : rtattrLen = 4 := rfl
  constructor
  · rintro ⟨-, h, hcopy, -⟩
    refine ⟨by omega, ?_⟩
    rintro _ ⟨⟩
    exact ⟨hcopy.1, hcopy.2.1⟩
  · rintro ⟨h, hfits⟩
    obtain ⟨hin, hdata⟩ := hfits f rfl
    exact ⟨by omega, by omega, ⟨hin, hdata, Nat.le_refl _⟩, nofun⟩

/-! ### Runs -/

theorem log_attrLoop (h : attrLoop msg addrLen m work k s = some s') : s.log ⊆ s'.log := by
  induction k generalizing s with
  | zero => cases h
  | succ _ ih =>
    rw [attrLoop] at h
    by_cases hshort : s.buflen.toNat < rtattrLen
    · rw [attrStep_short hshort] at h
      cases h
      exact List.Subset.refl _
    by_cases hbad : leU16 m s.off < rtattrLen ∨ s.buflen.toNat < leU16 m s.off
    · rw [attrStep_bad (Nat.not_lt.1 hshort) hbad] at h
      cases h
      exact subset_append_left _ _
    · rw [not_or, Nat.not_lt, Nat.not_lt] at hbad
      rw [attrStep_next hbad.1 hbad.2] at h
      exact List.Subset.trans (subset_append_left _ _) (ih h)

theorem header_mem_log (h : attrLoop msg addrLen m work k s = some s') (hleft : rtattrLen ≤ s.buflen.toNat) :
    .header s.off 2 ∈ s'.log := by
  cases k with
  | zero => cases h
  | succ =>
    rw [attrLoop] at h
    by_cases hbad : leU16 m s.off < rtattrLen ∨ s.buflen.toNat < leU16 m s.off
    · rw [attrStep_bad hleft hbad] at h
      cases h
      exact mem_append_right _ mem_cons_self
    · rw [not_or, Nat.not_lt, Nat.not_lt] at hbad
      rw [attrStep_next hbad.1 hbad.2] at h
      exact log_attrLoop h (mem_append_right _ mem_cons_self)

theorem toNat_buflen_next {len : ℕ} {b : UInt32} (h : align len ≤ b.toNat) :
    (b - UInt32.ofNat (align len)).toNat = b.toNat - align len := by
  have hb := b.toNat_lt
  have hlen : (UInt32.ofNat (align len)).toNat = align len := UInt32.toNat_ofNat_of_lt' (lt_of_le_of_lt h hb)
  rw [UInt32.toNat_sub_of_le, hlen]
  rw [UInt32.le_iff_toNat_le, hlen]
  exact h

theorem toNat_buflen_wrap {len : ℕ} {b : UInt32} (hle : len ≤ b.toNat) (h : b.toNat < align len) :
    rtattrLen ≤ (b - UInt32.ofNat (align len)).toNat := by
  have hb := b.toNat_lt
  have halign : align len < len + 4 := by
    rw [align]
    omega
  rw [UInt32.toNat_sub, UInt32.toNat_ofNat']
  rw [rtattrLen]
  omega

theorem StopsInside.in_message (h : StopsInside msg addrLen m n p) : p + 2 ≤ n := by
  induction h with
  | bad hin => exact hin
  | @last p hin =>
    rw [rtattrLen] at hin
    omega
  | @next p hlen hfits hnext ih => omega

/-- **A loop that stays inside is stopped by the message.** -/
theorem stopsInside_of_attrLoop (h : attrLoop msg addrLen m work k s = some s') (hin : ∀ a ∈ s'.log, a.Inside n)
    (hinv : s.off + s.buflen.toNat = n + msg.metaLen) (hleft : rtattrLen ≤ s.buflen.toNat) :
    StopsInside msg addrLen m n s.off := by
  induction k generalizing s with
  | zero => cases h
  | succ k ih =>
    have hheader : s.off + 2 ≤ n := hin _ (header_mem_log h hleft)
    rw [attrLoop] at h
    by_cases hbad : leU16 m s.off < rtattrLen ∨ s.buflen.toNat < leU16 m s.off
    · exact .bad hheader (hbad.imp_right fun hlt => by omega)
    rw [not_or, Nat.not_lt, Nat.not_lt] at hbad
    obtain ⟨hlen, hle⟩ := hbad
    rw [attrStep_next hlen hle] at h
    replace h : attrLoop msg addrLen m work k (s.next msg addrLen m work) = some s' := h
    obtain ⟨hboth, hfits⟩ := attrAccesses_inside.1 fun a ha => hin a (log_attrLoop h (mem_append_right _ ha))
    by_cases hwrap : s.buflen.toNat < align (leU16 m s.off)
    · -- the length is wrapped around, and the next header is behind the message
      have hnext : s.off + align (leU16 m s.off) + 2 ≤ n := hin _ (header_mem_log h (toNat_buflen_wrap hle hwrap))
      omega
    have hrest := toNat_buflen_next (Nat.not_lt.1 hwrap)
    by_cases hmore : rtattrLen ≤ (s.buflen - UInt32.ofNat (align (leU16 m s.off))).toNat
    · refine .next hlen hfits (ih h ?_ hmore)
      show s.off + align (leU16 m s.off) + (s.buflen - UInt32.ofNat (align (leU16 m s.off))).toNat = _
      omega
    · exact .last hboth hlen (by omega) (by omega) hfits

/-- **A message that stops the loop** keeps it inside. -/
theorem StopsInside.attrLoop (h : StopsInside msg addrLen m n p) (hp : s.off = p)
    (hinv : p + s.buflen.toNat = n + msg.metaLen) (hlog : ∀ a ∈ s.log, a.Inside n) :
    ∃ k s', Ipacm.attrLoop msg addrLen m work k s = some s' ∧ ∀ a ∈ s'.log, a.Inside n := by
  have hmeta : rtattrLen < msg.metaLen := by
    cases msg <;> decide
  have hadd : ∀ l, (∀ a ∈ l, a.Inside n) → ∀ a ∈ s.log ++ l, AttrAccess.Inside n a := fun l hl a ha =>
    (mem_append.1 ha).elim (hlog a) (hl a)
  induction h generalizing s with
  | @bad p hin hlen =>
    subst hp
    refine ⟨1, s.reads (.header s.off 2), ?_, hadd _ fun a ha => ?_⟩
    · rw [Ipacm.attrLoop, attrStep_bad (by omega) (hlen.imp_right fun hlt => by omega)]
      rfl
    · obtain rfl := mem_singleton.1 ha
      exact hin
  | @last p hin hlen hle hend hfits =>
    subst hp
    have halign := le_align (leU16 m s.off)
    have hrest : (s.next msg addrLen m work).buflen.toNat = s.buflen.toNat - align (leU16 m s.off) :=
      toNat_buflen_next (by omega)
    refine ⟨2, s.next msg addrLen m work, ?_, hadd _ (attrAccesses_inside.2 ⟨hin, hfits⟩)⟩
    rw [Ipacm.attrLoop, attrStep_next hlen (by omega)]
    show Ipacm.attrLoop msg addrLen m work 1 (s.next msg addrLen m work) = _
    rw [Ipacm.attrLoop, attrStep_short (by omega)]
    rfl
  | @next p hlen hfits hnext ih =>
    subst hp
    have hin := hnext.in_message
    have halign := le_align (leU16 m s.off)
    have hfour := four_le_align hlen
    have hrest : (s.next msg addrLen m work).buflen.toNat = s.buflen.toNat - align (leU16 m s.off) :=
      toNat_buflen_next (by omega)
    have hlog' := hadd _ (attrAccesses_inside.2 ⟨by omega, hfits⟩)
    obtain ⟨k, s', hrun, hin'⟩ := ih (s := s.next msg addrLen m work) rfl (by omega) hlog'
      fun l hl a ha => (mem_append.1 ha).elim (hlog' a) (hl a)
    refine ⟨k + 1, s', ?_, hin'⟩
    rw [Ipacm.attrLoop, attrStep_next hlen (by omega)]
    exact hrun

/-- **Attribute walks.**  A loop ends and stays inside its message, for every content of the memory, if and only if
the message has no room for an attribute header, or its contents stop the loop. -/
theorem attrs_inside_iff (msg : AttrMsg) (addrLen : ℕ) (m : NlMem) (work : α → ℕ → ℕ → α) (n : UInt32) (info : α) :
    AttrsInside msg addrLen m work n info ↔ nlmsgHdrLen ≤ n.toNat ∧
      (n.toNat < nlmsgHdrLen + rtattrLen ∨ StopsInside msg addrLen m n.toNat (nlmsgHdrLen + msg.metaLen)) := by
  have hlt := n.toNat_lt
  have h16 : (UInt32.ofNat nlmsgHdrLen).toNat = 16 := rfl
  have hbuflen : (attrStart msg n info).buflen.toNat = if 16 ≤ n.toNat then n.toNat - 16 else n.toNat + 2 ^ 32 - 16 := by
    show (n - UInt32.ofNat nlmsgHdrLen).toNat = _
    rw [UInt32.toNat_sub, h16]
    split <;> omega
  rw [nlmsgHdrLen, rtattrLen]
  constructor
  · rintro ⟨k, s, hrun, hin⟩
    by_cases h16 : 16 ≤ n.toNat
    · rw [if_pos h16] at hbuflen
      refine ⟨h16, ?_⟩
      by_cases h20 : n.toNat < 20
      · exact .inl h20
      refine .inr (stopsInside_of_attrLoop hrun hin ?_ ?_)
      · show 16 + msg.metaLen + (attrStart msg n info).buflen.toNat = _
        omega
      · rw [rtattrLen]
        omega
    -- the length of the header is wrapped around
    rw [if_neg h16] at hbuflen
    have hheader : 16 + msg.metaLen + 2 ≤ n.toNat := hin _ (header_mem_log hrun (by rw [rtattrLen]; omega))
    omega
  rintro ⟨h16, hcond⟩
  rw [if_pos h16] at hbuflen
  rcases hcond with _ | hstops
  · refine ⟨1, attrStart msg n info, ?_, nofun⟩
    rw [attrLoop, attrStep_short (by rw [rtattrLen]; omega)]
    rfl
  · exact hstops.attrLoop rfl (by omega) nofun

/-- **Attributes that fill their message** do not stop the loop. -/
theorem not_stopsInside_of_laid {ns : List ℕ} (h : Laid rtattrLen (leU16 m) p ns) (hsum : p + ns.sum = n) :
    ¬StopsInside msg addrLen m n p := by
  have hmeta : rtattrLen < msg.metaLen := by
    cases msg <;> decide
  induction ns generalizing p with
  | nil =>
    intro hstops
    have hin := hstops.in_message
    rw [sum_nil] at hsum
    omega
  | cons len ns ih =>
    obtain ⟨_, rfl, hrest⟩ := h
    rw [sum_cons] at hsum
    have halign := le_align (leU16 m p)
    intro hstops
    cases hstops with
    | bad hin hbad | last hin hlen' hle hend hfits => omega
    | next hlen' hfits hnext => exact ih hrest (by omega) hnext

/-! ### The decoders -/

def AttrMsg.Info : AttrMsg → Type
  | .addr => NlAddrInfo
  | .neigh => NlNeighInfo
  | .route => NlRouteInfo

/-- The work on an attribute. -/
def AttrMsg.attr (m : NlMem) : (msg : AttrMsg) → msg.Info → ℕ → ℕ → msg.Info
  | .addr, (info : NlAddrInfo), type, data =>
    if type = 1 then { info with prefixAddr := ⟨info.family, addrWords m data⟩ } else info
  | .neigh, (info : NlNeighInfo), type, data =>
    if type = 1 then { info with localAddr := ⟨info.family, addrWords m data⟩ }
    else if type = 2 then { info with lladdr := macBytes m data }
    else info
  | .route, (info : NlRouteInfo), type, data =>
    if type = 1 then { info with dstAddr := ⟨info.family, addrWords m data⟩, hasDst := true }
    else if type = 5 then { info with hasGateway := true }
    else if type = 4 then { info with oifIndex := UInt32.ofNat (leU32 m data) }
    else info

/-- A message of 32 bytes with one attribute, an address of four bytes, at its end; of the rest of the memory only
zeros. -/
def addrMessage : NlMem := fun i => [8, 0, 1, 0, 192, 168, 225, 1].getD (i - 24) 0

/-- The address alone is the whole payload, but a copy takes what the field holds, and after the attribute the loop
looks for another one. -/
theorem attrs_inside_fails :
    ¬AttrsInside .addr 126 addrMessage (AttrMsg.attr addrMessage .addr) 32 NlMsg.zero.addr := by
  rintro ⟨k, s, hrun, hin⟩
  have hlaid : Laid rtattrLen (leU16 addrMessage) 24 [8] := ⟨by decide, by decide, trivial⟩
  exact not_stopsInside_of_laid hlaid rfl (stopsInside_of_attrLoop hrun hin rfl (by decide))

end

end G4Common.Ipacm
