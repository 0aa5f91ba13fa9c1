/-
What `collect_ram_dumps()` does if the target tells the truth about its sizes.

`DumpSound` is what the function is for: the table is read inside, nothing is copied or written that was not
received, and at the end each region is in its file, every byte from its address.  None of this is checked, so
it depends on the target.  `DumpOk` says for one step what the target and the file system must do; in a run
of such steps `DumpSound` holds in every state (`ram_dump_sound`).  A response that claims four bytes and has
none is enough to break it (`ram_dump_short_response`).
-/
import G4Common.MdmTransfer.RamDump

namespace G4Common.MdmTransfer

open Broadcast Function List Option

/-! ### What is stated -/

/-- The byte of a packet at an index. -/
def packetByte (p : List Byte) (i : ℕ) : Byte := p.getD i 0

def respData (u : Bool) (p : List Byte) : List Byte :=
  (p.drop (respHeader u)).take (respLength u (packetByte p)).toNat

/-- A region is in its file: each byte is one that the target returned for its address. -/
def RegionSaved (fopen : List Byte → Option ℕ) (st : DumpState) (d : RegionDump) : Prop :=
  openFile fopen d.region.filename = some d.file ∧ (st.files d.file).length = d.region.length.toNat ∧
    ∀ k, k < d.region.length.toNat → ∃ p ∈ d.packets, ∃ j b,
      (respData (unframed st.protocolVersion) p)[j]? = some b ∧ (st.files d.file)[k]? = some b ∧
        respAddress (unframed st.protocolVersion) (packetByte p) + BitVec.ofNat 32 j =
          d.region.base + BitVec.ofNat 32 k

/-- What `collect_ram_dumps()` is for. -/
structure DumpSound (fopen : List Byte → Option ℕ) (st : DumpState) : Prop where
  table : st.phase ≠ .fault .table
  copy : st.phase ≠ .fault .copy
  write : st.phase ≠ .fault .write
  copied : st.table.size = 0 ∨ 3 + st.table.size ≤ st.infoPacket.length ∧
    st.table.slice 0 st.table.size = (st.infoPacket.drop 3).take st.table.size
  written : ∀ w ∈ st.writes, w.2 <:+: w.1
  saved : st.phase = .returned true → ∃ regs, regions st.table st.table.size 0 = some regs ∧
    st.done.map RegionDump.region = regs ∧ ∀ d ∈ st.done, RegionSaved fopen st d

/-! ### The condition on a step -/

/-- The table was received as a whole with its records, and no two of them have the same file. -/
def InfoCond (fopen : List Byte → Option ℕ) (st : DumpState) (x : DumpRound) : Prop :=
  ∀ d, x.answer ≠ none → ahdlc.unstuff (ackBuffer st.rx x.answer) = some d →
    d.head? = some dloadCmdMemDbgInfoResp →
      (ahdlc.stuff d).length < (x.answer.bytes st.rx.size).length ∧
      3 + regionsListDataSize (packetByte d) ≤ d.length ∧
      ∃ regs, regions (CArray.ofList ((d.drop 3).take (regionsListDataSize (packetByte d))))
          (regionsListDataSize (packetByte d)) 0 = some regs ∧
        regs.Pairwise fun r s => openFile fopen r.filename = openFile fopen s.filename →
          openFile fopen r.filename = none

/-- A response has the data that it claims, not more than is still to be read, and they can be written. -/
def RespCond (st : DumpState) (x : DumpRound) : Prop :=
  let u := unframed st.protocolVersion
  let p := respPacket u st.rx x
  (u = true → x.answer ≠ none → p ≠ []) ∧ (p.head? = some (respCmd u) → respHeader u ≤ p.length ∧
      (respAddress u (packetByte p) = st.currentBaseAddress →
        respHeader u + (respLength u (packetByte p)).toNat ≤ p.length ∧
        (respLength u (packetByte p)).toNat ≤ st.currentLength.toNat ∧
        (respLength u (packetByte p)).toNat ≤ x.room))

def DumpOk (fopen : List Byte → Option ℕ) (st : DumpState) (x : DumpRound) : Prop :=
  (st.phase = .info → InfoCond fopen st x) ∧ (st.phase = .reading → RespCond st x)

/-! ### What the readers leave in the buffer -/

variable {u : Bool} {rx rx' t : CArray Byte} {d l p : List Byte} {rs : List Region} {f i k n : ℕ}

theorem length_lt_of_unstuff (h : ahdlc.unstuff l = some d) : d.length < l.length := by
  obtain ⟨_, rfl⟩ := Stuffing.eq_of_unstuff h
  have hlt := length_lt_length_wrap d
  simp only [wrap, length_cons, length_append, length_nil] at hlt ⊢
  omega

/-- A packet is at the beginning of a buffer. -/
def HoldsPacket (rx : CArray Byte) (p : List Byte) : Prop := p.length ≤ rx.size ∧ rx.slice 0 p.length = p

theorem Decoded.holdsPacket {a a' : CArray Byte} (h : Decoded a 0 0 d a') (hn : n ≤ a.size)
    (hu : ahdlc.unstuff (a.slice 0 n) = some d) : HoldsPacket a' d := by
  have hlt := length_lt_of_unstuff hu
  rw [CArray.length_slice] at hlt
  refine ⟨by rw [h.size_eq]; omega, ?_⟩
  have hs := h.slice_eq
  rwa [Nat.add_zero] at hs

theorem HoldsPacket.packetByte_eq (h : HoldsPacket rx p) (hi : i < p.length) : packetByte p i = rx.get i := by
  have hget : p[i]? = some (rx.get i) := by
    conv_lhs => rw [← h.2]
    rw [CArray.getElem?_slice i hi, Nat.zero_add]
  rw [packetByte, getD_eq_getElem?_getD, hget]
  rfl

theorem HoldsPacket.slice_eq (h : HoldsPacket rx p) (hn : i + n ≤ p.length) : rx.slice i n = (p.drop i).take n := by
  conv_rhs => rw [← h.2]
  rw [CArray.drop_slice, Nat.zero_add, show p.length - i = n + (p.length - i - n) by omega, CArray.slice_add,
    take_left' CArray.length_slice]

theorem readPkt_eq_true {cmd : Byte} (hcmd : cmd ≠ ahdlcFlag) {r : RxAnswer}
    (h : readPkt true cmd rx r = some (rx', true)) :
    r ≠ none ∧ ∃ d, ahdlc.unstuff (ackBuffer rx r) = some d ∧ d.head? = some cmd ∧ HoldsPacket rx' d := by
  cases r with
  | none => simp [readPkt, rxData] at h
  | some bytes =>
    obtain ⟨a, k, hrx, -, hbuf⟩ := rxData_ackBuffer rx bytes
    rw [readPkt, hrx, bind_some] at h
    obtain ⟨d, hsent, hhead, hd⟩ := decoded_of_checkFirst hcmd h
    have hu := sent_true_prefix_iff.1 hsent
    refine ⟨by simp, d, ?_, hhead, hd.holdsPacket le_rfl hu⟩
    rw [← hbuf, hu]

theorem readUnframedMemReadResp_eq_true {r : RxAnswer}
    (h : readUnframedMemReadResp rx r = some (rx', true)) (hne : r ≠ none → r.bytes rx.size ≠ []) :
    (r.bytes rx.size).head? = some dloadCmdMemUnframedReadResp ∧ HoldsPacket rx' (r.bytes rx.size) := by
  cases r with
  | none => simp [readUnframedMemReadResp, rxData] at h
  | some bytes =>
    have hroom : 0 + rx.size ≤ rx.size := Nat.le_of_eq (Nat.zero_add _)
    obtain ⟨a, hrx, hsize, hslice, -⟩ := rxData_some bytes hroom
    have hle : (RxAnswer.bytes (some bytes) rx.size).length ≤ a.size := by
      rw [RxAnswer.bytes, length_take, hsize]
      omega
    rw [readUnframedMemReadResp, hrx, bind_some] at h
    obtain ⟨b, hb, h⟩ := map_eq_some_iff.1 h
    simp only [Prod.mk.injEq, decide_eq_true_eq] at h
    obtain ⟨rfl, rfl⟩ := h
    refine ⟨?_, hle, hslice⟩
    obtain ⟨c, l, hcl⟩ := exists_cons_of_ne_nil (hne (by simp))
    rw [hcl] at hslice hle ⊢
    rw [length_cons, CArray.slice_succ, cons.injEq] at hslice
    rw [CArray.read_of_lt (by simp at hle; omega), hslice.1, some.injEq] at hb
    rw [hb]
    rfl

theorem readMemReadResp_eq_true {x : DumpRound} (h : readMemReadResp rx x.answers = some (rx', true)) :
    (respPacket false rx x).head? = some dloadCmdMemReadResp ∧ HoldsPacket rx' (respPacket false rx x) := by
  rw [readMemReadResp] at h
  obtain ⟨⟨a, res⟩, hrx, h⟩ := bind_eq_some_iff.1 h
  cases res with
  | none => simp at h
  | some m =>
    obtain ⟨⟨hm, hle, hflag⟩, -⟩ :=
      (@dloadRxData_received rx _ [] (rx.slice 0 rx.size) rfl (Nat.zero_le _)).1 a m hrx
    obtain ⟨d, hsent, hhead, hd⟩ := decoded_of_checkFirst (by decide) h
    have hu := sent_true_prefix_iff.1 hsent
    -- The text ends in what was read, not in what was there before.
    have hread : ahdlc.unstuff (a.slice 0 m) = some d := (wrap_prefix_cons.1 ((unstuff_slice hm hle hflag).1 hu)).2
    have hpacket : respPacket false rx x = d := by
      rw [respPacket, if_neg (by simp), hrx]
      simp only [hread, getD_some]
    rw [hpacket]
    exact ⟨hhead, hd.holdsPacket le_rfl hu⟩

theorem readResp_eq_true {x : DumpRound}
    (h : readResp u rx x = some (rx', true)) (hne : u → x.answer ≠ none → respPacket u rx x ≠ []) :
    (respPacket u rx x).head? = some (respCmd u) ∧ HoldsPacket rx' (respPacket u rx x) := by
  cases u with
  | true => exact readUnframedMemReadResp_eq_true h (hne rfl)
  | false => exact readMemReadResp_eq_true h

theorem HoldsPacket.respAddress_eq (h : HoldsPacket rx p)
    (hp : respHeader u ≤ p.length) : respAddress u rx.get = respAddress u (packetByte p) := by
  cases u with
  | true =>
    have hp : 12 ≤ p.length := hp
    simp only [respAddress, if_true]
    rw [h.packetByte_eq (by omega), h.packetByte_eq (by omega), h.packetByte_eq (by omega),
      h.packetByte_eq (by omega)]
  | false =>
    have hp : 7 ≤ p.length := hp
    simp only [respAddress, Bool.false_eq_true, if_false]
    rw [h.packetByte_eq (by omega), h.packetByte_eq (by omega), h.packetByte_eq (by omega),
      h.packetByte_eq (by omega)]

theorem HoldsPacket.respLength_eq (h : HoldsPacket rx p)
    (hp : respHeader u ≤ p.length) : respLength u rx.get = respLength u (packetByte p) := by
  cases u with
  | true =>
    have hp : 12 ≤ p.length := hp
    simp only [respLength, if_true]
    rw [h.packetByte_eq (by omega), h.packetByte_eq (by omega), h.packetByte_eq (by omega),
      h.packetByte_eq (by omega)]
  | false =>
    have hp : 7 ≤ p.length := hp
    simp only [respLength, Bool.false_eq_true, if_false]
    rw [h.packetByte_eq (by omega), h.packetByte_eq (by omega)]

/-! ### Packets for consecutive addresses -/

/-- The packets are for addresses from `a` on, each where the one before it ends. -/
def Consecutive (u : Bool) : BitVec 32 → List (List Byte) → Prop
  | _, [] => True
  | a, p :: ps =>
    respAddress u (packetByte p) = a ∧ Consecutive u (a + BitVec.ofNat 32 (respData u p).length) ps

theorem consecutive_concat {a : BitVec 32} {ps : List (List Byte)} :
    Consecutive u a (ps ++ [p]) ↔ Consecutive u a ps ∧
      respAddress u (packetByte p) = a + BitVec.ofNat 32 (ps.map (respData u)).flatten.length := by
  induction ps generalizing a with
  | nil => simp [Consecutive]
  | cons _ _ ih =>
    rw [cons_append, Consecutive, ih, Consecutive, map_cons, flatten_cons, length_append,
      BitVec.ofNat_add, BitVec.add_assoc, and_assoc]

theorem Consecutive.getElem? {a : BitVec 32} {ps : List (List Byte)} (h : Consecutive u a ps)
    (hk : k < (ps.map (respData u)).flatten.length) :
    ∃ p ∈ ps, ∃ j b, (respData u p)[j]? = some b ∧ (ps.map (respData u)).flatten[k]? = some b ∧
      respAddress u (packetByte p) + BitVec.ofNat 32 j = a + BitVec.ofNat 32 k := by
  induction ps generalizing a k with
  | nil => simp at hk
  | cons p ps ih =>
    rw [map_cons, flatten_cons] at hk ⊢
    rcases Nat.lt_or_ge k (respData u p).length with hlt | hge
    · refine ⟨p, .head _, k, (respData u p)[k], getElem?_eq_getElem hlt, ?_, by rw [h.1]⟩
      rw [getElem?_append_left hlt, getElem?_eq_getElem hlt]
    rw [length_append] at hk
    obtain ⟨q, hq, j, b, hj, hb, haddr⟩ := ih h.2 (k := k - (respData u p).length) (by omega)
    refine ⟨q, .tail _ hq, j, b, hj, ?_, ?_⟩
    · rw [getElem?_append_right hge, hb]
    · rw [haddr, BitVec.add_assoc, ← BitVec.ofNat_add, Nat.add_sub_of_le hge]

/-! ### The invariant -/

/-- A region of which `n` bytes are missing in its file. -/
structure Partly (fopen : List Byte → Option ℕ) (u : Bool) (files : ℕ → List Byte) (d : RegionDump) (n : ℕ) :
    Prop where
  opened : openFile fopen d.region.filename = some d.file
  contents : files d.file = (d.packets.map (respData u)).flatten
  missing : (d.packets.map (respData u)).flatten.length + n = d.region.length.toNat
  consecutive : Consecutive u d.region.base d.packets

theorem Partly.regionSaved {fopen : List Byte → Option ℕ} {st : DumpState} {d : RegionDump}
    (h : Partly fopen (unframed st.protocolVersion) st.files d 0) : RegionSaved fopen st d := by
  have hlen := h.missing
  refine ⟨h.opened, ?_, ?_⟩
  · rw [h.contents]
    omega
  · intro k _
    rw [h.contents]
    exact h.consecutive.getElem? (by omega)

/-- The part of `DumpSound` about single accesses. -/
structure Inside (st : DumpState) : Prop where
  copied : st.table.size = 0 ∨ 3 + st.table.size ≤ st.infoPacket.length ∧
    st.table.slice 0 st.table.size = (st.infoPacket.drop 3).take st.table.size
  written : ∀ w ∈ st.writes, w.2 <:+: w.1

/-- The regions of the table are those that are done, and `rest`. -/
structure Progress (fopen : List Byte → Option ℕ) (st : DumpState) (rest : List Region) : Prop extends
    Inside st where
  parsed : regions st.table st.table.size 0 = some (st.done.map RegionDump.region ++ rest)
  different : (st.done.map RegionDump.region ++ rest).Pairwise fun r s =>
    openFile fopen r.filename = openFile fopen s.filename → openFile fopen r.filename = none
  saved : ∀ d ∈ st.done, Partly fopen (unframed st.protocolVersion) st.files d 0

/-- The state in the inner loop. -/
structure Reading (fopen : List Byte → Option ℕ) (st : DumpState) : Prop where
  progress : ∃ rest k, Progress fopen st (st.cur.region :: rest) ∧ regions st.table k st.i = some rest
  cur : Partly fopen (unframed st.protocolVersion) st.files st.cur st.currentLength.toNat
  address : st.currentBaseAddress = st.cur.region.base +
    BitVec.ofNat 32 (st.cur.packets.map (respData (unframed st.protocolVersion))).flatten.length

/-- The invariant. -/
structure DumpInv (fopen : List Byte → Option ℕ) (st : DumpState) : Prop extends Inside st where
  start : st.phase = .param ∨ st.phase = .info → st.table.size = 0 ∧ st.done = []
  reading : st.phase = .reading → Reading fopen st
  complete : st.phase = .returned true → Progress fopen st []
  fault : ∀ f, st.phase = .fault f → f = .buffer

theorem DumpInv.sound {fopen : List Byte → Option ℕ} {st : DumpState} (h : DumpInv fopen st) : DumpSound fopen st where
  table hf := by cases h.fault _ hf
  copy hf := by cases h.fault _ hf
  write hf := by cases h.fault _ hf
  copied := h.copied
  written := h.written
  saved hret := by
    have hp := h.complete hret
    refine ⟨_, hp.parsed, (append_nil _).symm, ?_⟩
    intro d hd
    exact (hp.saved d hd).regionSaved

theorem DumpInv.of_inside {fopen : List Byte → Option ℕ} {st : DumpState} (h : Inside st)
    (hphase : st.phase = .returned false ∨ st.phase = .fault .buffer) : DumpInv fopen st where
  toInside := h
  start hs := by rcases hphase with hp | hp <;> simp [hp] at hs
  reading hs := by rcases hphase with hp | hp <;> simp [hp] at hs
  complete hs := by rcases hphase with hp | hp <;> simp [hp] at hs
  fault f hs := by
    rcases hphase with hp | hp
    · simp [hp] at hs
    · rw [hp, DumpPhase.fault.injEq] at hs
      exact hs.symm

/-! ### The outer loop -/

variable {fopen : List Byte → Option ℕ} {st : DumpState} {x : DumpRound}

theorem regions_eq_nil (h : regions t k i = some []) : t.size ≤ i := by
  by_contra hlt
  rw [not_le] at hlt
  cases k with
  | zero => simp [regions, hlt] at h
  | succ =>
    rw [regions, if_pos hlt] at h
    obtain ⟨_, -, h⟩ := bind_eq_some_iff.1 h
    simp at h

theorem regions_eq_cons {r : Region} (h : regions t k i = some (r :: rs)) :
    i < t.size ∧ ∃ j l, readRecord t i = some (r, j) ∧ regions t l j = some rs := by
  cases k with
  | zero =>
    rw [regions] at h
    split at h <;> cases h
  | succ k =>
    rw [regions] at h
    split_ifs at h with hlt
    · obtain ⟨⟨_, j⟩, hrec, h⟩ := bind_eq_some_iff.1 h
      obtain ⟨_, hrs, h⟩ := map_eq_some_iff.1 h
      obtain ⟨rfl, rfl⟩ := cons_eq_cons.1 h
      exact ⟨hlt, j, k, hrec, hrs⟩
    · cases h

theorem length_regions_le (h : regions t k i = some rs) : rs.length ≤ k := by
  induction k generalizing i rs with
  | zero =>
    rw [regions] at h
    split at h
    · cases h
    · cases h
      exact le_rfl
  | succ _ ih =>
    rw [regions] at h
    split at h
    · obtain ⟨⟨r, j⟩, -, h⟩ := bind_eq_some_iff.1 h
      obtain ⟨_, hrs, rfl⟩ := map_eq_some_iff.1 h
      exact Nat.succ_le_succ (ih hrs)
    · cases h
      exact Nat.zero_le _

section

variable {r : Region} (h : Progress fopen st (r :: rs)) (hf : openFile fopen r.filename = some f)
include h hf

theorem Progress.file_ne {d : RegionDump} (hd : d ∈ st.done) : d.file ≠ f := by
  rintro rfl
  have hopen := (h.saved d hd).opened
  have hpair := (pairwise_append.1 h.different).2.2 d.region (mem_map_of_mem hd) r (.head _)
  rw [hopen, hf] at hpair
  exact nomatch hpair rfl

theorem Progress.update_file (l : List Byte) {st' : DumpState}
    (hfiles : st'.files = update st.files f l) (htable : st'.table = st.table)
    (hdone : st'.done = st.done) (hversion : st'.protocolVersion = st.protocolVersion) (hinside : Inside st') :
    Progress fopen st' (r :: rs) where
  toInside := hinside
  parsed := by
    rw [htable, hdone]
    exact h.parsed
  different := by
    rw [hdone]
    exact h.different
  saved := by
    intro d hd
    rw [hdone] at hd
    have hp := h.saved d hd
    rw [hversion, hfiles]
    refine ⟨hp.opened, ?_, hp.missing, hp.consecutive⟩
    rw [update_of_ne (h.file_ne hf hd)]
    exact hp.contents

end

theorem Progress.concat_done (h : Progress fopen st (st.cur.region :: rs))
    (hcur : Partly fopen (unframed st.protocolVersion) st.files st.cur 0) :
    Progress fopen { st with done := st.done ++ [st.cur] } rs where
  copied := h.copied
  written := h.written
  parsed := by
    rw [map_append, append_assoc]
    exact h.parsed
  different := by
    rw [map_append, append_assoc]
    exact h.different
  saved := by
    intro d hd
    rcases mem_append.1 hd with hd | hd
    · exact h.saved d hd
    · rw [mem_singleton.1 hd]
      exact hcur

/-- **The outer loop** reaches the next region with something to be read, or the end. -/
theorem nextRegion_inv {rest : List Region} {fuel : ℕ} (hp : Progress fopen st rest)
    (hrest : regions st.table k st.i = some rest) (hfuel : rest.length < fuel) :
    DumpInv fopen (nextRegion fopen fuel st) := by
  induction rest generalizing st k fuel with
  | nil =>
    obtain ⟨fuel, rfl⟩ := Nat.exists_eq_succ_of_ne_zero (Nat.ne_of_gt hfuel)
    rw [nextRegion, if_neg (Nat.not_lt.2 (regions_eq_nil hrest))]
    refine ⟨⟨hp.copied, hp.written⟩, by simp, by simp, fun _ => ?_, by simp⟩
    exact ⟨⟨hp.copied, hp.written⟩, hp.parsed, hp.different, hp.saved⟩
  | cons r rs ih =>
    obtain ⟨fuel, rfl⟩ := Nat.exists_eq_succ_of_ne_zero (by omega : fuel ≠ 0)
    obtain ⟨hlt, j, l, hrec, hrs⟩ := regions_eq_cons hrest
    rw [nextRegion, if_pos hlt, hrec]
    cases hopen : openFile fopen r.filename with
    | none =>
      simp only [hopen]
      exact DumpInv.of_inside ⟨hp.copied, hp.written⟩ (.inl rfl)
    | some f =>
      simp only [hopen]
      -- The file is empty when it is opened.
      have hnew : Partly fopen (unframed st.protocolVersion) (update st.files f []) ⟨r, f, []⟩
          r.length.toNat := by
        refine ⟨hopen, ?_, ?_, trivial⟩
        · rw [update_self]
          rfl
        · simp
      split
      · refine ⟨⟨hp.copied, hp.written⟩, by simp, fun _ => ?_, by simp, by simp⟩
        refine ⟨⟨rs, l, ?_, hrs⟩, hnew, ?_⟩
        · exact hp.update_file hopen [] rfl rfl rfl rfl ⟨hp.copied, hp.written⟩
        · simp
      rename_i hzero
      rw [not_not] at hzero
      refine ih ?_ hrs (by simpa using hfuel)
      have hp' : Progress fopen
          { st with i := j, files := update st.files f [], cur := ⟨r, f, []⟩ } (r :: rs) :=
        hp.update_file hopen [] rfl rfl rfl rfl ⟨hp.copied, hp.written⟩
      rw [hzero] at hnew
      have hdone := hp'.concat_done hnew
      exact ⟨⟨hp.copied, hp.written⟩, hdone.parsed, hdone.different, hdone.saved⟩

/-! ### One step -/

theorem DumpInv.of_reading (hphase : st.phase = .reading) (h : Reading fopen st) : DumpInv fopen st where
  toInside := by
    obtain ⟨_, k, hp, -⟩ := h.progress
    exact hp.toInside
  start hs := by simp [hphase] at hs
  reading _ := h
  complete hs := by simp [hphase] at hs
  fault f hs := by simp [hphase] at hs

theorem Reading.buffers (h : Reading fopen st) (misc rx : CArray Byte) :
    Reading fopen { st with misc := misc, rx := rx } where
  progress := by
    obtain ⟨rest, k, hp, hrest⟩ := h.progress
    exact ⟨rest, k, ⟨⟨hp.copied, hp.written⟩, hp.parsed, hp.different, hp.saved⟩, hrest⟩
  cur := h.cur
  address := h.address

theorem length_respData (h : respHeader u + (respLength u (packetByte p)).toNat ≤ p.length) :
    (respData u p).length = (respLength u (packetByte p)).toNat := by
  rw [respData, length_take, length_drop]
  omega

theorem respData_infix (u : Bool) (p : List Byte) : respData u p <:+: p :=
  ( take_prefix _ _).isInfix.trans (drop_suffix _ _).isInfix

/-- **A response** that has the data that it claims. -/
theorem takeResp_inv (hu : unframed st.protocolVersion = u) {room : ℕ}
    (hphase : st.phase = .reading) (h : Reading fopen st) (hrx : HoldsPacket st.rx p)
    (hheader : respHeader u ≤ p.length)
    (hcond : respAddress u (packetByte p) = st.currentBaseAddress →
      respHeader u + (respLength u (packetByte p)).toNat ≤ p.length ∧
      (respLength u (packetByte p)).toNat ≤ st.currentLength.toNat ∧
      (respLength u (packetByte p)).toNat ≤ room) : DumpInv fopen (takeResp fopen u p room st) := by
  rw [takeResp, hrx.respAddress_eq hheader, hrx.respLength_eq hheader]
  simp only
  split
  · exact DumpInv.of_reading hphase h
  rename_i haddr
  rw [not_not] at haddr
  obtain ⟨hlen, hle, _⟩ := hcond haddr
  have hfit := hrx.1
  rw [if_neg (by omega)]
  -- What is written are the data of the packet.
  have hbytes : (st.rx.slice (respHeader u) (respLength u (packetByte p)).toNat).take room = respData u p := by
    rw [hrx.slice_eq hlen, take_of_length_le]
    · rfl
    · rw [length_take]
      omega
  have hdata := length_respData hlen
  rw [hbytes]
  obtain ⟨rest, k, hp, hrest⟩ := h.progress
  have hsub := BitVec.toNat_sub_of_le hle
  have hflat : ((st.cur.packets ++ [p]).map (respData u)).flatten =
      (st.cur.packets.map (respData u)).flatten ++ respData u p := by
    rw [map_append, flatten_append, map_singleton, flatten_singleton]
  set st' : DumpState :=
    { st with files := update st.files st.cur.file (st.files st.cur.file ++ respData u p),
              writes := st.writes ++ [(p, respData u p)],
              cur := { st.cur with packets := st.cur.packets ++ [p] },
              currentBaseAddress := st.currentBaseAddress + respLength u (packetByte p),
              currentLength := st.currentLength - respLength u (packetByte p) } with hst'
  have hinside : Inside st' := by
    refine ⟨hp.copied, ?_⟩
    intro w hw
    rcases mem_append.1 hw with hw | hw
    · exact hp.written w hw
    · rw [mem_singleton.1 hw]
      exact respData_infix u p
  have hprogress : Progress fopen st' (st'.cur.region :: rest) :=
    hp.update_file h.cur.opened _ rfl rfl rfl rfl hinside
  have hcur : Partly fopen (unframed st'.protocolVersion) st'.files st'.cur st'.currentLength.toNat := by
    have hold := h.cur
    rw [hu] at hold
    have hmissing := hold.missing
    have haddress := h.address
    rw [hu] at haddress
    show Partly fopen (unframed st.protocolVersion) _ _ _
    rw [hu]
    refine ⟨hold.opened, ?_, ?_, ?_⟩
    · show update st.files st.cur.file _ st.cur.file = _
      rw [update_self, hflat, hold.contents]
    · show ((st.cur.packets ++ [p]).map (respData u)).flatten.length +
        (st.currentLength - respLength u (packetByte p)).toNat = st.cur.region.length.toNat
      rw [hflat, length_append, hdata, hsub]
      omega
    · refine consecutive_concat.2 ⟨hold.consecutive, ?_⟩
      rw [haddr, haddress]
  split
  · refine DumpInv.of_reading hphase ⟨⟨rest, k, hprogress, hrest⟩, hcur, ?_⟩
    have haddress := h.address
    show st.currentBaseAddress + respLength u (packetByte p) = st.cur.region.base +
      BitVec.ofNat 32 ((st.cur.packets ++ [p]).map (respData (unframed st.protocolVersion))).flatten.length
    rw [hu] at haddress ⊢
    rw [hflat, length_append, hdata, BitVec.ofNat_add, BitVec.ofNat_toNat, BitVec.setWidth_eq, haddress,
      BitVec.add_assoc]
  rename_i hzero
  have hzero' : st'.currentLength = 0 := not_not.1 hzero
  rw [hzero'] at hcur
  have hlen := length_regions_le hp.parsed
  rw [length_append, length_cons] at hlen
  exact nextRegion_inv (hprogress.concat_done hcur) hrest (by show rest.length < st.table.size + 1; omega)

/-- A step that returns, or that reads behind the buffer, leaves the rest as it is. -/
theorem Inside.stop (h : Inside st) {misc rx phase} (hphase : phase = .returned false ∨ phase = .fault .buffer) :
    DumpInv fopen { st with misc := misc, rx := rx, phase := phase } :=
  .of_inside ⟨h.copied, h.written⟩ hphase

/-- **A round of the inner loop.** -/
theorem readStep_inv (hphase : st.phase = .reading) (h : Reading fopen st) (hcond : RespCond st x) :
    DumpInv fopen (readStep fopen st x) := by
  have hinside : Inside st := by
    obtain ⟨_, k, hp, -⟩ := h.progress
    exact hp.toInside
  rw [readStep]
  split
  · exact hinside.stop (.inr rfl)
  · exact hinside.stop (.inl rfl)
  split
  · exact hinside.stop (.inr rfl)
  · split
    · exact hinside.stop (.inr rfl)
    · exact hinside.stop (.inl rfl)
    · exact DumpInv.of_reading hphase (h.buffers _ _)
  rename_i misc _ _ rx hresp
  simp only [RespCond] at hcond
  obtain ⟨hhead, hholds⟩ := readResp_eq_true hresp hcond.1
  obtain ⟨hheader, hlen⟩ := hcond.2 hhead
  have hnew := h.buffers misc rx
  set st' : DumpState := { st with misc := misc, rx := rx } with hst'
  have hu : unframed st'.protocolVersion = unframed st.protocolVersion := by rw [hst']
  exact takeResp_inv hu hphase hnew hholds hheader hlen

theorem unstuff_of_append {m : List Byte} (h : ahdlc.unstuff (l ++ m) = some d)
    (hlt : (ahdlc.stuff d).length < l.length) : ahdlc.unstuff l = some d := by
  rw [Stuffing.unstuff_eq_some_iff] at h ⊢
  obtain ⟨rest, hrest⟩ := h
  have hall : ahdlc.stuff d ++ [ahdlcFlag] <+: l ++ m := by
    rw [hrest]
    exact ⟨rest, by rw [append_assoc]; rfl⟩
  have hpre : ahdlc.stuff d ++ [ahdlcFlag] <+: l := by
    refine prefix_of_prefix_length_le hall (prefix_append l m) ?_
    rw [length_append]
    exact hlt
  obtain ⟨t, ht⟩ := hpre
  exact ⟨t, by rw [← ht, append_assoc]; rfl⟩

theorem HoldsPacket.regionsListDataSize_eq (h : HoldsPacket rx p)
    (hp : 3 ≤ p.length) : regionsListDataSize rx.get = regionsListDataSize (packetByte p) := by
  rw [regionsListDataSize, regionsListDataSize, h.packetByte_eq (by omega), h.packetByte_eq (by omega)]

/-- **The table** is received and copied. -/
theorem infoStep_inv (hinside : Inside st) (hnil : st.table.size = 0) (hdone : st.done = []) (hcond : InfoCond fopen st x) :
    DumpInv fopen (infoStep fopen st x) := by
  rw [infoStep]
  split
  · exact hinside.stop (.inr rfl)
  · exact hinside.stop (.inl rfl)
  split
  · exact hinside.stop (.inr rfl)
  · exact hinside.stop (.inl rfl)
  rename_i misc _ _ rx hresp
  obtain ⟨hanswer, d, hd, hhead, hrx⟩ := readPkt_eq_true (by decide) hresp
  obtain ⟨hreceived, hsize, regs, hregs, hdiff⟩ := hcond d hanswer hd hhead
  have hpacket : (ahdlc.unstuff (x.answer.bytes st.rx.size)).getD [] = d := by
    rw [unstuff_of_append hd hreceived]
    rfl
  have hfit := hrx.1
  rw [hpacket, hrx.regionsListDataSize_eq (by omega)]
  simp only
  rw [hrx.slice_eq hsize]
  set size := regionsListDataSize (packetByte d)
  have hlen : ((d.drop 3).take size).length = size := by
    rw [length_take, length_drop]
    omega
  have htable : (CArray.ofList ((d.drop 3).take size)).size = size := hlen
  have hcopied : (CArray.ofList ((d.drop 3).take size)).slice 0 (CArray.ofList ((d.drop 3).take size)).size =
      (d.drop 3).take (CArray.ofList ((d.drop 3).take size)).size := by
    rw [htable, CArray.slice_ofList _ (by omega), drop_zero, take_take, Nat.min_self]
  split
  · rw [if_neg (by omega)]
    have hprogress : Progress fopen
        { st with misc := misc, rx := rx, infoPacket := d, table := CArray.ofList ((d.drop 3).take size), i := 0 }
        regs := by
      refine ⟨⟨Or.inr ⟨?_, hcopied⟩, hinside.written⟩, ?_, ?_, ?_⟩
      · rw [htable]
        exact hsize
      · rw [hdone, htable]
        exact hregs
      · rw [hdone]
        exact hdiff
      · intro e he
        rw [hdone] at he
        cases he
    refine nextRegion_inv hprogress hregs ?_
    rw [htable]
    exact Nat.lt_succ_of_le (length_regions_le hregs)
  · exact DumpInv.of_inside ⟨Or.inl hnil, hinside.written⟩ (.inl rfl)

theorem paramStep_inv (hinside : Inside st) (hnil : st.table.size = 0) (hdone : st.done = []) :
    DumpInv fopen (paramStep st x) := by
  rw [paramStep]
  split
  · exact hinside.stop (.inr rfl)
  · exact hinside.stop (.inl rfl)
  split
  · exact hinside.stop (.inr rfl)
  · exact hinside.stop (.inl rfl)
  · exact ⟨⟨hinside.copied, hinside.written⟩, fun _ => ⟨hnil, hdone⟩, by simp, by simp, by simp⟩

theorem dumpStep_inv (hcond : DumpOk fopen st x) (h : DumpInv fopen st) : DumpInv fopen (dumpStep fopen st x) := by
  rw [dumpStep]
  split
  · rename_i hphase
    obtain ⟨hnil, hdone⟩ := h.start (.inl hphase)
    exact paramStep_inv h.toInside hnil hdone
  · rename_i hphase
    obtain ⟨hnil, hdone⟩ := h.start (.inr hphase)
    exact infoStep_inv h.toInside hnil hdone (hcond.1 hphase)
  · rename_i hphase
    exact readStep_inv hphase (h.reading hphase) (hcond.2 hphase)
  · exact h
  · exact h

/-! ### Runs -/

/-- **The dumps of a truthful target.**  If in every step the table and the responses are received as a whole and
claim no more than there is, then nothing outside is read or written, and when `collect_ram_dumps()` returns
`TRUE`, each region is in its file. -/
theorem ram_dump_sound (fopen : List Byte → Option ℕ) (misc rx : ℕ → Byte) (files : ℕ → List Byte)
    (xs : List DumpRound) (hok : AllSteps (dumpStep fopen) (DumpOk fopen) (dumpStart misc rx files) xs) :
    DumpSound fopen (collectRamDumps fopen misc rx files xs) := by
  have hstart : DumpInv fopen (dumpStart misc rx files) := by
    refine ⟨⟨Or.inl rfl, ?_⟩, fun _ => ⟨rfl, rfl⟩, ?_, ?_, ?_⟩
    · intro w hw
      cases hw
    · intro hs
      cases hs
    · intro hs
      cases hs
    · intro f hs
      cases hs
  exact (run_invariant (fun _ _ hcond h => dumpStep_inv hcond h) hok hstart).sound

/-- The parameter response of a target with unframed memory reads. -/
def paramRound : DumpRound := ⟨true, [some [0x08#8, 0x07#8, 0x7e#8]], [], true, 4096⟩

/-- A table with one region, of four bytes at address 0. -/
def infoRound : DumpRound :=
  ⟨true, [some [0x11#8, 0, 12, 0, 0, 0, 0, 0, 0, 0, 0, 4, 0, 0x61#8, 0, 0x7e#8]], [], true, 4096⟩

/-- A response with the given data that claims four bytes. -/
def dataRound (data : List Byte) : DumpRound :=
  ⟨true, [some ([0x15#8, 0, 0, 0, 0, 0, 0, 0, 0, 0, 0, 4] ++ data)], [], true, 4096⟩

/-- The response has four bytes. -/
theorem ram_dump_four_bytes :
    AllSteps (dumpStep fun _ => some 0) (DumpOk fun _ => some 0) (dumpStart (fun _ => 0) (fun _ => 0) fun _ => [])
        [paramRound, infoRound, dataRound [1, 2, 3, 4]] ∧
      (collectRamDumps (fun _ => some 0) (fun _ => 0) (fun _ => 0) (fun _ => [])
        [paramRound, infoRound, dataRound [1, 2, 3, 4]]).phase = .returned true ∧
      DumpSound (fun _ => some 0) (collectRamDumps (fun _ => some 0) (fun _ => 0) (fun _ => 0) (fun _ => [])
        [paramRound, infoRound, dataRound [1, 2, 3, 4]]) := by
  have hok : AllSteps (dumpStep fun _ => some 0) (DumpOk fun _ => some 0)
      (dumpStart (fun _ => 0) (fun _ => 0) fun _ => []) [paramRound, infoRound, dataRound [1, 2, 3, 4]] := by
    refine ⟨⟨by simp [dumpStart], by simp [dumpStart]⟩, ⟨fun _ => ?_, fun h => ?_⟩, ⟨fun h => ?_, fun _ => ?_⟩, trivial⟩
    · intro d _ hd _
      have htext : ahdlc.unstuff (ackBuffer (dumpStep (fun _ => some 0)
          (dumpStart (fun _ => 0) (fun _ => 0) fun _ => []) paramRound).rx infoRound.answer) =
            some [0x11#8, 0, 12, 0, 0, 0, 0, 0, 0, 0, 0, 4, 0, 0x61#8, 0] := by decide
      rw [htext, some.injEq] at hd
      subst hd
      exact ⟨by decide, by decide, [⟨0, 4, [0x61#8]⟩], by decide, by decide⟩
    · exact absurd h (by decide)
    · exact absurd h (by decide)
    · unfold RespCond
      decide
  exact ⟨hok, by decide +kernel, ram_dump_sound _ _ _ _ _ hok⟩

/-- The response has no bytes: four bytes are written that were left in `rx_buffer` by the table. -/
theorem ram_dump_short_response : (collectRamDumps (fun _ => some 0) (fun _ => 0) (fun _ => 0) (fun _ => [])
        [paramRound, infoRound, dataRound []]).phase = .returned true ∧
      ¬DumpSound (fun _ => some 0) (collectRamDumps (fun _ => some 0) (fun _ => 0) (fun _ => 0) (fun _ => [])
        [paramRound, infoRound, dataRound []]) := by
  refine ⟨by decide +kernel, ?_⟩
  intro h
  have hw : (collectRamDumps (fun _ => some 0) (fun _ => 0) (fun _ => 0) (fun _ => [])
      [paramRound, infoRound, dataRound []]).writes =
        [([0x15#8, 0, 0, 0, 0, 0, 0, 0, 0, 0, 0, 4], [0x00#8, 0x61#8, 0x00#8, 0x7e#8])] := by decide +kernel
  have hmem := h.written ([0x15#8, 0, 0, 0, 0, 0, 0, 0, 0, 0, 0, 4], [0x00#8, 0x61#8, 0x00#8, 0x7e#8])
    (by rw [hw]; exact mem_singleton_self _)
  revert hmem
  decide

end G4Common.MdmTransfer
