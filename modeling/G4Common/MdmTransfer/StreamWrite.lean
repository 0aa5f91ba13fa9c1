/-
`send_file_stream_write()` of `mdm-helper/mdmfiletransfer/streaming_protocol.c`.

A file is sent in packets of at most `streaming_max_write_length` bytes.  After each packet the response of
the target is read; the next packet is sent only if the response has the packet's address.  Otherwise the
same place of the file is read and sent again.

`total_file_bytes_read` counts what was acknowledged, and nothing else moves it.  So the acknowledged
packets are consecutive pieces of the file (`sendRound_progress`), and the loop ends with `TRUE` only when
the last of them reached the end (`stream_write_exact`).

`size_t`, `int` and `long` have 32 bits: the library is built for `arm` only.
-/
import G4Common.Lib.WordBytes
import G4Common.MdmTransfer.StreamRx

namespace G4Common.MdmTransfer

open List Option

/-! ### The function -/

def streamingCmdStreamWrite : Byte := 0x07#8

def streamingCmdStreamWriteResp : Byte := 0x08#8

/-- `STREAMING_CMD_STREAM_WRITE_RESP_SIZE`. -/
def streamWriteRespSize : ℕ := 5

/-- `streaming_max_write_length`, as the function sets it. -/
def streamingMaxWriteLength : ℕ := 1024

def maxWriteRetry : ℕ := 10

/-- A packet: command, address with the least significant byte first, data. -/
def streamWritePacket (address : BitVec 32) (data : List Byte) : List Byte :=
  streamingCmdStreamWrite :: byteAt address 0 :: byteAt address 1 :: byteAt address 2 :: byteAt address 3 :: data

/-- What happens in one round: whether `fread()` fails, whether the packet can be sent, and what then
comes from the port. -/
structure WriteRound where
  readFails : Bool
  tx : Bool
  answers : List RxAnswer

/-- A packet that was sent, and the response to it if one was read. -/
structure Written where
  packet : List Byte
  response : Option (List Byte)

/-- The variables of the function, the buffers of the port, and what was sent so far. -/
structure WriteState where
  miscBuffer : CArray Byte
  rxBuffer : CArray Byte
  totalFileBytesRead : BitVec 32
  writeAttempts : ℕ
  written : List Written

/-- What is done with a response: `none` if the address is another one and the packet is sent again. -/
def checkResponse (rx : CArray Byte) (resp : StreamResponse) (address : BitVec 32) : Option (Option Bool) :=
  if resp.length < streamWriteRespSize then some (some false)
  else (rx.read resp.start).bind fun cmd =>
    if cmd ≠ streamingCmdStreamWriteResp then some (some false)
    else do
      let b3 ← rx.read (resp.start + 4)
      let b2 ← rx.read (resp.start + 3)
      let b1 ← rx.read (resp.start + 2)
      let b0 ← rx.read (resp.start + 1)
      return if wordOf b3 b2 b1 b0 ≠ address then none else some true

/-- One round of the loop.  It gives what the function returns, or nothing if there is another round.  The end of
the file is reached if `fread()` gives less than it was asked for. -/
def sendRound (file : List Byte) (address : BitVec 32) (st : WriteState) (x : WriteRound) :
    Option (WriteState × Option Bool) :=
  let data := (file.drop st.totalFileBytesRead.toNat).take streamingMaxWriteLength
  let packet := streamWritePacket (address + st.totalFileBytesRead) data
  if x.readFails then some (st, some false)
  else (encodeAndSend packet st.miscBuffer x.tx).bind fun
    | (misc, false) => some ({ st with miscBuffer := misc }, some false)
    | (misc, true) => (streamingRxData (x.answers.length + 1) st.rxBuffer x.answers).bind fun
      | (rx, none) =>
        let st := { st with miscBuffer := misc, rxBuffer := rx, writeAttempts := st.writeAttempts + 1,
                            written := st.written ++ [⟨packet, none⟩] }
        some (st, if st.writeAttempts < maxWriteRetry then none else some false)
      | (rx, some resp) =>
        let st := { st with miscBuffer := misc, rxBuffer := rx, writeAttempts := 0,
                            written := st.written ++ [⟨packet, some (rx.slice resp.start resp.length)⟩] }
        (checkResponse rx resp (address + st.totalFileBytesRead)).map fun
        | none => (st, none)
        | some false => (st, some false)
        | some true =>
          ({ st with totalFileBytesRead := st.totalFileBytesRead + BitVec.ofNat 32 data.length },
            if data.length < streamingMaxWriteLength then some true else none)

/-- The loop; `none` if it is still running after the given rounds. -/
def sendRounds (file : List Byte) (address : BitVec 32) :
    WriteState → List WriteRound → Option (WriteState × Option Bool)
  | st, [] => some (st, none)
  | st, x :: xs => (sendRound file address st x).bind fun
    | (st, none) => sendRounds file address st xs
    | res => some res

/-- `send_file_stream_write()`.  `file` is `none` if `fopen()` fails for some reason; it also fails if the size of
the file is no `off_t`. -/
def sendFileStreamWrite (file : Option (List Byte)) (address : BitVec 32) (miscBuffer rxBuffer : CArray Byte)
    (xs : List WriteRound) : Option (List Written × Option Bool) :=
  match file.filter fun file => file.length < 2 ^ 31 with
  | none => some ([], some false)
  | some file => (sendRounds file address ⟨miscBuffer, rxBuffer, 0, 0, []⟩ xs).map fun res => (res.1.written, res.2)

/-! ### Acknowledged packets -/

/-- The response is one to a stream write, and has the address of the packet. -/
def Written.acknowledged (w : Written) : Bool :=
  match w.response with
  | none => false
  | some r => streamWriteRespSize ≤ r.length ∧ r.head? = some streamingCmdStreamWriteResp ∧
      (r.drop 1).take 4 = (w.packet.drop 1).take 4

/-- The packets that were acknowledged, in order. -/
def acknowledgedPackets (ws : List Written) : List (List Byte) :=
  (ws.filter Written.acknowledged).map Written.packet

/-- Packets for consecutive pieces. -/
def packetsFrom (address : BitVec 32) : ℕ → List (List Byte) → List (List Byte)
  | _, [] => []
  | off, s :: ss => streamWritePacket (address + BitVec.ofNat 32 off) s :: packetsFrom address (off + s.length) ss

theorem packetsFrom_concat (address : BitVec 32) (off : ℕ) (ss : List (List Byte)) (s : List Byte) :
    packetsFrom address off (ss ++ [s]) =
      packetsFrom address off ss ++ [streamWritePacket (address + BitVec.ofNat 32 (off + ss.flatten.length)) s] := by
  induction ss generalizing off with
  | nil => rfl
  | cons _ _ ih =>
    rw [cons_append, packetsFrom, ih, packetsFrom, flatten_cons, length_append, Nat.add_assoc]
    rfl

theorem checkResponse_acknowledged {rx : CArray Byte} {resp : StreamResponse} {address : BitVec 32}
    {r : Option Bool} (h : checkResponse rx resp address = some r) (hr : r ≠ some false) (data : List Byte) :
    (Written.mk (streamWritePacket address data) (some (rx.slice resp.start resp.length))).acknowledged ↔
      r = some true := by
  rw [checkResponse] at h
  split at h
  · exact absurd (some.inj h).symm hr
  rename_i hlen
  obtain ⟨cmd, hcmd, h⟩ := Option.bind_eq_some_iff.1 h
  split at h
  · exact absurd (some.inj h).symm hr
  rename_i hresp
  simp only [Option.pure_def, bind_eq_bind, bind_eq_some_iff, Option.some.injEq] at h
  obtain ⟨b3, h3, b2, h2, b1, h1, b0, h0, rfl⟩ := h
  have hget : ∀ {i b}, rx.read i = some b → rx.get i = b := by
    intro i b hb
    unfold CArray.read at hb
    split at hb
    · exact some.inj hb
    · cases hb
  have hslice : rx.slice resp.start resp.length =
      cmd :: b0 :: b1 :: b2 :: b3 :: rx.slice (resp.start + 5) (resp.length - 5) := by
    have hfive : resp.length = resp.length - 5 + 1 + 1 + 1 + 1 + 1 := by
      rw [streamWriteRespSize] at hlen
      omega
    rw [hfive]
    simp only [CArray.slice_succ, hget hcmd, hget h0, hget h1, hget h2, hget h3, Nat.add_assoc,
      Nat.add_sub_cancel, Nat.reduceAdd]
  have hsize : streamWriteRespSize ≤ (rx.slice resp.start resp.length).length := by
    rw [CArray.length_slice]
    omega
  simp only [Written.acknowledged, hsize, true_and, decide_eq_true_eq]
  rw [hslice]
  simp only [head?_cons, not_not.1 hresp, true_and, drop_one, tail_cons, streamWritePacket,
    take_succ_cons, take_zero, cons.injEq, and_true]
  have hword : wordOf b3 b2 b1 b0 = address ↔ _ := wordOf_eq_iff
  by_cases heq : wordOf b3 b2 b1 b0 = address
  · rw [if_neg (not_not.2 heq)]
    obtain ⟨rfl, rfl, rfl, rfl⟩ := hword.1 heq
    simp
  rw [if_pos heq]
  refine iff_of_false ?_ (by simp)
  rintro ⟨rfl, rfl, rfl, rfl⟩
  exact heq (hword.2 ⟨rfl, rfl, rfl, rfl⟩)

/-! ### The invariant of the loop -/

/-- What was acknowledged are consecutive pieces of the file, and `total_file_bytes_read` is where they end. -/
structure Sending (file : List Byte) (address : BitVec 32) (st : WriteState) : Prop where
  pieces : ∃ segs, acknowledgedPackets st.written = packetsFrom address 0 segs ∧
    segs.flatten = file.take st.totalFileBytesRead.toNat
  total_le : st.totalFileBytesRead.toNat ≤ file.length
  small : ∀ w ∈ st.written, ∃ a data, w.packet = streamWritePacket a data ∧ data.length ≤ streamingMaxWriteLength

variable {file : List Byte} {address : BitVec 32} {st st' : WriteState} {r : Option Bool}

theorem Sending.concat_unacknowledged (h : Sending file address st) {w : Written} (hw : w.acknowledged = false)
    (hsmall : ∃ a data, w.packet = streamWritePacket a data ∧ data.length ≤ streamingMaxWriteLength)
    (htotal : st'.totalFileBytesRead = st.totalFileBytesRead) (hwritten : st'.written = st.written ++ [w]) :
    Sending file address st' := by
  obtain ⟨segs, hack, hsegs⟩ := h.pieces
  refine ⟨⟨segs, ?_, ?_⟩, ?_, ?_⟩
  · rw [hwritten, acknowledgedPackets, filter_append, filter_cons_of_neg (by simp [hw]), filter_nil, append_nil]
    exact hack
  · rw [htotal, hsegs]
  · rw [htotal]
    exact h.total_le
  intro v hv
  rw [hwritten, mem_append, mem_singleton] at hv
  rcases hv with hv | rfl
  · exact h.small v hv
  · exact hsmall

theorem Sending.concat_acknowledged (hfile : file.length < 2 ^ 31) (h : Sending file address st) {w : Written}
    {data : List Byte} (hw : w.acknowledged)
    (hdata : data = (file.drop st.totalFileBytesRead.toNat).take streamingMaxWriteLength)
    (hpacket : w.packet = streamWritePacket (address + st.totalFileBytesRead) data)
    (htotal : st'.totalFileBytesRead = st.totalFileBytesRead + BitVec.ofNat 32 data.length)
    (hwritten : st'.written = st.written ++ [w]) :
    Sending file address st' ∧ st'.totalFileBytesRead.toNat = st.totalFileBytesRead.toNat + data.length := by
  obtain ⟨segs, hack, hsegs⟩ := h.pieces
  have hle := h.total_le
  have hlen : data.length = min streamingMaxWriteLength (file.length - st.totalFileBytesRead.toNat) := by
    rw [hdata, length_take, length_drop]
  have hnat : st'.totalFileBytesRead.toNat = st.totalFileBytesRead.toNat + data.length := by
    rw [htotal, BitVec.toNat_add, BitVec.toNat_ofNat]
    omega
  have hoff : segs.flatten.length = st.totalFileBytesRead.toNat := by
    rw [hsegs, length_take]
    omega
  refine ⟨⟨⟨segs ++ [data], ?_, ?_⟩, by omega, ?_⟩, hnat⟩
  · rw [hwritten, acknowledgedPackets, filter_append, filter_cons_of_pos hw, filter_nil,
      map_append, map_singleton, packetsFrom_concat, hpacket, hoff, Nat.zero_add, BitVec.ofNat_toNat,
      BitVec.setWidth_eq]
    exact congrArg (· ++ _) hack
  · rw [flatten_append, flatten_singleton, hsegs, hnat, take_add, hdata, length_take]
    exact congrArg (_ ++ ·) take_eq_take_min
  intro v hv
  rw [hwritten, mem_append, mem_singleton] at hv
  rcases hv with hv | rfl
  · exact h.small v hv
  · exact ⟨_, data, hpacket, by omega⟩

/-- **One round** keeps the invariant; if it is the last one, the end of the file is reached. -/
theorem sendRound_progress {x : WriteRound} (hfile : file.length < 2 ^ 31) (hst : Sending file address st)
    (h : sendRound file address st x = some (st', r)) (hr : r ≠ some false) :
    Sending file address st' ∧ (r = some true → st'.totalFileBytesRead.toNat = file.length) := by
  simp only [sendRound] at h
  split at h
  · simp only [some.injEq, Prod.mk.injEq] at h
    exact absurd h.2.symm hr
  obtain ⟨⟨_, sent⟩, -, h⟩ := bind_eq_some_iff.1 h
  cases sent with
  | false =>
    simp only [some.injEq, Prod.mk.injEq] at h
    exact absurd h.2.symm hr
  | true =>
    set data := (file.drop st.totalFileBytesRead.toNat).take streamingMaxWriteLength with hdata
    have hsmall : data.length ≤ streamingMaxWriteLength := by
      rw [hdata, length_take]
      omega
    obtain ⟨⟨_, resp⟩, -, h⟩ := bind_eq_some_iff.1 h
    cases resp with
    | none =>
      -- No response: the same packet again, or the end.
      simp only [some.injEq, Prod.mk.injEq] at h
      obtain ⟨rfl, rfl⟩ := h
      refine ⟨hst.concat_unacknowledged rfl ⟨_, data, rfl, hsmall⟩ rfl rfl, ?_⟩
      intro htrue
      split at htrue <;> cases htrue
    | some resp =>
      obtain ⟨c, hc, h⟩ := map_eq_some_iff.1 h
      have hack : c ≠ some false → (_ ↔ c = some true) := fun hne => checkResponse_acknowledged hc hne data
      cases c with
      | none =>
        -- Another address: the same packet again.
        simp only [Prod.mk.injEq] at h
        obtain ⟨rfl, rfl⟩ := h
        refine ⟨hst.concat_unacknowledged ?_ ⟨_, data, rfl, hsmall⟩ rfl rfl, nofun⟩
        exact Bool.eq_false_iff.2 (mt (hack (by simp)).1 (by simp))
      | some c =>
        cases c with
        | false =>
          simp only [Prod.mk.injEq] at h
          exact absurd h.2.symm hr
        | true =>
          simp only [Prod.mk.injEq] at h
          obtain ⟨hst', rfl⟩ := h
          have htotal : st'.totalFileBytesRead = st.totalFileBytesRead + BitVec.ofNat 32 data.length := by
            rw [← hst']
          obtain ⟨hsend, hnat⟩ :=
            hst.concat_acknowledged hfile ((hack (by simp)).2 rfl) hdata rfl htotal (by rw [← hst'])
          refine ⟨hsend, ?_⟩
          intro htrue
          split at htrue
          · rename_i hshort
            have hle := hst.total_le
            rw [hnat]
            rw [hdata, length_take, length_drop] at hshort ⊢
            omega
          · cases htrue

/-- **A run** of the loop. -/
theorem sendRounds_progress {xs : List WriteRound} (hfile : file.length < 2 ^ 31)
    (hst : Sending file address st) (h : sendRounds file address st xs = some (st', r)) (hr : r ≠ some false) :
    Sending file address st' ∧ (r = some true → st'.totalFileBytesRead.toNat = file.length) := by
  induction xs generalizing st with
  | nil =>
    simp only [sendRounds, some.injEq, Prod.mk.injEq] at h
    obtain ⟨rfl, rfl⟩ := h
    exact ⟨hst, nofun⟩
  | cons _ _ ih =>
    rw [sendRounds] at h
    obtain ⟨⟨_, r1⟩, hround, h⟩ := bind_eq_some_iff.1 h
    cases r1 with
    | none => exact ih (sendRound_progress hfile hst hround (by simp)).1 h
    | some =>
      simp only [some.injEq, Prod.mk.injEq] at h
      obtain ⟨rfl, rfl⟩ := h
      exact sendRound_progress hfile hst hround hr

/-- **A stream write transfers the file exactly.**  If it returns `TRUE`, the packets that were acknowledged carry
consecutive pieces of the file, at the start address and their offsets, and together the whole file; and no
packet carries more than `streaming_max_write_length` bytes. -/
theorem stream_write_exact {file : List Byte} {address : BitVec 32} {miscBuffer rxBuffer : CArray Byte}
    {xs : List WriteRound} {written : List Written}
    (h : sendFileStreamWrite (some file) address miscBuffer rxBuffer xs = some (written, some true)) :
    (∃ segs, acknowledgedPackets written = packetsFrom address 0 segs ∧ segs.flatten = file) ∧
      ∀ w ∈ written, ∃ a data, w.packet = streamWritePacket a data ∧ data.length ≤ streamingMaxWriteLength := by
  rw [sendFileStreamWrite, filter_some] at h
  split at h
  · cases h
  rename_i file' hopen
  obtain ⟨⟨_, r⟩, hrun, h⟩ := map_eq_some_iff.1 h
  simp only [Prod.mk.injEq] at h
  obtain ⟨rfl, rfl⟩ := h
  obtain ⟨hfile, rfl⟩ : file.length < 2 ^ 31 ∧ file = file' := by
    split at hopen
    · rename_i hlt
      exact ⟨of_decide_eq_true hlt, some.inj hopen⟩
    · cases hopen
  have hinit : Sending file address ⟨miscBuffer, rxBuffer, 0, 0, []⟩ :=
    ⟨⟨[], rfl, rfl⟩, Nat.zero_le _, nofun⟩
  obtain ⟨hsend, htotal⟩ := sendRounds_progress hfile hinit hrun (by simp)
  obtain ⟨segs, hack, hsegs⟩ := hsend.pieces
  refine ⟨⟨segs, hack, ?_⟩, hsend.small⟩
  rw [hsegs, htotal rfl, take_length]

/-- Three bytes; the first response is lost, the second has the right address. -/
theorem stream_write_three_bytes :
    ∃ written, sendFileStreamWrite (some [1#8, 2#8, 3#8]) 0x100#32 (CArray.zeros 32) (CArray.zeros 16)
        [⟨false, true, []⟩,
          ⟨false, true, [some [0x7e#8, 0x08#8, 0x00#8, 0x01#8, 0x00#8, 0x00#8, 0xb8#8, 0xf2#8, 0x7e#8]]⟩] =
        some (written, some true) ∧
      (∃ segs, acknowledgedPackets written = packetsFrom 0x100#32 0 segs ∧ segs.flatten = [1#8, 2#8, 3#8]) ∧
      ∀ w ∈ written, ∃ a data, w.packet = streamWritePacket a data ∧ data.length ≤ streamingMaxWriteLength := by
  have hrun : (sendFileStreamWrite (some [1#8, 2#8, 3#8]) 0x100#32 (CArray.zeros 32) (CArray.zeros 16)
      [⟨false, true, []⟩,
        ⟨false, true, [some [0x7e#8, 0x08#8, 0x00#8, 0x01#8, 0x00#8, 0x00#8, 0xb8#8, 0xf2#8, 0x7e#8]]⟩]).map
      (·.2) = some (some true) := by decide +kernel
  obtain ⟨⟨written, r⟩, h, hr⟩ := map_eq_some_iff.1 hrun
  obtain rfl : r = some true := hr
  exact ⟨written, h, stream_write_exact h⟩

end G4Common.MdmTransfer
