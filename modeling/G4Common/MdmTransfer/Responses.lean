/-
Responses of the target (`mdm-helper/mdmfiletransfer/dload_protocol.c`, `streaming_protocol.c` and
`comm.c`).

What comes from the target is read to `rx_buffer` and decoded there.  A response is taken for what its
first byte says.  `hdlc_decode()` does not look at the checksum and none of its callers does, so a frame
with a wrong byte in it is taken like any other.  `hdlcDecode_sound_iff` and the theorems for the three
readers say exactly when what is taken is a frame of `hdlc_encode()`: if `check_crc()` accepts the text
between the flags (and, for `read_pkt_ack()`, the frame was received as a whole: the decoder goes on in
what is left in the buffer from before).

A read from the port is given by its answer: `none` if `rx_data()` returns `FALSE`, otherwise the bytes.
When there are no more answers, `rx_data()` returns `FALSE`.  What a loop of reads receives is a list that the
answers alone give (`gathered`).
-/
import G4Common.MdmTransfer.Hdlc

namespace G4Common.MdmTransfer

open List Option

/-! ### Texts between flags -/

/-- A text between two flags. -/
def wrap (d : List Byte) : List Byte := ahdlcFlag :: (ahdlc.stuff d ++ [ahdlcFlag])

theorem frame_eq_wrap (p : List Byte) : frame p = wrap (p ++ crcBytes p) := rfl

theorem two_le_length_wrap (d : List Byte) : 2 ≤ (wrap d).length := by
  simp only [wrap, length_cons, length_append, length_nil]
  omega

theorem length_lt_length_wrap (d : List Byte) : d.length + 1 < (wrap d).length := by
  have h : d.length ≤ (ahdlc.stuff d).length := by
    induction d with
    | nil => exact Nat.le_refl 0
    | cons b d ih =>
      have hb : 1 ≤ (ahdlc.stuff1 b).length := by
        unfold Stuffing.stuff1
        split
        · exact Nat.le_succ 1
        · split
          · exact Nat.le_succ 1
          · exact Nat.le_refl 1
      rw [Stuffing.stuff_cons, length_append, length_cons]
      omega
  simp only [wrap, length_cons, length_append, length_nil]
  omega

variable {a a' rxBuffer : CArray Byte} {d l : List Byte} {base len length m n : ℕ}

theorem wrap_prefix_cons {b : Byte} : wrap d <+: b :: l ↔ b = ahdlcFlag ∧ ahdlc.unstuff l = some d := by
  rw [Stuffing.unstuff_eq_some_iff, wrap, cons_prefix_cons]
  constructor
  · rintro ⟨rfl, rest, rfl⟩
    exact ⟨rfl, rest, by rw [append_assoc]; rfl⟩
  · rintro ⟨rfl, rest, rfl⟩
    exact ⟨rfl, rest, by rw [append_assoc]; rfl⟩

theorem wrap_prefix_unique {e : List Byte} (hd : wrap d <+: l) (he : wrap e <+: l) : d = e := by
  cases l with
  | nil => exact absurd (prefix_nil.1 hd) (by simp [wrap])
  | cons =>
    have h1 := (wrap_prefix_cons.1 hd).2
    have h2 := (wrap_prefix_cons.1 he).2
    rw [h1] at h2
    exact some.inj h2

/-- `check_crc()` accepts the text; of a text that is too long for it, the end is its checksum. -/
def Intact (d : List Byte) : Prop :=
  if d.length < 2 ^ 29 then checkCrc d = true else ∃ p, d = p ++ crcBytes p

theorem intact_iff : Intact d ↔ ∃ p, d = p ++ crcBytes p := by
  rw [Intact]
  split_ifs with hd
  · exact checkCrc_iff_of_lt hd
  · exact Iff.rfl

theorem frame_prefix_iff (hd : wrap d <+: l) : (∃ p, frame p <+: l) ↔ Intact d := by
  rw [intact_iff]
  constructor
  · rintro ⟨p, hp⟩
    exact ⟨p, wrap_prefix_unique hd hp⟩
  · rintro ⟨p, rfl⟩
    exact ⟨p, hd⟩

theorem hdlcDecode_eq_some (hsize : base + length ≤ a.size) (h : hdlcDecode a base length = some (a', some n)) :
    ∃ d, wrap d <+: a.slice base length ∧ n = d.length ∧ Decoded a base 0 d a' := by
  have hbase : base < a.size := by
    by_contra hge
    rw [hdlcDecode, hdlcDecodeSkipOpening, if_neg (by simp), CArray.read, if_neg hge] at h
    cases h
  by_cases hflag : a.get base = ahdlcFlag
  · have hdec := hdlcDecode_decodes hbase hsize hflag
    cases hu : ahdlc.unstuff (a.slice (base + 1) (length - 1)) with
    | none => exact absurd h (hdec.2 hu a' n)
    | some d =>
      obtain ⟨b, hr, hd⟩ := hdec.1 d hu
      rw [hr, some.injEq, Prod.mk.injEq, some.injEq, Nat.zero_add] at h
      obtain ⟨rfl, rfl⟩ := h
      refine ⟨d, ?_, rfl, hd⟩
      have hpos : 0 < length := by
        by_contra hz
        rw [show length - 1 = 0 by omega] at hu
        cases hu
      rw [show length = length - 1 + 1 by omega, CArray.slice_succ, wrap_prefix_cons]
      exact ⟨hflag, hu⟩
  · rw [hdlcDecode_of_ne hbase hflag] at h
    cases h

theorem hdlcDecode_of_wrap (hsize : base + length ≤ a.size) (hd : wrap d <+: a.slice base length) :
    ∃ a', hdlcDecode a base length = some (a', some d.length) ∧ Decoded a base 0 d a' := by
  have hpos : 0 < length := by
    by_contra hz
    rw [show length = 0 by omega] at hd
    exact absurd (prefix_nil.1 hd) (by simp [wrap])
  rw [show length = length - 1 + 1 by omega, CArray.slice_succ, wrap_prefix_cons] at hd
  obtain ⟨a', hr, hdec⟩ := (hdlcDecode_decodes (by omega) hsize hd.1).1 d hd.2
  rw [Nat.zero_add] at hr
  exact ⟨a', hr, hdec⟩

/-- **When `hdlc_decode()` takes frames of `hdlc_encode()` only.** -/
theorem hdlcDecode_sound_iff (hsize : length ≤ a.size) :
    (∀ a' n, hdlcDecode a 0 length = some (a', some n) → ∃ p, frame p <+: a.slice 0 length) ↔
      ∀ d, wrap d <+: a.slice 0 length → Intact d := by
  have hsize' : 0 + length ≤ a.size := by omega
  constructor
  · intro h d hd
    obtain ⟨a', hr, -⟩ := hdlcDecode_of_wrap hsize' hd
    exact (frame_prefix_iff hd).1 (h a' _ hr)
  · intro h _ n hr
    obtain ⟨d, hd, -, -⟩ := hdlcDecode_eq_some hsize' hr
    exact (frame_prefix_iff hd).2 (h d hd)

theorem Decoded.get_base (h : Decoded a base 0 d a') (hflag : d = [] → a.get base = ahdlcFlag) :
    a'.get base = d.head?.getD ahdlcFlag := by
  cases d with
  | nil =>
    rw [h.others base (.inr (by simp)), hflag rfl]
    rfl
  | cons =>
    have hs := h.slice_eq
    rw [length_cons, Nat.add_zero, CArray.slice_succ, cons.injEq] at hs
    rw [hs.1]
    rfl

/-! ### Reading from the port -/

/-- The answer of the port to a read. -/
abbrev RxAnswer := Option (List Byte)

def maxRead : ℕ := 4096

/-- What one read takes of an answer. -/
def RxAnswer.bytes (r : RxAnswer) (len : ℕ) : List Byte := (r.getD []).take (min len maxRead)

/-- `rx_data()`, which reads at most `len` bytes to the cells from `off` on; inside, `none` is `FALSE`. -/
def rxData (buffer : CArray Byte) (off len : ℕ) (r : RxAnswer) : Option (Option (CArray Byte × ℕ)) :=
  match r with
  | none => some none
  | some _ => (buffer.writeList off (r.bytes len)).map fun a => some (a, (r.bytes len).length)

theorem rxData_some {buffer : CArray Byte} {off : ℕ} (bytes : List Byte) (h : off + len ≤ buffer.size) :
    ∃ a, rxData buffer off len (some bytes) = some (some (a, (RxAnswer.bytes (some bytes) len).length)) ∧
      a.size = buffer.size ∧
      a.slice off (RxAnswer.bytes (some bytes) len).length = RxAnswer.bytes (some bytes) len ∧
      ∀ j, j < off ∨ off + (RxAnswer.bytes (some bytes) len).length ≤ j → a.get j = buffer.get j := by
  have hlen : (RxAnswer.bytes (some bytes) len).length ≤ len := by
    rw [RxAnswer.bytes, length_take]
    omega
  obtain ⟨a, hw, hsize, hslice, hothers⟩ := CArray.writeList_of_le (a := buffer) (i := off)
    (l := RxAnswer.bytes (some bytes) len) (by omega)
  refine ⟨a, ?_, hsize, hslice, hothers⟩
  rw [rxData, hw]
  rfl

/-- What a read makes of a buffer that holds what was received before, and behind it what it held at first. -/
theorem rxData_whole {got old : List Byte} (bytes : List Byte) (hbuf : a.slice 0 a.size = got ++ old.drop got.length)
    (hgot : got.length ≤ a.size) :
    ∃ a' k, rxData a got.length (a.size - got.length) (some bytes) = some (some (a', k)) ∧
      k = (RxAnswer.bytes (some bytes) (a.size - got.length)).length ∧ a'.size = a.size ∧
      a'.slice 0 a'.size = got ++ RxAnswer.bytes (some bytes) (a.size - got.length) ++ old.drop (got.length + k) := by
  obtain ⟨a', hrx, hsize, hslice, hothers⟩ := rxData_some bytes (Nat.le_of_eq (Nat.add_sub_of_le hgot))
  set rcv := RxAnswer.bytes (some bytes) (a.size - got.length) with hrcv
  have hle : got.length + rcv.length ≤ a.size := by
    rw [hrcv, RxAnswer.bytes, length_take]
    omega
  refine ⟨a', _, hrx, rfl, hsize, ?_⟩
  have hfront : a'.slice 0 got.length = got := by
    have htake : a.slice 0 got.length = (a.slice 0 a.size).take got.length := by
      rw [← Nat.add_sub_of_le hgot, CArray.slice_add, take_left' CArray.length_slice]
    rw [CArray.slice_congr fun j _ hj => hothers j (.inl (by omega)), htake, hbuf, take_left]
  have hback : a'.slice (got.length + rcv.length) (a.size - (got.length + rcv.length)) =
      old.drop (got.length + rcv.length) := by
    rw [CArray.slice_congr fun j hj _ => hothers j (.inr hj)]
    have hdrop := congrArg (drop (got.length + rcv.length)) hbuf
    rw [CArray.drop_slice, Nat.zero_add, drop_append, drop_eq_nil_of_le (Nat.le_add_right _ _), nil_append,
      Nat.add_sub_cancel_left, drop_drop] at hdrop
    exact hdrop
  rw [hsize, ← Nat.add_sub_of_le hle, CArray.slice_add, CArray.slice_add, Nat.zero_add, Nat.zero_add, hfront,
    hslice, hback]

theorem read_of_whole {m : List Byte} {i : ℕ} (hbuf : a.slice 0 a.size = l ++ m) (hi : i < l.length) :
    a.read i = l[i]? := by
  have hlen := congrArg length hbuf
  rw [CArray.length_slice, length_append] at hlen
  rw [CArray.read_of_lt (by omega), ← @getElem?_append_left _ _ m _ hi, ← hbuf, CArray.getElem?_slice i (by omega),
    Nat.zero_add]

theorem slice_of_whole {m : List Byte} (hbuf : a.slice 0 a.size = l ++ m) : a.slice 0 l.length = l := by
  have hlen := congrArg length hbuf
  rw [CArray.length_slice, length_append] at hlen
  rw [hlen, CArray.slice_add] at hbuf
  exact (append_inj hbuf CArray.length_slice).1

/-- What a loop of reads receives, with the answers that are left: a read of `k` bytes may end it, and if not it may
go on.  `none` if it ends in another way. -/
def gathered (len : ℕ) (ends goesOn : List Byte → ℕ → Bool) :
    List RxAnswer → List Byte → Option (List Byte × List RxAnswer)
  | some bytes :: rs, got =>
    let rcv := RxAnswer.bytes (some bytes) (len - got.length)
    if ends (got ++ rcv) rcv.length then some (got ++ rcv, rs)
    else if goesOn (got ++ rcv) rcv.length then gathered len ends goesOn rs (got ++ rcv)
    else none
  | _, _ => none

theorem gathered_length {ends goesOn : List Byte → ℕ → Bool} {rs rs' : List RxAnswer} {got : List Byte}
    (h : gathered len ends goesOn rs got = some (l, rs')) : rs'.length < rs.length := by
  induction rs generalizing got with
  | nil => cases h
  | cons r rs ih =>
    rcases r with - | bytes
    · cases h
    rw [gathered] at h
    split_ifs at h
    · cases h
      exact Nat.lt_succ_self _
    · exact Nat.lt_succ_of_lt (ih h)

/-- What the readers of responses do with a decoded buffer: a response is what its first byte says. -/
def checkFirst (cmd : Byte) (res : CArray Byte × Option ℕ) : Option (CArray Byte × Bool) :=
  if res.2 = none then some (res.1, false) else (res.1.read 0).map fun b => (res.1, b = cmd)

/-- `checkFirst` with the length of the packet. -/
def keepFirst (cmd : Byte) (res : CArray Byte × Option ℕ) : Option (CArray Byte × Option ℕ) :=
  (checkFirst cmd res).map fun out => (out.1, if out.2 then res.2 else none)

def returned (res : CArray Byte × Option ℕ) : CArray Byte × Bool := (res.1, res.2.isSome)

theorem bind_checkFirst (cmd : Byte) (run : Option (CArray Byte × Option ℕ)) :
    run.bind (checkFirst cmd) = (run.bind (keepFirst cmd)).map returned := by
  rcases run with - | ⟨a, - | n⟩
  · rfl
  · rfl
  · rw [bind_some, bind_some, keepFirst, checkFirst, if_neg (by simp), Option.map_map, Option.map_map]
    congr 1
    funext b
    by_cases hb : b = cmd <;> simp [returned, hb]

/-- The verdict: the packet that was decoded, if the reader returns `TRUE`. -/
def verdict (run : Option (CArray Byte × Option ℕ)) : Option (List Byte) :=
  run.bind fun res => res.2.map fun n => res.1.slice 0 n

theorem exists_returned_iff {run : Option (CArray Byte × Option ℕ)} :
    (∃ a', run.map returned = some (a', true)) ↔ ∃ d, verdict run = some d := by
  rcases run with - | ⟨a, - | n⟩ <;> simp [returned, verdict]

/-! ### What is decoded -/

/-- What is sent of a packet, with or without its opening flag. -/
def sent (skip : Bool) (d : List Byte) : List Byte :=
  if skip then ahdlc.stuff d ++ [ahdlcFlag] else wrap d

variable {skip : Bool} {cmd : Byte} {r : RxAnswer}

theorem sent_eq_append (skip : Bool) (d : List Byte) : ∃ l, sent skip d = l ++ [ahdlcFlag] := by
  cases skip with
  | true => exact ⟨_, rfl⟩
  | false => exact ⟨ahdlcFlag :: ahdlc.stuff d, rfl⟩

theorem sent_true_prefix_iff {l : List Byte} : sent true d <+: l ↔ ahdlc.unstuff l = some d := by
  rw [Stuffing.unstuff_eq_some_iff]
  constructor
  · rintro ⟨rest, rfl⟩
    exact ⟨rest, by rw [sent, if_pos rfl, append_assoc]; rfl⟩
  · rintro ⟨rest, rfl⟩
    exact ⟨rest, by rw [sent, if_pos rfl, append_assoc]; rfl⟩

theorem hdlcDecodeSkipOpening_of_sent (h : sent skip d <+: a.slice 0 a.size) :
    ∃ a', hdlcDecodeSkipOpening a 0 a.size skip = some (a', some d.length) ∧ Decoded a 0 0 d a' := by
  have hsize : 0 + a.size ≤ a.size := Nat.le_of_eq (Nat.zero_add _)
  cases skip with
  | true =>
    rw [sent_true_prefix_iff] at h
    have hdec := decodeLoop_decodes hsize (Nat.le_refl 0) (Nat.sub_le a.size 0)
    obtain ⟨a', hr, hd⟩ := hdec.1 d h
    rw [Nat.zero_add] at hr
    exact ⟨a', hr, hd⟩
  | false => exact hdlcDecode_of_wrap hsize h

theorem sent_of_hdlcDecodeSkipOpening (h : hdlcDecodeSkipOpening a 0 a.size skip = some (a', some n)) :
    ∃ d, sent skip d <+: a.slice 0 a.size ∧ n = d.length ∧ Decoded a 0 0 d a' := by
  have hsize : 0 + a.size ≤ a.size := Nat.le_of_eq (Nat.zero_add _)
  cases skip with
  | true =>
    have hdec := decodeLoop_decodes hsize (Nat.le_refl 0) (Nat.sub_le a.size 0)
    cases hu : ahdlc.unstuff (a.slice (0 + 0) (a.size - 0)) with
    | none => exact absurd h (hdec.2 hu a' n)
    | some d =>
      have hd := sent_true_prefix_iff.2 hu
      obtain ⟨b, hr, hb⟩ := hdlcDecodeSkipOpening_of_sent (a := a) hd
      rw [h, some.injEq, Prod.mk.injEq, some.injEq] at hr
      obtain ⟨rfl, rfl⟩ := hr
      exact ⟨d, hd, rfl, hb⟩
  | false => exact hdlcDecode_eq_some hsize h

theorem keepFirst_of_decoded (hcmd : cmd ≠ ahdlcFlag) (hd : sent skip d <+: a.slice 0 a.size) (h : Decoded a 0 0 d a') :
    keepFirst cmd (a', some d.length) = some (a', if d.head? = some cmd then some d.length else none) := by
  have hne : sent skip d ≠ [] := by
    obtain ⟨l, hl⟩ := sent_eq_append skip d
    simp [hl]
  have hpos : 0 < a.size := by
    by_contra hz
    rw [show a.size = 0 by omega] at hd
    exact hne (prefix_nil.1 hd)
  -- An empty packet leaves the flag in front of it where it was.
  have hflag : d = [] → a.get 0 = ahdlcFlag := by
    rintro rfl
    rw [← Nat.sub_add_cancel hpos, CArray.slice_succ] at hd
    cases skip with
    | true | false => exact ((cons_prefix_cons.1 hd).1).symm
  have hread : a'.read 0 = some (d.head?.getD ahdlcFlag) := by
    rw [CArray.read_of_lt (by rw [h.size_eq]; exact hpos), h.get_base hflag]
  rw [keepFirst, checkFirst, if_neg (by simp), hread, map_some, map_some]
  cases d with
  | nil => simp [hcmd.symm]
  | cons b =>
    by_cases hb : b = cmd
    · simp [hb]
    · simp [hb]

/-- **The verdict on a buffer**: a packet that begins with the command and was sent to its beginning. -/
theorem verdict_decode_iff (hcmd : cmd ≠ ahdlcFlag) :
    verdict ((hdlcDecodeSkipOpening a 0 a.size skip).bind (keepFirst cmd)) = some d ↔
      sent skip d <+: a.slice 0 a.size ∧ d.head? = some cmd := by
  constructor
  · intro h
    rw [verdict] at h
    obtain ⟨⟨b, _⟩, hres, h⟩ := bind_eq_some_iff.1 h
    obtain ⟨⟨a', n⟩, hn, hkeep⟩ := bind_eq_some_iff.1 hres
    cases n with
    | none =>
      rw [keepFirst, checkFirst, if_pos rfl, map_some, some.injEq, Prod.mk.injEq] at hkeep
      obtain ⟨rfl, rfl⟩ := hkeep
      simp at h
    | some =>
      obtain ⟨e, he, rfl, hdec⟩ := sent_of_hdlcDecodeSkipOpening hn
      rw [keepFirst_of_decoded hcmd he hdec, some.injEq, Prod.mk.injEq] at hkeep
      obtain ⟨rfl, rfl⟩ := hkeep
      split_ifs at h with hhead
      · have hs := hdec.slice_eq
        rw [Nat.add_zero] at hs
        rw [map_some, some.injEq, hs] at h
        rw [← h]
        exact ⟨he, hhead⟩
      · cases h
  rintro ⟨hd, hhead⟩
  obtain ⟨_, hr, hdec⟩ := hdlcDecodeSkipOpening_of_sent hd
  have hs := hdec.slice_eq
  rw [Nat.add_zero] at hs
  rw [hr, bind_some, keepFirst_of_decoded hcmd hd hdec, if_pos hhead, verdict, bind_some, map_some, hs]

theorem decoded_of_checkFirst (hcmd : cmd ≠ ahdlcFlag)
    (h : (hdlcDecodeSkipOpening a 0 a.size skip).bind (checkFirst cmd) = some (a', true)) :
    ∃ d, sent skip d <+: a.slice 0 a.size ∧ d.head? = some cmd ∧ Decoded a 0 0 d a' := by
  rw [bind_checkFirst] at h
  obtain ⟨⟨b, res⟩, hkeep, hret⟩ := map_eq_some_iff.1 h
  obtain ⟨⟨a1, n⟩, hn, hkeep⟩ := bind_eq_some_iff.1 hkeep
  rcases n with - | n
  · cases hkeep
    cases hret
  obtain ⟨d, hd, rfl, hdec⟩ := sent_of_hdlcDecodeSkipOpening hn
  rw [keepFirst_of_decoded hcmd hd hdec] at hkeep
  cases hkeep
  split_ifs at hret with hhead
  · cases hret
    exact ⟨d, hd, hhead, hdec⟩
  · cases hret

/-! ### `read_pkt_ack()` -/

def dloadCmdAck : Byte := 0x02#8

/-- `read_pkt_ack()`.  The whole of `rx_buffer` is given to the decoder, not only what was read. -/
def readPktAck (rxBuffer : CArray Byte) (r : RxAnswer) : Option (CArray Byte × Bool) :=
  (rxData rxBuffer 0 rxBuffer.size r).bind fun
  | none => some (rxBuffer, false)
  | some (a, _) => (hdlcDecode a 0 a.size).bind (checkFirst dloadCmdAck)

/-- What is in `rx_buffer` when it is decoded. -/
def ackBuffer (rxBuffer : CArray Byte) (r : RxAnswer) : List Byte :=
  r.bytes rxBuffer.size ++
    rxBuffer.slice (r.bytes rxBuffer.size).length (rxBuffer.size - (r.bytes rxBuffer.size).length)

theorem rxData_ackBuffer (rxBuffer : CArray Byte) (bytes : List Byte) :
    ∃ a k, rxData rxBuffer 0 rxBuffer.size (some bytes) = some (some (a, k)) ∧ a.size = rxBuffer.size ∧
      a.slice 0 a.size = ackBuffer rxBuffer (some bytes) := by
  obtain ⟨a, k, hrx, rfl, hsize, hbuf⟩ := @rxData_whole rxBuffer [] (rxBuffer.slice 0 rxBuffer.size) bytes rfl
    (Nat.zero_le _)
  refine ⟨a, _, hrx, hsize, ?_⟩
  rw [hbuf, CArray.drop_slice, length_nil, Nat.zero_add, Nat.zero_add]
  rfl

/-- The readers of one framed response, with the length of the packet. -/
def readPktDecoded (skip : Bool) (cmd : Byte) (r : RxAnswer) (rxBuffer : CArray Byte) :
    Option (CArray Byte × Option ℕ) :=
  (rxData rxBuffer 0 rxBuffer.size r).bind fun
  | none => some (rxBuffer, none)
  | some (a, _) => (hdlcDecodeSkipOpening a 0 a.size skip).bind (keepFirst cmd)

theorem verdict_readPkt_iff (hcmd : cmd ≠ ahdlcFlag) : verdict (readPktDecoded skip cmd r rxBuffer) = some d ↔
      r ≠ none ∧ sent skip d <+: ackBuffer rxBuffer r ∧ d.head? = some cmd := by
  cases r with
  | none => simp [readPktDecoded, rxData, verdict]
  | some bytes =>
    obtain ⟨a, k, hrx, -, hbuf⟩ := rxData_ackBuffer rxBuffer bytes
    have hrun : readPktDecoded skip cmd (some bytes) rxBuffer =
        (hdlcDecodeSkipOpening a 0 a.size skip).bind (keepFirst cmd) := by
      rw [readPktDecoded, hrx]
      rfl
    rw [hrun, verdict_decode_iff hcmd, hbuf]
    simp

def readPktAckDecoded : RxAnswer → CArray Byte → Option (CArray Byte × Option ℕ) :=
  readPktDecoded false dloadCmdAck

theorem readPktAck_eq_returned (rxBuffer : CArray Byte) (r : RxAnswer) :
    readPktAck rxBuffer r = (readPktAckDecoded r rxBuffer).map returned := by
  rw [readPktAck, readPktAckDecoded, readPktDecoded]
  rcases rxData rxBuffer 0 rxBuffer.size r with - | - | ⟨a, _⟩
  · rfl
  · rfl
  · exact bind_checkFirst _ _

theorem readPktAck_eq_true_iff : (∃ a', readPktAck rxBuffer r = some (a', true)) ↔
      ∃ d, r ≠ none ∧ wrap d <+: ackBuffer rxBuffer r ∧ d.head? = some dloadCmdAck := by
  rw [readPktAck_eq_returned, exists_returned_iff]
  exact exists_congr fun _ => verdict_readPkt_iff (by decide)

/-- The condition for `read_pkt_ack()`: a text that begins like an acknowledgement was received with
its two flags, and has the right checksum. -/
def AckCond (rxBuffer : CArray Byte) (r : RxAnswer) : Prop :=
  ∀ d, r ≠ none → wrap d <+: ackBuffer rxBuffer r → d.head? = some dloadCmdAck →
    (wrap d).length ≤ (r.bytes rxBuffer.size).length ∧ Intact d

/-- **When `read_pkt_ack()` takes intact frames only.** -/
theorem readPktAck_sound_iff {r : RxAnswer} :
    (∀ a', readPktAck rxBuffer r = some (a', true) → ∃ p, frame p <+: r.bytes rxBuffer.size) ↔
      AckCond rxBuffer r := by
  have hpre : r.bytes rxBuffer.size <+: ackBuffer rxBuffer r := prefix_append _ _
  constructor
  · intro h d hr hd hack
    obtain ⟨a', ha'⟩ := readPktAck_eq_true_iff.2 ⟨d, hr, hd, hack⟩
    obtain ⟨p, hp⟩ := h a' ha'
    obtain rfl := wrap_prefix_unique hd (hp.trans hpre)
    exact ⟨hp.length_le, intact_iff.2 ⟨p, rfl⟩⟩
  intro h a' ha'
  obtain ⟨d, hr, hd, hack⟩ := readPktAck_eq_true_iff.1 ⟨a', ha'⟩
  obtain ⟨hlen, hcrc⟩ := h d hr hd hack
  exact (frame_prefix_iff (prefix_of_prefix_length_le hd hpre hlen)).2 hcrc

/-! ### `read_mem_read_resp()` -/

def dloadCmdMemReadResp : Byte := 0x13#8

/-- The loop of `dload_rx_data()`, with the bytes read so far; the number of bytes is given if it
returns `TRUE`.  With no byte read, `buffer[bytes_read_in-1]` is outside. -/
def dloadRxData (len : ℕ) : List RxAnswer → CArray Byte → ℕ → Option (CArray Byte × Option ℕ)
  | [], a, _ => some (a, none)
  | r :: rs, a, n => (rxData a n (len - n) r).bind fun
    | none => some (a, none)
    | some (a, k) =>
      if n + k = 0 then none
      else (a.read (n + k - 1)).bind fun b =>
        if b ≠ ahdlcFlag ∧ 1 < n + k ∧ n + k < len ∧ 0 < k then dloadRxData len rs a (n + k)
        else some (a, if b = ahdlcFlag then some (n + k) else none)

/-- `read_mem_read_resp()`.  The opening flag is not looked for. -/
def readMemReadResp (rxBuffer : CArray Byte) (rs : List RxAnswer) : Option (CArray Byte × Bool) :=
  (dloadRxData rxBuffer.size rs rxBuffer 0).bind fun
  | (a, none) => some (a, false)
  | (a, some _) => (hdlcDecodeSkipOpening a 0 a.size true).bind (checkFirst dloadCmdMemReadResp)

theorem unstuff_slice (hm : 0 < m) (hle : m ≤ a.size) (hflag : a.get (m - 1) = ahdlcFlag) :
    ahdlc.unstuff (a.slice 0 a.size) = some d ↔ wrap d <+: ahdlcFlag :: a.slice 0 m := by
  rw [wrap_prefix_cons]
  simp only [true_and]
  have hsplit : a.slice 0 a.size = a.slice 0 m ++ a.slice m (a.size - m) := by
    have h := CArray.slice_add (a := a) (i := 0) (n := m) (a.size - m)
    rw [Nat.add_sub_of_le hle, Nat.zero_add] at h
    exact h
  constructor
  · intro h
    rw [Stuffing.unstuff_eq_some_iff] at h ⊢
    obtain ⟨rest, hrest⟩ := h
    -- The flag at `m - 1` is not in the text, so the text ends before it.
    have hlen : (ahdlc.stuff d).length < m := by
      by_contra hge
      have hget : (a.slice 0 a.size)[m - 1]? = some ahdlcFlag := by
        rw [CArray.getElem?_slice _ (by omega), Nat.zero_add, hflag]
      rw [hrest, getElem?_append_left (by omega)] at hget
      exact Stuffing.flag_notMem_stuff (S := ahdlc) d (mem_of_getElem? hget)
    have hall : ahdlc.stuff d ++ [ahdlcFlag] <+: a.slice 0 a.size := by
      rw [hrest]
      exact ⟨rest, by rw [append_assoc]; rfl⟩
    have hread : a.slice 0 m <+: a.slice 0 a.size := by
      rw [hsplit]
      exact prefix_append _ _
    have hpre : ahdlc.stuff d ++ [ahdlcFlag] <+: a.slice 0 m := by
      refine prefix_of_prefix_length_le hall hread ?_
      rw [length_append, CArray.length_slice]
      exact hlen
    obtain ⟨rest', hrest'⟩ := hpre
    exact ⟨rest', by rw [← hrest', append_assoc]; rfl⟩
  intro h
  rw [Stuffing.unstuff_eq_some_iff] at h ⊢
  obtain ⟨rest, hrest⟩ := h
  exact ⟨rest ++ a.slice m (a.size - m), by rw [hsplit, hrest, append_assoc]; rfl⟩

/-- The bytes that `dload_rx_data()` receives when it returns `TRUE`: its last byte is a flag. -/
def memReadBytes (len : ℕ) (rs : List RxAnswer) (got : List Byte) : Option (List Byte × List RxAnswer) :=
  gathered len (fun l _ => l.getLast? = some ahdlcFlag) (fun l k => 1 < l.length ∧ l.length < len ∧ 0 < k) rs got

/-- **What `dload_rx_data()` leaves in memory**: the bytes that were received. -/
theorem dloadRxData_received {rs : List RxAnswer} {got old : List Byte}
    (hbuf : a.slice 0 a.size = got ++ old.drop got.length) (hgot : got.length ≤ a.size) :
    (∀ a' m, dloadRxData a.size rs a got.length = some (a', some m) →
      (0 < m ∧ m ≤ a'.size ∧ a'.get (m - 1) = ahdlcFlag) ∧ ∃ rs', memReadBytes a.size rs got = some (a'.slice 0 m, rs')) ∧
    ∀ l rs', memReadBytes a.size rs got = some (l, rs') →
      ∃ a', dloadRxData a.size rs a got.length = some (a', some l.length) ∧ a'.slice 0 l.length = l := by
  induction rs generalizing a got with
  | nil => constructor <;> rintro _ _ ⟨⟩
  | cons r rs ih =>
    rcases r with - | bytes
    · constructor <;> rintro _ _ ⟨⟩
    obtain ⟨a1, k, hrx, hk, hsize, hbuf1⟩ := rxData_whole bytes hbuf hgot
    set all := got ++ RxAnswer.bytes (some bytes) (a.size - got.length) with hall
    have hlen : all.length = got.length + k := by
      rw [hall, hk, length_append]
    have hrun : dloadRxData a.size (some bytes :: rs) a got.length =
        if got.length + k = 0 then none
        else (a1.read (got.length + k - 1)).bind fun b =>
          if b ≠ ahdlcFlag ∧ 1 < got.length + k ∧ got.length + k < a.size ∧ 0 < k then
            dloadRxData a.size rs a1 (got.length + k)
          else some (a1, if b = ahdlcFlag then some (got.length + k) else none) := by
      rw [dloadRxData, hrx]
      rfl
    have hread : memReadBytes a.size (some bytes :: rs) got =
        if all.getLast? = some ahdlcFlag then some (all, rs)
        else if 1 < all.length ∧ all.length < a.size ∧ 0 < k then memReadBytes a.size rs all else none := by
      rw [memReadBytes, gathered]
      simp only [← hall, ← hk, decide_eq_true_eq]
      rfl
    rw [hrun, hread, ← hlen]
    rcases Nat.eq_zero_or_pos all.length with hzero | hpos
    · have hnil : all = [] := length_eq_zero_iff.1 hzero
      rw [if_pos hzero, hnil, if_neg (by simp), if_neg (by simp)]
      constructor <;> rintro _ _ ⟨⟩
    have hlast : a1.read (all.length - 1) = all.getLast? := by
      rw [read_of_whole hbuf1 (by omega), getLast?_eq_getElem?]
    obtain ⟨b, hb⟩ := Option.isSome_iff_exists.1 (getLast?_isSome.2 (ne_nil_of_length_pos hpos))
    rw [if_neg (by omega), hlast, hb, bind_some]
    simp only [Option.some.injEq]
    rw [← hlen] at hbuf1
    by_cases hflag : b = ahdlcFlag
    · rw [if_neg (fun h => h.1 hflag), if_pos hflag, if_pos hflag]
      have hslice := slice_of_whole hbuf1
      have hin : all.length ≤ a1.size := by
        have hwhole := congrArg length hbuf1
        rw [CArray.length_slice, length_append] at hwhole
        omega
      have hget : a1.get (all.length - 1) = ahdlcFlag := by
        rw [hb, hflag, CArray.read_of_lt (by omega)] at hlast
        exact some.inj hlast
      refine ⟨?_, ?_⟩
      · rintro _ _ ⟨⟩
        exact ⟨⟨hpos, hin, hget⟩, rs, by rw [hslice]⟩
      · rintro _ _ ⟨⟩
        exact ⟨a1, rfl, hslice⟩
    rw [if_neg hflag, if_neg hflag]
    by_cases hgo : 1 < all.length ∧ all.length < a.size ∧ 0 < k
    · rw [if_pos ⟨hflag, hgo⟩, if_pos hgo, ← hsize]
      exact ih hbuf1 (by rw [hsize]; omega)
    · rw [if_neg fun h => hgo h.2, if_neg hgo]
      constructor <;> rintro _ _ ⟨⟩

def readMemReadRespDecoded (rs : List RxAnswer) (rxBuffer : CArray Byte) : Option (CArray Byte × Option ℕ) :=
  (dloadRxData rxBuffer.size rs rxBuffer 0).bind fun
  | (a, none) => some (a, none)
  | (a, some _) => (hdlcDecodeSkipOpening a 0 a.size true).bind (keepFirst dloadCmdMemReadResp)

theorem readMemReadResp_eq_returned (rxBuffer : CArray Byte) (rs : List RxAnswer) :
    readMemReadResp rxBuffer rs = (readMemReadRespDecoded rs rxBuffer).map returned := by
  rw [readMemReadResp, readMemReadRespDecoded]
  rcases dloadRxData rxBuffer.size rs rxBuffer 0 with - | ⟨a, - | _⟩
  · rfl
  · rfl
  · exact bind_checkFirst _ _

theorem verdict_readMemReadResp_iff {rs : List RxAnswer} : verdict (readMemReadRespDecoded rs rxBuffer) = some d ↔
      ∃ l rs', memReadBytes rxBuffer.size rs [] = some (l, rs') ∧
        wrap d <+: ahdlcFlag :: l ∧ d.head? = some dloadCmdMemReadResp := by
  have hrecv := @dloadRxData_received rxBuffer rs [] (rxBuffer.slice 0 rxBuffer.size) rfl (Nat.zero_le _)
  have hdecoded : ∀ a m, dloadRxData rxBuffer.size rs rxBuffer 0 = some (a, some m) →
      (verdict (readMemReadRespDecoded rs rxBuffer) = some d ↔
        wrap d <+: ahdlcFlag :: a.slice 0 m ∧ d.head? = some dloadCmdMemReadResp) := by
    intro a m hrx
    obtain ⟨hm, hle, hflag⟩ := (hrecv.1 a m hrx).1
    have hrun : readMemReadRespDecoded rs rxBuffer =
        (hdlcDecodeSkipOpening a 0 a.size true).bind (keepFirst dloadCmdMemReadResp) := by
      rw [readMemReadRespDecoded, hrx]
      rfl
    rw [hrun, verdict_decode_iff (by decide), sent_true_prefix_iff, unstuff_slice hm hle hflag]
  constructor
  · intro h
    rcases hrx : dloadRxData rxBuffer.size rs rxBuffer 0 with - | ⟨a, - | m⟩
    · rw [readMemReadRespDecoded, hrx] at h
      cases h
    · rw [readMemReadRespDecoded, hrx] at h
      cases h
    obtain ⟨-, rs', hl⟩ := hrecv.1 a m hrx
    exact ⟨_, rs', hl, (hdecoded a m hrx).1 h⟩
  · rintro ⟨l, rs', hl, hd⟩
    obtain ⟨a, hrx, hslice⟩ := hrecv.2 l rs' hl
    exact (hdecoded a _ hrx).2 (by rw [hslice]; exact hd)

/-- The condition for `read_mem_read_resp()`, on the bytes received: a text that begins like a response is
intact. -/
def MemReadCond (len : ℕ) (rs : List RxAnswer) : Prop :=
  ∀ l rs' d, memReadBytes len rs [] = some (l, rs') →
    wrap d <+: ahdlcFlag :: l → d.head? = some dloadCmdMemReadResp → Intact d

/-- **When `read_mem_read_resp()` takes intact frames only.**  The frame comes without its opening flag. -/
theorem readMemReadResp_sound_iff {rs : List RxAnswer} :
    (∀ a', readMemReadResp rxBuffer rs = some (a', true) →
      ∃ l rs', memReadBytes rxBuffer.size rs [] = some (l, rs') ∧ ∃ p, frame p <+: ahdlcFlag :: l) ↔
        MemReadCond rxBuffer.size rs := by
  have hiff : (∃ a', readMemReadResp rxBuffer rs = some (a', true)) ↔ ∃ d l rs',
      memReadBytes rxBuffer.size rs [] = some (l, rs') ∧ wrap d <+: ahdlcFlag :: l ∧ d.head? = some dloadCmdMemReadResp := by
    rw [readMemReadResp_eq_returned, exists_returned_iff]
    exact exists_congr fun _ => verdict_readMemReadResp_iff
  constructor
  · intro h l rs' d hl hd hresp
    obtain ⟨a', ha'⟩ := hiff.2 ⟨d, l, rs', hl, hd, hresp⟩
    obtain ⟨l', _, hl', p, hp⟩ := h a' ha'
    rw [hl, some.injEq, Prod.mk.injEq] at hl'
    obtain ⟨rfl, -⟩ := hl'
    exact (frame_prefix_iff hd).1 ⟨p, hp⟩
  intro h a' ha'
  obtain ⟨d, l, rs', hl, hd, hresp⟩ := hiff.1 ⟨a', ha'⟩
  exact ⟨l, rs', hl, (frame_prefix_iff hd).2 (h l rs' d hl hd hresp)⟩

end G4Common.MdmTransfer
