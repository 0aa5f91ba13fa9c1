/-
`streaming_rx_data()` of `mdm-helper/mdmfiletransfer/streaming_protocol.c`.

What was read is cut at the flags, and each packet is decoded where it stands.  Messages of the target's
log are left out.  There must be one other packet, the response; with none, the function reads again.

Packets are decoded one after the other in the same buffer, but a packet does not grow when it is
decoded, so those behind it are not touched (`takePacket_of_wrap`).  `parsePackets_covers` and
`parsePackets_of_covers` say what the loop does in terms of texts between flags.  `StreamReading` says of a call, in
terms of lists, what it receives and what is in `rx_buffer` then.
-/
import G4Common.MdmTransfer.Responses

namespace G4Common.MdmTransfer

open List Option

/-! ### The function -/

def streamingCmdLog : Byte := 0x0e#8

/-- The loop that reads.  It looks for a flag at `buffer[data_size-1]`, where `data_size` is the size of the last
piece; with no byte read, that is outside. -/
def streamingReceive (len : ℕ) :
    List RxAnswer → CArray Byte → ℕ → Option (CArray Byte × Option (ℕ × List RxAnswer))
  | [], a, _ => some (a, none)
  | r :: rs, a, total => (rxData a total (len - total) r).bind fun
    | none => some (a, none)
    | some (a, k) =>
      if k = 0 then none
      else (a.read (k - 1)).bind fun b =>
        if b ≠ ahdlcFlag ∧ 0 < len then streamingReceive len rs a (total + k)
        else some (a, some (total + k, rs))

/-- The bytes that one reading receives: the reading ends with a piece of `k` bytes if `buffer[k-1]` is a flag. -/
def streamReceived (len : ℕ) (rs : List RxAnswer) (got : List Byte) : Option (List Byte × List RxAnswer) :=
  gathered len (fun l k => 0 < k ∧ l[k - 1]? = some ahdlcFlag) (fun _ k => 0 < k) rs got

/-- One packet from `start` on: where it ends, and its decoded length. -/
def takePacket (total : ℕ) (a : CArray Byte) (start : ℕ) : Option (CArray Byte × Option (ℕ × ℕ)) :=
  (a.read start).bind fun b =>
    if b ≠ ahdlcFlag then some (a, none)
    else (findCell (fun i => (a.read i).map (· == ahdlcFlag)) (total - (start + 1)) (start + 1)).bind fun o =>
      (a.read (o.getD total)).bind fun b =>
        if b ≠ ahdlcFlag then some (a, none)
        else (hdlcDecode a start (o.getD total + 1 - start)).map fun res =>
          (res.1, res.2.map fun n => (o.getD total + 1, n))

/-- The loop over the packets; `resp` is the response so far, by its place and its length. -/
def parsePackets (total : ℕ) :
    ℕ → CArray Byte → ℕ → Option (ℕ × ℕ) → Option (CArray Byte × Option (Option (ℕ × ℕ)))
  | 0, a, _, _ => some (a, none)
  | fuel + 1, a, start, resp => (takePacket total a start).bind fun
    | (a, none) => some (a, none)
    | (a, some (e, n)) => (a.read start).bind fun c =>
      if c = streamingCmdLog then
        (a.write (start + n) 0).bind fun a =>
          if e < total then parsePackets total fuel a e resp else some (a, some resp)
      else if resp = none then
        if e < total then parsePackets total fuel a e (some (start, n)) else some (a, some (some (start, n)))
      else some (a, none)

/-- A response: its place in the buffer, its length, and all that was read with it. -/
structure StreamResponse where
  start : ℕ
  length : ℕ
  received : List Byte

/-- The test between reading and cutting. -/
def flagsAround (total : ℕ) (a : CArray Byte) : Option Bool :=
  if total < 1 then some false
  else (a.read (total - 1)).bind fun b =>
    if b ≠ ahdlcFlag then some false else (a.read 0).map (· == ahdlcFlag)

/-- `streaming_rx_data()`; with only log messages it calls itself, at most once for each answer. -/
def streamingRxData : ℕ → CArray Byte → List RxAnswer → Option (CArray Byte × Option StreamResponse)
  | 0, a, _ => some (a, none)
  | fuel + 1, a, rs => (streamingReceive a.size rs a 0).bind fun
    | (a, none) => some (a, none)
    | (a, some (total, rs)) => (flagsAround total a).bind fun
      | false => some (a, none)
      | true => (parsePackets total total a 0 none).bind fun
        | (b, none) => some (b, none)
        | (b, some none) => streamingRxData fuel b rs
        | (b, some (some (s, n))) => some (b, some ⟨s, n, a.slice 0 total⟩)

/-! ### Receiving -/

/-- **What a reading leaves in memory**: the bytes that were received, and behind them what was there before. -/
theorem streamingReceive_received {a : CArray Byte} {rs : List RxAnswer} {got old : List Byte}
    (hbuf : a.slice 0 a.size = got ++ old.drop got.length) (hgot : got.length ≤ a.size) :
    (streamReceived a.size rs got = none → ∀ a' res, streamingReceive a.size rs a got.length ≠ some (a', some res)) ∧
    ∀ l rs', streamReceived a.size rs got = some (l, rs') →
      ∃ a', streamingReceive a.size rs a got.length = some (a', some (l.length, rs')) ∧ a'.size = a.size ∧
        a'.slice 0 a'.size = l ++ old.drop l.length := by
  induction rs generalizing a got with
  | nil => exact ⟨fun _ _ _ => (by rintro ⟨⟩), fun _ _ => (by rintro ⟨⟩)⟩
  | cons r rs ih =>
    rcases r with - | bytes
    · exact ⟨fun _ _ _ => (by rintro ⟨⟩), fun _ _ => (by rintro ⟨⟩)⟩
    obtain ⟨a1, k, hrx, hk, hsize, hbuf1⟩ := rxData_whole bytes hbuf hgot
    set all := got ++ RxAnswer.bytes (some bytes) (a.size - got.length) with hall
    have hlen : all.length = got.length + k := by
      rw [hall, hk, length_append]
    rw [← hlen] at hbuf1
    have hrun : streamingReceive a.size (some bytes :: rs) a got.length =
        if k = 0 then none
        else (a1.read (k - 1)).bind fun b =>
          if b ≠ ahdlcFlag ∧ 0 < a.size then streamingReceive a.size rs a1 all.length
          else some (a1, some (all.length, rs)) := by
      rw [streamingReceive, hrx, hlen]
      rfl
    have hread : streamReceived a.size (some bytes :: rs) got =
        if 0 < k ∧ all[k - 1]? = some ahdlcFlag then some (all, rs)
        else if 0 < k then streamReceived a.size rs all else none := by
      rw [streamReceived, gathered]
      simp only [← hall, ← hk, decide_eq_true_eq]
      rfl
    rw [hrun, hread]
    rcases Nat.eq_zero_or_pos k with rfl | hpos
    · rw [if_pos rfl, if_neg (by simp), if_neg (by simp)]
      exact ⟨fun _ _ _ => (by rintro ⟨⟩), fun _ _ => (by rintro ⟨⟩)⟩
    have hin : k - 1 < all.length := by omega
    have hb : all[k - 1]? = some all[k - 1] := getElem?_eq_getElem hin
    have hroom : 0 < a.size := by
      rw [hk, RxAnswer.bytes, length_take] at hpos
      omega
    rw [if_neg (Nat.ne_of_gt hpos), read_of_whole hbuf1 hin, hb, bind_some]
    simp only [hpos, hroom, true_and, and_true, some.injEq]
    by_cases hflag : all[k - 1] = ahdlcFlag
    · rw [if_neg (not_not.2 hflag), if_pos hflag]
      refine ⟨fun h => (by cases h), ?_⟩
      rintro _ _ ⟨⟩
      exact ⟨a1, rfl, hsize, hbuf1⟩
    rw [if_pos hflag, if_neg hflag, if_pos trivial, ← hsize]
    apply ih hbuf1
    rw [hsize, hlen, hk]
    have := length_take_le (min (a.size - got.length) maxRead) bytes
    rw [RxAnswer.bytes, getD_some]
    omega

/-! ### One packet -/

variable {total start : ℕ} {a a' : CArray Byte} {d : List Byte}
variable {ds : List (List Byte)} {l : List Byte} {T n s : ℕ}

theorem getElem?_of_prefix {i j : ℕ} (h : l <+: a.slice i n) (hj : j < l.length) : l[j]? = some (a.get (i + j)) := by
  have hn : j < n := by
    have := h.length_le
    rw [CArray.length_slice] at this
    omega
  rw [← CArray.getElem?_slice j hn]
  obtain ⟨t, ht⟩ := h
  rw [← ht, getElem?_append_left hj]

theorem flags_of_wrap (h : wrap d <+: a.slice start n) :
    a.get start = ahdlcFlag ∧ a.get (start + ((wrap d).length - 1)) = ahdlcFlag ∧
      ∀ j, start < j → j < start + ((wrap d).length - 1) → a.get j ≠ ahdlcFlag := by
  have hlen : (wrap d).length = (ahdlc.stuff d).length + 2 := by simp [wrap]
  refine ⟨?_, ?_, ?_⟩
  · have h0 := getElem?_of_prefix h (show 0 < (wrap d).length by omega)
    simpa [wrap] using h0.symm
  · have hl := getElem?_of_prefix h (show (wrap d).length - 1 < (wrap d).length by omega)
    rw [hlen, show (ahdlc.stuff d).length + 2 - 1 = (ahdlc.stuff d).length + 1 by omega] at hl ⊢
    simpa [wrap] using hl.symm
  intro j _ _ hflag
  have hk := getElem?_of_prefix h (show j - start < (wrap d).length by omega)
  rw [show start + (j - start) = j by omega, hflag, wrap,
    show j - start = (j - start - 1) + 1 by omega, getElem?_cons_succ,
    getElem?_append_left (by omega)] at hk
  exact Stuffing.flag_notMem_stuff (S := ahdlc) d (mem_of_getElem? hk)

theorem findCell_flag (hle : total ≤ a.size) (hlt : start < total) :
    ∃ o, findCell (fun i => (a.read i).map (· == ahdlcFlag)) (total - (start + 1)) (start + 1) = some o ∧
      start < o.getD total ∧ o.getD total ≤ total ∧ (o.getD total < total → a.get (o.getD total) = ahdlcFlag) ∧
      ∀ j, start < j → j < o.getD total → a.get j ≠ ahdlcFlag := by
  have hread : ∀ i, start + 1 ≤ i → i < start + 1 + (total - (start + 1)) →
      (a.read i).map (· == ahdlcFlag) = some (a.get i == ahdlcFlag) := by
    intro i _ _
    rw [CArray.read_of_lt (by omega)]
    rfl
  rcases findCell_spec hread with ⟨hf, hall⟩ | ⟨k, hf, _, _, hq, hall⟩
  · refine ⟨none, hf, hlt, Nat.le_refl _, fun h => absurd h (Nat.lt_irrefl _), ?_⟩
    intro j hj hj'
    have := hall j (by omega) (by simp only [getD_none] at hj'; omega)
    simpa using this
  refine ⟨some k, hf, ?_, ?_, fun _ => by simpa using hq, ?_⟩
  · simp only [getD_some]
    omega
  · simp only [getD_some]
    omega
  · intro j _ hj'
    have := hall j (by omega) hj'
    simpa using this

theorem takePacket_eq_some {e : ℕ} (hle : total ≤ a.size) (hlt : start < total)
    (h : takePacket total a start = some (a', some (e, n))) :
    ∃ d, wrap d <+: a.slice start (a.size - start) ∧ e = start + (wrap d).length ∧ e ≤ total + 1 ∧
      n = d.length ∧ Decoded a start 0 d a' := by
  obtain ⟨o, ho, _, _, -, hall⟩ := findCell_flag hle hlt
  rw [takePacket, CArray.read_of_lt (by omega), bind_some] at h
  split at h
  · cases h
  rw [ho, bind_some] at h
  obtain ⟨b, hb, h⟩ := bind_eq_some_iff.1 h
  have hosize : o.getD total < a.size := by
    by_contra hge
    rw [CArray.read, if_neg hge] at hb
    cases hb
  split at h
  · cases h
  obtain ⟨⟨_, _⟩, hres, h⟩ := map_eq_some_iff.1 h
  simp only [Prod.mk.injEq, map_eq_some_iff] at h
  obtain ⟨rfl, m, rfl, rfl, rfl⟩ := h
  obtain ⟨d, hd, rfl, hdec⟩ := hdlcDecode_eq_some (by omega) hres
  have hlen := hd.length_le
  rw [CArray.length_slice] at hlen
  -- The scan stopped at the flag that ends the text.
  have hend : start + ((wrap d).length - 1) = o.getD total := by
    have h2 := two_le_length_wrap d
    by_contra hne
    exact hall _ (by omega) (by omega) (flags_of_wrap hd).2.1
  have h2 := two_le_length_wrap d
  refine ⟨d, ?_, by omega, by omega, rfl, hdec⟩
  rw [show a.size - start = o.getD total + 1 - start + (a.size - (o.getD total + 1)) by omega, CArray.slice_add]
  exact hd.trans (prefix_append _ _)

theorem takePacket_of_wrap (hle : total ≤ a.size) (hlt : start < total)
    (hd : wrap d <+: a.slice start (a.size - start)) (hend : start + (wrap d).length ≤ total + 1) :
    ∃ a', takePacket total a start = some (a', some (start + (wrap d).length, d.length)) ∧
      Decoded a start 0 d a' := by
  obtain ⟨o, ho, hgt, _, hflag, hall⟩ := findCell_flag hle hlt
  obtain ⟨hopen, hclose, hinside⟩ := flags_of_wrap hd
  have h2 := two_le_length_wrap d
  have hsize := hd.length_le
  rw [CArray.length_slice] at hsize
  have hstop : o.getD total = start + ((wrap d).length - 1) := by
    rcases Nat.lt_trichotomy (o.getD total) (start + ((wrap d).length - 1)) with hl | he | hg
    · exact absurd (hflag (by omega)) (hinside _ hgt hl)
    · exact he
    · exact absurd hclose (hall _ (by omega) hg)
  have hpre : wrap d <+: a.slice start (o.getD total + 1 - start) := by
    refine prefix_of_prefix_length_le hd ?_ ?_
    · rw [show a.size - start = o.getD total + 1 - start + (a.size - (o.getD total + 1)) by omega,
        CArray.slice_add]
      exact prefix_append _ _
    · rw [CArray.length_slice]
      omega
  obtain ⟨a', hr, hdec⟩ := hdlcDecode_of_wrap (by omega) hpre
  refine ⟨a', ?_, hdec⟩
  have hlast : a.get (o.getD total) = ahdlcFlag := by rw [hstop, hclose]
  have hnext : o.getD total + 1 = start + (wrap d).length := by omega
  rw [takePacket, CArray.read_of_lt (by omega), bind_some, if_neg (not_not.2 hopen), ho,
    bind_some, CArray.read_of_lt (by omega), bind_some, if_neg (not_not.2 hlast), hr, hnext]
  rfl

/-! ### The packets of one reading -/

/-- The packets are texts between flags, one after the other.  The last of them may begin with the last
flag that was read: then it ends one byte further. -/
def Covers (ds : List (List Byte)) (l : List Byte) (T : ℕ) : Prop :=
  ds ≠ [] ∧ (ds.map wrap).flatten <+: l ∧ T ≤ (ds.map wrap).flatten.length ∧
    (ds.map wrap).flatten.length ≤ T + 1

/-- The packets that are not log messages, by their places. -/
def others : ℕ → List (List Byte) → List (ℕ × List Byte)
  | _, [] => []
  | s, d :: ds =>
    if d.head? = some streamingCmdLog then others (s + (wrap d).length) ds
    else (s, d) :: others (s + (wrap d).length) ds

theorem covers_singleton : Covers [d] l T ↔ wrap d <+: l ∧ T ≤ (wrap d).length ∧ (wrap d).length ≤ T + 1 := by
  simp [Covers]

theorem covers_cons (hds : ds ≠ []) : Covers (d :: ds) l T ↔
      wrap d <+: l ∧ (wrap d).length < T ∧ Covers ds (l.drop (wrap d).length) (T - (wrap d).length) := by
  have h2 : 2 ≤ (ds.map wrap).flatten.length := by
    obtain ⟨e, _, rfl⟩ := exists_cons_of_ne_nil hds
    rw [map_cons, flatten_cons, length_append]
    have := two_le_length_wrap e
    omega
  simp only [Covers, map_cons, flatten_cons, length_append]
  constructor
  · rintro ⟨-, ⟨t, rfl⟩, h1, h₂⟩
    refine ⟨⟨(ds.map wrap).flatten ++ t, (append_assoc _ _ _).symm⟩, by omega, hds, ?_, by omega, by omega⟩
    rw [append_assoc, drop_left]
    exact prefix_append _ _
  rintro ⟨⟨t, rfl⟩, _, -, hpre, _, _⟩
  rw [drop_left] at hpre
  refine ⟨cons_ne_nil _ _, ?_, by omega, by omega⟩
  exact prefix_append_right_inj _ |>.2 hpre

/-- The cells of a log message after it was decoded: its text, a zero, and what is left of the packet. -/
def logCells (d : List Byte) : List Byte := d ++ 0#8 :: (wrap d).drop (d.length + 1)

/-- Where a packet is and how long its text is. -/
def place (x : ℕ × List Byte) : ℕ × ℕ := (x.1, x.2.length)

/-- The response after the packet with text `d`. -/
def newResp (resp : Option (ℕ × ℕ)) (start : ℕ) (d : List Byte) : Option (ℕ × ℕ) :=
  if d.head? = some streamingCmdLog then resp else some (start, d.length)

variable {fuel : ℕ} {resp : Option (ℕ × ℕ)}

theorem toList_newResp (h : d.head? = some streamingCmdLog ∨ resp = none) :
    (newResp resp start d).toList ++ (others (start + (wrap d).length) ds).map place =
      resp.toList ++ (others start (d :: ds)).map place := by
  by_cases hlog : d.head? = some streamingCmdLog
  · rw [newResp, if_pos hlog, others, if_pos hlog]
  · obtain rfl : resp = none := h.resolve_left hlog
    rw [newResp, if_neg hlog, others, if_neg hlog]
    rfl

theorem parsePackets_step (hle : total ≤ a.size) (hlt : start < total)
    (hd : wrap d <+: a.slice start (a.size - start)) (hend : start + (wrap d).length ≤ total + 1) :
    ∃ a2, a2.size = a.size ∧ (∀ j, j < start ∨ start + (wrap d).length ≤ j → a2.get j = a.get j) ∧
      a2.slice start d.length = d ∧
      (d.head? = some streamingCmdLog → a2.slice start (wrap d).length = logCells d) ∧
      parsePackets total (fuel + 1) a start resp =
        if d.head? = some streamingCmdLog ∨ resp = none then
          if start + (wrap d).length < total then
            parsePackets total fuel a2 (start + (wrap d).length) (newResp resp start d)
          else some (a2, some (newResp resp start d))
        else some (a2, none) := by
  obtain ⟨a1, htake, hdec⟩ := takePacket_of_wrap hle hlt hd hend
  have hshort := length_lt_length_wrap d
  have hsize := hd.length_le
  rw [CArray.length_slice] at hsize
  have hfirst : a1.read start = some (d.head?.getD ahdlcFlag) := by
    rw [CArray.read_of_lt (by rw [hdec.size_eq]; omega), hdec.get_base fun _ => (flags_of_wrap hd).1]
  have hlog : d.head?.getD ahdlcFlag = streamingCmdLog ↔ d.head? = some streamingCmdLog := by
    cases d.head? with
    | none => simp [ahdlcFlag, streamingCmdLog]
    | some => simp
  have hrest : ∀ j, j < start ∨ start + (wrap d).length ≤ j → a1.get j = a.get j := by
    intro j hj
    exact hdec.others j (by omega)
  have htext : a1.slice start d.length = d := hdec.slice_eq
  have hrun : parsePackets total (fuel + 1) a start resp = (a1.read start).bind fun c =>
        if c = streamingCmdLog then
          (a1.write (start + d.length) 0).bind fun a =>
            if start + (wrap d).length < total then
              parsePackets total fuel a (start + (wrap d).length) resp else some (a, some resp)
        else if resp = none then
          if start + (wrap d).length < total then
            parsePackets total fuel a1 (start + (wrap d).length) (some (start, d.length))
          else some (a1, some (some (start, d.length)))
        else some (a1, none) := by
    rw [parsePackets, htake]
    rfl
  rw [hrun, hfirst, bind_some]
  by_cases h : d.head? = some streamingCmdLog
  · have hfront : (a1.set (start + d.length) 0).slice start d.length = d := by
      refine Eq.trans (CArray.slice_congr fun j _ hj => ?_) htext
      rw [CArray.get_set, Function.update_of_ne (by omega)]
    refine ⟨a1.set (start + d.length) 0, ?_, ?_, hfront, fun _ => ?_, ?_⟩
    · rw [CArray.size_set, hdec.size_eq]
    · intro j hj
      rw [CArray.get_set, Function.update_of_ne (by omega), hrest j hj]
    · -- the rest of the packet is as it was
      have hback : (a1.set (start + d.length) 0).slice (start + d.length + 1) ((wrap d).length - (d.length + 1)) =
          (wrap d).drop (d.length + 1) := by
        have hpre : wrap d = a.slice start (wrap d).length := by
          refine (prefix_iff_eq_take.1 hd).trans ?_
          rw [← Nat.add_sub_of_le hsize, CArray.slice_add, take_left' CArray.length_slice]
        rw [hpre, CArray.drop_slice, CArray.length_slice, ← Nat.add_assoc]
        refine CArray.slice_congr fun j _ _ => ?_
        rw [CArray.get_set, Function.update_of_ne (by omega), hdec.others j (.inr (by omega))]
      have hlen : (wrap d).length = d.length + ((wrap d).length - (d.length + 1) + 1) := by omega
      rw [hlen, CArray.slice_add, hfront, CArray.slice_succ, hback, CArray.get_set, Function.update_self]
      rfl
    · rw [if_pos (hlog.2 h), if_pos (.inl h), CArray.write_of_lt (by rw [hdec.size_eq]; omega),
        bind_some, newResp, if_pos h]
  · refine ⟨a1, hdec.size_eq, hrest, htext, fun hl => absurd hl h, ?_⟩
    rw [if_neg (mt hlog.1 h), newResp, if_neg h]
    simp only [h, false_or]

theorem slice_behind {a2 : CArray Byte} {m : ℕ} (hsize : a2.size = a.size)
    (hrest : ∀ j, start + m ≤ j → a2.get j = a.get j) :
    (a.slice start (a.size - start)).drop m = a2.slice (start + m) (a2.size - (start + m)) := by
  rw [CArray.drop_slice, hsize, Nat.sub_sub]
  refine CArray.slice_congr ?_
  intro j hj _
  exact (hrest j hj).symm

theorem parsePackets_covers {b : CArray Byte} {r : Option (ℕ × ℕ)} (hle : total ≤ a.size)
    (hlt : start < total) (h : parsePackets total fuel a start resp = some (b, some r)) :
    ∃ ds, Covers ds (a.slice start (a.size - start)) (total - start) ∧
      resp.toList ++ (others start ds).map place = r.toList := by
  induction fuel generalizing a start resp with
  | zero => simp [parsePackets] at h
  | succ fuel ih =>
    obtain ⟨d, hd, hend⟩ : ∃ d, wrap d <+: a.slice start (a.size - start) ∧
        start + (wrap d).length ≤ total + 1 := by
      rw [parsePackets] at h
      obtain ⟨⟨_, res⟩, htake, h⟩ := bind_eq_some_iff.1 h
      cases res with
      | none => simp at h
      | some =>
        obtain ⟨d, hd, he, hend, -⟩ := takePacket_eq_some hle hlt htake
        exact ⟨d, hd, he ▸ hend⟩
    obtain ⟨_, hsize, hrest, -, -, hrun⟩ :=
      parsePackets_step hle hlt hd hend
    rw [hrun] at h
    split at h
    · rename_i hone
      split at h
      · rename_i hmore
        obtain ⟨ds, hcov, hresp⟩ := ih (by omega) hmore h
        refine ⟨d :: ds, (covers_cons hcov.1).2 ⟨hd, by omega, ?_⟩, ?_⟩
        · rw [slice_behind hsize fun j hj => hrest j (.inr hj), Nat.sub_sub]
          exact hcov
        · rw [← toList_newResp hone]
          exact hresp
      simp only [some.injEq, Prod.mk.injEq] at h
      obtain ⟨-, rfl⟩ := h
      refine ⟨[d], covers_singleton.2 ⟨hd, by omega, by omega⟩, ?_⟩
      rw [← toList_newResp hone, others, map_nil, append_nil]
    · cases h

theorem parsePackets_of_covers {r : Option (ℕ × ℕ)} (hle : total ≤ a.size)
    (hlt : start < total) (hfuel : ds.length ≤ fuel) (hcov : Covers ds (a.slice start (a.size - start)) (total - start))
    (hresp : resp.toList ++ (others start ds).map place = r.toList) :
    ∃ b, parsePackets total fuel a start resp = some (b, some r) ∧ b.size = a.size ∧
      (∀ j, j < start → b.get j = a.get j) ∧ ∀ x ∈ others start ds, b.slice x.1 x.2.length = x.2 := by
  induction ds generalizing a start resp fuel with
  | nil => exact absurd rfl hcov.1
  | cons d ds ih =>
    obtain ⟨fuel, rfl⟩ : ∃ k, fuel = k + 1 := Nat.exists_eq_succ_of_ne_zero (by
      rw [length_cons] at hfuel
      omega)
    have hone : d.head? = some streamingCmdLog ∨ resp = none := by
      by_contra hno
      rw [not_or] at hno
      obtain ⟨x, rfl⟩ := ne_none_iff_exists'.1 hno.2
      have := congrArg length hresp
      rw [others, if_neg hno.1] at this
      cases r with
      | none | some => simp at this
    rw [← toList_newResp hone] at hresp
    cases ds with
    | nil =>
      obtain ⟨hd, _, _⟩ := covers_singleton.1 hcov
      obtain ⟨a2, hsize, hrest, htext, -, hrun⟩ := parsePackets_step hle hlt hd (by omega)
      refine ⟨a2, ?_, hsize, fun j hj => hrest j (.inl hj), ?_⟩
      · rw [others, map_nil, append_nil] at hresp
        have hr := congrArg head? hresp
        rw [head?_toList, head?_toList] at hr
        rw [hrun, if_pos hone, if_neg (by omega), hr]
      intro x hx
      rw [others, others] at hx
      split at hx
      · cases hx
      · rw [mem_singleton.1 hx]
        exact htext
    | cons e es =>
      obtain ⟨hd, _, hcov⟩ := (covers_cons (cons_ne_nil e es)).1 hcov
      obtain ⟨_, hsize, hrest, htext, -, hrun⟩ := parsePackets_step hle hlt hd (by omega)
      rw [slice_behind hsize fun j hj => hrest j (.inr hj), Nat.sub_sub] at hcov
      have hlen : (e :: es).length ≤ fuel := by
        rw [length_cons] at hfuel
        omega
      obtain ⟨b, hb, hsb, hfront, hothers⟩ := ih (by omega) (by omega) hlen hcov hresp
      refine ⟨b, ?_, hsb.trans hsize, ?_, ?_⟩
      · rw [hrun, if_pos hone, if_pos (by omega), hb]
      · intro j hj
        rw [hfront j (by omega), hrest j (.inl hj)]
      intro x hx
      rw [others] at hx
      split at hx
      · exact hothers x hx
      rcases mem_cons.1 hx with rfl | hx
      · -- The packets behind it do not touch it.
        have hshort := length_lt_length_wrap d
        refine Eq.trans (CArray.slice_congr fun j _ hj => ?_) htext
        exact hfront j (by simp only at hj; omega)
      · exact hothers x hx

theorem parsePackets_of_logs (hle : total ≤ a.size) (hlt : start < total) (hfuel : ds.length ≤ fuel)
    (hcov : Covers ds (a.slice start (a.size - start)) (total - start))
    (hlogs : ∀ d ∈ ds, d.head? = some streamingCmdLog) :
    ∃ b, parsePackets total fuel a start resp = some (b, some resp) ∧ b.size = a.size ∧
      (∀ j, j < start → b.get j = a.get j) ∧
      b.slice start (b.size - start) =
        (ds.map logCells).flatten ++ (a.slice start (a.size - start)).drop (ds.map wrap).flatten.length := by
  induction ds generalizing a start fuel with
  | nil => exact absurd rfl hcov.1
  | cons d ds ih =>
    obtain ⟨fuel, rfl⟩ : ∃ k, fuel = k + 1 := Nat.exists_eq_succ_of_ne_zero (by
      rw [length_cons] at hfuel
      omega)
    have hlog := hlogs d mem_cons_self
    have hin : (wrap d).length ≤ a.size - start := by
      have := hcov.2.1.length_le
      rw [map_cons, flatten_cons, length_append, CArray.length_slice] at this
      omega
    have hcut : ∀ (c : CArray Byte), c.size = a.size → c.slice start (c.size - start) =
        c.slice start (wrap d).length ++ c.slice (start + (wrap d).length) (c.size - (start + (wrap d).length)) := by
      intro c hc
      rw [← Nat.sub_sub, ← CArray.slice_add, Nat.add_sub_of_le (hc ▸ hin)]
    cases ds with
    | nil =>
      obtain ⟨hd, _, _⟩ := covers_singleton.1 hcov
      obtain ⟨a2, hsize, hrest, -, hcells, hrun⟩ := parsePackets_step hle hlt hd (by omega)
      refine ⟨a2, ?_, hsize, fun j hj => hrest j (.inl hj), ?_⟩
      · rw [hrun, if_pos (.inl hlog), if_neg (by omega), newResp, if_pos hlog]
      · rw [hcut a2 hsize, hcells hlog, ← slice_behind hsize fun j hj => hrest j (.inr hj)]
        simp
    | cons e es =>
      obtain ⟨hd, _, hcov⟩ := (covers_cons (cons_ne_nil e es)).1 hcov
      obtain ⟨a2, hsize, hrest, -, hcells, hrun⟩ := parsePackets_step hle hlt hd (by omega)
      rw [slice_behind hsize fun j hj => hrest j (.inr hj), Nat.sub_sub] at hcov
      have hlen : (e :: es).length ≤ fuel := by
        rw [length_cons] at hfuel
        omega
      obtain ⟨b, hb, hsb, hfront, hcont⟩ :=
        ih (by omega) (by omega) hlen hcov fun d hd => hlogs d (mem_cons_of_mem _ hd)
      refine ⟨b, ?_, hsb.trans hsize, ?_, ?_⟩
      · rw [hrun, if_pos (.inl hlog), if_pos (by omega), newResp, if_pos hlog, hb]
      · intro j hj
        rw [hfront j (by omega), hrest j (.inl hj)]
      rw [hcut b (hsb.trans hsize), hcont, CArray.slice_congr fun j _ hj => hfront j hj, hcells hlog,
        ← slice_behind hsize fun j hj => hrest j (.inr hj), drop_drop]
      simp only [map_cons, flatten_cons, length_append, append_assoc]

/-! ### Which responses are frames -/

theorem exists_of_mem_others (h : (s, d) ∈ others start ds) :
    ∃ pre post, ds = pre ++ d :: post ∧ s = start + (pre.map wrap).flatten.length := by
  induction ds generalizing start with
  | nil => cases h
  | cons e ds ih =>
    have hlater : (s, d) ∈ others (start + (wrap e).length) ds →
        ∃ pre post, e :: ds = pre ++ d :: post ∧ s = start + (pre.map wrap).flatten.length := by
      intro h
      obtain ⟨pre, post, rfl, rfl⟩ := ih h
      refine ⟨e :: pre, post, rfl, ?_⟩
      rw [map_cons, flatten_cons, length_append, Nat.add_assoc]
    rw [others] at h
    split at h
    · exact hlater h
    rcases mem_cons.1 h with heq | h
    · obtain ⟨rfl, rfl⟩ := Prod.mk.injEq .. ▸ heq
      exact ⟨[], ds, rfl, rfl⟩
    · exact hlater h

theorem Covers.of_mem_others (hcov : Covers ds l T)
    (h : (s, d) ∈ others 0 ds) : wrap d <+: l.drop s ∧ s + (wrap d).length ≤ T + 1 := by
  obtain ⟨_, _, rfl, rfl⟩ := exists_of_mem_others h
  obtain ⟨-, ⟨t, rfl⟩, -, hle⟩ := hcov
  simp only [map_append, map_cons, flatten_append, flatten_cons, length_append, append_assoc, Nat.zero_add] at hle ⊢
  rw [drop_left]
  exact ⟨prefix_append _ _, by omega⟩

theorem flagsAround_eq_true (h : flagsAround total a = some true) :
    0 < total ∧ total ≤ a.size ∧ a.get (total - 1) = ahdlcFlag := by
  rw [flagsAround] at h
  split at h
  · cases h
  obtain ⟨b, hb, h⟩ := bind_eq_some_iff.1 h
  have hlt : total - 1 < a.size := by
    by_contra hge
    rw [CArray.read, if_neg hge] at hb
    cases hb
  rw [CArray.read_of_lt hlt, some.injEq] at hb
  split at h
  · cases h
  · rename_i hflag
    exact ⟨by omega, by omega, hb.trans (not_not.1 hflag)⟩

theorem not_intact_nil : ¬ Intact [] := by
  rw [intact_iff]
  rintro ⟨p, h⟩
  cases (append_eq_nil_iff.1 h.symm).2

theorem frame_prefix_received_iff (hflags : flagsAround total a = some true)
    (hd : wrap d <+: a.slice s (a.size - s)) (hend : s + (wrap d).length ≤ total + 1) :
    (∃ p, frame p <+: (a.slice 0 total).drop s) ↔ Intact d := by
  obtain ⟨_, _, hlast⟩ := flagsAround_eq_true hflags
  have h2 := two_le_length_wrap d
  rw [CArray.drop_slice, Nat.zero_add]
  rcases Nat.lt_or_ge total (s + (wrap d).length) with _ | _
  · -- The text ends behind what was read, so there is nothing between its flags.
    have hs : s = total - 1 := by
      by_contra hne
      exact (flags_of_wrap hd).2.2 (total - 1) (by omega) (by omega) hlast
    have hnil : d = [] := by
      have := length_lt_length_wrap d
      exact length_eq_zero_iff.1 (by omega)
    subst hnil
    refine iff_of_false ?_ not_intact_nil
    rintro ⟨p, hp⟩
    have := hp.length_le
    have := two_le_length_wrap (p ++ crcBytes p)
    rw [frame_eq_wrap, CArray.length_slice] at *
    omega
  refine frame_prefix_iff (prefix_of_prefix_length_le hd ?_ ?_)
  · rw [show a.size - s = total - s + (a.size - total) by omega, CArray.slice_add]
    exact prefix_append _ _
  · rw [CArray.length_slice]
    omega

/-- The condition for one reading of `T` bytes: if one packet is not a log message, it is intact. -/
def RoundCond (buf : List Byte) (T : ℕ) : Prop :=
  ∀ ds s d, Covers ds buf T → others 0 ds = [(s, d)] → Intact d

theorem length_le_of_covers (hT : 0 < T) (hcov : Covers ds l T) : ds.length ≤ T := by
  have h : ∀ ds : List (List Byte), 2 * ds.length ≤ (ds.map wrap).flatten.length := by
    intro ds
    induction ds with
    | nil => exact Nat.le_refl 0
    | cons d ds ih =>
      have := two_le_length_wrap d
      rw [map_cons, flatten_cons, length_append, length_cons]
      omega
  have := h ds
  have := hcov.2.2.2
  omega

theorem parsePackets_of_others (hflags : flagsAround total a = some true) (hcov : Covers ds (a.slice 0 a.size) total)
    (hone : others 0 ds = [(s, d)]) : ∃ b, parsePackets total total a 0 none = some (b, some (some (s, d.length))) := by
  obtain ⟨hpos, hle, -⟩ := flagsAround_eq_true hflags
  have hresp : (none : Option (ℕ × ℕ)).toList ++ (others 0 ds).map place = (some (s, d.length)).toList := by
    rw [hone]
    rfl
  obtain ⟨b, hb, -⟩ := parsePackets_of_covers hle hpos (length_le_of_covers hpos hcov) hcov hresp
  exact ⟨b, hb⟩

theorem parsePackets_eq_some_some {b : CArray Byte} (hflags : flagsAround total a = some true)
    (h : parsePackets total total a 0 none = some (b, some (some (s, n)))) :
    ∃ ds d, Covers ds (a.slice 0 a.size) total ∧ others 0 ds = [(s, d)] := by
  obtain ⟨hpos, hle, -⟩ := flagsAround_eq_true hflags
  obtain ⟨ds, hcov, hresp⟩ := parsePackets_covers hle hpos h
  rw [toList_none, nil_append, toList_some, map_eq_singleton_iff] at hresp
  obtain ⟨⟨_, d⟩, hone, hplace⟩ := hresp
  obtain ⟨rfl, -⟩ := Prod.mk.injEq .. ▸ hplace
  exact ⟨ds, d, hcov, hone⟩

theorem parsePackets_sound_iff (hflags : flagsAround total a = some true) :
    (∀ b s n, parsePackets total total a 0 none = some (b, some (some (s, n))) →
      ∃ p, frame p <+: (a.slice 0 total).drop s) ↔ RoundCond (a.slice 0 a.size) total := by
  -- A text where the response is.
  have hiff : ∀ ds s d, Covers ds (a.slice 0 a.size) total → others 0 ds = [(s, d)] →
      ((∃ p, frame p <+: (a.slice 0 total).drop s) ↔ Intact d) := by
    intro ds s d hcov hone
    obtain ⟨hd, hend⟩ := hcov.of_mem_others (hone ▸ mem_singleton_self (s, d))
    rw [CArray.drop_slice, Nat.zero_add] at hd
    exact frame_prefix_received_iff hflags hd hend
  constructor
  · intro h ds s d hcov hone
    obtain ⟨b, hb⟩ := parsePackets_of_others hflags hcov hone
    exact (hiff ds s d hcov hone).1 (h b s _ hb)
  · intro h b s n hb
    obtain ⟨ds, d, hcov, hone⟩ := parsePackets_eq_some_some hflags hb
    exact (hiff ds s d hcov hone).2 (h ds s d hcov hone)

/-! ### All readings of a call -/

/-- The readings of a call that begins with `old` in `rx_buffer`: the bytes that are received, and what is in
`rx_buffer` then.  There is another reading after one that takes log messages only. -/
inductive StreamReading : List Byte → List RxAnswer → List Byte → List Byte → Prop
  | first {old got : List Byte} {rs rs' : List RxAnswer} : streamReceived old.length rs [] = some (got, rs') →
      StreamReading old rs got (got ++ old.drop got.length)
  | again {old got got' buf : List Byte} {rs rs' : List RxAnswer} {ds : List (List Byte)} :
      streamReceived old.length rs [] = some (got, rs') → got.getLast? = some ahdlcFlag →
      Covers ds (got ++ old.drop got.length) got.length → (∀ d ∈ ds, d.head? = some streamingCmdLog) →
      StreamReading ((ds.map logCells).flatten ++ (got ++ old.drop got.length).drop (ds.map wrap).flatten.length) rs' got' buf →
      StreamReading old rs got' buf

/-- The condition for `streaming_rx_data()`, on the bytes received. -/
def StreamCond (old : List Byte) (rs : List RxAnswer) : Prop :=
  ∀ got buf, StreamReading old rs got buf → got.getLast? = some ahdlcFlag → RoundCond buf got.length

theorem flagsAround_of_covers {got m : List Byte} (hbuf : a.slice 0 a.size = got ++ m) (hgot : got ≠ [])
    (hlast : got.getLast? = some ahdlcFlag) (hcov : Covers ds (a.slice 0 a.size) got.length) :
    flagsAround got.length a = some true := by
  have hpos := length_pos_of_ne_nil hgot
  obtain ⟨d, ds, rfl⟩ := exists_cons_of_ne_nil hcov.1
  have hfirst : a.read 0 = some ahdlcFlag := by
    obtain ⟨t, ht⟩ := hcov.2.1
    rw [read_of_whole (l := a.slice 0 a.size) (m := []) (append_nil _).symm, ← ht]
    · rfl
    · rw [← ht]
      exact Nat.succ_pos _
  rw [flagsAround, if_neg (by omega), read_of_whole hbuf (by omega), ← getLast?_eq_getElem?, hlast, bind_some,
    if_neg (not_not.2 rfl), hfirst]
  rfl

theorem all_logs (h : others start ds = []) : ∀ d ∈ ds, d.head? = some streamingCmdLog := by
  induction ds generalizing start with
  | nil => exact fun _ h => absurd h not_mem_nil
  | cons d ds ih =>
    rw [others] at h
    split_ifs at h with hlog
    exact forall_mem_cons.2 ⟨hlog, ih h⟩

theorem streamCond_iff {old got : List Byte} {rs rs' : List RxAnswer}
    (hrecv : streamReceived old.length rs [] = some (got, rs')) :
    StreamCond old rs ↔ (got.getLast? = some ahdlcFlag →
      RoundCond (got ++ old.drop got.length) got.length ∧
      ∀ ds, Covers ds (got ++ old.drop got.length) got.length → (∀ d ∈ ds, d.head? = some streamingCmdLog) →
        StreamCond ((ds.map logCells).flatten ++ (got ++ old.drop got.length).drop (ds.map wrap).flatten.length) rs') := by
  constructor
  · intro h hlast
    exact ⟨h _ _ (.first hrecv) hlast, fun ds hcov hlogs got' buf hread =>
      h got' buf (.again hrecv hlast hcov hlogs hread)⟩
  intro h _ _ hread hlast
  cases hread with
  | first hr =>
    obtain ⟨rfl, -⟩ := Prod.mk.inj (some.inj (hrecv.symm.trans hr))
    exact (h hlast).1
  | again hr hl hcov hlogs hnext =>
    obtain ⟨rfl, rfl⟩ := Prod.mk.inj (some.inj (hrecv.symm.trans hr))
    exact (h hl).2 _ hcov hlogs _ _ hnext hlast

/-- **When `streaming_rx_data()` takes intact frames only.** -/
theorem streamingRxData_sound_iff {rs : List RxAnswer} (hfuel : rs.length ≤ fuel) :
    (∀ b resp, streamingRxData fuel a rs = some (b, some resp) →
      ∃ p, frame p <+: resp.received.drop resp.start) ↔ StreamCond (a.slice 0 a.size) rs := by
  induction fuel generalizing a rs with
  | zero =>
    obtain rfl := length_eq_zero_iff.1 (Nat.le_zero.1 hfuel)
    refine iff_of_true ?_ ?_
    · rintro _ _ ⟨⟩
    · rintro _ _ (⟨⟨⟩⟩ | ⟨⟨⟩, -⟩)
  | succ fuel ih =>
    obtain ⟨hnone, hsome⟩ := @streamingReceive_received a rs [] (a.slice 0 a.size) rfl (Nat.zero_le _)
    have hsizeOld : (a.slice 0 a.size).length = a.size := CArray.length_slice
    rw [streamingRxData]
    rcases hrecv : streamReceived a.size rs [] with - | ⟨got, rs'⟩
    · refine iff_of_true ?_ ?_
      · intro _ _ h
        obtain ⟨⟨a1, - | res⟩, hrun, h⟩ := bind_eq_some_iff.1 h
        · cases h
        · exact absurd hrun (hnone hrecv a1 res)
      · intro _ _ hread
        rw [← hsizeOld] at hrecv
        cases hread with
        | first hr | again hr => cases hrecv.symm.trans hr
    obtain ⟨a1, hrun, hsize, hbuf⟩ := hsome got rs' hrecv
    have hrest := gathered_length hrecv
    rw [streamCond_iff (by rw [hsizeOld]; exact hrecv), ← hbuf]
    rw [length_nil] at hrun
    rw [hrun, bind_some]
    dsimp only
    by_cases hf : flagsAround got.length a1 = some true
    swap
    · -- nothing is returned, and what was received is not a sequence of packets
      refine iff_of_true ?_ fun hlast => ?_
      · intro _ _ h
        obtain ⟨f, hflags, h⟩ := bind_eq_some_iff.1 h
        cases f with
        | false => cases h
        | true => exact absurd hflags hf
      have hne : got ≠ [] := by
        rintro rfl
        cases hlast
      have hno : ∀ ds, ¬ Covers ds (a1.slice 0 a1.size) got.length := fun ds hcov =>
        hf (flagsAround_of_covers hbuf hne hlast hcov)
      exact ⟨fun ds _ _ hcov => absurd hcov (hno ds), fun ds hcov => absurd hcov (hno ds)⟩
    obtain ⟨hpos, hle, hget⟩ := flagsAround_eq_true hf
    have hlast : got.getLast? = some ahdlcFlag := by
      rw [getLast?_eq_getElem?, ← read_of_whole hbuf (by omega), CArray.read_of_lt (by omega), hget]
    have hround := parsePackets_sound_iff hf
    have hlogs : ∀ ds, Covers ds (a1.slice 0 a1.size) got.length → (∀ d ∈ ds, d.head? = some streamingCmdLog) →
        ∃ b, parsePackets got.length got.length a1 0 none = some (b, some none) ∧
          b.slice 0 b.size = (ds.map logCells).flatten ++ (a1.slice 0 a1.size).drop (ds.map wrap).flatten.length := by
      intro ds hcov hall
      obtain ⟨b, hb, -, -, hcont⟩ := parsePackets_of_logs hle hpos (length_le_of_covers hpos hcov) hcov hall
      exact ⟨b, hb, hcont⟩
    rw [hf, bind_some, ← hround]
    simp only [hlast, true_implies]
    rcases hparse : parsePackets got.length got.length a1 0 none with - | ⟨b, - | - | ⟨s, n⟩⟩
    · refine iff_of_true (by rintro _ _ ⟨⟩) ⟨by rintro _ _ _ ⟨⟩, fun ds hcov hall => ?_⟩
      obtain ⟨b, hb, -⟩ := hlogs ds hcov hall
      cases hparse.symm.trans hb
    · refine iff_of_true (by rintro _ _ ⟨⟩) ⟨by rintro _ _ _ ⟨⟩, fun ds hcov hall => ?_⟩
      obtain ⟨b, hb, -⟩ := hlogs ds hcov hall
      cases hparse.symm.trans hb
    · -- log messages only: the next reading
      rw [bind_some, and_iff_right (by rintro _ _ _ ⟨⟩)]
      refine (ih (by omega)).trans ?_
      constructor
      · intro h ds hcov hall
        obtain ⟨b', hb, hcont⟩ := hlogs ds hcov hall
        obtain ⟨rfl, -⟩ := Prod.mk.inj (some.inj (hparse.symm.trans hb))
        exact hcont ▸ h
      · intro h
        obtain ⟨ds, hcov, hresp⟩ := parsePackets_covers hle hpos hparse
        have hall := all_logs (map_eq_nil_iff.1 hresp)
        obtain ⟨b', hb, hcont⟩ := hlogs ds hcov hall
        obtain ⟨rfl, -⟩ := Prod.mk.inj (some.inj (hparse.symm.trans hb))
        exact hcont ▸ h ds hcov hall
    · rw [bind_some, and_iff_left fun ds hcov hall => by
        obtain ⟨b, hb, -⟩ := hlogs ds hcov hall
        cases hparse.symm.trans hb]
      have hreceived : a1.slice 0 got.length = got := slice_of_whole hbuf
      constructor
      · rintro h _ _ _ ⟨⟩
        exact h b _ rfl
      · rintro h _ _ ⟨⟩
        exact h b s n rfl

/-! ### The decoder and the three readers -/

/-- A list begins with what `hdlc_encode()` makes of some packet. -/
def BeginsWithFrame (l : List Byte) : Prop := ∃ p f, Encodes p f ∧ f <+: l

theorem beginsWithFrame_iff : BeginsWithFrame l ↔ ∃ p, frame p <+: l := by
  constructor
  · rintro ⟨p, f, hp, hf⟩
    exact ⟨p, hp.eq_frame ▸ hf⟩
  · rintro ⟨p, hp⟩
    exact ⟨p, frame p, encodes_frame p, hp⟩

/-- **Which texts are taken.**  `hdlc_decode()` takes frames of `hdlc_encode()` only, exactly if `check_crc()`
accepts the text that begins the buffer.  So it is for the acknowledgements, the responses to a memory read
and the responses to a stream write; an acknowledgement must also have been received to its end. -/
theorem hdlc_accepts_exact (a rxBuffer : CArray Byte) (length fuel : ℕ) (r : RxAnswer) (rs : List RxAnswer) :
    (length ≤ a.size → ((∀ a' n, hdlcDecode a 0 length = some (a', some n) → BeginsWithFrame (a.slice 0 length)) ↔
        ∀ d, wrap d <+: a.slice 0 length → Intact d)) ∧
    ((∀ a', readPktAck rxBuffer r = some (a', true) → BeginsWithFrame (r.bytes rxBuffer.size)) ↔
      AckCond rxBuffer r) ∧
    ((∀ a', readMemReadResp rxBuffer rs = some (a', true) →
      ∃ l rs', memReadBytes rxBuffer.size rs [] = some (l, rs') ∧ BeginsWithFrame (ahdlcFlag :: l)) ↔
        MemReadCond rxBuffer.size rs) ∧
    (rs.length ≤ fuel → ((∀ b resp, streamingRxData fuel rxBuffer rs = some (b, some resp) →
      BeginsWithFrame (resp.received.drop resp.start)) ↔ StreamCond (rxBuffer.slice 0 rxBuffer.size) rs)) := by
  refine ⟨?_, ?_, ?_, ?_⟩
  · intro hsize
    simp only [beginsWithFrame_iff]
    exact hdlcDecode_sound_iff hsize
  · simp only [beginsWithFrame_iff]
    exact readPktAck_sound_iff
  · simp only [beginsWithFrame_iff]
    exact readMemReadResp_sound_iff
  · simp only [beginsWithFrame_iff]
    exact streamingRxData_sound_iff

/-- An acknowledgement with a wrong checksum. -/
def damagedAck : List Byte := [0x7e#8, 0x02#8, 0x00#8, 0x00#8, 0x7e#8]

theorem hdlc_accepts_damaged : (hdlcDecode (CArray.ofList damagedAck) 0 5).map (·.2) = some (some 3) ∧
      (readPktAck (CArray.zeros 5) (some damagedAck)).map (·.2) = some true ∧
      ¬BeginsWithFrame damagedAck := by
  refine ⟨by decide, by decide, ?_⟩
  have hd : wrap [0x02#8, 0x00#8, 0x00#8] <+: damagedAck := by decide
  rw [beginsWithFrame_iff, frame_prefix_iff hd, Intact, if_pos (by decide)]
  decide

end G4Common.MdmTransfer
