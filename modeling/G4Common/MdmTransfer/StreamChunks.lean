/-
`streaming_rx_data()` (`mdm-helper/mdmfiletransfer/streaming_protocol.c`) and the pieces in which a stream
of frames comes.

The reading stops when `buffer[data_size-1]` is a flag, where `data_size` is the size of the last piece and
not the number of bytes that were read.  After the first piece this is a byte in the middle of what was
read.  `stopAt` is what is read up to the stop, and `WellSplit` says of the pieces what makes all go well:
each reading ends with a frame.  The other ways to stop are in the middle of a frame, where the function
gives up, and behind an opening flag, where it looks for the end of the frame behind what was read.

`streaming_rx_chunks` says that the pieces decide this alone.  That the function asks for no more is part of
it: the model has no more answers than there are pieces.
-/
import G4Common.MdmTransfer.StreamRx

namespace G4Common.MdmTransfer

open List Option

/-! ### Statement -/

/-- A message of the target's log. -/
def isLog (p : List Byte) : Bool := p.head? = some streamingCmdLog

/-- The frames of some packets. -/
def frames (ps : List (List Byte)) : List Byte := (ps.map frame).flatten

/-- The response `p` is returned, decoded and with its length. -/
def Returns (fuel : ℕ) (a : CArray Byte) (rs : List RxAnswer) (p : List Byte) : Prop :=
  ∃ b resp, streamingRxData fuel a rs = some (b, some resp) ∧ resp.length = p.length + 2 ∧
    b.slice resp.start resp.length = p ++ crcBytes p

/-- The buffer and the number of bytes in it at each reading. -/
def streamRounds : ℕ → CArray Byte → List RxAnswer → List (CArray Byte × ℕ)
  | 0, _, _ => []
  | fuel + 1, a, rs =>
    match streamingReceive a.size rs a 0 with
    | some (a, some (total, rs)) =>
      if flagsAround total a = some true then
        (a, total) :: match parsePackets total total a 0 none with
          | some (b, some none) => streamRounds fuel b rs
          | _ => []
      else []
    | _ => []

/-- The packets are cut without a look behind what was read: this goes as well in memory that ends there. -/
def ReadsReceived (fuel : ℕ) (a : CArray Byte) (rs : List RxAnswer) : Prop :=
  ∀ x ∈ streamRounds fuel a rs, (parsePackets x.2 x.2 ⟨x.2, x.1.get⟩ 0 none).isSome

/-- What one reading takes, with the pieces that are left. -/
def stopAt : List Byte → List (List Byte) → Option (List Byte × List (List Byte))
  | _, [] => none
  | got, c :: cs =>
    if (got ++ c)[c.length - 1]? = some ahdlcFlag then some (got ++ c, cs) else stopAt (got ++ c) cs

/-- Each reading takes whole frames, up to the reading with the response. -/
inductive WellSplit : List (List Byte) → List (List Byte) → Prop
  | response {ps qs cs cs' : List (List Byte)} : stopAt [] cs = some (frames ps, cs') →
      ps.all isLog = false → WellSplit (ps ++ qs) cs
  | again {ps qs cs cs' : List (List Byte)} : stopAt [] cs = some (frames ps, cs') →
      ps.all isLog = true → WellSplit qs cs' → WellSplit (ps ++ qs) cs

/-! ### Frames -/

theorem frames_append (ps qs : List (List Byte)) : frames (ps ++ qs) = frames ps ++ frames qs := by
  rw [frames, map_append, flatten_append]
  rfl

@[simp] theorem frames_singleton (p : List Byte) : frames [p] = frame p := append_nil _

theorem frames_eq_wrap (ps : List (List Byte)) : frames ps = ((ps.map fun p => p ++ crcBytes p).map wrap).flatten := by
  rw [frames, List.map_map]
  rfl

variable {a : CArray Byte} {cs cs' ps : List (List Byte)} {T got : List Byte}

theorem frames_ne_nil (h : ps ≠ []) : frames ps ≠ [] := by
  obtain ⟨p, _, rfl⟩ := exists_cons_of_ne_nil h
  exact cons_ne_nil _ _

theorem frames_eq_append_flag (h : ps ≠ []) : ∃ l, frames ps = l ++ [ahdlcFlag] := by
  induction ps using reverseRecOn with
  | nil => exact absurd rfl h
  | append_singleton ps p =>
    refine ⟨frames ps ++ ahdlcFlag :: ahdlc.stuff (p ++ crcBytes p), ?_⟩
    rw [frames_append, append_assoc]
    exact congrArg (frames ps ++ ·) (append_nil _)

theorem splitFrames_frames (ps : List (List Byte)) (l : List Byte) :
    splitFrames (frames ps ++ l) = ps.map frame ++ splitFrames l := by
  induction ps with
  | nil => rfl
  | cons p ps ih =>
    have hcons : frames (p :: ps) ++ l = frame p ++ (frames ps ++ l) := by
      rw [frames, map_cons, flatten_cons, append_assoc]
      rfl
    rw [hcons, splitFrames_frame, ih]
    rfl

theorem frames_injective : Function.Injective frames := by
  intro ps _ h
  have hsplit := splitFrames_frames ps []
  rw [h, splitFrames_frames, append_left_inj] at hsplit
  exact (map_injective_iff.2 frame_injective hsplit).symm

theorem length_le_length_frames (ps : List (List Byte)) : ps.length ≤ (frames ps).length := by
  induction ps with
  | nil => exact Nat.le_refl 0
  | cons p ps ih =>
    have h2 : 0 < (frame p).length := Nat.succ_pos _
    rw [show frames (p :: ps) = frame p ++ frames ps from rfl, length_append, length_cons]
    omega

theorem frames_append_flag_ne (ps qs : List (List Byte)) : frames ps ++ [ahdlcFlag] ≠ frames qs := by
  intro h
  have hsplit := splitFrames_frames ps [ahdlcFlag]
  rw [h, ← append_nil (frames qs), splitFrames_frames] at hsplit
  have hmem : [ahdlcFlag, ahdlcFlag] ∈ qs.map frame := by
    have hlast : splitFrames [ahdlcFlag] = [[ahdlcFlag, ahdlcFlag]] := by
      simp [splitFrames]
    rw [splitFrames, append_nil] at hsplit
    rw [hsplit, hlast]
    exact mem_append_right _ (mem_singleton_self _)
  obtain ⟨p, -, hp⟩ := mem_map.1 hmem
  have hlen := length_lt_length_wrap (p ++ crcBytes p)
  rw [← frame_eq_wrap, hp, length_append, show (crcBytes p).length = 2 from rfl] at hlen
  simp only [length_cons, length_nil] at hlen
  omega

/-- **Where a stream of frames can be cut behind a flag**: behind a frame, or behind its opening flag. -/
theorem cut_frames {l rest : List Byte} (h : (l ++ [ahdlcFlag]) ++ rest = frames ps) : ∃ qs rs, ps = qs ++ rs ∧
      (l ++ [ahdlcFlag] = frames qs ∧ qs ≠ [] ∧ rest = frames rs ∨ l ++ [ahdlcFlag] = frames qs ++ [ahdlcFlag]) := by
  induction ps generalizing l with
  | nil => simp [frames] at h
  | cons p ps ih =>
    have hcons : frames (p :: ps) = frame p ++ frames ps := rfl
    rw [hcons] at h
    rcases append_eq_append_iff.1 h with ⟨m, hm, hrest⟩ | ⟨m, hm, hrest⟩
    · -- The cut is in the first frame.
      rw [frame, append_assoc] at hm
      cases l with
      | nil => exact ⟨[], p :: ps, rfl, Or.inr rfl⟩
      | cons =>
        rw [cons_append, cons.injEq, ← append_assoc] at hm
        cases m using reverseRecOn with
        | nil =>
          refine ⟨[p], ps, rfl, Or.inl ⟨?_, cons_ne_nil _ _, ?_⟩⟩
          · rw [append_nil] at hm
            rw [frames_singleton, frame, hm.2, ← hm.1]
            rfl
          · exact hrest
        | append_singleton =>
          exfalso
          rw [← append_assoc] at hm
          have hstuff := (append_inj' hm.2 rfl).1
          have hmem : ahdlcFlag ∈ ahdlc.stuff (p ++ crcBytes p) := by
            rw [hstuff]
            simp
          exact Stuffing.flag_notMem_stuff (S := ahdlc) _ hmem
    cases m using reverseRecOn with
    | nil =>
      refine ⟨[p], ps, rfl, Or.inl ⟨?_, cons_ne_nil _ _, ?_⟩⟩
      · rw [append_nil] at hm
        rw [hm, frames_singleton]
      · exact hrest.symm
    | append_singleton =>
      rw [← append_assoc] at hm
      obtain ⟨hl, hx⟩ := append_inj' hm rfl
      rw [← hx] at hrest
      obtain ⟨qs, rs, hps, hcut⟩ := ih hrest.symm
      refine ⟨p :: qs, rs, by rw [hps]; rfl, ?_⟩
      rw [hl, append_assoc, show frames (p :: qs) = frame p ++ frames qs from rfl, append_assoc]
      rcases hcut with ⟨hq, -, hrs⟩ | hq
      · exact .inl ⟨congrArg _ hq, cons_ne_nil _ _, hrs⟩
      · exact .inr (congrArg _ hq)

/-! ### One reading -/

theorem stopAt_suffix (h : stopAt got cs = some (T, cs')) :
    T ++ cs'.flatten = got ++ cs.flatten ∧ cs' <:+ cs ∧ cs'.length < cs.length := by
  induction cs generalizing got with
  | nil => cases h
  | cons _ _ ih =>
    rw [stopAt] at h
    split_ifs at h with hflag
    · simp only [some.injEq, Prod.mk.injEq] at h
      obtain ⟨rfl, rfl⟩ := h
      exact ⟨append_assoc _ _ _, suffix_cons _ _, Nat.lt_succ_self _⟩
    · obtain ⟨hall, hsuf, hlt⟩ := ih h
      refine ⟨?_, hsuf.trans (suffix_cons _ _), Nat.lt_trans hlt (Nat.lt_succ_self _)⟩
      rw [hall, append_assoc, flatten_cons]

theorem stopAt_ne_nil (h : stopAt got cs = some (T, cs')) : T ≠ [] := by
  induction cs generalizing got with
  | nil => cases h
  | cons _ _ ih =>
    rw [stopAt] at h
    split_ifs at h with hflag
    · simp only [some.injEq, Prod.mk.injEq] at h
      obtain ⟨rfl, rfl⟩ := h
      intro hnil
      rw [hnil] at hflag
      cases hflag
    · exact ih h

/-- The pieces are what `rx_data()` can return. -/
def Pieces (cs : List (List Byte)) : Prop := ∀ c ∈ cs, c ≠ [] ∧ c.length ≤ maxRead

/-- **What a reading leaves in memory.** -/
theorem streamingReceive_pieces (hcs : Pieces cs)
    (hgot : a.slice 0 got.length = got) (hroom : got.length + cs.flatten.length ≤ a.size) :
    ∃ a', a'.size = a.size ∧
      (stopAt got cs = none → streamingReceive a.size (cs.map some) a got.length = some (a', none)) ∧
      ∀ T cs', stopAt got cs = some (T, cs') →
        streamingReceive a.size (cs.map some) a got.length = some (a', some (T.length, cs'.map some)) ∧
          a'.slice 0 T.length = T := by
  induction cs generalizing a got with
  | nil => exact ⟨a, rfl, fun _ => rfl, nofun⟩
  | cons c cs ih =>
    obtain ⟨hne, _⟩ := hcs c mem_cons_self
    rw [flatten_cons, length_append] at hroom
    have hpos : 0 < c.length := length_pos_of_ne_nil hne
    -- The piece is read as a whole.
    have hbytes : RxAnswer.bytes (some c) (a.size - got.length) = c := by
      rw [RxAnswer.bytes, getD_some, take_of_length_le]
      omega
    obtain ⟨a1, hrx, hsize, hslice, hothers⟩ := @rxData_some (a.size - got.length) a got.length c (by omega)
    rw [hbytes] at hrx hslice hothers
    have hgot1 : a1.slice 0 (got ++ c).length = got ++ c := by
      have hfront : a1.slice 0 got.length = got := by
        refine Eq.trans (CArray.slice_congr fun j _ hj => ?_) hgot
        exact hothers j (.inl (by omega))
      rw [length_append, CArray.slice_add, hfront, Nat.zero_add, hslice]
    have hlast : (got ++ c)[c.length - 1]? = some (a1.get (c.length - 1)) := by
      have h := CArray.getElem?_slice (a := a1) (i := 0) (n := (got ++ c).length) (c.length - 1)
        (by rw [length_append]; omega)
      rw [hgot1, Nat.zero_add] at h
      exact h
    have hrun : streamingReceive a.size ((c :: cs).map some) a got.length =
        if a1.get (c.length - 1) ≠ ahdlcFlag then streamingReceive a.size (cs.map some) a1 (got ++ c).length
        else some (a1, some ((got ++ c).length, cs.map some)) := by
      have hgo : (a1.get (c.length - 1) ≠ ahdlcFlag ∧ 0 < a.size) ↔ a1.get (c.length - 1) ≠ ahdlcFlag :=
        and_iff_left (by omega)
      rw [map_cons, streamingReceive, hrx]
      simp only [bind_some, CArray.read_of_lt (show c.length - 1 < a1.size by omega), length_append,
        if_neg (show ¬ c.length = 0 by omega), hgo]
    have hstop : stopAt got (c :: cs) =
        if a1.get (c.length - 1) ≠ ahdlcFlag then stopAt (got ++ c) cs else some (got ++ c, cs) := by
      rw [stopAt, hlast, ite_not]
      simp only [some.injEq]
    rw [hrun, hstop]
    by_cases hflag : a1.get (c.length - 1) = ahdlcFlag
    · rw [if_neg (not_not.2 hflag), if_neg (not_not.2 hflag)]
      refine ⟨a1, hsize, ?_, ?_⟩
      · intro h
        cases h
      intro T _ h
      simp only [some.injEq, Prod.mk.injEq] at h
      obtain ⟨rfl, rfl⟩ := h
      exact ⟨rfl, hgot1⟩
    rw [if_pos hflag, if_pos hflag]
    have hroom1 : (got ++ c).length + cs.flatten.length ≤ a1.size := by
      rw [length_append, hsize]
      omega
    obtain ⟨a', hsize', hnone, hsome⟩ := ih (fun c hc => hcs c (mem_cons_of_mem _ hc)) hgot1 hroom1
    rw [hsize] at hsize' hnone hsome
    exact ⟨a', hsize', hnone, hsome⟩

theorem flagsAround_eq (hne : T ≠ []) (hle : T.length ≤ a.size) (hT : a.slice 0 T.length = T) :
    flagsAround T.length a = some (decide (T.getLast? = some ahdlcFlag) && decide (T.head? = some ahdlcFlag)) := by
  have hpos : 0 < T.length := length_pos_of_ne_nil hne
  have hget : ∀ i, i < T.length → T[i]? = some (a.get i) := by
    intro i hi
    have h := CArray.getElem?_slice (a := a) (i := 0) i hi
    rw [hT, Nat.zero_add] at h
    exact h
  rw [flagsAround, if_neg (by omega), CArray.read_of_lt (by omega), bind_some,
    CArray.read_of_lt (by omega), getLast?_eq_getElem?, head?_eq_getElem?, hget _ hpos,
    hget _ (by omega)]
  by_cases hlast : a.get (T.length - 1) = ahdlcFlag
  · rw [if_neg (not_not.2 hlast), hlast]
    simp only [map_some, decide_true, Bool.true_and, some.injEq]
    exact Bool.beq_eq_decide_eq _ _
  · rw [if_pos hlast]
    simp [hlast]

/-! ### The packets of one reading -/

/-- A packet with its checksum, as it is decoded. -/
def withCrc (p : List Byte) : List Byte := p ++ crcBytes p

theorem head?_withCrc (p : List Byte) : (withCrc p).head? = some streamingCmdLog ↔ isLog p = true := by
  cases p with
  | nil => decide
  | cons => simp [withCrc, isLog]

theorem others_withCrc (start : ℕ) (ps : List (List Byte)) :
    (others start (ps.map withCrc)).map Prod.snd = (ps.filter fun p => !isLog p).map withCrc := by
  induction ps generalizing start with
  | nil => rfl
  | cons p _ ih =>
    rw [map_cons, others]
    by_cases hlog : isLog p = true
    · rw [if_pos ((head?_withCrc p).2 hlog), ih, filter_cons_of_neg (by simp [hlog])]
    · rw [if_neg (mt (head?_withCrc p).1 hlog), map_cons, ih, filter_cons_of_pos (by simp [hlog])]
      rfl

section

variable (hps : ps ≠ []) (hle : (frames ps).length ≤ a.size)
    (hT : a.slice 0 (frames ps).length = frames ps)
include hps hle hT

theorem covers_frames : Covers (ps.map withCrc) (a.slice 0 a.size) (frames ps).length := by
  have hall : ((ps.map withCrc).map wrap).flatten = frames ps := (frames_eq_wrap ps).symm
  refine ⟨mt map_eq_nil_iff.1 hps, ?_, ?_, ?_⟩
  · rw [hall, ← Nat.add_sub_of_le hle, CArray.slice_add, hT]
    exact prefix_append _ _
  · exact Nat.le_of_eq (congrArg length hall).symm
  · rw [hall]
    exact Nat.le_succ _

theorem parsePackets_frames {r : Option (ℕ × ℕ)} (hr : (others 0 (ps.map withCrc)).map place = r.toList) :
    ∃ b, parsePackets (frames ps).length (frames ps).length a 0 none = some (b, some r) ∧ b.size = a.size ∧
      ∀ x ∈ others 0 (ps.map withCrc), b.slice x.1 x.2.length = x.2 := by
  have hpos : 0 < (frames ps).length := length_pos_of_ne_nil (frames_ne_nil hps)
  have hcov := covers_frames hps hle hT
  have hnone : (none : Option (ℕ × ℕ)).toList ++ (others 0 (ps.map withCrc)).map place = r.toList := hr
  obtain ⟨b, hb, hsize, -, hslice⟩ := parsePackets_of_covers hle hpos (length_le_of_covers hpos hcov) hcov hnone
  exact ⟨b, hb, hsize, hslice⟩

end

/-- **Behind a last opening flag** the end of its frame is looked for where nothing was read. -/
theorem parsePackets_behind {ds : List (List Byte)} {start fuel : ℕ} {resp : Option (ℕ × ℕ)}
    (hT : a.slice start (a.size - start) = (ds.map wrap).flatten ++ [ahdlcFlag]) (hfuel : ds.length < fuel)
    (hone : resp.toList.length + (others start ds).length ≤ 1) : parsePackets a.size fuel a start resp = none := by
  induction ds generalizing a start fuel resp with
  | nil =>
    obtain ⟨fuel, rfl⟩ := Nat.exists_eq_succ_of_ne_zero (Nat.ne_of_gt hfuel)
    have hlen := congrArg length hT
    rw [CArray.length_slice] at hlen
    simp only [map_nil, flatten_nil, nil_append, length_singleton] at hlen
    have hflag : a.get start = ahdlcFlag := by
      rw [hlen, CArray.slice_succ] at hT
      exact (cons.inj hT).1
    rw [parsePackets, takePacket, CArray.read_of_lt (by omega), bind_some, if_neg (not_not.2 hflag),
      show a.size - (start + 1) = 0 by omega, findCell, bind_some, getD_none, CArray.read,
      if_neg (Nat.lt_irrefl _)]
    rfl
  | cons d ds ih =>
    obtain ⟨_, rfl⟩ := Nat.exists_eq_succ_of_ne_zero (Nat.ne_of_gt (Nat.zero_lt_of_lt hfuel))
    rw [length_cons] at hfuel
    have hlen := congrArg length hT
    rw [CArray.length_slice, map_cons, flatten_cons, append_assoc, length_append,
      length_append, length_singleton] at hlen
    have hd : wrap d <+: a.slice start (a.size - start) := by
      rw [hT, map_cons, flatten_cons, append_assoc]
      exact prefix_append _ _
    have h2 := two_le_length_wrap d
    obtain ⟨_, hsize, hrest, -, -, hrun⟩ := parsePackets_step (Nat.le_refl a.size) (by omega) hd (by omega)
    have hresp : d.head? = some streamingCmdLog ∨ resp = none := by
      by_contra hno
      rw [not_or] at hno
      obtain ⟨x, rfl⟩ := ne_none_iff_exists'.1 hno.2
      rw [others, if_neg hno.1] at hone
      simp only [toList_some, length_cons, length_nil] at hone
      omega
    have hcount : (newResp resp start d).toList.length + (others (start + (wrap d).length) ds).length ≤ 1 := by
      have h := congrArg length (@toList_newResp start d ds resp hresp)
      simp only [length_append, length_map] at h
      omega
    rw [hrun, if_pos hresp, if_pos (by omega), ← hsize]
    refine ih ?_ (by omega) hcount
    rw [← slice_behind hsize fun j hj => hrest j (.inr hj), hT, map_cons, flatten_cons, append_assoc, drop_left]

theorem parsePackets_open (hT : a.slice 0 (frames ps ++ [ahdlcFlag]).length = frames ps ++ [ahdlcFlag])
    (hone : (ps.filter fun p => !isLog p).length ≤ 1) :
    parsePackets (frames ps ++ [ahdlcFlag]).length (frames ps ++ [ahdlcFlag]).length
      ⟨(frames ps ++ [ahdlcFlag]).length, a.get⟩ 0 none = none := by
  apply parsePackets_behind (a := ⟨(frames ps ++ [ahdlcFlag]).length, a.get⟩)
  · show a.slice 0 (frames ps ++ [ahdlcFlag]).length = ((ps.map withCrc).map wrap).flatten ++ [ahdlcFlag]
    rw [hT, frames_eq_wrap]
    rfl
  · have hle := length_le_length_frames ps
    rw [length_map, length_append, length_singleton]
    omega
  have hlen := congrArg length (others_withCrc 0 ps)
  rw [length_map, length_map] at hlen
  rw [hlen, toList_none, length_nil, Nat.zero_add]
  exact hone

/-! ### One call in terms of one reading -/

theorem wellSplit_iff (hstop : stopAt [] cs = some (T, cs')) :
    WellSplit ps cs ↔ ∃ qs rs, ps = qs ++ rs ∧ T = frames qs ∧
      (qs.all isLog = false ∨ qs.all isLog ∧ WellSplit rs cs') := by
  constructor
  · intro h
    cases h with
    | response h hresp =>
      rw [hstop, some.injEq, Prod.mk.injEq] at h
      exact ⟨_, _, rfl, h.1, Or.inl hresp⟩
    | again h hlog hrest =>
      rw [hstop, some.injEq, Prod.mk.injEq] at h
      obtain ⟨h, rfl⟩ := h
      exact ⟨_, _, rfl, h, Or.inr ⟨hlog, hrest⟩⟩
  · rintro ⟨_, _, rfl, rfl, hresp | ⟨hlog, hrest⟩⟩
    · exact WellSplit.response hstop hresp
    · exact WellSplit.again hstop hlog hrest

theorem not_wellSplit (hstop : stopAt [] cs = none) : ¬ WellSplit ps cs := by
  intro h
  cases h with
  | response h | again h =>
    rw [hstop] at h
    cases h

section Call

variable {fuel total : ℕ} {a a' b : CArray Byte} {rs rs' : List RxAnswer} {p : List Byte}

theorem not_returns_of_receive (h : streamingReceive a.size rs a 0 = some (a', none)) :
    ¬ Returns (fuel + 1) a rs p := by
  rintro ⟨b, _, hrun, -⟩
  rw [streamingRxData, h] at hrun
  cases hrun

theorem not_returns_of_flags (h : streamingReceive a.size rs a 0 = some (a', some (total, rs')))
    (hflags : flagsAround total a' = some false) : ¬ Returns (fuel + 1) a rs p := by
  rintro ⟨b, _, hrun, -⟩
  rw [streamingRxData, h, bind_some] at hrun
  simp only [hflags, bind_some] at hrun
  cases hrun

theorem ReadsReceived.first (hreads : ReadsReceived (fuel + 1) a rs)
    (h : streamingReceive a.size rs a 0 = some (a', some (total, rs'))) (hflags : flagsAround total a' = some true) :
    (parsePackets total total ⟨total, a'.get⟩ 0 none).isSome := by
  refine hreads (a', total) ?_
  rw [streamRounds, h]
  simp only [hflags, if_pos]
  exact mem_cons_self

section

variable (h : streamingReceive a.size rs a 0 = some (a', some (total, rs')))
    (hflags : flagsAround total a' = some true)
include h hflags

theorem returns_of_logs (hparse : parsePackets total total a' 0 none = some (b, some none))
    (hcut : (parsePackets total total ⟨total, a'.get⟩ 0 none).isSome) :
    (Returns (fuel + 1) a rs p ↔ Returns fuel b rs' p) ∧
      (ReadsReceived (fuel + 1) a rs ↔ ReadsReceived fuel b rs') := by
  constructor
  · have hrun : streamingRxData (fuel + 1) a rs = streamingRxData fuel b rs' := by
      rw [streamingRxData, h, bind_some]
      simp only [hflags, bind_some, hparse]
    rw [Returns, hrun]
    rfl
  have hrounds : streamRounds (fuel + 1) a rs = (a', total) :: streamRounds fuel b rs' := by
    rw [streamRounds, h]
    simp only [hflags, if_pos, hparse]
  rw [ReadsReceived, hrounds, forall_mem_cons]
  exact and_iff_right hcut

theorem returns_of_response {s : ℕ}
    (hparse : parsePackets total total a' 0 none = some (b, some (some (s, (withCrc p).length))))
    (hslice : b.slice s (withCrc p).length = withCrc p)
    (hcut : (parsePackets total total ⟨total, a'.get⟩ 0 none).isSome) :
    Returns (fuel + 1) a rs p ∧ ReadsReceived (fuel + 1) a rs := by
  constructor
  · refine ⟨b, ⟨s, (withCrc p).length, a'.slice 0 total⟩, ?_, ?_, hslice⟩
    · rw [streamingRxData, h, bind_some]
      simp only [hflags, bind_some, hparse]
    · exact length_append
  have hrounds : streamRounds (fuel + 1) a rs = [(a', total)] := by
    rw [streamRounds, h]
    simp only [hflags, if_pos, hparse]
  intro x hx
  rw [hrounds, mem_singleton] at hx
  rw [hx]
  exact hcut

end

end Call

/-! ### All readings of a call -/

/-- **What decides a call is how the stream is split.** -/
theorem returns_iff_wellSplit {fuel : ℕ} {p : List Byte}
    (hone : (ps.filter fun p => !isLog p) = [p]) (hcs : Pieces cs) (hall : cs.flatten = frames ps)
    (hroom : (frames ps).length ≤ a.size) (hfuel : cs.length < fuel) :
    (Returns fuel a (cs.map some) p ∧ ReadsReceived fuel a (cs.map some)) ↔ WellSplit ps cs := by
  induction fuel generalizing a ps cs with
  | zero => omega
  | succ fuel ih =>
    have hroom0 : ([] : List Byte).length + cs.flatten.length ≤ a.size := by
      rw [hall, length_nil, Nat.zero_add]
      exact hroom
    obtain ⟨a', _, hnone, hsome⟩ := streamingReceive_pieces hcs (a := a) rfl hroom0
    rcases hstop : stopAt [] cs with - | ⟨T, cs'⟩
    · -- The stream is read to its end, and the function asks for more.
      exact iff_of_false (fun h => not_returns_of_receive (hnone hstop) h.1) (not_wellSplit hstop)
    obtain ⟨hrecv, hT⟩ := hsome T cs' hstop
    rw [length_nil] at hrecv
    obtain ⟨hsplit, hsuf, _⟩ := stopAt_suffix hstop
    rw [nil_append, hall] at hsplit
    have hne := stopAt_ne_nil hstop
    have hle : T.length ≤ a'.size := by
      have hlen := congrArg length hsplit
      rw [length_append] at hlen
      omega
    have hflags := flagsAround_eq hne hle hT
    -- The stream begins with a flag.
    have hhead : T.head? = some ahdlcFlag := by
      obtain ⟨b, T, rfl⟩ := exists_cons_of_ne_nil hne
      cases ps with
      | nil => cases hone
      | cons => exact congrArg some (cons.inj hsplit).1
    rw [hhead, decide_eq_true rfl, Bool.and_true] at hflags
    rw [wellSplit_iff hstop]
    obtain rfl | ⟨l, x, rfl⟩ := eq_nil_or_concat T
    · exact absurd rfl hne
    rw [concat_eq_append] at hstop hrecv hT hsplit hne hle hflags hhead ⊢
    rw [getLast?_concat] at hflags
    by_cases hx : x = ahdlcFlag
    swap
    · -- The reading stops in the middle of a frame.
      rw [decide_eq_false (by rw [some.injEq]; exact hx)] at hflags
      refine iff_of_false (fun h => not_returns_of_flags hrecv hflags h.1) ?_
      rintro ⟨qs, rs, -, hframes, -⟩
      have hqs : qs ≠ [] := by
        rintro rfl
        exact hne hframes
      obtain ⟨m, hm⟩ := frames_eq_append_flag hqs
      rw [hm] at hframes
      exact hx (cons.inj (append_inj' hframes rfl).2).1
    subst hx
    rw [decide_eq_true rfl] at hflags
    obtain ⟨qs, rs, rfl, hcut⟩ := cut_frames hsplit
    rw [filter_append, append_eq_singleton_iff] at hone
    obtain ⟨hframes, hqs, hrest⟩ | hopen := hcut
    swap
    · -- The reading stops behind an opening flag.
      refine iff_of_false ?_ ?_
      · rintro ⟨-, hreads⟩
        have hfirst := hreads.first hrecv hflags
        rw [hopen] at hT hfirst
        rw [parsePackets_open hT] at hfirst
        · cases hfirst
        rcases hone with ⟨h, -⟩ | ⟨h, -⟩
        · rw [h]
          exact Nat.zero_le 1
        · rw [h]
          exact Nat.le_refl 1
      · rintro ⟨qs', rs', -, hframes, -⟩
        exact frames_append_flag_ne qs qs' (hopen.symm.trans hframes)
    -- The reading stops behind a frame.
    rw [hframes] at hrecv hT hle hflags
    have hcutT : (⟨(frames qs).length, a'.get⟩ : CArray Byte).slice 0 (frames qs).length = frames qs := hT
    have hothers := others_withCrc 0 qs
    rcases hone with ⟨hlogs, hone⟩ | ⟨hresp, -⟩
    · rw [hlogs, map_nil, map_eq_nil_iff] at hothers
      have hr : (others 0 (qs.map withCrc)).map place = (none : Option (ℕ × ℕ)).toList := by
        rw [hothers]
        rfl
      obtain ⟨b, hparse, _, -⟩ := parsePackets_frames hqs hle hT hr
      obtain ⟨b', hcut, -⟩ := parsePackets_frames hqs (Nat.le_refl _) hcutT hr
      obtain ⟨hreturns, hreads⟩ := returns_of_logs (p := p) hrecv hflags hparse (by rw [hcut]; rfl)
      have hall' : qs.all isLog = true := by
        rw [List.all_eq_true]
        intro q hq
        by_contra hno
        have hmem : q ∈ qs.filter fun p => !isLog p := mem_filter.2 ⟨hq, by simp [hno]⟩
        rw [hlogs] at hmem
        cases hmem
      rw [hreturns, hreads, ih hone (fun c hc => hcs c (hsuf.subset hc)) hrest ?_ (by omega)]
      · constructor
        · intro h
          exact ⟨qs, rs, rfl, hframes, Or.inr ⟨hall', h⟩⟩
        rintro ⟨_, _, hps, hframes', h⟩
        obtain rfl := frames_injective (hframes.symm.trans hframes')
        obtain rfl := append_cancel_left hps
        rcases h with h | h
        · rw [hall'] at h
          cases h
        · exact h.2
      · have hlen := congrArg length (frames_append qs rs)
        rw [length_append] at hlen
        omega
    rw [hresp, map_singleton, map_eq_singleton_iff] at hothers
    obtain ⟨⟨s, d⟩, hothers, rfl⟩ := hothers
    have hr : (others 0 (qs.map withCrc)).map place = (some (s, (withCrc p).length)).toList := by
      rw [hothers]
      rfl
    obtain ⟨b, hparse, -, hslice⟩ := parsePackets_frames hqs hle hT hr
    obtain ⟨_, hcut, -⟩ := parsePackets_frames hqs (Nat.le_refl _) hcutT hr
    have hs := hslice (s, withCrc p) (by rw [hothers]; exact mem_singleton_self _)
    refine iff_of_true (returns_of_response hrecv hflags hparse hs (by rw [hcut]; rfl)) ?_
    refine ⟨qs, rs, rfl, hframes, Or.inl ?_⟩
    rw [List.all_eq_false]
    have hmem : p ∈ qs.filter fun p => !isLog p := by
      rw [hresp]
      exact mem_singleton_self p
    obtain ⟨hp, hlog⟩ := mem_filter.1 hmem
    exact ⟨p, hp, by simpa using hlog⟩

/-- **`streaming_rx_data()` and the pieces of a stream.**  Of packets with one response `p` among log messages, that
fit in the buffer, the response is returned without a look behind what was read exactly if the pieces are
well split. -/
theorem streaming_rx_chunks (a : CArray Byte) (ps cs : List (List Byte)) (p : List Byte)
    (hone : (ps.filter fun p => !isLog p) = [p]) (hroom : (frames ps).length ≤ a.size)
    (hcs : Pieces cs) (hall : cs.flatten = frames ps) :
    (Returns (cs.length + 1) a (cs.map some) p ∧ ReadsReceived (cs.length + 1) a (cs.map some)) ↔ WellSplit ps cs :=
  returns_iff_wellSplit hone hcs hall hroom (Nat.lt_succ_self _)

/-- A response in one piece. -/
theorem streaming_rx_chunks_one : (Returns 2 (CArray.zeros 16) [some (frame [5#8])] [5#8] ∧
      ReadsReceived 2 (CArray.zeros 16) [some (frame [5#8])]) ↔ WellSplit [[5#8]] [frame [5#8]] :=
  streaming_rx_chunks (CArray.zeros 16) [[5#8]] [frame [5#8]] [5#8] (by decide) (by decide)
    (by unfold Pieces; decide) (by decide)

/-- A response of which the opening flag comes alone. -/
theorem streaming_rx_chunks_fails : ¬ ∀ (a : CArray Byte) (ps cs : List (List Byte)) (p : List Byte),
      (ps.filter fun p => !isLog p) = [p] → (frames ps).length ≤ a.size → Pieces cs → cs.flatten = frames ps →
        Returns (cs.length + 1) a (cs.map some) p ∧ ReadsReceived (cs.length + 1) a (cs.map some) := by
  intro h
  have hone : ([[5#8]].filter fun p => !isLog p) = [[5#8]] := by decide
  have hroom : (frames [[5#8]]).length ≤ (CArray.zeros 16 : CArray Byte).size := by decide
  have hcs : Pieces [[ahdlcFlag], (frame [5#8]).tail] := by
    unfold Pieces
    decide
  have hall : [[ahdlcFlag], (frame [5#8]).tail].flatten = frames [[5#8]] := by decide
  have hsplit := (returns_iff_wellSplit hone hcs hall hroom (Nat.lt_succ_self _)).1 (h _ _ _ _ hone hroom hcs hall)
  have hstop : stopAt [] [[ahdlcFlag], (frame [5#8]).tail] = some ([ahdlcFlag], [(frame [5#8]).tail]) := rfl
  obtain ⟨qs, _, -, hframes, -⟩ := (wellSplit_iff hstop).1 hsplit
  exact frames_append_flag_ne [] qs hframes

end G4Common.MdmTransfer
