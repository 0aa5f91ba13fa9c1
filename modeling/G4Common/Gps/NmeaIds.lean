/-
The satellite numbers of `GSA` and `GSV` sentences.

The bits of a mask are the satellites that are used (`getLsbD_usedMask`), the list made from it is sorted
(`usedList_usedMask`), and its first twelve are printed (`gsaSentence_usedMask`).  A satellite report prints all
satellites of a constellation in their order (`gsvReport_ids`).  Both print the number of the satellite, but `GSA`
adds an offset for GLONASS that `GSV` does not.
-/
import G4Common.Gps.Nmea

namespace G4Common.Gps

open Printf List

/-! ### What is asked -/

section Spec

variable {F : Type}

/-- The satellites of a constellation. -/
def svsOf (c : Constellation) (svs : List (GnssSvInfo F)) : List (GnssSvInfo F) :=
  svs.filter fun sv => sv.constellation = c

/-- The numbers of the satellites of a constellation that are used. -/
def usedSvids (c : Constellation) (svs : List (GnssSvInfo F)) : Finset ℤ :=
  (((svsOf c svs).filter fun sv => sv.usedInFix).map fun sv => sv.svid.toInt).toFinset

/-- The satellites of a constellation have a number from 1 to 32. -/
def SvidsIn (c : Constellation) (svs : List (GnssSvInfo F)) : Prop :=
  ∀ sv ∈ svs, sv.constellation = c → 1 ≤ sv.svid.toInt ∧ sv.svid.toInt ≤ 32

/-- The satellites are GPS and GLONASS satellites with a number from 1 to 32, or others. -/
def SvidsOk (svs : List (GnssSvInfo F)) : Prop :=
  ∀ sv ∈ svs, sv.constellation ≠ .other → 1 ≤ sv.svid.toInt ∧ sv.svid.toInt ≤ 32

/-- `GSV` prints a number for each satellite, and `GSA` prints the same number for the first twelve that are used. -/
structure GsaAgrees (c : Constellation) (svs : List (GnssSvInfo F)) (gsv gsa : List (List Char)) : Prop where
  listed : gsv.length = (svsOf c svs).length
  ids : List.Forall₂ (fun svid id => ∀ sv number, (sv, number) ∈ (svsOf c svs).zip gsv → sv.svid.toInt = svid →
    id = number) ((usedSvids c svs).sort.take 12) gsa

end Spec

/-! ### Masks -/

section Masks

variable {F : Type} {c : Constellation} {svs : List (GnssSvInfo F)}

theorem svsOf_cons_of_eq {sv : GnssSvInfo F} (h : sv.constellation = c) : svsOf c (sv :: svs) = sv :: svsOf c svs :=
  filter_cons_of_pos (decide_eq_true h)

theorem svsOf_cons_of_ne {sv : GnssSvInfo F} (h : sv.constellation ≠ c) : svsOf c (sv :: svs) = svsOf c svs :=
  filter_cons_of_neg (by rwa [decide_eq_true_eq])

theorem mem_usedSvids {x : ℤ} :
    x ∈ usedSvids c svs ↔ ∃ sv ∈ svs, (sv.constellation = c ∧ sv.usedInFix) ∧ sv.svid.toInt = x := by
  rw [usedSvids, mem_toFinset, mem_map]
  simp only [svsOf, mem_filter, decide_eq_true_eq, and_assoc]

theorem getLsbD_bit {sv : GnssSvInfo F} (h : 1 ≤ sv.svid.toInt ∧ sv.svid.toInt ≤ 32) (k : ℕ) :
    sv.bit.getLsbD k = decide (sv.svid.toInt = k + 1) := by
  have hbit : sv.bit = BitVec.twoPow 32 (sv.svid.toInt - 1).toNat := rfl
  rw [hbit, BitVec.getLsbD_twoPow, ← Bool.decide_and, decide_eq_decide]
  omega

theorem getLsbD_foldl_used (h : SvidsIn c svs) (mask : BitVec 32) (k : ℕ) :
    (svs.foldl (fun mask sv => if sv.constellation = c ∧ sv.usedInFix then mask ||| sv.bit else mask)
      mask).getLsbD k ↔
      mask.getLsbD k ∨ ∃ sv ∈ svs, (sv.constellation = c ∧ sv.usedInFix) ∧ sv.svid.toInt = k + 1 := by
  induction svs generalizing mask with
  | nil =>
    rw [foldl_nil]
    exact ⟨Or.inl, fun h => h.resolve_right fun ⟨_, hsv, _⟩ => absurd hsv not_mem_nil⟩
  | cons sv svs ih =>
    rw [foldl_cons, ih fun x hx => h x (mem_cons_of_mem _ hx), exists_mem_cons_iff, ← or_assoc]
    refine or_congr ?_ Iff.rfl
    split
    · rename_i hused
      rw [BitVec.getLsbD_or, Bool.or_eq_true, getLsbD_bit (h sv mem_cons_self hused.1), decide_eq_true_iff]
      exact or_congr Iff.rfl (and_iff_right hused).symm
    · rename_i hnot
      exact ⟨Or.inl, fun h => h.resolve_right fun hused => hnot hused.1⟩

/-- The bits of a mask are the numbers that are used. -/
theorem getLsbD_usedMask (h : SvidsIn c svs) (k : ℕ) :
    (usedMask c svs).getLsbD k ↔ ((k : ℤ) + 1) ∈ usedSvids c svs := by
  rw [usedMask, getLsbD_foldl_used h, mem_usedSvids]
  simp only [BitVec.ofNat_eq_ofNat, BitVec.getLsbD_zero, Bool.false_eq_true, false_or]

theorem and_one_ne_zero {mask : BitVec 32} : mask &&& 1 ≠ 0 ↔ mask.getLsbD 0 = true := by
  rw [show (1 : BitVec 32) = 1#32 from rfl, BitVec.and_one_eq_setWidth_ofBool_getLsbD]
  cases mask.getLsbD 0 <;> decide

/-- The loop lists the bits that are set, with the offset. -/
theorem usedList_eq (offset n : ℕ) (mask : BitVec 32) (i count : ℕ) (hcount : count + n ≤ 32) :
    usedList offset n mask i count = ((range n).filter fun k => mask.getLsbD k).map fun k => k + i + offset := by
  induction n generalizing mask i count with
  | zero => rfl
  | succ n ih =>
    have hfilter : (range (n + 1)).filter (fun k => mask.getLsbD k) = (if mask.getLsbD 0 then [0] else []) ++
          ((range n).filter fun k => (mask >>> 1).getLsbD k).map Nat.succ := by
      rw [range_succ_eq_map, filter_cons, filter_map]
      have hshift : (fun k => mask.getLsbD k) ∘ Nat.succ = fun k => (mask >>> 1).getLsbD k := by
        funext k
        rw [BitVec.getLsbD_ushiftRight, Function.comp_apply, Nat.add_comm 1 k]
      rw [hshift]
      split <;> rfl
    have hmap : ∀ l : List ℕ, (l.map Nat.succ).map (fun k => k + i + offset) =
        l.map fun k => k + (i + 1) + offset := by
      intro l
      rw [map_map]
      congr 1
      funext k
      rw [Function.comp_apply, Nat.succ_eq_add_one]
      omega
    have hlt : count < 32 := by omega
    rw [usedList, hfilter, map_append, hmap]
    split
    · split
      · rename_i hbit
        rw [ih (mask >>> 1) (i + 1) (count + 1) (by omega), if_pos (and_one_ne_zero.1 hbit), map_singleton,
          Nat.zero_add, singleton_append]
      · rename_i hbit
        rw [ih (mask >>> 1) (i + 1) count (by omega), if_neg fun h => hbit (and_one_ne_zero.2 h), map_nil,
          nil_append]
    -- The mask has no bit left.
    rename_i hzero
    have hmask : mask = 0 := by
      by_contra hne
      exact hzero ⟨(BitVec.pos_iff_ne_zero mask).2 hne, hlt⟩
    simp [hmask]

theorem usedList_usedMask (offset : ℕ) (h : SvidsIn c svs) :
    (usedList offset 32 (usedMask c svs) 1 0).map (fun id => ((id : ℕ) : ℤ)) =
      (usedSvids c svs).sort.map fun svid => svid + (offset : ℤ) := by
  have hsort : (usedSvids c svs).sort =
      ((range 32).filter fun k => (usedMask c svs).getLsbD k).map fun k => ((k : ℕ) : ℤ) + 1 := by
    have hlt : (((range 32).filter fun k => (usedMask c svs).getLsbD k).map
        fun k => ((k : ℕ) : ℤ) + 1).Pairwise (· < ·) := by
      rw [pairwise_map]
      refine (pairwise_lt_range.filter _).imp ?_
      intro a b _
      omega
    have hset : usedSvids c svs = (((range 32).filter fun k => (usedMask c svs).getLsbD k).map
        fun k => ((k : ℕ) : ℤ) + 1).toFinset := by
      ext x
      rw [mem_toFinset, mem_map]
      constructor
      · intro hx
        have hrange : 1 ≤ x ∧ x ≤ 32 := by
          obtain ⟨sv, hsv, hc, rfl⟩ := mem_usedSvids.1 hx
          exact h sv hsv hc.1
        have hx' : ((x - 1).toNat : ℤ) + 1 = x := by omega
        refine ⟨(x - 1).toNat, mem_filter.2 ⟨mem_range.2 (by omega), ?_⟩, hx'⟩
        rw [getLsbD_usedMask h, hx']
        exact hx
      · rintro ⟨k, hk, rfl⟩
        exact (getLsbD_usedMask h k).1 (mem_filter.1 hk).2
    rw [hset]
    exact (toFinset_sort _ (hlt.imp ne_of_lt)).2 (hlt.imp le_of_lt)
  rw [hsort, usedList_eq offset 32 _ 1 0 (by decide), map_map, map_map]
  congr 1

end Masks

/-! ### Texts -/

section Texts

variable {text piece name : List Char}

theorem putText_of_fits (h : text.length + piece.length < NMEA_SENTENCE_MAX_LENGTH) :
    putText text piece = some (text ++ piece) := by
  rw [putText, if_neg]
  omega

theorem comma_notMem_checksumText (text : List Char) : ',' ∉ checksumText text := by
  have hbyte := comma_notMem_printHexByte (nmeaChecksum (text.drop 1))
  rw [checksumText, cons_append, mem_cons, mem_append]
  rintro (h | h | h)
  · exact nomatch h
  · exact hbyte h
  · exact nomatch h

theorem nmeaPutChecksum_text (text : List Char) : ∃ rest, (nmeaPutChecksum text).text = text ++ rest ∧ ',' ∉ rest :=
  ⟨_, rfl, fun h => comma_notMem_checksumText text (mem_of_mem_take h)⟩

/-- The fields for satellites of a `GSA` sentence. -/
def idFields (n : ℕ) (ids : List ℕ) : List (List Char) :=
  (ids.take n).map (fun id => printInt 2 (id : ℕ)) ++ List.replicate (n - ids.length) []

theorem length_printInt_two {n : ℤ} (h0 : 0 ≤ n) (h : n < 100) : (printInt 2 n).length ≤ 2 :=
  length_printInt_le h0 (by omega) (by decide) le_rfl

/-- The fields that the loop prints. -/
theorem putIds_eq (n : ℕ) {ids : List ℕ} (hids : ∀ id ∈ ids, id < 100)
    (hlen : text.length + 3 * n < NMEA_SENTENCE_MAX_LENGTH) :
    putIds n ids text = some (text ++ (idFields n ids).flatMap fun f => f ++ [',']) := by
  induction n generalizing ids text with
  | zero =>
    rw [putIds, idFields, Nat.zero_sub, take_zero]
    exact congrArg some (append_nil _).symm
  | succ n ih =>
    cases ids with
    | nil =>
      have hput : putText text [','] = some (text ++ [',']) :=
        putText_of_fits (by rw [length_singleton]; omega)
      have hfields : idFields (n + 1) [] = [] :: idFields n [] := by
        rw [idFields, idFields, take_nil, take_nil, length_nil, Nat.sub_zero, Nat.sub_zero,
          replicate_succ]
        rfl
      have hrest : putIds n [] (text ++ [',']) =
          some (text ++ [','] ++ (idFields n []).flatMap fun f => f ++ [',']) :=
        ih nofun (by rw [length_append, length_singleton]; omega)
      rw [putIds, hput, Option.bind_eq_bind, Option.bind_some, hrest, hfields, flatMap_cons, nil_append,
        append_assoc]
    | cons id ids =>
      have hprint : (printInt 2 (id : ℕ)).length ≤ 2 := by
        have := hids id (.head _)
        exact length_printInt_two (by omega) (by omega)
      have hput : putText text (printInt 2 (id : ℕ) ++ [',']) = some (text ++ (printInt 2 (id : ℕ) ++ [','])) :=
        putText_of_fits (by rw [length_append, length_singleton]; omega)
      have hfields : idFields (n + 1) (id :: ids) = printInt 2 (id : ℕ) :: idFields n ids := by
        rw [idFields, idFields, length_cons, Nat.add_sub_add_right, take_succ_cons, map_cons,
          cons_append]
      have hrest : putIds n ids (text ++ (printInt 2 (id : ℕ) ++ [','])) =
          some (text ++ (printInt 2 (id : ℕ) ++ [',']) ++ (idFields n ids).flatMap fun f => f ++ [',']) :=
        ih (fun x hx => hids x (.tail _ hx))
          (by rw [length_append, length_append, length_singleton]; omega)
      rw [putIds, hput, Option.bind_eq_bind, Option.bind_some, hrest, hfields, flatMap_cons, append_assoc]

theorem length_idFields (n : ℕ) (ids : List ℕ) : (idFields n ids).length = n := by
  rw [idFields, length_append, length_map, length_take, length_replicate]
  omega

theorem filter_idFields (n : ℕ) (ids : List ℕ) :
    ((idFields n ids).filter fun f => f ≠ []) = (ids.take n).map fun id => printInt 2 (id : ℕ) := by
  rw [idFields, filter_append, filter_eq_self.2, filter_eq_nil_iff.2, append_nil]
  · intro f hf
    rw [eq_of_mem_replicate hf]
    decide
  · intro f hf
    obtain ⟨id, -, rfl⟩ := mem_map.1 hf
    exact decide_eq_true (printInt_ne_nil 2 id)

theorem comma_notMem_idFields {n : ℕ} {ids : List ℕ} {f : List Char} (hf : f ∈ idFields n ids) : ',' ∉ f := by
  rcases mem_append.1 hf with hf | hf
  · obtain ⟨id, -, rfl⟩ := mem_map.1 hf
    exact comma_notMem_printInt 2 id
  · rw [eq_of_mem_replicate hf]
    exact not_mem_nil

theorem fixType_ne_comma (n : ℕ) : ',' ≠ fixType n := by
  rw [fixType]
  split
  · decide
  · split <;> decide

variable {F : Type} (fl : NmeaFloat F)

/-- **A `GSA` sentence** prints the first twelve numbers. -/
theorem gsaSentence_ids (hname : ',' ∉ name) (hlen : name.length = 6) {used : List ℕ} (hused : ∀ id ∈ used, id < 100)
    (e : LocEngNmea F) (ext : LocationExtended F) :
    ∃ s, gsaSentence fl name used e ext = some s ∧ (s.text.splitOn ',').head? = some name ∧
      ((((s.text.splitOn ',').drop 3).take 12).filter fun f => f ≠ []) =
        (used.take 12).map fun id => printInt 2 (id : ℕ) := by
  let start := [name, ['A'], [fixType used.length]]
  have hstart : name ++ ",A,".toList ++ [fixType used.length, ','] = start.flatMap fun f => f ++ [','] := by
    simp [start]
  have hput : putText [] (name ++ ",A,".toList ++ [fixType used.length, ',']) =
      some (start.flatMap fun f => f ++ [',']) := by
    rw [← hstart]
    refine putText_of_fits ?_
    simp [hlen, NMEA_SENTENCE_MAX_LENGTH]
  have hids : putIds 12 used (start.flatMap fun f => f ++ [',']) =
      some ((start.flatMap fun f => f ++ [',']) ++ (idFields 12 used).flatMap fun f => f ++ [',']) :=
    putIds_eq 12 hused (by simp [start, hlen, NMEA_SENTENCE_MAX_LENGTH])
  refine ⟨_, by rw [gsaSentence, hput, Option.bind_eq_bind, Option.bind_some, hids]; rfl, ?_⟩
  have hfields : ∀ f ∈ start ++ idFields 12 used, ',' ∉ f := by
    intro f hf
    rcases mem_append.1 hf with hf | hf
    · simp only [start, mem_cons, not_mem_nil, or_false] at hf
      rcases hf with rfl | rfl | rfl
      · exact hname
      · decide
      · exact fun h => fixType_ne_comma _ (mem_singleton.1 h)
    · exact comma_notMem_idFields hf
  have hsplit := splitOn_fields hfields
  rw [flatMap_append] at hsplit
  constructor
  · rw [nmeaPutChecksum, putLast, putLast, append_assoc, hsplit]
    rfl
  rw [nmeaPutChecksum, putLast, putLast, append_assoc, hsplit]
  have hdrop : (start ++ idFields 12 used).drop 3 = idFields 12 used := rfl
  rw [drop_append_of_le_length (by simp [start]), hdrop,
    take_append_of_le_length (Nat.le_of_eq (length_idFields 12 used).symm),
    take_of_length_le (Nat.le_of_eq (length_idFields 12 used)), filter_idFields]

end Texts

/-! ### Satellite reports -/

section Gsv

variable {F : Type} (fl : NmeaFloat F) {c : Constellation} {name : List Char}

/-- The field of the signal strength. -/
def cn0Text (sv : GnssSvInfo F) : List Char :=
  if fl.pos sv.c_n0_dbhz then printInt 2 (fl.round sv.c_n0_dbhz).toInt else []

/-- The fields of one satellite, with a comma before each. -/
def svText (sv : GnssSvInfo F) : List Char :=
  ',' :: printInt 2 sv.svid.toInt ++ ',' :: printInt 2 (fl.round sv.elevation).toInt ++
    ',' :: printInt 3 (fl.round sv.azimuth).toInt ++ ',' :: cn0Text fl sv

theorem length_printInt_int32 {w : ℕ} (hw : w ≤ 10) (n : Int32) : (printInt w n.toInt).length ≤ 11 := by
  have hle : -2 ^ 31 ≤ n.toInt := n.le_toInt
  have hlt : n.toInt < 2 ^ 31 := n.toInt_lt
  exact length_printInt_le_succ (by omega) (by decide) hw

theorem length_cn0Text_le (sv : GnssSvInfo F) : (cn0Text fl sv).length ≤ 11 := by
  rw [cn0Text]
  split
  · exact length_printInt_int32 (by decide) _
  · exact Nat.zero_le _

theorem length_svText_le {sv : GnssSvInfo F} (h : 1 ≤ sv.svid.toInt ∧ sv.svid.toInt ≤ 32) :
    (svText fl sv).length ≤ 39 := by
  have hid := length_printInt_two (show 0 ≤ sv.svid.toInt by omega) (by omega)
  have helevation := length_printInt_int32 (show 2 ≤ 10 by decide) (fl.round sv.elevation)
  have hazimuth := length_printInt_int32 (show 3 ≤ 10 by decide) (fl.round sv.azimuth)
  have hcn0 := length_cn0Text_le fl sv
  simp only [svText, length_append, length_cons]
  omega

theorem comma_notMem_cn0Text (sv : GnssSvInfo F) : ',' ∉ cn0Text fl sv := by
  rw [cn0Text]
  split
  · exact comma_notMem_printInt 2 _
  · exact not_mem_nil

theorem svText_eq (sv : GnssSvInfo F) :
    svText fl sv = (',' :: printInt 2 sv.svid.toInt ++ ',' :: printInt 2 (fl.round sv.elevation).toInt ++
      ',' :: printInt 3 (fl.round sv.azimuth).toInt ++ [',']) ++ cn0Text fl sv := by
  simp only [svText, append_assoc, cons_append, nil_append]

theorem putSv_of_fits {sv : GnssSvInfo F} {text : List Char}
    (h : text.length + (svText fl sv).length < NMEA_SENTENCE_MAX_LENGTH) :
    putSv fl sv text = some (text ++ svText fl sv) := by
  rw [svText_eq, length_append] at h
  rw [putSv, svText_eq, putText_of_fits (by omega), Option.bind_eq_bind, Option.bind_some, cn0Text]
  rw [cn0Text] at h
  split_ifs with hpos
  · rw [if_pos hpos] at h
    rw [putText_of_fits (by rw [length_append]; omega), append_assoc]
  · rw [append_nil]

theorem putSvs_of_fits (n : ℕ) {svs : List (GnssSvInfo F)} {text : List Char}
    (h : text.length + (((svsOf c svs).take n).flatMap (svText fl)).length < NMEA_SENTENCE_MAX_LENGTH) :
    ∃ rest, putSvs fl c n svs text = some (text ++ ((svsOf c svs).take n).flatMap (svText fl), rest) ∧
      svsOf c rest = (svsOf c svs).drop n ∧ rest ⊆ svs := by
  induction svs generalizing n text with
  | nil =>
    refine ⟨[], ?_, ?_, List.Subset.refl _⟩
    · cases n with
      | zero | succ => simp [putSvs, svsOf]
    · exact drop_nil.symm
  | cons sv svs ih =>
    cases n with
    | zero =>
      refine ⟨sv :: svs, ?_, rfl, List.Subset.refl _⟩
      rw [putSvs, take_zero, flatMap_nil, append_nil]
    | succ n =>
      rw [putSvs]
      split
      · rename_i hc
        rw [svsOf_cons_of_eq hc, take_succ_cons, flatMap_cons, length_append] at h
        have hfit : (text ++ svText fl sv).length + (((svsOf c svs).take n).flatMap (svText fl)).length <
            NMEA_SENTENCE_MAX_LENGTH := by
          rw [length_append]
          omega
        obtain ⟨rest, hput, hrest, hsub⟩ := ih n hfit
        refine ⟨rest, ?_, ?_, List.Subset.trans hsub (subset_cons_self _ _)⟩
        · rw [putSv_of_fits fl (by omega), Option.bind_eq_bind, Option.bind_some, hput, svsOf_cons_of_eq hc,
            take_succ_cons, flatMap_cons, append_assoc]
        · rw [hrest, svsOf_cons_of_eq hc, drop_succ_cons]
      rename_i hc
      rw [svsOf_cons_of_ne hc] at h
      obtain ⟨rest, hput, hrest, hsub⟩ := ih (n + 1) h
      exact ⟨rest, by rw [hput, svsOf_cons_of_ne hc], by rw [hrest, svsOf_cons_of_ne hc],
        List.Subset.trans hsub (subset_cons_self _ _)⟩

theorem length_flatMap_svText_le {n : ℕ} {svs : List (GnssSvInfo F)} (hsvs : SvidsIn c svs) :
    (((svsOf c svs).take n).flatMap (svText fl)).length ≤ 39 * n := by
  have hall : ∀ l : List (GnssSvInfo F), (∀ sv ∈ l, (svText fl sv).length ≤ 39) →
      (l.flatMap (svText fl)).length ≤ 39 * l.length := by
    intro l hl
    induction l with
    | nil => exact Nat.zero_le _
    | cons sv l ih =>
      have hsv := hl sv (.head _)
      have hrest := ih fun x hx => hl x (.tail _ hx)
      rw [flatMap_cons, length_append, length_cons]
      omega
  have htake := hall ((svsOf c svs).take n) fun sv hsv => by
    obtain ⟨hmem, hc⟩ := mem_filter.1 (mem_of_mem_take hsv)
    exact length_svText_le fl (hsvs sv hmem (of_decide_eq_true hc))
  exact htake.trans (Nat.mul_le_mul_left _ (length_take_le _ _))

/-- The first fields of a `GSV` sentence. -/
def gsvStart (name : List Char) (sentenceCount sentenceNumber : ℕ) : List Char :=
  [name, printInt 0 sentenceCount, printInt 0 sentenceNumber].flatMap fun f => f ++ [',']

theorem gsvText_ids (hname : ',' ∉ name) (sentenceCount sentenceNumber : ℕ) {count : List Char} (hcount : ',' ∉ count)
    (svs : List (GnssSvInfo F)) :
    ∃ fields, (nmeaPutChecksum (gsvStart name sentenceCount sentenceNumber ++ count ++
        svs.flatMap (svText fl))).text.splitOn ',' = name :: fields ∧
      everyFourth ((name :: fields).drop 4) = svs.map fun sv => printInt 2 sv.svid.toInt := by
  have hstart : ∀ f ∈ [name, printInt 0 sentenceCount, printInt 0 sentenceNumber], ',' ∉ f := by
    intro f hf
    simp only [mem_cons, not_mem_nil, or_false] at hf
    rcases hf with rfl | rfl | rfl
    · exact hname
    · exact comma_notMem_printInt 0 _
    · exact comma_notMem_printInt 0 _
  obtain ⟨_, htext, hrest⟩ := nmeaPutChecksum_text (gsvStart name sentenceCount sentenceNumber ++ count ++
    svs.flatMap (svText fl))
  rw [htext, append_assoc, gsvStart, append_assoc, splitOn_fields hstart]
  refine ⟨_, rfl, ?_⟩
  have hgroups := everyFourth_splitOn (fun sv : GnssSvInfo F => comma_notMem_printInt 2 sv.svid.toInt)
    (fun sv => comma_notMem_printInt 2 (fl.round sv.elevation).toInt)
    (fun sv => comma_notMem_printInt 3 (fl.round sv.azimuth).toInt) (comma_notMem_cn0Text fl) hrest svs hcount
  rw [← hgroups, drop_succ_cons]
  exact congrArg everyFourth drop_one

theorem length_gsvStart_le {sentenceCount sentenceNumber : ℕ} (hname : name.length = 6)
    (hcount : sentenceCount < 10 ^ 10) (hnumber : sentenceNumber < 10 ^ 10) :
    (gsvStart name sentenceCount sentenceNumber).length ≤ 29 := by
  have h1 : (printInt 0 (sentenceCount : ℕ)).length ≤ 10 :=
    length_printInt_le (Int.natCast_nonneg _) (by rwa [Int.natAbs_natCast]) (by decide) (by decide)
  have h2 : (printInt 0 (sentenceNumber : ℕ)).length ≤ 10 :=
    length_printInt_le (Int.natCast_nonneg _) (by rwa [Int.natAbs_natCast]) (by decide) (by decide)
  simp only [gsvStart, flatMap_cons, flatMap_nil, length_append, length_cons, length_nil]
  omega

theorem gsvSentences_ids (hname : ',' ∉ name) (hlen : name.length = 6) {sentenceCount count : ℕ}
    (hsentences : sentenceCount < 10 ^ 10) (hcount : count < 10 ^ 10) (n sentenceNumber : ℕ)
    {svs : List (GnssSvInfo F)} (hsvs : SvidsIn c svs) (hnumber : sentenceNumber + n ≤ 10 ^ 10) :
    (gsvSentences fl name c sentenceCount count n sentenceNumber svs).2 ∧
    (∀ s ∈ (gsvSentences fl name c sentenceCount count n sentenceNumber svs).1,
      (s.text.splitOn ',').head? = some name) ∧
    (gsvSentences fl name c sentenceCount count n sentenceNumber svs).1.flatMap
        (fun s => everyFourth ((s.text.splitOn ',').drop 4)) =
      ((svsOf c svs).take (4 * n)).map fun sv => printInt 2 sv.svid.toInt := by
  induction n generalizing sentenceNumber svs with
  | zero => exact ⟨rfl, nofun, rfl⟩
  | succ n ih =>
    have hstart : name ++ ',' :: printInt 0 (sentenceCount : ℕ) ++ ',' :: printInt 0 (sentenceNumber : ℕ) ++
        ',' :: printInt 2 (count : ℕ) = gsvStart name sentenceCount sentenceNumber ++ printInt 2 (count : ℕ) := by
      simp [gsvStart]
    have hprint : (printInt 2 (count : ℕ)).length ≤ 10 :=
      length_printInt_le (Int.natCast_nonneg _) (by rwa [Int.natAbs_natCast]) (by decide) (by decide)
    have hstartlen : (gsvStart name sentenceCount sentenceNumber ++ printInt 2 (count : ℕ)).length ≤ 39 := by
      have := length_gsvStart_le hlen hsentences (show sentenceNumber < 10 ^ 10 by omega)
      rw [length_append]
      omega
    have hput : putText [] (gsvStart name sentenceCount sentenceNumber ++ printInt 2 (count : ℕ)) =
        some (gsvStart name sentenceCount sentenceNumber ++ printInt 2 (count : ℕ)) := by
      refine putText_of_fits ?_
      rw [length_nil, Nat.zero_add]
      exact Nat.lt_of_le_of_lt hstartlen (by decide)
    obtain ⟨_, hputSvs, hrest, hsub⟩ := putSvs_of_fits fl 4
      (Nat.lt_of_le_of_lt (Nat.add_le_add hstartlen (length_flatMap_svText_le fl hsvs)) (by decide))
    obtain ⟨hdone, hnames, hids⟩ := ih (sentenceNumber + 1) (fun sv hsv => hsvs sv (hsub hsv)) (by omega)
    obtain ⟨_, hsplit, hfourth⟩ := gsvText_ids fl hname sentenceCount sentenceNumber
      (comma_notMem_printInt 2 (count : ℕ)) ((svsOf c svs).take 4)
    rw [gsvSentences, hstart, hput, Option.bind_eq_bind, Option.bind_some, hputSvs]
    refine ⟨hdone, ?_, ?_⟩
    · intro s hs
      rcases mem_cons.1 hs with rfl | hs
      · rw [hsplit, head?_cons]
      · exact hnames s hs
    · dsimp only
      rw [flatMap_cons, hsplit, hfourth, hids, hrest, ← map_append, Nat.mul_succ, Nat.add_comm (4 * n) 4,
        take_add]

theorem svCount_eq (c : Constellation) (svs : List (GnssSvInfo F)) : svCount c svs = (svsOf c svs).length := by
  have hfold : ∀ n, svs.foldl (fun n sv => if sv.constellation = c then n + 1 else n) n =
      n + (svsOf c svs).length := by
    induction svs with
    | nil => exact fun n => rfl
    | cons sv svs ih =>
      intro n
      rw [foldl_cons, ih]
      split_ifs with hc
      · rw [svsOf_cons_of_eq hc, length_cons]
        omega
      · rw [svsOf_cons_of_ne hc]
  rw [svCount, hfold, Nat.zero_add]

/-- **The `GSV` sentences** print all satellites. -/
theorem gsvReport_ids (hname : ',' ∉ name) (hlen : name.length = 6) {svs : List (GnssSvInfo F)} (hsvs : SvidsIn c svs)
    (hnum : svs.length < 2 ^ 31) :
    (gsvReport fl name c svs).2 ∧
    (∀ s ∈ (gsvReport fl name c svs).1, (s.text.splitOn ',').head? = some name) ∧
    (gsvReport fl name c svs).1.flatMap (fun s => everyFourth ((s.text.splitOn ',').drop 4)) =
      (svsOf c svs).map fun sv => printInt 2 sv.svid.toInt := by
  have hcount : (svsOf c svs).length < 10 ^ 10 :=
    Nat.lt_of_le_of_lt (length_filter_le _ _) (Nat.lt_trans hnum (by decide))
  rw [gsvReport, svCount_eq]
  split
  · rename_i hzero
    rw [eq_nil_of_length_eq_zero hzero]
    have htext : name ++ ",1,1,0,".toList = ([name, ['1'], ['1'], ['0']].flatMap fun f => f ++ [',']) := by
      simp
    obtain ⟨rest, hrest, hcomma⟩ := nmeaPutChecksum_text (name ++ ",1,1,0,".toList)
    have hsplit : (nmeaPutChecksum (name ++ ",1,1,0,".toList)).text.splitOn ',' =
        [name, ['1'], ['1'], ['0'], rest] := by
      rw [hrest, htext, splitOn_fields, splitOn_eq_singleton hcomma]
      · rfl
      intro f hf
      simp only [mem_cons, not_mem_nil, or_false] at hf
      rcases hf with rfl | rfl | rfl | rfl
      · exact hname
      · decide
      · decide
      · decide
    refine ⟨rfl, ?_, ?_⟩
    · intro s hs
      rw [mem_singleton.1 hs, hsplit, head?_cons]
    · rw [flatMap_singleton, hsplit]
      rfl
  generalize hlength : (svsOf c svs).length = count at hcount
  have hsentences : count ≤ 4 * (count / 4 + if count % 4 ≠ 0 then 1 else 0) := by
    split <;> omega
  have hbound : (count / 4 + if count % 4 ≠ 0 then 1 else 0) < 10 ^ 10 := by
    split <;> omega
  have hall := gsvSentences_ids fl hname hlen hbound hcount (count / 4 + if count % 4 ≠ 0 then 1 else 0) 1 hsvs
    (by omega)
  rw [take_of_length_le (by rwa [hlength])] at hall
  exact hall

end Gsv

/-! ### Two reports -/

section Reports

variable {F : Type} (fl : NmeaFloat F) {name : List Char} {sent : List NmeaSentence}

theorem sentencesOf_append (sent' : List NmeaSentence) :
    sentencesOf name (sent ++ sent') = sentencesOf name sent ++ sentencesOf name sent' := filter_append _ _

theorem sentencesOf_of_forall (h : ∀ s ∈ sent, (s.text.splitOn ',').head? = some name) : sentencesOf name sent = sent :=
  filter_eq_self.2 fun s hs => decide_eq_true (h s hs)

theorem sentencesOf_of_ne {name' : List Char} (hne : name ≠ name')
    (h : ∀ s ∈ sent, (s.text.splitOn ',').head? = some name) : sentencesOf name' sent = [] := by
  rw [sentencesOf, filter_eq_nil_iff]
  intro s hs
  rw [h s hs, decide_eq_true_eq]
  exact fun heq => hne (Option.some.inj heq)

theorem civilYear_bounds {time : ℤ} (hle : -10 ^ 16 ≤ time) (hlt : time ≤ 10 ^ 16) :
    -2 ^ 30 ≤ civilYear time ∧ civilYear time ≤ 2 ^ 30 := by
  rw [civilYear]
  -- A year in its era of 400 years, and the eras.
  generalize hz : time / 86400 + 719468 = z
  have hyoe : ∀ doe : ℤ, 0 ≤ doe → doe < 146097 → 0 ≤ (doe - doe / 1460 + doe / 36524 - doe / 146096) / 365 ∧
      (doe - doe / 1460 + doe / 36524 - doe / 146096) / 365 < 400 := by
    intro _ _ _
    omega
  have hdoe := hyoe (z % 146097) (by omega) (by omega)
  have hera : -2000000 ≤ z / 146097 ∧ z / 146097 ≤ 2000000 := by omega
  generalize (z % 146097 - z % 146097 / 1460 + z % 146097 / 36524 - z % 146097 / 146096) / 365 = yoe at hdoe ⊢
  generalize z / 146097 = era at hera ⊢
  split <;> omega

theorem gmtime_isSome (timestamp : Int64) : (gmtime (timestamp.toInt.tdiv 1000)).isSome = true := by
  have hle : -2 ^ 63 ≤ timestamp.toInt := timestamp.le_toInt
  have hlt : timestamp.toInt < 2 ^ 63 := timestamp.toInt_lt
  have habs : (timestamp.toInt.tdiv 1000).natAbs = timestamp.toInt.natAbs / 1000 := Int.natAbs_tdiv _ _
  have hyear : -2 ^ 30 ≤ civilYear (timestamp.toInt.tdiv 1000) ∧ civilYear (timestamp.toInt.tdiv 1000) ≤ 2 ^ 30 :=
    civilYear_bounds (by omega) (by omega)
  rw [gmtime, if_pos (by omega), Option.isSome_some]

variable (e : LocEngNmea F) (svStatus : GnssSvStatus F) (svExt ext : LocationExtended F) (timestamp : Int64)

/-- The sentences of a satellite report, and those of the position report that follows it. -/
def nmeaReports : List NmeaSentence × List NmeaSentence :=
  let sv := nmeaGenerateSv fl e svStatus svExt
  (sv.2, (nmeaGeneratePos fl sv.1 timestamp ext true).2)

variable {svStatus}

theorem SvidsOk.gps (h : SvidsOk svStatus.gnss_sv_list) : SvidsIn .gps svStatus.gnss_sv_list :=
  fun sv hsv hc => h sv hsv (by rw [hc]; decide)

theorem SvidsOk.glonass (h : SvidsOk svStatus.gnss_sv_list) : SvidsIn .glonass svStatus.gnss_sv_list :=
  fun sv hsv hc => h sv hsv (by rw [hc]; decide)

/-- What a satellite report keeps and prints. -/
theorem nmeaGenerateSv_spec (h : SvidsOk svStatus.gnss_sv_list) :
    (nmeaGenerateSv fl e svStatus svExt).1.gps_used_mask = usedMask .gps svStatus.gnss_sv_list ∧
    (nmeaGenerateSv fl e svStatus svExt).1.glo_used_mask = usedMask .glonass svStatus.gnss_sv_list ∧
    gsvIds "$GPGSV".toList (nmeaGenerateSv fl e svStatus svExt).2 =
      (svsOf .gps svStatus.gnss_sv_list).map (fun sv => printInt 2 sv.svid.toInt) ∧
    gsvIds "$GLGSV".toList (nmeaGenerateSv fl e svStatus svExt).2 =
      (svsOf .glonass svStatus.gnss_sv_list).map fun sv => printInt 2 sv.svid.toInt := by
  obtain ⟨hgps, hgpsNames, hgpsIds⟩ :=
    @gsvReport_ids F fl .gps "$GPGSV".toList (by decide) rfl _ h.gps svStatus.num_svs_lt
  obtain ⟨hglo, hgloNames, hgloIds⟩ :=
    @gsvReport_ids F fl .glonass "$GLGSV".toList (by decide) rfl _ h.glonass svStatus.num_svs_lt
  have hsent : (nmeaGenerateSv fl e svStatus svExt).2 =
      (gsvReport fl "$GPGSV".toList .gps svStatus.gnss_sv_list).1 ++
        (gsvReport fl "$GLGSV".toList .glonass svStatus.gnss_sv_list).1 := by
    rw [nmeaGenerateSv, hgps, if_neg (by decide)]
    dsimp only
    rw [hglo, if_neg (by decide)]
    split <;> rfl
  have hmasks : (nmeaGenerateSv fl e svStatus svExt).1.gps_used_mask = usedMask .gps svStatus.gnss_sv_list ∧
      (nmeaGenerateSv fl e svStatus svExt).1.glo_used_mask = usedMask .glonass svStatus.gnss_sv_list := by
    rw [nmeaGenerateSv, hgps, if_neg (by decide)]
    dsimp only
    rw [hglo, if_neg (by decide)]
    split <;> exact ⟨rfl, rfl⟩
  refine ⟨hmasks.1, hmasks.2, ?_, ?_⟩
  · rw [gsvIds, hsent, sentencesOf_append, sentencesOf_of_forall hgpsNames, sentencesOf_of_ne (by decide) hgloNames,
      append_nil, hgpsIds]
  · rw [gsvIds, hsent, sentencesOf_append, sentencesOf_of_ne (by decide) hgpsNames, sentencesOf_of_forall hgloNames,
      nil_append, hgloIds]

/-- The numbers that a `GSA` sentence prints. -/
def gsaNumbers (offset : ℕ) (c : Constellation) (svs : List (GnssSvInfo F)) : List (List Char) :=
  ((usedSvids c svs).sort.take 12).map fun svid => printInt 2 (svid + (offset : ℤ))

theorem gsaSentence_usedMask {c : Constellation} {svs : List (GnssSvInfo F)} {offset : ℕ}
    (hsvs : SvidsIn c svs) (hoffset : offset ≤ 64) (hname : ',' ∉ name) (hlen : name.length = 6) :
    ∃ s, gsaSentence fl name (usedList offset 32 (usedMask c svs) 1 0) e ext = some s ∧
      (s.text.splitOn ',').head? = some name ∧
      ((((s.text.splitOn ',').drop 3).take 12).filter fun f => f ≠ []) = gsaNumbers offset c svs := by
  have hlist := usedList_usedMask offset hsvs
  have hlt : ∀ id ∈ usedList offset 32 (usedMask c svs) 1 0, id < 100 := by
    intro id hid
    have hmem : (id : ℤ) ∈ (usedSvids c svs).sort.map fun svid => svid + (offset : ℤ) := by
      rw [← hlist]
      exact mem_map_of_mem hid
    obtain ⟨_, hsvid, _⟩ := mem_map.1 hmem
    obtain ⟨sv, hsv, hc, rfl⟩ := mem_usedSvids.1 ((Finset.mem_sort _).1 hsvid)
    have hrange := hsvs sv hsv hc.1
    omega
  obtain ⟨s, hs, hhead, hids⟩ := gsaSentence_ids fl hname hlen hlt e ext
  refine ⟨s, hs, hhead, ?_⟩
  have hcast : ∀ l : List ℕ, (l.map fun id => printInt 2 (id : ℕ)) = (l.map fun id => ((id : ℕ) : ℤ)).map (printInt 2) :=
    fun l => (map_map (f := fun id : ℕ => (id : ℤ)) (g := printInt 2)).symm
  rw [hids, hcast, map_take, hlist, ← map_take, map_map, gsaNumbers]
  rfl

/-- What a position report prints. -/
theorem nmeaGeneratePos_spec {svs : List (GnssSvInfo F)} (hgps : SvidsIn .gps svs) (hglo : SvidsIn .glonass svs)
    (hgpsMask : e.gps_used_mask = usedMask .gps svs) (hgloMask : e.glo_used_mask = usedMask .glonass svs) :
    gsaIds "$GPGSA".toList (nmeaGeneratePos fl e timestamp ext true).2 = gsaNumbers 0 .gps svs ∧
    gsaIds "$GNGSA".toList (nmeaGeneratePos fl e timestamp ext true).2 =
      gsaNumbers GLONASS_SV_ID_OFFSET .glonass svs := by
  obtain ⟨_, hyear⟩ := Option.isSome_iff_exists.1 (gmtime_isSome timestamp)
  obtain ⟨gpsMask, gloMask, pdop, hdop, vdop⟩ := e
  obtain rfl : gpsMask = usedMask .gps svs := hgpsMask
  obtain rfl : gloMask = usedMask .glonass svs := hgloMask
  obtain ⟨gpgsa, hgpgsa, hgpName, hgpIds⟩ := @gsaSentence_usedMask F fl "$GPGSA".toList
    ⟨0, usedMask .glonass svs, pdop, hdop, vdop⟩ ext .gps svs 0 hgps (by decide) (by decide) rfl
  obtain ⟨gngsa, hgngsa, hgnName, hgnIds⟩ := @gsaSentence_usedMask F fl "$GNGSA".toList
    ⟨0, 0, pdop, hdop, vdop⟩ ext .glonass svs GLONASS_SV_ID_OFFSET hglo (by decide) (by decide) rfl
  have hsent : (nmeaGeneratePos fl ⟨usedMask .gps svs, usedMask .glonass svs, pdop, hdop, vdop⟩ timestamp ext
      true).2 = [gpgsa] ++ [gngsa] := by
    unfold nmeaGeneratePos
    simp only [hyear]
    rw [if_pos trivial]
    simp only [hgpgsa]
    simp only [hgngsa]
    rfl
  have hgp : ∀ s ∈ [gpgsa], (s.text.splitOn ',').head? = some "$GPGSA".toList :=
    fun s hs => by rw [mem_singleton.1 hs, hgpName]
  have hgn : ∀ s ∈ [gngsa], (s.text.splitOn ',').head? = some "$GNGSA".toList :=
    fun s hs => by rw [mem_singleton.1 hs, hgnName]
  constructor
  · rw [gsaIds, hsent, sentencesOf_append, sentencesOf_of_forall hgp, sentencesOf_of_ne (by decide) hgn,
      append_nil, flatMap_singleton, hgpIds]
  · rw [gsaIds, hsent, sentencesOf_append, sentencesOf_of_ne (by decide) hgp, sentencesOf_of_forall hgn,
      nil_append, flatMap_singleton, hgnIds]

/-- The sentences agree if the offset changes no text. -/
theorem gsaAgrees_iff (offset : ℕ) (c : Constellation) (svs : List (GnssSvInfo F)) :
    GsaAgrees c svs ((svsOf c svs).map fun sv => printInt 2 sv.svid.toInt) (gsaNumbers offset c svs) ↔
      ∀ svid ∈ (usedSvids c svs).sort.take 12, printInt 2 (svid + (offset : ℤ)) = printInt 2 svid := by
  have hzip : ∀ sv number, (sv, number) ∈ (svsOf c svs).zip ((svsOf c svs).map fun sv => printInt 2 sv.svid.toInt) ↔
        sv ∈ svsOf c svs ∧ number = printInt 2 sv.svid.toInt := by
    intro sv number
    have hmap := zip_map' (l := svsOf c svs) (f := id) (g := fun sv => printInt 2 sv.svid.toInt)
    rw [map_id] at hmap
    rw [hmap, mem_map]
    constructor
    · rintro ⟨x, hx, heq⟩
      rw [← (Prod.mk.inj heq).1, ← (Prod.mk.inj heq).2]
      exact ⟨hx, rfl⟩
    · rintro ⟨hsv, rfl⟩
      exact ⟨sv, hsv, rfl⟩
  have hids : ∀ svid ∈ (usedSvids c svs).sort.take 12,
      ((∀ sv number, (sv, number) ∈ (svsOf c svs).zip ((svsOf c svs).map fun sv => printInt 2 sv.svid.toInt) →
        sv.svid.toInt = svid → printInt 2 (svid + (offset : ℤ)) = number) ↔
      printInt 2 (svid + (offset : ℤ)) = printInt 2 svid) := by
    intro svid hsvid
    -- A number that is used is the number of a satellite.
    have hused : svid ∈ usedSvids c svs := (Finset.mem_sort _).1 (mem_of_mem_take hsvid)
    obtain ⟨sv, hsv, hc, rfl⟩ := mem_usedSvids.1 hused
    constructor
    · intro h
      exact h sv _ ((hzip sv _).2 ⟨mem_filter.2 ⟨hsv, decide_eq_true hc.1⟩, rfl⟩) rfl
    · intro h sv' number hmem heq
      rw [((hzip sv' number).1 hmem).2, heq, h]
  constructor
  · intro h svid hsvid
    have hall := h.ids
    rw [gsaNumbers, forall₂_map_right_iff, forall₂_same] at hall
    exact (hids svid hsvid).1 (hall svid hsvid)
  intro h
  refine ⟨length_map _, ?_⟩
  rw [gsaNumbers, forall₂_map_right_iff, forall₂_same]
  exact fun svid hsvid => (hids svid hsvid).2 (h svid hsvid)

theorem printInt_offset_ne {svid : ℤ} (h1 : 1 ≤ svid) (h32 : svid ≤ 32) :
    printInt 2 (svid + (GLONASS_SV_ID_OFFSET : ℤ)) ≠ printInt 2 svid := by
  have hall : ∀ n : ℕ, n < 32 → printInt 2 ((n : ℤ) + 1 + (GLONASS_SV_ID_OFFSET : ℤ)) ≠ printInt 2 ((n : ℤ) + 1) := by
    decide
  obtain ⟨n, _⟩ := Int.eq_ofNat_of_zero_le (show 0 ≤ svid - 1 by omega)
  obtain rfl : svid = (n : ℤ) + 1 := by omega
  exact hall n (by omega)

/-- The numbers of the `GSA` sentences are those of the `GSV` sentences, for each constellation. -/
def GsaMatchesGsv (svs : List (GnssSvInfo F)) (reports : List NmeaSentence × List NmeaSentence) : Prop :=
  GsaAgrees .gps svs (gsvIds "$GPGSV".toList reports.1) (gsaIds "$GPGSA".toList reports.2) ∧
  GsaAgrees .glonass svs (gsvIds "$GLGSV".toList reports.1) (gsaIds "$GNGSA".toList reports.2)

/-- GPS satellites have the same number in both sentences; GLONASS satellites do not. -/
theorem gsa_matches_gsv_iff (h : SvidsOk svStatus.gnss_sv_list) :
    GsaMatchesGsv svStatus.gnss_sv_list (nmeaReports fl e svStatus svExt ext timestamp) ↔
      ∀ sv ∈ svStatus.gnss_sv_list, sv.constellation = .glonass → sv.usedInFix = false := by
  obtain ⟨hgpsMask, hgloMask, hgpgsv, hglgsv⟩ := nmeaGenerateSv_spec fl e svExt h
  obtain ⟨hgpgsa, hgngsa⟩ := nmeaGeneratePos_spec fl (nmeaGenerateSv fl e svStatus svExt).1 ext timestamp h.gps
    h.glonass hgpsMask hgloMask
  rw [GsaMatchesGsv, nmeaReports, hgpgsv, hglgsv, hgpgsa, hgngsa, gsaAgrees_iff, gsaAgrees_iff]
  constructor
  · rintro ⟨-, hglo⟩ sv hsv hc
    by_contra hused
    rw [Bool.not_eq_false] at hused
    -- The smallest number that is used is printed.
    have hmem : sv.svid.toInt ∈ (usedSvids .glonass svStatus.gnss_sv_list).sort :=
      (Finset.mem_sort _).2 (mem_usedSvids.2 ⟨sv, hsv, ⟨hc, hused⟩, rfl⟩)
    obtain ⟨svid, _, hsort⟩ := exists_cons_of_ne_nil (ne_nil_of_mem hmem)
    have hfirst : svid ∈ usedSvids .glonass svStatus.gnss_sv_list := by
      rw [← Finset.mem_sort (· ≤ ·), hsort]
      exact .head _
    obtain ⟨sv', hsv', hc', rfl⟩ := mem_usedSvids.1 hfirst
    have hrange := h.glonass sv' hsv' hc'.1
    refine printInt_offset_ne hrange.1 hrange.2 (hglo _ ?_)
    rw [hsort]
    exact .head _
  intro hnone
  refine ⟨fun svid _ => by rw [Int.natCast_zero, Int.add_zero], ?_⟩
  have hempty : usedSvids .glonass svStatus.gnss_sv_list = ∅ := by
    rw [Finset.eq_empty_iff_forall_notMem]
    intro x hx
    obtain ⟨sv, hsv, hc, -⟩ := mem_usedSvids.1 hx
    exact Bool.false_ne_true ((hnone sv hsv hc.1).symm.trans hc.2)
  rw [hempty, Finset.sort_empty]
  exact nofun

end Reports

/-! ### A report -/

def wholeNumbers : NmeaFloat ℕ where
  round x := Int32.ofNat x
  pos x := 0 < x
  print x := printInt 0 x ++ ['.', '0']
  zero := 0

/-- Two GPS satellites that are used, one that is not, and a GLONASS satellite. -/
def skyReport (gloUsed : Bool) : GnssSvStatus ℕ where
  gnss_sv_list := [⟨7, .gps, 30, 45, 100, true⟩, ⟨1, .glonass, 28, 10, 200, gloUsed⟩, ⟨3, .gps, 0, 60, 15, true⟩,
    ⟨9, .gps, 12, 5, 310, false⟩]
  num_svs_lt := Nat.lt_trans (show 4 < 5 by decide) (by decide)

def noDop : LocationExtended ℕ := ⟨false, 0, 0, 0⟩

instance {F : Type} (svs : List (GnssSvInfo F)) : Decidable (SvidsOk svs) :=
  inferInstanceAs (Decidable (∀ sv ∈ svs, sv.constellation ≠ .other → 1 ≤ sv.svid.toInt ∧ sv.svid.toInt ≤ 32))

/-- The GLONASS satellite is not used. -/
theorem gsa_matches_gsv_gps : SvidsOk (skyReport false).gnss_sv_list ∧ GsaMatchesGsv (skyReport false).gnss_sv_list
      (nmeaReports wholeNumbers ⟨0, 0, 0, 0, 0⟩ (skyReport false) noDop noDop 1000) ∧
    gsaIds "$GPGSA".toList (nmeaReports wholeNumbers ⟨0, 0, 0, 0, 0⟩ (skyReport false) noDop noDop 1000).2 =
      [['0', '3'], ['0', '7']] :=
  ⟨by decide, (gsa_matches_gsv_iff wholeNumbers ⟨0, 0, 0, 0, 0⟩ noDop noDop 1000 (by decide)).2 (by decide),
    by decide⟩

/-- The GLONASS satellite 1 is used: it is 01 in `$GLGSV` and 65 in `$GNGSA`. -/
theorem gsa_differs_from_gsv_glonass : SvidsOk (skyReport true).gnss_sv_list ∧
    gsvIds "$GLGSV".toList (nmeaReports wholeNumbers ⟨0, 0, 0, 0, 0⟩ (skyReport true) noDop noDop 1000).1 =
      [['0', '1']] ∧
    gsaIds "$GNGSA".toList (nmeaReports wholeNumbers ⟨0, 0, 0, 0, 0⟩ (skyReport true) noDop noDop 1000).2 =
      [['6', '5']] ∧
    ¬ GsaMatchesGsv (skyReport true).gnss_sv_list
      (nmeaReports wholeNumbers ⟨0, 0, 0, 0, 0⟩ (skyReport true) noDop noDop 1000) := by
  have hgsv : gsvIds "$GLGSV".toList
      (nmeaReports wholeNumbers ⟨0, 0, 0, 0, 0⟩ (skyReport true) noDop noDop 1000).1 = [['0', '1']] := by
    decide
  have hgsa : gsaIds "$GNGSA".toList
      (nmeaReports wholeNumbers ⟨0, 0, 0, 0, 0⟩ (skyReport true) noDop noDop 1000).2 = [['6', '5']] := by
    decide
  refine ⟨by decide, hgsv, hgsa, ?_⟩
  intro h
  have hused : usedSvids .glonass (skyReport true).gnss_sv_list = {1} := by decide
  have hids := h.2.ids
  rw [hgsv, hgsa, hused, Finset.sort_singleton] at hids
  obtain ⟨hid, -⟩ := forall₂_cons.1 hids
  exact nomatch hid ⟨1, .glonass, 28, 10, 200, true⟩ ['0', '1'] (.head _) rfl

end G4Common.Gps
