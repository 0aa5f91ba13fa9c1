/-
The `GSV` sentences of a satellite report (`loc_eng_nmea_generate_sv()` of
`gps/loc_api/libloc_api_50001/loc_eng_nmea.cpp`).

The sentences of a constellation are written down from its satellites in pieces of four (`gsvTexts`).  If all of them
fit the buffer, with their checksums, they are what the loops print (`gsvReport_of_fits`): the index into the mixed list
goes on where the last sentence stopped, and the satellites of the constellation that it has not reached are those that
are not printed yet.
-/
import G4Common.Gps.NmeaIds
import G4Common.Lib.Chunks

namespace G4Common.Gps

open Chunks Printf List

section Partition

variable {F : Type} (fl : NmeaFloat F)

/-! ### The sentences as they should be -/

/-- The number of sentences for `n` satellites. -/
def gsvNumber (n : ℕ) : ℕ := (n + 3) / 4

/-- A sentence with a group of satellites, up to its checksum. -/
def gsvText (name : List Char) (total number count : ℕ) (group : List (GnssSvInfo F)) : List Char :=
  name ++ ',' :: printInt 0 total ++ ',' :: printInt 0 number ++ ',' :: printInt 2 count ++ group.flatMap (svText fl)

/-- The groups, with the numbers of their sentences. -/
def gsvGroups (c : Constellation) (svs : List (GnssSvInfo F)) : List (List (GnssSvInfo F)) :=
  chunks 4 (gsvNumber (svsOf c svs).length) (svsOf c svs)

/-- All sentences of a constellation, up to their checksums. -/
def gsvTexts (name : List Char) (c : Constellation) (svs : List (GnssSvInfo F)) : List (List Char) :=
  if (svsOf c svs).length = 0 then [name ++ ",1,1,0,".toList]
  else ((gsvGroups c svs).zipIdx 1).map fun g =>
    gsvText fl name (gsvNumber (svsOf c svs).length) g.2 (svsOf c svs).length g.1

/-- A sentence with its checksum. -/
def wholeSentence (text : List Char) : NmeaSentence := ⟨text ++ checksumText text, (text ++ checksumText text).length⟩

/-- It fits the buffer, with the zero byte at its end. -/
def FitsSentence (text : List Char) : Prop := (text ++ checksumText text).length < NMEA_SENTENCE_MAX_LENGTH

/-- The sentences of a report fit. -/
def ReportFits (svs : List (GnssSvInfo F)) : Prop :=
  (∀ t ∈ gsvTexts fl "$GPGSV".toList .gps svs, FitsSentence t) ∧
    ∀ t ∈ gsvTexts fl "$GLGSV".toList .glonass svs, FitsSentence t

/-- The exclusive or of the characters between `$` and `*`, in two digits, ends a sentence. -/
def Framed (s : NmeaSentence) : Prop :=
  ∃ body, '$' ∉ body ∧ '*' ∉ body ∧ s.text = '$' :: body ++ '*' :: printHexByte (nmeaChecksum body) ++ ['\r', '\n'] ∧
    s.length = s.text.length

/-- **The sentences of a constellation partition its satellites** into groups. -/
structure GsvPartition (name : List Char) (c : Constellation) (svs : List (GnssSvInfo F)) (sent : List NmeaSentence)
    (groups : List (List (GnssSvInfo F))) : Prop where
  satellites : groups.flatten = svsOf c svs
  number : groups.length = gsvNumber (svsOf c svs).length
  four : ∀ g ∈ groups.dropLast, g.length = 4
  last : ∀ g ∈ groups, g ≠ [] ∧ g.length ≤ 4
  blank : (svsOf c svs).length = 0 → sent = [wholeSentence (name ++ ",1,1,0,".toList)]
  sentences : 0 < (svsOf c svs).length → sent = (groups.zipIdx 1).map fun g =>
    wholeSentence (gsvText fl name (gsvNumber (svsOf c svs).length) g.2 (svsOf c svs).length g.1)
  framed : ∀ s ∈ sent, Framed s

variable {fl} {name text piece : List Char} {c : Constellation} {svs : List (GnssSvInfo F)}

/-! ### Sentences that fit -/

theorem length_checksumText (text : List Char) : (checksumText text).length = 5 := rfl

theorem nmeaPutChecksum_of_fits (h : FitsSentence text) : nmeaPutChecksum text = wholeSentence text := by
  rw [FitsSentence, length_append, length_checksumText] at h
  have htake : (checksumText text).take (NMEA_SENTENCE_MAX_LENGTH - text.length - 1) = checksumText text := by
    apply take_of_length_le
    rw [length_checksumText]
    omega
  rw [nmeaPutChecksum, putLast, htake, wholeSentence, length_append]

/-- **The loop over the sentences**: each has the next four satellites, as long as they fit. -/
theorem gsvSentences_of_fits {total count : ℕ} (n number : ℕ)
    (h : ∀ g ∈ (chunks 4 n (svsOf c svs)).zipIdx number, FitsSentence (gsvText fl name total g.2 count g.1)) :
    gsvSentences fl name c total count n number svs =
      (((chunks 4 n (svsOf c svs)).zipIdx number).map fun g => wholeSentence (gsvText fl name total g.2 count g.1),
        true) := by
  induction n generalizing number svs with
  | zero => rfl
  | succ n ih =>
    rw [chunks, zipIdx_cons] at h ⊢
    have hfirst := h _ mem_cons_self
    have hlen : (gsvText fl name total number count ((svsOf c svs).take 4)).length < NMEA_SENTENCE_MAX_LENGTH := by
      refine Nat.lt_of_le_of_lt ?_ hfirst
      rw [length_append]
      exact Nat.le_add_right _ _
    rw [gsvText, length_append] at hlen
    have hput : putText [] (name ++ ',' :: printInt 0 total ++ ',' :: printInt 0 number ++ ',' :: printInt 2 count) =
        some (name ++ ',' :: printInt 0 total ++ ',' :: printInt 0 number ++ ',' :: printInt 2 count) := by
      refine putText_of_fits ?_
      rw [length_nil]
      omega
    obtain ⟨_, hputSvs, hrest, -⟩ := putSvs_of_fits (c := c) fl 4 hlen
    rw [← hrest] at h ⊢
    have hloop := ih (number + 1) fun g hg => h g (mem_cons_of_mem _ hg)
    rw [gsvSentences, hput, Option.bind_eq_bind, Option.bind_some, hputSvs]
    dsimp only
    rw [hloop, map_cons]
    congr 2
    exact nmeaPutChecksum_of_fits hfirst

theorem ceil_eq (count : ℕ) : (count / 4 + if count % 4 ≠ 0 then 1 else 0) = gsvNumber count := by
  rw [gsvNumber]
  split <;> omega

/-- **The sentences of a constellation** are those that they should be. -/
theorem gsvReport_of_fits (h : ∀ t ∈ gsvTexts fl name c svs, FitsSentence t) :
    gsvReport fl name c svs = ((gsvTexts fl name c svs).map wholeSentence, true) := by
  rw [gsvTexts] at h ⊢
  rw [gsvReport, svCount_eq]
  split
  · rename_i hzero
    rw [if_pos hzero] at h
    rw [nmeaPutChecksum_of_fits (h _ mem_cons_self)]
    rfl
  rename_i hzero
  rw [if_neg hzero] at h
  rw [ceil_eq, gsvSentences_of_fits, map_map]
  · rfl
  · intro g hg
    exact h _ (mem_map_of_mem hg)

/-! ### Frames -/

theorem notMem_printInt {x : Char} (hx : x ≠ '-') (hd : x.isDigit = false) (w : ℕ) (n : ℤ) : x ∉ printInt w n := by
  intro h
  rcases mem_printInt h with h | h
  · exact hx h
  · exact absurd h (by rw [hd]; exact Bool.false_ne_true)

theorem notMem_svText {x : Char} (hx : x ≠ '-') (hd : x.isDigit = false) (hcomma : x ≠ ',') (sv : GnssSvInfo F) :
    x ∉ svText fl sv := by
  have hnum := notMem_printInt hx hd
  have hcn0 : x ∉ cn0Text fl sv := by
    rw [cn0Text]
    split
    · exact hnum 2 _
    · exact not_mem_nil
  simp only [svText, mem_append, mem_cons, not_or]
  exact ⟨⟨⟨⟨hcomma, hnum 2 _⟩, hcomma, hnum 2 _⟩, hcomma, hnum 3 _⟩, hcomma, hcn0⟩

theorem framed_wholeSentence {body : List Char} (hdollar : '$' ∉ body) (hstar : '*' ∉ body) :
    Framed (wholeSentence ('$' :: body)) := by
  refine ⟨body, hdollar, hstar, ?_, rfl⟩
  simp [wholeSentence, checksumText]

theorem framed_gsvText {body : List Char} (hdollar : '$' ∉ body) (hstar : '*' ∉ body) (total number count : ℕ)
    (group : List (GnssSvInfo F)) : Framed (wholeSentence (gsvText fl ('$' :: body) total number count group)) := by
  have hrest : ∀ x : Char, x ≠ '-' → x.isDigit = false → x ≠ ',' → x ∉ body →
      x ∉ gsvText fl body total number count group := by
    intro x hx hd hcomma hbody
    have hnum := notMem_printInt hx hd
    have hgroup : x ∉ group.flatMap (svText fl) := by
      intro h
      obtain ⟨sv, -, h⟩ := mem_flatMap.1 h
      exact notMem_svText hx hd hcomma sv h
    simp only [gsvText, mem_append, mem_cons, not_or]
    exact ⟨⟨⟨⟨hbody, hcomma, hnum 0 _⟩, hcomma, hnum 0 _⟩, hcomma, hnum 2 _⟩, hgroup⟩
  exact framed_wholeSentence (hrest '$' (by decide) (by decide) (by decide) hdollar)
    (hrest '*' (by decide) (by decide) (by decide) hstar)

/-! ### The report -/

theorem gsvPartition_of_fits {body : List Char} (hdollar : '$' ∉ body) (hstar : '*' ∉ body) :
    GsvPartition fl ('$' :: body) c svs ((gsvTexts fl ('$' :: body) c svs).map wholeSentence) (gsvGroups c svs) := by
  have hnumber : (svsOf c svs).length ≤ 4 * gsvNumber (svsOf c svs).length := by
    rw [gsvNumber]
    omega
  have hfew : 4 * gsvNumber (svsOf c svs).length < (svsOf c svs).length + 4 := by
    rw [gsvNumber]
    omega
  refine ⟨flatten_chunks hnumber, length_chunks _ _ _, fun g hg => length_chunk hfew hg,
    fun g hg => chunk_ne_nil (by decide) hfew hg, fun hzero => ?_, fun hpos => ?_, fun s hs => ?_⟩
  · rw [gsvTexts, if_pos hzero]
    rfl
  · rw [gsvTexts, if_neg (Nat.ne_of_gt hpos), map_map]
    rfl
  obtain ⟨t, ht, rfl⟩ := mem_map.1 hs
  rw [gsvTexts] at ht
  split at ht
  · obtain rfl := mem_singleton.1 ht
    refine framed_wholeSentence ?_ ?_
    · show '$' ∉ body ++ ",1,1,0,".toList
      rw [mem_append, not_or]
      exact ⟨hdollar, by decide⟩
    · show '*' ∉ body ++ ",1,1,0,".toList
      rw [mem_append, not_or]
      exact ⟨hstar, by decide⟩
  · obtain ⟨g, -, rfl⟩ := mem_map.1 ht
    exact framed_gsvText hdollar hstar _ _ _ _

/-- **GSV sentences partition the satellites** of every report whose sentences fit the buffer: first those of GPS, then
those of GLONASS, in the order of the report. -/
theorem gsv_partition (fl : NmeaFloat F) (e : LocEngNmea F) (svStatus : GnssSvStatus F) (ext : LocationExtended F)
    (h : ReportFits fl svStatus.gnss_sv_list) :
    ∃ gps glo gpsGroups gloGroups, (nmeaGenerateSv fl e svStatus ext).2 = gps ++ glo ∧
      GsvPartition fl "$GPGSV".toList .gps svStatus.gnss_sv_list gps gpsGroups ∧
      GsvPartition fl "$GLGSV".toList .glonass svStatus.gnss_sv_list glo gloGroups := by
  refine ⟨_, _, _, _, ?_, gsvPartition_of_fits (by decide) (by decide),
    gsvPartition_of_fits (by decide) (by decide)⟩
  rw [nmeaGenerateSv]
  dsimp only
  rw [gsvReport_of_fits h.1, gsvReport_of_fits h.2]
  dsimp only
  rw [if_neg (by decide), if_neg (by decide)]
  split <;> rfl

end Partition

/-- Five GPS satellites and one of GLONASS, mixed. -/
def mixedSky : GnssSvStatus ℕ where
  gnss_sv_list := [⟨1, .gps, 40, 50, 60, true⟩, ⟨2, .gps, 0, 5, 160, false⟩, ⟨3, .glonass, 30, 45, 90, true⟩,
    ⟨4, .gps, 21, 7, 300, false⟩, ⟨5, .gps, 22, 8, 310, false⟩, ⟨6, .gps, 23, 9, 320, false⟩]
  num_svs_lt := by decide

theorem gsv_partition_mixed :
    ∃ gps glo gpsGroups gloGroups, (nmeaGenerateSv wholeNumbers ⟨0, 0, 0, 0, 0⟩ mixedSky noDop).2 = gps ++ glo ∧
      GsvPartition wholeNumbers "$GPGSV".toList .gps mixedSky.gnss_sv_list gps gpsGroups ∧
      GsvPartition wholeNumbers "$GLGSV".toList .glonass mixedSky.gnss_sv_list glo gloGroups := by
  refine gsv_partition wholeNumbers _ mixedSky noDop ⟨?_, ?_⟩
  · unfold FitsSentence
    decide
  · unfold FitsSentence
    decide

end G4Common.Gps
