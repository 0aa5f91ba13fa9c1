/-
What `getChipInfo()` makes of the properties of a DTB file.

Each property is on a line of its own.  The line of one tag has no other tag, so what the lists are in the end depends
on one line each (`scanned`).  A node is made for each triple in version 1, and for each combination of groups in the
other versions; the walks over the three lists put their cursors back, so that no combination is left out
(`get_chip_info_exact`).
-/
import G4Common.Dtbtool.ChipTuples

namespace G4Common.Dtbtool

open CString Scanf List Option

/-- The property occurs on one line. -/
def Declares (lines : List (List Char)) (tag : List Char) (cells : List Cell) : Prop :=
  ∃ before behind indent eol, lines = before ++ propLine indent tag cells eol :: behind ∧
    (∀ c ∈ indent, c ∈ blanks) ∧ (eol = [] ∨ eol = ['\n']) ∧ ∀ line ∈ before ++ behind, ¬ tag <:+: line

/-! ### Tags -/

/-- The tags; `q` is at their start only. -/
structure IsTag (tag : List Char) : Prop where
  start : ∃ rest, tag = 'q' :: rest ∧ 'q' ∉ rest

theorem isTag_dt : IsTag QCDT_DT_TAG := ⟨QCDT_DT_TAG.tail, rfl, by decide⟩

theorem isTag_board : IsTag QCDT_BOARD_TAG := ⟨QCDT_BOARD_TAG.tail, rfl, by decide⟩

theorem isTag_pmic : IsTag QCDT_PMIC_TAG := ⟨QCDT_PMIC_TAG.tail, rfl, by decide⟩

section Tags

variable {tag other indent eol : List Char} {cells : List Cell}

theorem ne_q_of_hexVal {c : Char} (h : (hexVal c).isSome) : c ≠ 'q' := by
  rintro rfl
  exact nomatch h

theorem ne_q_of_mem_blanks {c : Char} (h : c ∈ blanks) : c ≠ 'q' := by
  rintro rfl
  exact nomatch h

theorem ne_q_of_mem_cells (heol : eol = [] ∨ eol = ['\n']) {c : Char}
    (hc : c ∈ spaced (cells.map Cell.text) ++ (['>', ';'] ++ eol)) : c ≠ 'q' := by
  rcases mem_append.1 hc with hc | hc
  · rcases mem_spaced hc with rfl | ⟨w, hw, hc⟩
    · decide
    obtain ⟨cell, -, rfl⟩ := mem_map.1 hw
    rcases mem_cons.1 hc with rfl | hc
    · decide
    rcases mem_cons.1 hc with rfl | hc
    · decide
    exact ne_q_of_hexVal (cell.hex c hc)
  rcases mem_cons.1 hc with rfl | hc
  · decide
  rcases mem_cons.1 hc with rfl | hc
  · decide
  rcases heol with rfl | rfl
  · exact nomatch hc
  · obtain rfl := mem_singleton.1 hc
    decide

theorem strstr_propLine (htag : IsTag tag) (hindent : ∀ c ∈ indent, c ∈ blanks) :
    strstr tag (propLine indent tag cells eol) = some (indent, spaced (cells.map Cell.text) ++ (['>', ';'] ++ eol)) := by
  obtain ⟨_, rfl, -⟩ := htag.start
  rw [propLine, append_assoc]
  exact strstr_skip (fun c hc => ne_q_of_mem_blanks (hindent c hc)) _

theorem not_infix_propLine (htag : IsTag tag) (hother : IsTag other) (hne : ∀ s, other.isPrefixOf (tag ++ s) = false)
    (hindent : ∀ c ∈ indent, c ∈ blanks) (heol : eol = [] ∨ eol = ['\n']) :
    ¬ other <:+: propLine indent tag cells eol := by
  obtain ⟨rest, rfl, hrest⟩ := htag.start
  obtain ⟨rest', rfl, -⟩ := hother.start
  have htail : ∀ c ∈ rest ++ (spaced (cells.map Cell.text) ++ (['>', ';'] ++ eol)), c ≠ 'q' := by
    intro c hc
    rcases mem_append.1 hc with hc | hc
    · rintro rfl
      exact hrest hc
    · exact ne_q_of_mem_cells heol hc
  have hno : ¬ ('q' :: rest').isPrefixOf ('q' :: (rest ++ (spaced (cells.map Cell.text) ++ (['>', ';'] ++ eol)))) =
      true := by
    rw [Bool.not_eq_true]
    exact hne _
  rw [← strstr_eq_none_iff, propLine, append_assoc,
    strstr_append fun c hc => ne_q_of_mem_blanks (hindent c hc), cons_append, strstr, if_neg hno,
    strstr_of_notMem htail]
  rfl

end Tags

/-! ### Lines -/

section Lines

variable {α : Type*} {n : ℕ} {tag dt_tag line indent eol : List Char} {entry : (ℕ → UInt32) → α} {t t' : TagState α}
  {cells : List Cell} {s s' : ScanState} {lines : List (List Char)}

theorem scanTag_of_not_infix (h : ¬ tag <:+: t.line) : scanTag n tag entry t = some t := by
  rw [scanTag, strstr_eq_none_iff.2 h]

theorem scanTag_line (h : scanTag n tag entry t = some t') : t'.line <+: t.line := by
  rw [scanTag] at h
  split at h
  · cases h
    exact prefix_rfl
  rename_i front pos hpos
  obtain ⟨⟨g, _⟩, -, h⟩ := bind_eq_some_iff.1 h
  cases h
  rw [strstr_eq_some hpos]
  exact (prefix_append_right_inj _).2 ( cutToken_prefix blanks pos)

theorem scanTag_ne_none (hn : 0 < n) : scanTag n tag entry t ≠ none := by
  rw [scanTag]
  split
  · exact some_ne_none _
  rename_i front pos hpos
  have hread : readGroups n entry (pos.length + 1) ⟨pos, t.data, false, false⟩ t.entries ≠ none :=
    readGroups_ne_none hn (Nat.lt_succ_self _)
  obtain ⟨r, hr⟩ := ne_none_iff_exists'.1 hread
  rw [hr]
  exact some_ne_none _

theorem scanTag_propLine (hentry : ReadsFirst n entry) (hn : 0 < n) (htag : IsTag tag)
    (hindent : ∀ c ∈ indent, c ∈ blanks) (heol : eol = [] ∨ eol = ['\n']) (ht : t.line = propLine indent tag cells eol) :
    ∃ t', scanTag n tag entry t = some t' ∧
      t'.entries = (groupEntries n entry (cells.map Cell.value)).foldl (fun l x => afterHead x l) t.entries ∧
      t'.entryEnded = true := by
  have hg : ∀ data, (GroupState.mk (spaced (cells.map Cell.text) ++ (['>', ';'] ++ eol)) data false false).sptr =
      spaced (cells.map Cell.text) ++ (['>', ';'] ++ eol) := fun _ => rfl
  obtain ⟨g, hread, hended⟩ := readGroups_cells hentry hn (LineTail.end eol heol) rfl (hg t.data) t.entries
  rw [scanTag, ht, strstr_propLine htag hindent]
  dsimp only
  rw [hread]
  exact ⟨_, rfl, rfl, hended⟩

theorem scanLine_cases (h : scanLine dt_tag s line = some s') : ∃ dt st pt,
    scanTag 2 dt_tag pairEntry ⟨line, s.data_st, s.entryEndedDT, s.chipId⟩ = some dt ∧
    scanTag 2 QCDT_BOARD_TAG pairEntry ⟨dt.line, dt.data, s.entryEndedST, s.chipSt⟩ = some st ∧
    scanTag 4 QCDT_PMIC_TAG pmicEntry ⟨st.line, s.data_pt, s.entryEndedPT, s.chipPt⟩ = some pt ∧
    s' = ⟨dt.entries, st.entries, pt.entries, st.data, pt.data, dt.entryEnded, st.entryEnded, pt.entryEnded⟩ := by
  obtain ⟨dt, hdt, h⟩ := bind_eq_some_iff.1 h
  obtain ⟨st, hst, h⟩ := bind_eq_some_iff.1 h
  obtain ⟨pt, hpt, h⟩ := bind_eq_some_iff.1 h
  exact ⟨dt, st, pt, hdt, hst, hpt, (some.inj h).symm⟩

theorem scanLine_ne_none : scanLine dt_tag s line ≠ none := by
  have hsome : ∀ {β : Type} (k : ℕ) (tag : List Char) (entry : (ℕ → UInt32) → β) (t : TagState β), 0 < k →
      ∃ t', scanTag k tag entry t = some t' :=
    fun k tag entry t hk => ne_none_iff_exists'.1 (scanTag_ne_none hk)
  obtain ⟨dt, hdt⟩ := hsome 2 dt_tag pairEntry ⟨line, s.data_st, s.entryEndedDT, s.chipId⟩ (by decide)
  obtain ⟨st, hst⟩ := hsome 2 QCDT_BOARD_TAG pairEntry ⟨dt.line, dt.data, s.entryEndedST, s.chipSt⟩ (by decide)
  obtain ⟨_, hpt⟩ := hsome 4 QCDT_PMIC_TAG pmicEntry ⟨st.line, s.data_pt, s.entryEndedPT, s.chipPt⟩ (by decide)
  simp only [scanLine, hdt, hst, hpt, bind_eq_bind, bind_some]
  exact some_ne_none _

theorem foldlM_scanLine_ne_none : lines.foldlM (scanLine dt_tag) s ≠ none := by
  induction lines generalizing s with
  | nil => exact some_ne_none _
  | cons line _ ih =>
    obtain ⟨_, hs'⟩ := ne_none_iff_exists'.1 (@scanLine_ne_none dt_tag line s)
    rw [foldlM_cons, hs']
    exact ih

/-- The part of the state that belongs to a tag: what is read with it on a line depends on the tags before it only in so
far as they cut the line off. -/
structure ReadsTag (dt_tag : List Char) (n : ℕ) (tag : List Char) (entry : (ℕ → UInt32) → α)
    (part : ScanState → List α × Bool) (Whole : List Char → Prop) : Prop where
  start : part ScanState.start = ([], false)
  line : ∀ s s' line, scanLine dt_tag s line = some s' → ∃ l data t, l <+: line ∧ (Whole line → l = line) ∧
    scanTag n tag entry ⟨l, data, (part s).2, (part s).1⟩ = some t ∧ part s' = (t.entries, t.entryEnded)

variable {part : ScanState → List α × Bool} {Whole : List Char → Prop}

theorem ReadsTag.keep (h : ReadsTag dt_tag n tag entry part Whole) (hlines : ∀ line ∈ lines, ¬ tag <:+: line)
    (hfold : lines.foldlM (scanLine dt_tag) s = some s') : part s' = part s := by
  induction lines generalizing s with
  | nil =>
    cases hfold
    rfl
  | cons line _ ih =>
    obtain ⟨hline, hrest⟩ := forall_mem_cons.1 hlines
    rw [foldlM_cons] at hfold
    obtain ⟨s1, hs1, hfold⟩ := bind_eq_some_iff.1 hfold
    obtain ⟨l, data, t, hl, -, hscan, hpart⟩ := h.line s s1 line hs1
    have hnot : ¬ tag <:+: (TagState.mk l data (part s).2 (part s).1).line :=
      fun hin => hline (hin.trans hl.isInfix)
    rw [ scanTag_of_not_infix hnot] at hscan
    cases hscan
    rw [ih hrest hfold, hpart]

/-- **What is read with a tag** depends on the line of its property only. -/
theorem scanned (h : ReadsTag dt_tag n tag entry part Whole) (hentry : ReadsFirst n entry) (hn : 0 < n)
    (htag : IsTag tag)
    (hwhole : ∀ indent eol, (∀ c ∈ indent, c ∈ blanks) → (eol = [] ∨ eol = ['\n']) →
      Whole (propLine indent tag cells eol))
    (hdecl : Declares lines tag cells) (hfold : lines.foldlM (scanLine dt_tag) ScanState.start = some s) :
    part s = ((groupEntries n entry (cells.map Cell.value)).foldl (fun l x => afterHead x l) [], true) := by
  obtain ⟨_, _, indent, eol, rfl, hindent, heol, hnot⟩ := hdecl
  rw [foldlM_append] at hfold
  obtain ⟨s1, hs1, hfold⟩ := bind_eq_some_iff.1 hfold
  rw [foldlM_cons] at hfold
  obtain ⟨s2, hs2, hfold⟩ := bind_eq_some_iff.1 hfold
  have hbefore := h.keep (fun line hline => hnot line (mem_append_left _ hline)) hs1
  have hbehind := h.keep (fun line hline => hnot line (mem_append_right _ hline)) hfold
  obtain ⟨l, data, t, -, hl, hscan, hpart⟩ := h.line s1 s2 _ hs2
  have hline := hl (hwhole indent eol hindent heol)
  obtain ⟨_, ht', hentries, hended⟩ := scanTag_propLine (t := ⟨l, data, (part s1).2, (part s1).1⟩) hentry hn htag
    hindent heol hline
  cases hscan.symm.trans ht'
  rw [hbehind, hpart, hentries, hended]
  dsimp only
  rw [hbefore, h.start]

end Lines

/-! ### The parts -/

theorem readsFirst_pairEntry : ReadsFirst 2 pairEntry := by
  intro d _ h
  rw [pairEntry, pairEntry, h 0 (by decide), h 1 (by decide)]

theorem readsFirst_pmicEntry : ReadsFirst 4 pmicEntry := by
  intro d _ h
  rw [pmicEntry, pmicEntry, h 0 (by decide), h 1 (by decide), h 2 (by decide), h 3 (by decide)]

theorem readsTag_dt (dt_tag : List Char) :
    ReadsTag dt_tag 2 dt_tag pairEntry (fun s => (s.chipId, s.entryEndedDT)) fun _ => True where
  start := rfl
  line s s' line h := by
    obtain ⟨dt, _, _, hdt, -, -, rfl⟩ := scanLine_cases h
    exact ⟨line, s.data_st, dt, prefix_rfl, fun _ => rfl, hdt, rfl⟩

theorem readsTag_board (dt_tag : List Char) :
    ReadsTag dt_tag 2 QCDT_BOARD_TAG pairEntry (fun s => (s.chipSt, s.entryEndedST))
      fun line => ¬ dt_tag <:+: line where
  start := rfl
  line s s' line h := by
    obtain ⟨dt, st, _, hdt, hst, -, rfl⟩ := scanLine_cases h
    refine ⟨dt.line, dt.data, st, scanTag_line hdt, ?_, hst, rfl⟩
    intro hnot
    rw [ scanTag_of_not_infix hnot] at hdt
    cases hdt
    rfl

theorem readsTag_pmic (dt_tag : List Char) :
    ReadsTag dt_tag 4 QCDT_PMIC_TAG pmicEntry (fun s => (s.chipPt, s.entryEndedPT))
      fun line => ¬ dt_tag <:+: line ∧ ¬ QCDT_BOARD_TAG <:+: line where
  start := rfl
  line s s' line h := by
    obtain ⟨_, st, pt, hdt, hst, hpt, rfl⟩ := scanLine_cases h
    refine ⟨st.line, s.data_pt, pt, (scanTag_line hst).trans (scanTag_line hdt), ?_, hpt, rfl⟩
    rintro ⟨hnot, hboard⟩
    rw [ scanTag_of_not_infix hnot] at hdt
    cases hdt
    rw [ scanTag_of_not_infix hboard] at hst
    cases hst
    rfl

/-! ### Lists -/

section Lists

variable {α : Type*} {id : ChipId} {ids ids' : List ChipId} {chip : List (ℕ × InfoNode)}

theorem afterHead_perm (x : α) (l : List α) : (afterHead x l).Perm (x :: l) := by
  rcases l with - | ⟨head, rest⟩
  · exact List.Perm.refl _
  · exact List.Perm.swap x head rest

theorem foldl_afterHead_perm (xs l : List α) : (xs.foldl (fun l x => afterHead x l) l).Perm (xs ++ l) := by
  induction xs generalizing l with
  | nil => exact List.Perm.refl _
  | cons x xs ih => exact ((ih _).trans ((afterHead_perm x l).append_left xs)).trans perm_middle

/-- The list has a node for each identity; its first node is the master of all. -/
structure Extracted (ids : List ChipId) (chip : List (ℕ × InfoNode)) : Prop where
  ids : (chip.map fun x => x.2.id).Perm ids
  numbers : (chip.map Prod.fst).Perm (range chip.length)
  master : ∀ head ∈ chip.head?, ∀ x ∈ chip, x.2.master = head.1
  fresh : ∀ x ∈ chip, x.2.dtb_size = 0 ∧ x.2.dtb_file = none ∧ x.2.wroteDtb = false ∧ x.2.master_offset = 0

theorem Extracted.nil : Extracted [] [] := ⟨List.Perm.nil, List.Perm.nil, nofun,
    nofun⟩

section

variable (h : Extracted ids chip)
include h

theorem Extracted.perm (hperm : ids.Perm ids') : Extracted ids' chip :=
  ⟨h.ids.trans hperm, h.numbers, h.master, h.fresh⟩

theorem Extracted.eq_nil_iff : chip = [] ↔ ids = [] := by
  rw [← length_eq_zero_iff, ← length_eq_zero_iff, ← h.ids.length_eq, length_map]

theorem Extracted.push : Extracted (id :: ids) (pushChip id chip) := by
  have hperm := afterHead_perm (chip.length, InfoNode.mk id 0 none ((chip.head?.map Prod.fst).getD 0) false 0) chip
  refine ⟨(hperm.map fun x : ℕ × InfoNode => x.2.id).trans (h.ids.cons id), ?_, ?_, ?_⟩
  · have hlen : (pushChip id chip).length = chip.length + 1 := hperm.length_eq
    rw [hlen, range_succ]
    exact ((hperm.map Prod.fst).trans (h.numbers.cons _)).trans (perm_append_singleton _ _).symm
  · intro _ hhead x hx
    rcases chip with - | ⟨first, _⟩
    · obtain rfl := some.inj hhead
      obtain rfl := mem_singleton.1 hx
      rfl
    obtain rfl := some.inj hhead
    rcases mem_cons.1 (hperm.mem_iff.1 hx) with rfl | hx
    · rfl
    · exact h.master first rfl x hx
  intro x hx
  rcases mem_cons.1 (hperm.mem_iff.1 hx) with rfl | hx
  · exact ⟨rfl, rfl, rfl, rfl⟩
  · exact h.fresh x hx

theorem Extracted.foldl (new : List ChipId) : Extracted (new ++ ids) (new.foldl (fun l x => pushChip x l) chip) := by
  induction new generalizing ids chip with
  | nil => exact h
  | cons _ _ ih => exact (ih h.push).perm perm_middle

end

/-! ### Combinations -/

variable {v : ℕ} {cId cSt : List (UInt32 × UInt32)} {cPt : List (UInt32 × UInt32 × UInt32 × UInt32)}

def crossIds (ids boards : List (UInt32 × UInt32)) (pmics : List (UInt32 × UInt32 × UInt32 × UInt32)) : List ChipId :=
  ids.flatMap fun id => boards.flatMap fun st => pmics.map (pairedId id st)

/-- The numbers of the power chips that are used. -/
def usedPmics (v : ℕ) (cPt : List (UInt32 × UInt32 × UInt32 × UInt32)) : List (UInt32 × UInt32 × UInt32 × UInt32) :=
  if v = 3 then cPt else [(0, 0, 0, 0)]

theorem walkPt_eq (id st : UInt32 × UInt32) :
    walkPt id st cPt chip = (cPt.map (pairedId id st)).foldl (fun l x => pushChip x l) chip := by
  induction cPt generalizing chip with
  | nil => rfl
  | cons _ _ ih => exact ih

theorem walkSt_eq (id : UInt32 × UInt32) : walkSt v cPt id cSt cPt chip =
    ((cSt.flatMap fun st => (usedPmics v cPt).map (pairedId id st)).foldl (fun l x => pushChip x l) chip, cPt) := by
  induction cSt generalizing chip with
  | nil => rfl
  | cons _ _ ih =>
    rw [walkSt, flatMap_cons, foldl_append]
    by_cases hv : v = 3
    · rw [if_pos hv, ih, walkPt_eq, usedPmics, if_pos hv]
    · rw [if_neg hv, ih, usedPmics, if_neg hv]
      rfl

theorem walkId_eq : walkId v cSt cPt cId cSt cPt chip =
    (crossIds cId cSt (usedPmics v cPt)).foldl (fun l x => pushChip x l) chip := by
  induction cId generalizing chip with
  | nil => rfl
  | cons _ _ ih =>
    rw [walkId, walkSt_eq]
    dsimp only
    rw [ih, crossIds, crossIds, flatMap_cons, foldl_append]

theorem crossIds_perm {cId' cSt' : List (UInt32 × UInt32)} {cPt' : List (UInt32 × UInt32 × UInt32 × UInt32)}
    (hid : cId.Perm cId') (hst : cSt.Perm cSt') (hpt : cPt.Perm cPt') :
    (crossIds cId cSt cPt).Perm (crossIds cId' cSt' cPt') := by
  rw [crossIds, crossIds]
  refine (hid.flatMap_right _).trans (List.Perm.flatMap_left _ fun id _ => ?_)
  exact (hst.flatMap_right _).trans (List.Perm.flatMap_left _ fun st _ => hpt.map _)

theorem crossIds_eq_nil_iff : crossIds cId cSt cPt = [] ↔ cId = [] ∨ cSt = [] ∨ cPt = [] := by
  rw [crossIds, flatMap_eq_nil_iff]
  constructor
  · intro h
    rcases cId with - | ⟨id, _⟩
    · exact .inl rfl
    have hid := flatMap_eq_nil_iff.1 (h id mem_cons_self)
    rcases cSt with - | ⟨st, _⟩
    · exact .inr (.inl rfl)
    exact .inr (.inr (map_eq_nil_iff.1 (hid st mem_cons_self)))
  rintro (rfl | rfl | rfl) _ hid
  · exact nomatch hid
  · rfl
  · exact flatMap_eq_nil_iff.2 fun _ _ => rfl

theorem pairChips_cases (num : ℕ) (s : ScanState) : (pairChips v num s).1 = [] ∨ (pairChips v num s).1 =
    (crossIds s.chipId s.chipSt (usedPmics v s.chipPt)).foldl (fun l x => pushChip x l) [] := by
  rw [pairChips]
  split
  · exact .inl rfl
  split
  · exact .inl rfl
  split
  · exact .inl rfl
  dsimp only
  rw [walkId_eq]
  split_ifs
  · exact .inr rfl
  · exact .inl rfl
  · exact .inr rfl
  · exact .inl rfl

theorem pairChips_extracted {num : ℕ} {s : ScanState} (hv : v = 2 ∨ v = 3) (hdt : s.entryEndedDT)
    (hst : s.entryEndedST) (hpt : v = 3 → s.entryEndedPT) :
    Extracted (crossIds s.chipId s.chipSt (usedPmics v s.chipPt)) (pairChips v num s).1 := by
  have hnil : ∀ h : crossIds s.chipId s.chipSt (usedPmics v s.chipPt) = [],
      Extracted (crossIds s.chipId s.chipSt (usedPmics v s.chipPt)) [] := fun h => h.symm ▸ Extracted.nil
  rw [pairChips]
  split
  · rename_i h
    exact hnil (crossIds_eq_nil_iff.2 (.inl h))
  split
  · rename_i h
    exact hnil (crossIds_eq_nil_iff.2 (.inr (.inl h)))
  split
  · rename_i h
    refine hnil (crossIds_eq_nil_iff.2 (.inr (.inr ?_)))
    rw [usedPmics, if_pos h.2, h.1]
  have hended : s.entryEndedST = true ∧ s.entryEndedDT = true ∧
      (if v = 2 then true else s.entryEndedPT) = true := by
    refine ⟨hst, hdt, ?_⟩
    rcases hv with rfl | rfl
    · rfl
    · exact hpt rfl
  rw [if_pos hended, walkId_eq]
  have h := Extracted.nil.foldl (crossIds s.chipId s.chipSt (usedPmics v s.chipPt))
  rw [append_nil] at h
  exact h

end Lists

/-! ### The result -/

/-- The complete triples of `qcom,msm-id`. -/
def declaredTriples (cells : List Cell) : List ChipId := groupEntries 3 tripleEntry (cells.map Cell.value)

/-- The complete pairs of `qcom,msm-id` or `qcom,board-id`. -/
def declaredPairs (cells : List Cell) : List (UInt32 × UInt32) := groupEntries 2 pairEntry (cells.map Cell.value)

/-- The complete groups of `qcom,pmic-id`. -/
def declaredPmics (cells : List Cell) : List (UInt32 × UInt32 × UInt32 × UInt32) :=
  groupEntries 4 pmicEntry (cells.map Cell.value)

section Result

variable {lines : List (List Char)} {ids boards pmics : List Cell} {s : ScanState}

theorem scanTriples_eq (num : ℕ) (h : Declares lines QCDT_DT_TAG ids) :
    ∃ chip, scanTriples QCDT_DT_TAG num lines = some (chip, chip.length) ∧ Extracted (declaredTriples ids) chip := by
  obtain ⟨before, behind, indent, eol, rfl, hindent, heol, hnot⟩ := h
  have hskip : scanTriples QCDT_DT_TAG num (before ++ propLine indent QCDT_DT_TAG ids eol :: behind) =
      scanTriples QCDT_DT_TAG num (propLine indent QCDT_DT_TAG ids eol :: behind) := by
    have hbefore : ∀ line ∈ before, ¬ QCDT_DT_TAG <:+: line := fun line hline => hnot line (mem_append_left _ hline)
    clear hnot
    induction before with
    | nil => rfl
    | cons _ _ ih =>
      obtain ⟨hline, hrest⟩ := forall_mem_cons.1 hbefore
      rw [cons_append, scanTriples, strstr_eq_none_iff.2 hline]
      exact ih hrest
  let g : GroupState := ⟨spaced (ids.map Cell.text) ++ (['>', ';'] ++ eol), fun _ => 0, false, false⟩
  have hread : readTriples (g.sptr.length + 1) g [] = _ := readTriples_cells (LineTail.end eol heol) rfl rfl []
  rw [hskip, scanTriples, strstr_propLine isTag_dt hindent]
  dsimp only
  refine ⟨_, by rw [hread]; rfl, ?_⟩
  have h := Extracted.nil.foldl (declaredTriples ids)
  rw [append_nil] at h
  exact h

theorem scan_dt (hids : Declares lines QCDT_DT_TAG ids)
    (hfold : lines.foldlM (scanLine QCDT_DT_TAG) ScanState.start = some s) :
    s.chipId.Perm (declaredPairs ids) ∧ s.entryEndedDT = true := by
  have h := scanned (readsTag_dt QCDT_DT_TAG) readsFirst_pairEntry (by decide) isTag_dt (fun _ _ _ _ => trivial) hids
    hfold
  obtain ⟨hentries, hended⟩ := Prod.mk.inj h
  refine ⟨?_, hended⟩
  rw [hentries]
  have hperm := foldl_afterHead_perm (declaredPairs ids) []
  rw [append_nil] at hperm
  exact hperm

theorem scan_board (hboards : Declares lines QCDT_BOARD_TAG boards)
    (hfold : lines.foldlM (scanLine QCDT_DT_TAG) ScanState.start = some s) :
    s.chipSt.Perm (declaredPairs boards) ∧ s.entryEndedST = true := by
  have h := scanned (readsTag_board QCDT_DT_TAG) readsFirst_pairEntry (by decide) isTag_board
    (fun indent eol hindent heol => not_infix_propLine isTag_board isTag_dt (fun _ => rfl) hindent heol) hboards hfold
  obtain ⟨hentries, hended⟩ := Prod.mk.inj h
  refine ⟨?_, hended⟩
  rw [hentries]
  have hperm := foldl_afterHead_perm (declaredPairs boards) []
  rw [append_nil] at hperm
  exact hperm

theorem scan_pmic (hpmics : Declares lines QCDT_PMIC_TAG pmics)
    (hfold : lines.foldlM (scanLine QCDT_DT_TAG) ScanState.start = some s) :
    s.chipPt.Perm (declaredPmics pmics) ∧ s.entryEndedPT = true := by
  have h := scanned (readsTag_pmic QCDT_DT_TAG) readsFirst_pmicEntry (by decide) isTag_pmic
    (fun indent eol hindent heol => ⟨not_infix_propLine isTag_pmic isTag_dt (fun _ => rfl) hindent heol,
      not_infix_propLine isTag_pmic isTag_board (fun _ => rfl) hindent heol⟩) hpmics hfold
  obtain ⟨hentries, hended⟩ := Prod.mk.inj h
  refine ⟨?_, hended⟩
  rw [hentries]
  have hperm := foldl_afterHead_perm (declaredPmics pmics) []
  rw [append_nil] at hperm
  exact hperm

/-- **What is declared is found**: in version 1 the complete triples, in the other versions all combinations of the
complete groups, each once; groups that are not complete give nothing.  The result is `NULL` when there is nothing. -/
theorem get_chip_info_exact (num : ℕ) (hids : Declares lines QCDT_DT_TAG ids) :
    (∃ chip n, getChipInfo QCDT_DT_TAG 1 num (some lines) = some (chip, n) ∧ Extracted (declaredTriples ids) chip ∧
      (chip = [] ↔ declaredTriples ids = [])) ∧
    (Declares lines QCDT_BOARD_TAG boards → (∃ chip n, getChipInfo QCDT_DT_TAG 2 num (some lines) = some (chip, n) ∧
        Extracted (crossIds (declaredPairs ids) (declaredPairs boards) [(0, 0, 0, 0)]) chip ∧
        (chip = [] ↔ declaredPairs ids = [] ∨ declaredPairs boards = [])) ∧
      (Declares lines QCDT_PMIC_TAG pmics → ∃ chip n, getChipInfo QCDT_DT_TAG 3 num (some lines) = some (chip, n) ∧
          Extracted (crossIds (declaredPairs ids) (declaredPairs boards) (declaredPmics pmics)) chip ∧
          (chip = [] ↔ declaredPairs ids = [] ∨ declaredPairs boards = [] ∨ declaredPmics pmics = []))) := by
  constructor
  · obtain ⟨chip, hchip, hext⟩ := scanTriples_eq num hids
    exact ⟨chip, chip.length, hchip, hext, hext.eq_nil_iff⟩
  intro hboards
  have hfold : lines.foldlM (scanLine QCDT_DT_TAG) ScanState.start ≠ none := foldlM_scanLine_ne_none
  obtain ⟨s, hs⟩ := ne_none_iff_exists'.1 hfold
  obtain ⟨hdt, hdt'⟩ := scan_dt hids hs
  obtain ⟨hst, hst'⟩ := scan_board hboards hs
  constructor
  · have hext := @pairChips_extracted 2 num s (.inl rfl) hdt' hst' nofun
    have hext := hext.perm (crossIds_perm hdt hst (List.Perm.refl _))
    refine ⟨_, (pairChips 2 num s).2, ?_, hext, ?_⟩
    · show (lines.foldlM (scanLine QCDT_DT_TAG) ScanState.start).map (pairChips 2 num) = _
      rw [hs]
      rfl
    · rw [hext.eq_nil_iff, crossIds_eq_nil_iff]
      exact or_congr_right (or_iff_left (cons_ne_nil _ _))
  intro hpmics
  obtain ⟨hpt, hpt'⟩ := scan_pmic hpmics hs
  have hext := @pairChips_extracted 3 num s (.inr rfl) hdt' hst' fun _ => hpt'
  have hext := hext.perm (crossIds_perm hdt hst hpt)
  refine ⟨_, (pairChips 3 num s).2, ?_, hext, ?_⟩
  · show (lines.foldlM (scanLine QCDT_DT_TAG) ScanState.start).map (pairChips 3 num) = _
    rw [hs]
    rfl
  · rw [hext.eq_nil_iff, crossIds_eq_nil_iff]

end Result

def digitCell (d : Char) (h : (hexVal d).isSome = true) : Cell where
  digits := [d]
  nonempty := cons_ne_nil _ _
  hex c hc := by
    obtain rfl := List.mem_singleton.1 hc
    exact h
  fits := lt_trans (hexNum_lt [d]) (show 16 ^ 1 < 2 ^ 32 by decide)

/-- What `dtc` prints for a board; the last numbers are left over. -/
def boardLines : List (List Char) :=
  [propLine ['\t'] QCDT_DT_TAG [digitCell '7' rfl, digitCell '1' rfl, digitCell '2' rfl] ['\n'],
    propLine ['\t'] QCDT_BOARD_TAG [digitCell '8' rfl, digitCell '0' rfl] ['\n'],
    propLine ['\t'] QCDT_PMIC_TAG [digitCell '9' rfl, digitCell 'a' rfl, digitCell '0' rfl, digitCell '0' rfl,
      digitCell '4' rfl] ['\n']]

theorem get_chip_info_exact_board : (∃ chip n, getChipInfo QCDT_DT_TAG 1 1 (some boardLines) = some (chip, n) ∧
      Extracted [⟨7, 1, 0, 2, (0, 0, 0, 0)⟩] chip) ∧
    (∃ chip n, getChipInfo QCDT_DT_TAG 2 1 (some boardLines) = some (chip, n) ∧
      Extracted [⟨7, 8, 0, 1, (0, 0, 0, 0)⟩] chip) ∧
    ∃ chip n, getChipInfo QCDT_DT_TAG 3 1 (some boardLines) = some (chip, n) ∧
      Extracted [⟨7, 8, 0, 1, (9, 10, 0, 0)⟩] chip := by
  have hblank : ∀ c ∈ ['\t'], c ∈ blanks := by
    intro c hc
    obtain rfl := mem_singleton.1 hc
    decide
  have hdt : Declares boardLines QCDT_DT_TAG [digitCell '7' rfl, digitCell '1' rfl, digitCell '2' rfl] := by
    refine ⟨[], _, ['\t'], ['\n'], rfl, hblank, Or.inr rfl, ?_⟩
    intro line hline
    rcases mem_cons.1 hline with rfl | hline
    · exact not_infix_propLine isTag_board isTag_dt (fun _ => rfl) hblank (.inr rfl)
    · obtain rfl := mem_singleton.1 hline
      exact not_infix_propLine isTag_pmic isTag_dt (fun _ => rfl) hblank (.inr rfl)
  have hboard : Declares boardLines QCDT_BOARD_TAG [digitCell '8' rfl, digitCell '0' rfl] := by
    refine ⟨[_], [_], ['\t'], ['\n'], rfl, hblank, Or.inr rfl, ?_⟩
    intro line hline
    rcases mem_cons.1 hline with rfl | hline
    · exact not_infix_propLine isTag_dt isTag_board (fun _ => rfl) hblank (.inr rfl)
    · obtain rfl := mem_singleton.1 hline
      exact not_infix_propLine isTag_pmic isTag_board (fun _ => rfl) hblank (.inr rfl)
  have hpmic : Declares boardLines QCDT_PMIC_TAG [digitCell '9' rfl, digitCell 'a' rfl, digitCell '0' rfl,
      digitCell '0' rfl, digitCell '4' rfl] := by
    refine ⟨[_, _], [], ['\t'], ['\n'], rfl, hblank, Or.inr rfl, ?_⟩
    intro _ hline
    rcases mem_cons.1 hline with rfl | hline
    · exact not_infix_propLine isTag_dt isTag_pmic (fun _ => rfl) hblank (.inr rfl)
    · obtain rfl := mem_singleton.1 hline
      exact not_infix_propLine isTag_board isTag_pmic (fun _ => rfl) hblank (.inr rfl)
  obtain ⟨⟨chip1, n1, h1, hext1, -⟩, hother⟩ := get_chip_info_exact 1 hdt
  obtain ⟨⟨chip2, n2, h2, hext2, -⟩, hthree⟩ := hother hboard
  obtain ⟨chip3, n3, h3, hext3, -⟩ := hthree hpmic
  exact ⟨⟨chip1, n1, h1, hext1⟩, ⟨chip2, n2, h2, hext2⟩, chip3, n3, h3, hext3⟩

end G4Common.Dtbtool
