/-
Writing sets the line of the parameter.

The loop copies the lines up to the first one of the parameter and puts the new line in its place; where there is none, the
new line comes behind the lines that the loop has gone through (`writeLoop_region`).  In an ini file these end before the
`END` line.  What is appended is a line of its own, and what the loop takes for the `END` line is one, when the file is as
`CanWrite` says; then the entry of the parameter is set and all else stays (`qsap_write_cfg_eq`).
-/
import G4Common.SoftAp.CfgLoops

namespace G4Common.SoftAp

open CString AssocList List Bool Option

variable {file name v l : List Char} {pcmd : Command} {inifile result : Bool} {R R' S S' : List (List Char)}
variable {ls rest : List (List Char)} {buf last : List Char}

/-- The value can be written. -/
structure Fits (name v : List Char) : Prop where
  cr : '\r' ∉ v
  lf : '\n' ∉ v
  short : (name ++ '=' :: v).length < MAX_CONF_LINE_LEN - 1

/-- The loop stops at the line. -/
def startsWithEnd (l : List Char) : Bool := strncmpEq (pline l) "END".toList

def lastLine (file : List Char) : List Char := (fileLines file).getLastD []

/-- Where the text that the function appends starts a line, and no other line is taken for the `END` line. -/
def CanWrite (file name : List Char) (inifile : Bool) : Prop :=
  if inifile then
    match (fileLines file).find? startsWithEnd with
    | some l => isEndLine l = true
    | none =>
      lastLine file = [] ∨
        (isLineOf name (pline (lastLine file)) = true ∧ ∀ l ∈ (fileLines file).dropLast, isLineOf name (pline l) = false)
  else lastLine file = [] ∨ ∃ l ∈ fileLines file, isLineOf name (pline l) = true

/-! ### The new line -/

theorem newLine_eq (h : Fits pcmd.name v) : newLine pcmd v = (pcmd.name ++ '=' :: v) ++ ['\n'] := by
  have hshort := h.short
  have hmax : MAX_CONF_LINE_LEN = 156 := rfl
  apply take_of_length_le
  rw [length_append, length_singleton]
  omega

theorem strncmpEq_end_append (n r : List Char) : strncmpEq (n ++ '=' :: r) "END".toList = strncmpEq n "END".toList := by
  rcases n with _ | ⟨a, _ | ⟨b, _ | ⟨c, n⟩⟩⟩ <;> simp [strncmpEq, isPrefixOf]

theorem pline_newLine (hname : IsName name) (v : List Char) : pline (name ++ '=' :: v) = name ++ '=' :: v := by
  apply pline_of_head
  rw [head?_append_of_ne_nil _ hname.1]
  exact hname.2.1

theorem entry_newLine (hname : IsName name) (h : Fits name v) : entry (name ++ '=' :: v) = some (name, v, true) := by
  have hhead : (name ++ '=' :: v).head? ≠ some '#' := by
    rw [head?_append_of_ne_nil _ hname.1]
    exact hname.2.1
  rw [entry_eq hname.2.2.1 (pline_newLine hname v), trimEnd_of_notMem h.cr h.lf, decide_eq_true hhead]

theorem notMem_newLine (hname : IsName name) (h : Fits name v) : '\n' ∉ name ++ '=' :: v := by
  rw [mem_append, mem_cons]
  rintro (hn | hn | hn)
  · exact hname.2.2.2.1 hn
  · exact nomatch hn
  · exact h.lf hn

theorem startsWithEnd_newLine (hname : IsName name) (v : List Char) : startsWithEnd (name ++ '=' :: v) = false := by
  rw [startsWithEnd, pline_newLine hname, strncmpEq_end_append]
  exact hname.2.2.2.2.2.1

theorem startsWithEnd_append_newline (l : List Char) : startsWithEnd (l ++ ['\n']) = startsWithEnd l := by
  rw [startsWithEnd, startsWithEnd, pline_append_newline]
  generalize pline l = p
  rcases p with _ | ⟨a, _ | ⟨b, _ | ⟨c, p⟩⟩⟩ <;> simp [strncmpEq, isPrefixOf]

theorem prefix_of_isEndLine (h : isEndLine l) : "END".toList <+: l :=
  of_decide_eq_true h ▸ rdropWhile_prefix _ l

theorem head_of_isEndLine (h : isEndLine l) : l.head? ≠ some '#' := by
  obtain ⟨t, ht⟩ := prefix_of_isEndLine h
  rw [← ht]
  simp

theorem startsWithEnd_of_isEndLine (h : isEndLine l) : startsWithEnd l = true := by
  rw [startsWithEnd, pline_of_head (head_of_isEndLine h), strncmpEq, isPrefixOf_iff_prefix]
  exact prefix_of_isEndLine h

/-! ### The steps of the loop -/

theorem pline_eq_ite (l : List Char) : pline l = if l.head? = some '#' then l.tail else l := by
  cases l with
  | nil => rfl
  | cons c l =>
    by_cases hc : c = '#'
    · subst hc
      rfl
    · have hh : (c :: l).head? ≠ some '#' := fun hh => hc (some.inj hh)
      rw [pline_of_head hh, if_neg hh]

theorem writeLoop_pass
    (hfound : (isLineOf pcmd.name (pline buf) && !result) = false) (hstop : (inifile && startsWithEnd buf) = false) :
    writeLoop pcmd v inifile result (buf :: rest)
      = (buf ++ (writeLoop pcmd v inifile result rest).1, (writeLoop pcmd v inifile result rest).2) := by
  rw [startsWithEnd, pline_eq_ite] at hstop
  simp only [writeLoop, hfound, Bool.false_eq_true, if_false, Bool.or_false, hstop]

theorem writeLoop_stop (hfound : (isLineOf pcmd.name (pline buf) && !result) = false) (hstop : startsWithEnd buf) :
    writeLoop pcmd v true result (buf :: rest) = ([], result, rest) := by
  rw [startsWithEnd, pline_eq_ite] at hstop
  simp only [writeLoop, hfound, Bool.false_eq_true, if_false, Bool.or_false, hstop, Bool.true_and, if_true]

theorem writeLoop_hit (hname : IsName pcmd.name) (hfits : Fits pcmd.name v) (hline : isLineOf pcmd.name (pline buf)) :
    writeLoop pcmd v inifile false (buf :: rest)
      = (newLine pcmd v ++ (writeLoop pcmd v inifile true rest).1, (writeLoop pcmd v inifile true rest).2) := by
  have hnew : newLine pcmd v = pcmd.name ++ '=' :: (v ++ ['\n']) := by
    rw [newLine_eq hfits, append_assoc, cons_append]
  -- Neither the new line nor its text from the second character on is taken for the `END` line.
  have hstop : strncmpEq (if buf.head? = some '#' then (newLine pcmd v).tail else newLine pcmd v) "END".toList = false := by
    rw [hnew]
    split
    · obtain ⟨c, n, hn⟩ := exists_cons_of_ne_nil hname.1
      have htail : (pcmd.name ++ '=' :: (v ++ ['\n'])).tail = pcmd.name.tail ++ '=' :: (v ++ ['\n']) := by rw [hn]; rfl
      rw [htail, strncmpEq_end_append]
      exact hname.2.2.2.2.2.2
    · rw [strncmpEq_end_append]
      exact hname.2.2.2.2.2.1
  simp only [writeLoop, hline, Bool.not_false, Bool.and_true, if_true, Bool.or_true, hstop, Bool.and_false,
    false_eq_true, if_false]

/-! ### Writing to a file without an `END` line -/

theorem writeLoop_copy (pcmd : Command) (v : List Char) (bufs : List (List Char)) :
    writeLoop pcmd v false true bufs = (bufs.flatten, true, []) := by
  induction bufs with
  | nil => rfl
  | cons _ _ ih =>
    rw [writeLoop_pass (and_false _) (false_and _), ih]
    rfl

theorem writeLoop_first (pcmd : Command) {A B : List (List Char)} {b : List Char} (v : List Char)
    (hA : ∀ m ∈ A, isLineOf pcmd.name (pline m) = false) (hb : isLineOf pcmd.name (pline b)) :
    writeLoop pcmd v false false (A ++ b :: B) = (A.flatten ++ (newLine pcmd v ++ B.flatten), true, []) := by
  induction A with
  | nil => simp [writeLoop, hb, writeLoop_copy]
  | cons m _ ih =>
    rw [cons_append, writeLoop_pass (by rw [hA m mem_cons_self]; rfl) (false_and _),
      ih fun m' hm => hA m' (mem_cons_of_mem _ hm), flatten_cons, append_assoc]

theorem writeLoop_none (pcmd : Command) {bufs : List (List Char)} (v : List Char)
    (h : ∀ m ∈ bufs, isLineOf pcmd.name (pline m) = false) :
    writeLoop pcmd v false false bufs = (bufs.flatten, false, []) := by
  induction bufs with
  | nil => rfl
  | cons m _ ih =>
    rw [writeLoop_pass (by rw [h m mem_cons_self]; rfl) (false_and _),
      ih fun m' hm => h m' (mem_cons_of_mem _ hm)]
    rfl

/-! ### The loop on lines -/

theorem writeLoop_line_pass (hname : '=' ∉ pcmd.name) (hfound : (isLineOf pcmd.name (pline l) && !result) = false)
    (hstop : (inifile && startsWithEnd l) = false) (rest : List (List Char)) :
    writeLoop pcmd v inifile result (lineBufs MAX_CONF_LINE_LEN l ++ rest)
      = (l ++ '\n' :: (writeLoop pcmd v inifile result rest).1, (writeLoop pcmd v inifile result rest).2) := by
  rw [lineBufs]
  split
  · rw [singleton_append, writeLoop_pass]
    · rw [append_assoc, singleton_append]
    · rw [isLineOf_append_newline hname, hfound]
    · rw [startsWithEnd_append_newline, hstop]
  have hline : isLineOf pcmd.name (pline ['\n']) = false := isLineOf_newline hname
  have hend : startsWithEnd ['\n'] = false := by decide
  rw [cons_append, singleton_append, writeLoop_pass hfound hstop, writeLoop_pass]
  · rfl
  · rw [hline]
    rfl
  · rw [hend, Bool.and_false]

theorem writeLoop_lines_pass (hname : '=' ∉ pcmd.name) (hfound : ∀ l ∈ R, (isLineOf pcmd.name (pline l) && !result) = false)
    (hstop : ∀ l ∈ R, (inifile && startsWithEnd l) = false) (rest : List (List Char)) :
    writeLoop pcmd v inifile result (R.flatMap (lineBufs MAX_CONF_LINE_LEN) ++ rest)
      = (unlines R ++ (writeLoop pcmd v inifile result rest).1, (writeLoop pcmd v inifile result rest).2) := by
  induction R with
  | nil => rfl
  | cons l _ ih =>
    rw [flatMap_cons, append_assoc, writeLoop_line_pass hname (hfound l mem_cons_self) (hstop l mem_cons_self),
      ih (fun m hm => hfound m (mem_cons_of_mem _ hm)) (fun m hm => hstop m (mem_cons_of_mem _ hm)),
      unlines_cons, append_assoc]
    rfl

theorem writeLoop_line_hit (hname : IsName pcmd.name) (hfits : Fits pcmd.name v)
    (hline : isLineOf pcmd.name (pline l)) :
    ∃ C : List (List Char), (∀ m ∈ C, m = []) ∧ ∀ rest, writeLoop pcmd v inifile false (lineBufs MAX_CONF_LINE_LEN l ++ rest)
      = (unlines ((pcmd.name ++ '=' :: v) :: C) ++ (writeLoop pcmd v inifile true rest).1,
          (writeLoop pcmd v inifile true rest).2) := by
  by_cases hlen : l.length + 1 < MAX_CONF_LINE_LEN
  · refine ⟨[], nofun, fun rest => ?_⟩
    rw [lineBufs, if_pos hlen, singleton_append, writeLoop_hit hname hfits, newLine_eq hfits]
    · rw [unlines_cons, unlines_nil]
    · rw [isLineOf_append_newline hname.2.2.1, hline]
  refine ⟨[[]], fun m hm => mem_singleton.mp hm, fun rest => ?_⟩
  have hend : startsWithEnd ['\n'] = false := by decide
  rw [lineBufs, if_neg hlen, cons_append, singleton_append, writeLoop_hit hname hfits hline, writeLoop_pass,
    newLine_eq hfits]
  · simp
  · exact and_false _
  · rw [hend, Bool.and_false]

/-! ### Setting a line -/

/-- The lines `R'` are the lines `R` with the line of the parameter set. -/
def SetLine (name v : List Char) (R R' : List (List Char)) : Prop :=
  ∃ A D B B', R = A ++ D ++ B ∧ R' = A ++ (name ++ '=' :: v) :: B' ∧ (∀ l ∈ A, isLineOf name (pline l) = false)
    ∧ (∀ l ∈ D, isLineOf name (pline l) = true) ∧ entries B' = entries B

theorem SetLine.append (h : SetLine name v R R') (hS : entries S' = entries S) : SetLine name v (R ++ S) (R' ++ S') := by
  obtain ⟨A, D, B, B', rfl, rfl, hA, hD, hB⟩ := h
  refine ⟨A, D, B ++ S, B' ++ S', ?_, ?_, hA, hD, ?_⟩
  · rw [append_assoc]
  · rw [append_assoc, cons_append]
  · rw [entries_append, entries_append, hB, hS]

theorem setLine_concat (h : ∀ l ∈ R, isLineOf name (pline l) = false) : SetLine name v R (R ++ [name ++ '=' :: v]) :=
  ⟨R, [], [], [], by simp, rfl, h, nofun, rfl⟩

theorem SetLine.toMap_eq (hname : IsName name) (hfits : Fits name v) (h : SetLine name v R R') :
    toMap (entries R') = Function.update (toMap (entries R)) name (some (v, true))
      ∧ ∀ n, FirstHas Prod.snd n (entries R) → FirstHas Prod.snd n (entries R') := by
  obtain ⟨A, D, B, B', rfl, rfl, hA, hD, hB⟩ := h
  have heq : '=' ∉ name := hname.2.2.1
  have hAe := entries_ne heq hA
  have hDe : ∀ e ∈ entries D, e.1 = name := by
    intro e he
    obtain ⟨l, hl, hle⟩ := mem_filterMap.mp he
    obtain ⟨_, he', hk⟩ := (isLineOf_iff_entry heq).mp (hD l hl)
    rw [hle, some.injEq] at he'
    rw [he', hk]
  have hL' : entries (A ++ (name ++ '=' :: v) :: B') = entries A ++ (name, v, true) :: entries B := by
    rw [entries_append, entries_cons_of_some (entry_newLine hname hfits), hB]
  rw [hL', entries_append, entries_append]
  refine ⟨toMap_set hAe hDe, fun n hn => ?_⟩
  by_cases hk : n = name
  · subst hk
    exact FirstHas.set_self hAe rfl
  · exact hn.set_of_ne hk hAe hDe

theorem writeLoop_region (hname : IsName pcmd.name) (hfits : Fits pcmd.name v)
    (hstop : ∀ l ∈ R, (inifile && startsWithEnd l) = false) :
    ∃ res R', (∀ rest, writeLoop pcmd v inifile false (R.flatMap (lineBufs MAX_CONF_LINE_LEN) ++ rest)
        = (unlines R' ++ (writeLoop pcmd v inifile res rest).1, (writeLoop pcmd v inifile res rest).2))
      ∧ (∀ l ∈ R', l ∈ R ∨ l = pcmd.name ++ '=' :: v ∨ l = [])
      ∧ (res ∧ SetLine pcmd.name v R R' ∧ (∃ l ∈ R, isLineOf pcmd.name (pline l))
        ∨ res = false ∧ R' = R ∧ ∀ l ∈ R, isLineOf pcmd.name (pline l) = false) := by
  have heq : '=' ∉ pcmd.name := hname.2.2.1
  obtain hnone | ⟨l, hl⟩ := eq_none_or_eq_some (R.find? (fun l => isLineOf pcmd.name (pline l)))
  · -- No line of the parameter.
    have hR : ∀ l ∈ R, isLineOf pcmd.name (pline l) = false :=
      fun l hl => eq_false_iff.mpr (find?_eq_none.mp hnone l hl)
    refine ⟨false, R, fun rest => ?_, fun l hl => .inl hl, .inr ⟨rfl, rfl, hR⟩⟩
    apply writeLoop_lines_pass heq _ hstop
    intro l hl
    rw [hR l hl]
    rfl
  obtain ⟨hline, A, B, rfl, hA⟩ := find?_eq_some_iff_append.mp hl
  have hA' : ∀ m ∈ A, isLineOf pcmd.name (pline m) = false := fun m hm => by simpa using hA m hm
  obtain ⟨C, hC, hhit⟩ := writeLoop_line_hit hname hfits hline
  have hCe : entries C = [] := by
    apply filterMap_eq_nil_iff.mpr
    intro m hm
    rw [hC m hm]
    rfl
  refine ⟨true, A ++ (pcmd.name ++ '=' :: v) :: (C ++ B), fun rest => ?_, ?_, .inl ⟨rfl, ?_, ?_⟩⟩
  · have hpassA : ∀ m ∈ A, (isLineOf pcmd.name (pline m) && !false) = false := by
      intro m hm
      rw [hA' m hm]
      rfl
    rw [flatMap_append, flatMap_cons, append_assoc, append_assoc,
      writeLoop_lines_pass heq hpassA (fun m hm => hstop m (mem_append_left _ hm)), hhit,
      writeLoop_lines_pass heq (fun m _ => and_false _)
        (fun m hm => hstop m (mem_append_right _ (mem_cons_of_mem _ hm)))]
    simp
  · intro m hm
    rcases mem_append.mp hm with hm | hm
    · exact .inl (mem_append_left _ hm)
    rcases mem_cons.mp hm with hm | hm
    · exact .inr (.inl hm)
    · rcases mem_append.mp hm with hm | hm
      · exact .inr (.inr (hC m hm))
      · exact .inl (mem_append_right _ (mem_cons_of_mem _ hm))
  · refine ⟨A, [l], B, C ++ B, by simp, rfl, hA', ?_, ?_⟩
    · intro m hm
      rw [mem_singleton.mp hm]
      exact hline
    · rw [entries_append, hCe, nil_append]
  · exact ⟨l, by simp, hline⟩

/-! ### The end of the loop -/

/-- The lines after writing: in the map the entry is set, the lines are short, and the text behind `END` is as before. -/
structure Written (file name v : List Char) (inifile : Bool) (ls : List (List Char)) (last : List Char) : Prop where
  set : SetLine name v (fileLines file) (ls ++ [last])
  lines : ∀ l ∈ ls ++ [last], l ∈ fileLines file ∨ l = name ++ '=' :: v ∨ l = [] ∨ l = "END".toList
  afterEnd : inifile = true → afterEnd (unlines ls ++ last) = afterEnd file

theorem entry_end : entry "END".toList = none := entry_eq_none (by decide)

theorem isEndLine_eq_false (h : startsWithEnd l = false) : isEndLine l = false := by
  apply eq_false_iff.mpr
  intro hend
  rw [startsWithEnd_of_isEndLine hend] at h
  cases h

theorem isEndLine_region (hname : IsName name) (hR : ∀ l ∈ R, startsWithEnd l = false)
    (hlines : ∀ l ∈ R', l ∈ R ∨ l = name ++ '=' :: v ∨ l = []) : ∀ l ∈ R', isEndLine l = false := by
  intro l hl
  apply isEndLine_eq_false
  rcases hlines l hl with hl | rfl | rfl
  · exact hR l hl
  · exact startsWithEnd_newLine hname v
  · rfl

theorem entry_of_isEndLine (h : isEndLine l) : entry l = none := by
  obtain hnone | ⟨e, he⟩ := eq_none_or_eq_some (entry l)
  · exact hnone
  exfalso
  obtain ⟨r, -, hpl, -⟩ := exists_of_entry he
  have htrim : trimEnd l = "END".toList := of_decide_eq_true h
  have hmem : '=' ∈ trimEnd l := by
    obtain ⟨s, hs⟩ : ∃ s, l = s ++ '=' :: r := by
      rw [pline.eq_def] at hpl
      split at hpl
      · exact ⟨'#' :: e.1, by rw [hpl]; rfl⟩
      · exact ⟨e.1, hpl⟩
    rw [hs, trimEnd_append_cons (by decide)]
    exact mem_append_right _ mem_cons_self
  rw [htrim] at hmem
  revert hmem
  decide

theorem isLineOf_of_startsWithEnd (hname : IsName name) (h : startsWithEnd l) : isLineOf name (pline l) = false := by
  apply eq_false_iff.mpr
  intro hline
  obtain ⟨r, hr⟩ := isLineOf_iff.mp hline
  rw [startsWithEnd, hr, strncmpEq_end_append, hname.2.2.2.2.2.1] at h
  cases h

theorem writeLoop_region_set (hname : IsName pcmd.name) (hfits : Fits pcmd.name v)
    (hstop : ∀ l ∈ R, (inifile && startsWithEnd l) = false) :
    ∃ res R' R'', (∀ rest, writeLoop pcmd v inifile false (R.flatMap (lineBufs MAX_CONF_LINE_LEN) ++ rest)
        = (unlines R' ++ (writeLoop pcmd v inifile res rest).1, (writeLoop pcmd v inifile res rest).2))
      ∧ unlines R' ++ (if res then [] else newLine pcmd v) = unlines R'' ∧ SetLine pcmd.name v R R''
      ∧ ∀ l ∈ R'', l ∈ R ∨ l = pcmd.name ++ '=' :: v ∨ l = [] := by
  obtain ⟨_, R', hW, hlines, hcase⟩ := writeLoop_region hname hfits hstop
  rcases hcase with ⟨rfl, hset, -⟩ | ⟨rfl, rfl, hR⟩
  · exact ⟨true, R', R', hW, by rw [if_pos rfl, append_nil], hset, hlines⟩
  refine ⟨false, R', R' ++ [pcmd.name ++ '=' :: v], hW, ?_, setLine_concat hR, ?_⟩
  · rw [if_neg Bool.noConfusion, newLine_eq hfits, unlines_append, unlines_cons, unlines_nil]
  intro l hl
  rcases mem_append.mp hl with hl | hl
  · exact .inl hl
  · exact .inr (.inl (mem_singleton.mp hl))

theorem ne_nil_of_isLineOf (h : isLineOf name (pline l) = true) : l ≠ [] := by
  rintro rfl
  rw [show pline [] = [] from rfl, isLineOf_nil] at h
  cases h

/-- The line of the parameter is the last one. -/
theorem writeLoop_hit_last (hname : IsName pcmd.name) (hfits : Fits pcmd.name v) (h : isLineOf pcmd.name (pline l) = true) :
    writeLoop pcmd v inifile false [l] = (newLine pcmd v, true, []) := by
  rw [writeLoop_hit hname hfits h]
  show (newLine pcmd v ++ [], true, []) = (newLine pcmd v, true, [])
  rw [append_nil]

theorem bufs_eq (h : Inv file) (hfile : file = unlines ls ++ last)
    (hlines : fileLines file = ls ++ [last]) (hls : ∀ l ∈ ls, '\n' ∉ l) (hlast : '\n' ∉ last) :
    fgetsBufs MAX_CONF_LINE_LEN [] file
      = ls.flatMap (lineBufs MAX_CONF_LINE_LEN) ++ (if last = [] then [] else [last]) := by
  have hlen := h.length_lt
  rw [hlines] at hlen
  rw [hfile]
  exact fgetsBufs_unlines (by decide) (fun l hl => ⟨hls l hl, hlen l (mem_append_left _ hl)⟩) hlast
    (hlen last (by simp))

theorem flatten_bufs (ls : List (List Char)) (last : List Char) :
    (ls.flatMap (lineBufs MAX_CONF_LINE_LEN) ++ (if last = [] then [] else [last])).flatten = unlines ls ++ last := by
  rw [flatten_append]
  congr 1
  · induction ls with
    | nil => rfl
    | cons _ _ ih =>
      rw [flatMap_cons, flatten_append, flatten_lineBufs, ih, unlines_cons, append_assoc]
      rfl
  split_ifs with h
  · rw [h]
    rfl
  · exact append_nil _

/-! ### The two modes -/

theorem written_hostapd (h : Inv file) (hname : IsName pcmd.name) (hfits : Fits pcmd.name v)
    (hcan : CanWrite file pcmd.name false) :
    ∃ ls last, qsap_write_cfg file pcmd v false = unlines ls ++ last ∧ Written file pcmd.name v false ls last := by
  obtain ⟨ls, last, hfile, hlines, hls, hlast⟩ := exists_fileLines file
  have hbufs := bufs_eq h hfile hlines hls hlast
  have hmem : ∀ l ∈ ls, l ∈ fileLines file := fun l hl => hlines ▸ mem_append_left _ hl
  have hstop : ∀ l ∈ ls, (false && startsWithEnd l) = false := fun _ _ => false_and _
  obtain ⟨_, R', hW, hlinesR, hcase⟩ := writeLoop_region hname hfits hstop
  rcases hcase with ⟨rfl, hset, -⟩ | ⟨rfl, rfl, hR⟩
  · -- The line is in front of the last one.
    have hrest : writeLoop pcmd v false true (if last = [] then [] else [last]) = (last, true, []) := by
      split_ifs with hnil
      · rw [hnil]
        rfl
      · rw [writeLoop_pass (and_false _) (false_and _)]
        show (last ++ [], true, []) = (last, true, [])
        rw [append_nil]
    refine ⟨R', last, ?_, ?_, ?_, fun hini => Bool.noConfusion hini⟩
    · simp only [qsap_write_cfg, hbufs, hW, hrest, if_true, false_eq_true, if_false, append_nil]
    · rw [hlines]
      exact hset.append rfl
    intro l hl
    rcases mem_append.mp hl with hl | hl
    · rcases hlinesR l hl with hl | hl | hl
      · exact .inl (hmem l hl)
      · exact .inr (.inl hl)
      · exact .inr (.inr (.inl hl))
    · exact .inl (hlines ▸ mem_append_right _ hl)
  have hset : SetLine pcmd.name v (R' ++ [last]) (R' ++ [pcmd.name ++ '=' :: v] ++ [[]])
      ∧ qsap_write_cfg file pcmd v false = unlines (R' ++ [pcmd.name ++ '=' :: v]) ++ [] := by
    by_cases hline : isLineOf pcmd.name (pline last) = true
    · -- It is the last line.
      constructor
      · refine ⟨R', [last], [], [[]], by simp, by simp, hR, ?_, rfl⟩
        intro l hl
        rw [mem_singleton.mp hl]
        exact hline
      · simp only [qsap_write_cfg, hbufs, hW, if_neg (ne_nil_of_isLineOf hline), writeLoop_hit_last hname hfits hline,
          if_true, false_eq_true, if_false, append_nil, newLine_eq hfits, unlines_append, unlines_cons, unlines_nil]
    -- There is none: the new line is appended.
    have hnil : last = [] := by
      rw [CanWrite, if_neg Bool.noConfusion, lastLine, hlines, getLastD_concat] at hcan
      apply hcan.resolve_right
      rintro ⟨l, hl, hll⟩
      rcases mem_append.mp hl with hl | hl
      · rw [hR l hl] at hll
        cases hll
      · rw [mem_singleton.mp hl] at hll
        exact hline hll
    subst hnil
    have hrest := hW []
    rw [append_nil, show writeLoop pcmd v false false [] = ([], false, []) from rfl, append_nil] at hrest
    constructor
    · exact (setLine_concat hR).append rfl
    · simp only [qsap_write_cfg, hbufs, if_true, hrest, false_eq_true, if_false, append_nil,
        newLine_eq hfits, unlines_append, unlines_cons, unlines_nil]
  refine ⟨R' ++ [pcmd.name ++ '=' :: v], [], hset.2, ?_, ?_, fun hini => Bool.noConfusion hini⟩
  · rw [hlines]
    exact hset.1
  intro l hl
  rcases mem_append.mp hl with hl | hl
  · rcases mem_append.mp hl with hl | hl
    · exact .inl (hmem l hl)
    · exact .inr (.inl (mem_singleton.mp hl))
  · exact .inr (.inr (.inl (mem_singleton.mp hl)))

theorem afterEnd_last (hls : ∀ l ∈ ls, '\n' ∉ l) (hlast : '\n' ∉ last)
    (h : ∀ l ∈ ls, isEndLine l = false) : afterEnd (unlines ls ++ last) = [] := by
  rw [afterEnd, fileLines_unlines hls hlast, dropWhile_append_of_pos]
  · rw [dropWhile_cons]
    split <;> rfl
  · intro l hl
    rw [h l hl]
    rfl

theorem notMem_end : '\n' ∉ "END".toList := by
  decide

theorem isEndLine_end : isEndLine "END".toList = true := by
  decide

theorem written_end (hname : IsName name) (hfits : Fits name v) (hlf : ∀ l ∈ fileLines file, '\n' ∉ l)
    (hset : SetLine name v (fileLines file) (R' ++ ["END".toList] ++ [[]]))
    (hR : ∀ l ∈ R, l ∈ fileLines file) (hlines : ∀ l ∈ R', l ∈ R ∨ l = name ++ '=' :: v ∨ l = [])
    (hend : ∀ l ∈ R', isEndLine l = false) (hafter : afterEnd file = []) : Written file name v true (R' ++ ["END".toList]) [] where
  set := hset
  lines := by
    intro l hl
    rcases mem_append.mp hl with hl | hl
    · rcases mem_append.mp hl with hl | hl
      · rcases hlines l hl with hl | hl | hl
        · exact .inl (hR l hl)
        · exact .inr (.inl hl)
        · exact .inr (.inr (.inl hl))
      · exact .inr (.inr (.inr (mem_singleton.mp hl)))
    · exact .inr (.inr (.inl (mem_singleton.mp hl)))
  afterEnd := by
    intro _
    rw [afterEnd_eq (T := []) _ not_mem_nil hend isEndLine_end, hafter]
    · rfl
    intro l hl
    rcases mem_append.mp hl with hl | hl
    · rcases hlines l hl with hl | rfl | rfl
      · exact hlf l (hR l hl)
      · exact notMem_newLine hname hfits
      · exact not_mem_nil
    · rw [mem_singleton.mp hl]
      exact notMem_end

theorem written_ini (h : Inv file) (hname : IsName pcmd.name) (hfits : Fits pcmd.name v)
    (hcan : CanWrite file pcmd.name true) :
    ∃ ls last, qsap_write_cfg file pcmd v true = unlines ls ++ last ∧ Written file pcmd.name v true ls last := by
  obtain ⟨ls, last, hfile, hlines, hls, hlast⟩ := exists_fileLines file
  have hbufs := bufs_eq h hfile hlines hls hlast
  have hlf : ∀ l ∈ fileLines file, '\n' ∉ l := by
    intro l hl
    rw [hlines] at hl
    rcases mem_append.mp hl with hl | hl
    · exact hls l hl
    · rw [mem_singleton.mp hl]
      exact hlast
  have hmem : ∀ l ∈ ls, l ∈ fileLines file := fun l hl => hlines ▸ mem_append_left _ hl
  have hpass : ∀ {R : List (List Char)}, (∀ l ∈ R, startsWithEnd l = false) → ∀ l ∈ R, (true && startsWithEnd l) = false :=
    fun hR l hl => (Bool.true_and _).trans (hR l hl)
  rw [CanWrite, if_pos rfl] at hcan
  obtain hnone | ⟨e, he⟩ := eq_none_or_eq_some ((fileLines file).find? startsWithEnd)
  · -- There is no `END` line.
    rw [hnone] at hcan
    have hno : ∀ l ∈ fileLines file, startsWithEnd l = false :=
      fun l hl => eq_false_iff.mpr (find?_eq_none.mp hnone l hl)
    have hafter : afterEnd file = [] := afterEnd_of_none (fun l hl => isEndLine_eq_false (hno l hl))
    have hnols : ∀ l ∈ ls, startsWithEnd l = false := fun l hl => hno l (hmem l hl)
    rw [lastLine, hlines, getLastD_concat, dropLast_concat] at hcan
    rcases hcan with rfl | ⟨hline, honly⟩
    · obtain ⟨res, R', R'', hW, hR'', hset, hlinesR⟩ := writeLoop_region_set hname hfits (hpass hnols)
      have hrest := hW []
      rw [append_nil, show writeLoop pcmd v true res [] = ([], res, []) from rfl, append_nil] at hrest
      refine ⟨R'' ++ ["END".toList], [], ?_, written_end hname hfits hlf ?_ hmem hlinesR (isEndLine_region hname hnols hlinesR) hafter⟩
      · simp only [qsap_write_cfg, hbufs, if_true, append_nil, hrest, hR'', flatten_nil, unlines_append,
          unlines_cons, unlines_nil]
        rfl
      · rw [hlines, append_assoc]
        exact hset.append (by rw [singleton_append, entries_cons_of_none entry_end])
    -- The line of the parameter is the last one.
    have hfound : ∀ l ∈ ls, (isLineOf pcmd.name (pline l) && !false) = false := by
      intro l hl
      rw [honly l hl]
      rfl
    have hW := writeLoop_lines_pass (v := v) hname.2.2.1 hfound (hpass hnols) [last]
    rw [writeLoop_hit_last hname hfits hline] at hW
    have hlinesR : ∀ l ∈ ls ++ [pcmd.name ++ '=' :: v], l ∈ ls ∨ l = pcmd.name ++ '=' :: v ∨ l = [] := by
      intro l hl
      rcases mem_append.mp hl with hl | hl
      · exact .inl hl
      · exact .inr (.inl (mem_singleton.mp hl))
    refine ⟨ls ++ [pcmd.name ++ '=' :: v] ++ ["END".toList], [], ?_,
      written_end hname hfits hlf ?_ hmem hlinesR (isEndLine_region hname hnols hlinesR) hafter⟩
    · simp only [qsap_write_cfg, hbufs, if_neg (ne_nil_of_isLineOf hline), hW, if_true, append_nil, flatten_nil, newLine_eq hfits,
        unlines_append, unlines_cons, unlines_nil]
      rfl
    · refine ⟨ls, [last], [], ["END".toList, []], by rw [hlines, append_nil], by simp, honly, ?_,
        entries_cons_of_none entry_end⟩
      intro l hl
      rw [mem_singleton.mp hl]
      exact hline
  rw [he] at hcan
  have hcan : isEndLine e = true := hcan
  obtain ⟨hstart, R, T, hRT, hR⟩ := find?_eq_some_iff_append.mp he
  have hR' : ∀ l ∈ R, startsWithEnd l = false := fun l hl => by simpa using hR l hl
  have hfound : ∀ res, (isLineOf pcmd.name (pline e) && !res) = false :=
    fun res => by rw [isLineOf_of_startsWithEnd hname hstart, Bool.false_and]
  obtain ⟨res, _, R'', hW, hR'', hset, hlinesR⟩ := writeLoop_region_set hname hfits (hpass hR')
  have hmemR : ∀ l ∈ R, l ∈ fileLines file := fun l hl => hRT ▸ mem_append_left _ hl
  have hendR := isEndLine_region hname hR' hlinesR
  rcases eq_nil_or_concat T with rfl | ⟨T', x, rfl⟩
  · -- It is the last line.
    obtain ⟨rfl, hlast_eq⟩ := append_inj' (hlines.symm.trans hRT) rfl
    obtain rfl : last = e := (cons.inj hlast_eq).1
    have hne : last ≠ [] := by
      rintro rfl
      cases hstart
    have hrest := hW [last]
    rw [writeLoop_stop (hfound res) hstart, append_nil] at hrest
    have hafter : afterEnd file = [] := by
      rw [hfile]
      exact afterEnd_last hls hlast (fun l hl => isEndLine_eq_false (hR' l hl))
    refine ⟨R'' ++ ["END".toList], [], ?_, written_end hname hfits hlf ?_ hmemR hlinesR hendR hafter⟩
    · simp only [qsap_write_cfg, hbufs, if_neg hne, if_true, append_nil, hrest, hR'', flatten_nil,
        unlines_append, unlines_cons, unlines_nil]
      rfl
    · rw [hlines, append_assoc]
      apply hset.append
      rw [singleton_append, entries_cons_of_none entry_end, entries_cons_of_none (entry_of_isEndLine hcan)]
      rfl
  rw [concat_eq_append] at hRT
  have hsplit : ls ++ [last] = (R ++ e :: T') ++ [x] := by
    rw [append_assoc, cons_append]
    exact hlines.symm.trans hRT
  obtain ⟨rfl, hlast_eq⟩ := append_inj' hsplit rfl
  obtain rfl : last = x := (cons.inj hlast_eq).1
  have hshort : e.length + 1 < MAX_CONF_LINE_LEN := by
    have hmax : MAX_CONF_LINE_LEN = 156 := rfl
    have := (h.short e (hRT ▸ by simp)).resolve_right (fun h => head_of_isEndLine hcan h.2)
    omega
  have hbufs' : fgetsBufs MAX_CONF_LINE_LEN [] file = R.flatMap (lineBufs MAX_CONF_LINE_LEN)
      ++ (e ++ ['\n']) :: (T'.flatMap (lineBufs MAX_CONF_LINE_LEN) ++ (if last = [] then [] else [last])) := by
    rw [hbufs, flatMap_append, flatMap_cons, lineBufs, if_pos hshort, append_assoc, append_assoc]
    rfl
  have hrest := hW ((e ++ ['\n']) :: (T'.flatMap (lineBufs MAX_CONF_LINE_LEN) ++ (if last = [] then [] else [last])))
  have hfound' : (isLineOf pcmd.name (pline (e ++ ['\n'])) && !res) = false := by
    rw [isLineOf_append_newline hname.2.2.1, hfound]
  rw [writeLoop_stop hfound' ((startsWithEnd_append_newline e).trans hstart), append_nil] at hrest
  have hlfT : ∀ l ∈ T', '\n' ∉ l := fun l hl => hls l (mem_append_right _ (mem_cons_of_mem _ hl))
  refine ⟨R'' ++ "END".toList :: T', last, ?_, ?_, ?_, fun _ => ?_⟩
  · simp only [qsap_write_cfg, hbufs', hrest, hR'', if_true, flatten_bufs, unlines_append, unlines_cons]
    simp
  · rw [hlines, append_assoc, append_assoc]
    apply hset.append
    rw [cons_append, cons_append, entries_cons_of_none entry_end,
      entries_cons_of_none (entry_of_isEndLine hcan)]
  · intro l hl
    rw [append_assoc] at hl
    rcases mem_append.mp hl with hl | hl
    · rcases hlinesR l hl with hl | hl | hl
      · exact .inl (hmemR l hl)
      · exact .inr (.inl hl)
      · exact .inr (.inr (.inl hl))
    rcases mem_cons.mp hl with hl | hl
    · exact .inr (.inr (.inr hl))
    · left
      rw [hlines, append_assoc]
      exact mem_append_right _ (mem_cons_of_mem _ hl)
  have hlf' : ∀ l ∈ R'' ++ "END".toList :: T', '\n' ∉ l := by
    intro l hl
    rcases mem_append.mp hl with hl | hl
    · rcases hlinesR l hl with hl | rfl | rfl
      · exact hlf l (hmemR l hl)
      · exact notMem_newLine hname hfits
      · exact not_mem_nil
    · rcases mem_cons.mp hl with rfl | hl
      · exact notMem_end
      · exact hlfT l hl
  rw [afterEnd_eq hlf' hlast hendR isEndLine_end, hfile,
    afterEnd_eq hls hlast (fun l hl => isEndLine_eq_false (hR' l hl)) hcan]

theorem qsap_write_cfg_eq (h : Inv file) (hname : IsName pcmd.name) (hfits : Fits pcmd.name v)
    (hcan : CanWrite file pcmd.name inifile) :
    view (qsap_write_cfg file pcmd v inifile) = (view file).write pcmd.name v ∧ Inv (qsap_write_cfg file pcmd v inifile)
      ∧ (inifile → afterEnd (qsap_write_cfg file pcmd v inifile) = afterEnd file) := by
  obtain ⟨ls, last, htext, hw⟩ :
      ∃ ls last, qsap_write_cfg file pcmd v inifile = unlines ls ++ last ∧ Written file pcmd.name v inifile ls last := by
    cases inifile with
    | false => exact written_hostapd h hname hfits hcan
    | true => exact written_ini h hname hfits hcan
  have hlf : ∀ l ∈ ls ++ [last], '\n' ∉ l := by
    intro l hl
    rcases hw.lines l hl with hl | rfl | rfl | rfl
    · obtain ⟨_, _, -, hlines, hls0, hlast0⟩ := exists_fileLines file
      rw [hlines] at hl
      rcases mem_append.mp hl with hl | hl
      · exact hls0 l hl
      · rw [mem_singleton.mp hl]
        exact hlast0
    · exact notMem_newLine hname hfits
    · exact not_mem_nil
    · exact notMem_end
  have hlines : fileLines (qsap_write_cfg file pcmd v inifile) = ls ++ [last] := by
    rw [htext]
    exact fileLines_unlines (fun l hl => hlf l (mem_append_left _ hl)) (hlf last (by simp))
  obtain ⟨hmap, hfirst⟩ := hw.set.toMap_eq hname hfits
  refine ⟨?_, ⟨?_, ?_⟩, ?_⟩
  · rw [view, hlines, hmap]
    rfl
  · intro l hl
    rw [hlines] at hl
    rcases hw.lines l hl with hl | rfl | rfl | rfl
    · exact h.short l hl
    · exact .inl hfits.short
    · exact .inl (by decide)
    · exact .inl (by decide)
  · intro n hn
    rw [hlines]
    exact hfirst n (h.first n hn)
  · rw [htext]
    exact hw.afterEnd

end G4Common.SoftAp
