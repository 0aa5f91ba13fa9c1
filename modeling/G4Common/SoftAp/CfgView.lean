/-
A configuration file as a map.

The map takes a name to its value and to whether it is enabled; a line of the file is an entry of the map when it has a
`=`.  `write`, `change` and `read` of a map are what the functions are for.  The three loops find the line of a parameter
where its entry is (`isLineOf_iff_entry`), and a line end at the end of a buffer makes no difference
(`entry_append_newline`).
-/
import G4Common.Lib.AssocList
import G4Common.SoftAp.Cfg

namespace G4Common.SoftAp

open CString List

variable {name l p r v : List Char} {e : List Char × List Char × Bool}
variable {ls : List (List Char)}

/-! ### The map -/

abbrev CfgMap : Type := List Char → Option (List Char × Bool)

def CfgMap.write (M : CfgMap) (name v : List Char) : CfgMap := Function.update M name (some (v, true))

def CfgMap.change (M : CfgMap) (name : List Char) (status : Bool) : CfgMap :=
  Function.update M name ((M name).map (fun e => (e.1, status)))

/-- The value of a parameter, else its default. -/
def CfgMap.read (M : CfgMap) (pcmd : Command) (var : Option (List Char)) (commented : Bool) : List Char × Err :=
  match ((M pcmd.name).filter (fun e => e.2 || commented)).map Prod.fst, pcmd.default_value with
  | some v, _ => (SUCCESS ++ ' ' :: var.getD pcmd.name ++ '=' :: v, .eSUCCESS)
  | none, some d => (SUCCESS ++ ' ' :: var.getD pcmd.name ++ '=' :: d, .eSUCCESS)
  | none, none => (ERR_FEATURE_NOT_ENABLED, .eERR_CONFIG_PARAM_MISSING)

/-! ### Files -/

/-- The lines of a file; the last one has no end. -/
def fileLines (file : List Char) : List (List Char) := file.splitOn '\n'

/-- The entry of a line: the name, the value, and whether it is enabled. -/
def entry (l : List Char) : Option (List Char × List Char × Bool) :=
  if '=' ∈ pline l then
    some ((pline l).takeWhile (fun c => c ≠ '='), trimEnd ((pline l).dropWhile (fun c => c ≠ '=')).tail,
      decide (l.head? ≠ some '#'))
  else none

def entries (ls : List (List Char)) : List (List Char × List Char × Bool) := ls.filterMap entry

def view (file : List Char) : CfgMap := AssocList.toMap (entries (fileLines file))

def isEndLine (l : List Char) : Bool := trimEnd l = "END".toList

/-- The text behind the `END` line. -/
def afterEnd (file : List Char) : List Char :=
  ['\n'].intercalate ((fileLines file).dropWhile (fun l => !isEndLine l)).tail

/-- The files that can be seen as a map: a parameter has one line. -/
structure WellFormed (file : List Char) : Prop where
  short : ∀ l ∈ fileLines file, l.length < MAX_CONF_LINE_LEN - 1
  unique : ∀ name, IsName name → ((entries (fileLines file)).filter (fun e => e.1 = name)).length ≤ 1

/-! ### The entry of a line -/

theorem pline_append_newline (l : List Char) : pline (l ++ ['\n']) = pline l ++ ['\n'] := by
  cases l with
  | nil => rfl
  | cons c l =>
    rw [cons_append, pline.eq_def, pline.eq_def (c :: l)]
    by_cases hc : c = '#'
    · subst hc
      rfl
    split
    · rename_i h
      exact absurd (cons.inj h).1 hc
    split
    · rename_i h
      exact absurd (cons.inj h).1 hc
    · rfl

theorem pline_of_head (h : l.head? ≠ some '#') : pline l = l := by
  rw [pline.eq_def]
  split
  · exact absurd rfl h
  · rfl

theorem trimEnd_append_newline (s : List Char) : trimEnd (s ++ ['\n']) = trimEnd s :=
  rdropWhile_concat_pos _ _ _ (by decide)

theorem trimEnd_append_cons {c : Char} (hc : c ≠ '\r' ∧ c ≠ '\n') (s t : List Char) :
    trimEnd (s ++ c :: t) = s ++ c :: trimEnd t := by
  induction t using reverseRecOn with
  | nil =>
    exact rdropWhile_concat_neg _ _ _ (by simpa using hc)
  | append_singleton t d ih =>
    have happ : s ++ c :: (t ++ [d]) = (s ++ c :: t) ++ [d] := by simp
    rw [happ]
    by_cases hd : d = '\r' ∨ d = '\n'
    · have h1 : trimEnd ((s ++ c :: t) ++ [d]) = trimEnd (s ++ c :: t) :=
        rdropWhile_concat_pos _ _ _ (decide_eq_true hd)
      have h2 : trimEnd (t ++ [d]) = trimEnd t := rdropWhile_concat_pos _ _ _ (decide_eq_true hd)
      rw [h1, h2, ih]
    have h1 : trimEnd ((s ++ c :: t) ++ [d]) = (s ++ c :: t) ++ [d] :=
      rdropWhile_concat_neg _ _ _ (by simpa using hd)
    have h2 : trimEnd (t ++ [d]) = t ++ [d] := rdropWhile_concat_neg _ _ _ (by simpa using hd)
    rw [h1, h2, happ]

theorem trimEnd_of_notMem (hr : '\r' ∉ v) (hn : '\n' ∉ v) : trimEnd v = v := by
  apply rdropWhile_eq_self_iff.mpr
  intro hne h
  rcases of_decide_eq_true h with h | h
  · exact hr (h ▸ getLast_mem hne)
  · exact hn (h ▸ getLast_mem hne)

theorem isLineOf_iff : isLineOf name p ↔ ∃ r, p = name ++ '=' :: r := by
  rw [isLineOf, strncmpEq, Bool.and_eq_true, isPrefixOf_iff_prefix, beq_iff_eq]
  constructor
  · rintro ⟨⟨t, rfl⟩, h⟩
    rw [getElem?_append_right (Nat.le_refl _), Nat.sub_self] at h
    cases t with
    | nil => cases h
    | cons _ t =>
      rw [getElem?_cons_zero, Option.some.injEq] at h
      exact ⟨t, by rw [h]⟩
  · rintro ⟨r, rfl⟩
    refine ⟨prefix_append _ _, ?_⟩
    rw [getElem?_append_right (Nat.le_refl _), Nat.sub_self, getElem?_cons_zero]

theorem takeWhile_name (hname : '=' ∉ name) (r : List Char) : (name ++ '=' :: r).takeWhile (fun c => c ≠ '=') = name := by
  rw [takeWhile_append_of_pos, takeWhile_cons_of_neg (by decide), append_nil]
  intro c hc
  exact decide_eq_true (fun h => hname (h ▸ hc))

theorem dropWhile_name (hname : '=' ∉ name) (r : List Char) :
    (name ++ '=' :: r).dropWhile (fun c => c ≠ '=') = '=' :: r := by
  rw [dropWhile_append_of_pos, dropWhile_cons_of_neg (by decide)]
  intro c hc
  exact decide_eq_true (fun h => hname (h ▸ hc))

theorem entry_eq (hname : '=' ∉ name) (h : pline l = name ++ '=' :: r) :
    entry l = some (name, trimEnd r, decide (l.head? ≠ some '#')) := by
  have hmem : '=' ∈ pline l := by
    rw [h]
    exact mem_append_right _ mem_cons_self
  rw [entry, if_pos hmem, h, takeWhile_name hname, dropWhile_name hname]
  rfl

theorem exists_of_entry (h : entry l = some e) :
    ∃ r, '=' ∉ e.1 ∧ pline l = e.1 ++ '=' :: r ∧ e.2 = (trimEnd r, decide (l.head? ≠ some '#')) := by
  by_cases hmem : '=' ∈ pline l
  · obtain ⟨s, r, hpl, hs⟩ := eq_append_cons_of_mem hmem
    rw [entry_eq hs hpl, Option.some.injEq] at h
    subst h
    exact ⟨r, hs, hpl, rfl⟩
  · rw [entry, if_neg hmem] at h
    cases h

theorem entry_eq_none (h : '=' ∉ l) : entry l = none := by
  rw [entry, if_neg]
  intro hmem
  apply h
  rw [pline.eq_def] at hmem
  split at hmem
  · exact mem_cons_of_mem _ hmem
  · exact hmem

theorem entry_append_newline (l : List Char) : entry (l ++ ['\n']) = entry l := by
  by_cases hmem : '=' ∈ pline l
  · obtain ⟨s, r, hpl, hs⟩ := eq_append_cons_of_mem hmem
    have hpl' : pline (l ++ ['\n']) = s ++ '=' :: (r ++ ['\n']) := by
      rw [pline_append_newline, hpl, append_assoc, cons_append]
    have hhead : (l ++ ['\n']).head? = l.head? := by
      cases l with
      | nil => cases hmem
      | cons => rfl
    rw [entry_eq hs hpl, entry_eq hs hpl', trimEnd_append_newline, hhead]
  have hmem' : '=' ∉ pline (l ++ ['\n']) := by
    rw [pline_append_newline, mem_append]
    rintro (h | h)
    · exact hmem h
    · exact nomatch mem_singleton.mp h
  rw [entry, entry, if_neg hmem, if_neg hmem']

theorem isLineOf_iff_entry (hname : '=' ∉ name) : isLineOf name (pline l) ↔ ∃ e, entry l = some e ∧ e.1 = name := by
  rw [isLineOf_iff]
  constructor
  · rintro ⟨r, h⟩
    exact ⟨_, entry_eq hname h, rfl⟩
  · rintro ⟨e, h, rfl⟩
    obtain ⟨r, -, hr, -⟩ := exists_of_entry h
    exact ⟨r, hr⟩

/-! ### The entries of lines -/

@[simp] theorem entries_append (ls ls' : List (List Char)) : entries (ls ++ ls') = entries ls ++ entries ls' :=
  filterMap_append

theorem entries_cons_of_none (h : entry l = none) : entries (l :: ls) = entries ls := filterMap_cons_none h

theorem entries_cons_of_some (h : entry l = some e) : entries (l :: ls) = e :: entries ls := filterMap_cons_some h

theorem entries_ne (hname : '=' ∉ name) (h : ∀ l ∈ ls, isLineOf name (pline l) = false) :
    ∀ e ∈ entries ls, e.1 ≠ name := by
  intro e he hek
  obtain ⟨l, hl, hle⟩ := mem_filterMap.mp he
  have hline := (isLineOf_iff_entry hname).mpr ⟨e, hle, hek⟩
  rw [h l hl] at hline
  exact Bool.noConfusion hline

/-! ### Lines and text -/

theorem fileLines_unlines {last : List Char} (hls : ∀ l ∈ ls, '\n' ∉ l) (hlast : '\n' ∉ last) :
    fileLines (unlines ls ++ last) = ls ++ [last] := splitOn_unlines hls hlast

theorem exists_fileLines (file : List Char) :
    ∃ ls last, file = unlines ls ++ last ∧ fileLines file = ls ++ [last] ∧ (∀ l ∈ ls, '\n' ∉ l) ∧ '\n' ∉ last := by
  obtain ⟨ls, last, rfl, hls, hlast⟩ := exists_unlines file
  exact ⟨ls, last, rfl, fileLines_unlines hls hlast, hls, hlast⟩

theorem intercalate_lines (ls : List (List Char)) (last : List Char) :
    ['\n'].intercalate (ls ++ [last]) = unlines ls ++ last := by
  induction ls with
  | nil => exact intercalate_singleton
  | cons _ _ ih =>
    rw [cons_append, intercalate_cons_of_ne_nil (by simp), ih, unlines_cons, append_assoc, append_assoc]
    rfl

theorem afterEnd_eq {R T : List (List Char)} {l last : List Char} (hls : ∀ m ∈ R ++ l :: T, '\n' ∉ m) (hlast : '\n' ∉ last)
    (hR : ∀ m ∈ R, isEndLine m = false) (hl : isEndLine l) :
    afterEnd (unlines (R ++ l :: T) ++ last) = unlines T ++ last := by
  rw [afterEnd, fileLines_unlines hls hlast, append_assoc, dropWhile_append_of_pos, cons_append,
    dropWhile_cons_of_neg, tail_cons, intercalate_lines]
  · rw [hl]
    decide
  · intro m hm
    rw [hR m hm]
    rfl

theorem afterEnd_of_none {file : List Char} (h : ∀ l ∈ fileLines file, isEndLine l = false) : afterEnd file = [] := by
  have hdrop : (fileLines file).dropWhile (fun l => !isEndLine l) = [] := by
    apply dropWhile_eq_nil_iff.mpr
    intro l hl
    rw [h l hl]
    rfl
  rw [afterEnd, hdrop]
  rfl

end G4Common.SoftAp
