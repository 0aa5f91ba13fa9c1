/-
What the three functions do to the map of a file.

Reading finds the entry of the parameter (`qsap_read_cfg_eq`), and enabling changes the flag in it
(`qsap_change_cfg_eq`); this needs lines that a buffer holds.  Writing sets the entry of the parameter and leaves the
text behind the `END` line as it is, when the file ends with a line end where the loop appends to it, and
when the loop takes no other line for the `END` line (`CanWrite`).
-/
import G4Common.SoftAp.CfgView

namespace G4Common.SoftAp

open CString AssocList List Option Bool

variable {file name v : List Char} {pcmd : Command}

/-- A file between the calls: a line that has been disabled can be one character longer than before. -/
structure Inv (file : List Char) : Prop where
  short : ∀ l ∈ fileLines file,
    l.length < MAX_CONF_LINE_LEN - 1 ∨ (l.length = MAX_CONF_LINE_LEN - 1 ∧ l.head? = some '#')
  first : ∀ name, IsName name → FirstHas Prod.snd name (entries (fileLines file))

theorem WellFormed.inv (h : WellFormed file) : Inv file where
  short l hl := .inl (h.short l hl)
  first name hname := firstHas_of_unique (h.unique name hname)

theorem Inv.length_lt (h : Inv file) : ∀ l ∈ fileLines file, l.length < MAX_CONF_LINE_LEN := by
  intro l hl
  have hmax : MAX_CONF_LINE_LEN = 156 := rfl
  rcases h.short l hl with h | ⟨h, -⟩ <;> omega

/-! ### Reading -/

theorem readLoop_eq (hname : '=' ∉ pcmd.name) (c : Bool) (bufs : List (List Char)) :
    readLoop pcmd c bufs = ((bufs.filterMap entry).find? (fun e => e.1 = pcmd.name ∧ (e.2.2 || c))).map
      (fun e => pcmd.name ++ '=' :: e.2.1) := by
  induction bufs with
  | nil => rfl
  | cons buf _ ih =>
    rw [readLoop]
    obtain hnone | ⟨e, he⟩ := eq_none_or_eq_some (entry buf)
    · -- Not the line of a parameter.
      have hline : isLineOf pcmd.name (pline buf) = false := by
        apply eq_false_iff.mpr
        intro h
        obtain ⟨e, he, -⟩ := (isLineOf_iff_entry hname).mp h
        rw [hnone] at he
        cases he
      rw [filterMap_cons_none hnone, ← ih, hline]
      split <;> rfl
    obtain ⟨r, _, hpl, hval⟩ := exists_of_entry he
    rw [filterMap_cons_some he]
    by_cases hskip : buf.head? = some '#' ∧ c = false
    · -- A comment is skipped.
      have hoff : e.2.2 = false := by rw [hval]; exact decide_eq_false (not_not.mpr hskip.1)
      rw [if_pos hskip, find?_cons_of_neg, ih]
      rw [hoff, hskip.2]
      simp
    have hon : (e.2.2 || c) = true := by
      rw [hval]
      by_cases hh : buf.head? = some '#'
      · rw [or_eq_true]
        right
        exact eq_true_of_not_eq_false (fun hc => hskip ⟨hh, hc⟩)
      · rw [or_eq_true]
        left
        exact decide_eq_true hh
    rw [if_neg hskip]
    by_cases hk : e.1 = pcmd.name
    · rw [if_pos ((isLineOf_iff_entry hname).mpr ⟨e, he, hk⟩), find?_cons_of_pos, map_some, hpl,
        trimEnd_append_cons (by decide), hk, hval]
      exact decide_eq_true ⟨hk, hon⟩
    have hline : ¬ isLineOf pcmd.name (pline buf) = true := by
      intro h
      obtain ⟨_, he', hk'⟩ := (isLineOf_iff_entry hname).mp h
      rw [he, some.injEq] at he'
      exact hk (he' ▸ hk')
    rw [if_neg hline, find?_cons_of_neg (fun h => hk (of_decide_eq_true h).1), ih]

theorem filterMap_entry_bufs (h : ∀ l ∈ fileLines file, l.length < MAX_CONF_LINE_LEN) :
    (fgetsBufs MAX_CONF_LINE_LEN [] file).filterMap entry = entries (fileLines file) := by
  have hnil : entry [] = none := rfl
  exact filterMap_fgetsBufs hnil entry_append_newline (by decide) not_mem_nil (by decide) h

theorem scnprintf_of_lt {size : ℕ} {s : List Char} (h : s.length < size) : scnprintf size s = s :=
  take_of_length_le (by omega)

theorem qsap_read_cfg_eq (h : Inv file) (hname : IsName pcmd.name) {plen : ℕ} {var : Option (List Char)} {c : Bool}
    (hplen : ((view file).read pcmd var c).1.length < plen) :
    qsap_read_cfg file pcmd plen var c = (view file).read pcmd var c := by
  have heq : '=' ∉ pcmd.name := hname.2.2.1
  have hfirst : FirstHas (fun e : List Char × Bool => e.2 || c) pcmd.name (entries (fileLines file)) := by
    intro w hw hp e he hk
    obtain ⟨hoff, hc⟩ := (or_eq_false_iff).mp hp
    show (e.2.2 || c) = false
    rw [h.first pcmd.name hname w hw hoff e he hk, hc]
    rfl
  have hloop := readLoop_eq heq c (fgetsBufs MAX_CONF_LINE_LEN [] file)
  rw [filterMap_entry_bufs h.length_lt, find?_eq hfirst, Option.map_map] at hloop
  have hview : toMap (entries (fileLines file)) pcmd.name = view file pcmd.name := rfl
  rw [qsap_read_cfg, hloop, hview]
  rw [CfgMap.read] at hplen ⊢
  obtain hnone | ⟨e, he⟩ := eq_none_or_eq_some ((view file pcmd.name).filter (fun e => e.2 || c))
  · -- The default.
    rw [hnone] at hplen ⊢
    obtain hd | ⟨d, hd⟩ := eq_none_or_eq_some pcmd.default_value
    · rw [hd] at hplen ⊢
      exact Prod.ext (scnprintf_of_lt hplen) rfl
    · rw [hd] at hplen ⊢
      exact Prod.ext (scnprintf_of_lt hplen) rfl
  rw [he] at hplen ⊢
  have hdrop := dropWhile_name heq e.1
  cases var with
  | none =>
    have happ : SUCCESS ++ ' ' :: (pcmd.name ++ '=' :: e.1) = SUCCESS ++ ' ' :: pcmd.name ++ '=' :: e.1 := by simp
    refine Prod.ext ?_ rfl
    show scnprintf plen (SUCCESS ++ ' ' :: (pcmd.name ++ '=' :: e.1)) = SUCCESS ++ ' ' :: pcmd.name ++ '=' :: e.1
    rw [happ]
    exact scnprintf_of_lt hplen
  | some w =>
    refine Prod.ext ?_ rfl
    show scnprintf plen (SUCCESS ++ ' ' :: w ++ (pcmd.name ++ '=' :: e.1).dropWhile (fun c => c ≠ '='))
      = SUCCESS ++ ' ' :: w ++ '=' :: e.1
    rw [hdrop]
    exact scnprintf_of_lt hplen

/-! ### Enabling and disabling -/

variable {l : List Char}

theorem isLineOf_append_newline (hname : '=' ∉ name) (l : List Char) :
    isLineOf name (pline (l ++ ['\n'])) = isLineOf name (pline l) := by
  rw [Bool.eq_iff_iff, isLineOf_iff_entry hname, isLineOf_iff_entry hname, entry_append_newline]

theorem isLineOf_nil (name : List Char) : isLineOf name [] = false := by
  apply eq_false_iff.mpr
  intro h
  obtain ⟨r, hr⟩ := isLineOf_iff.mp h
  simp at hr

theorem isLineOf_newline (hname : '=' ∉ name) : isLineOf name ['\n'] = false :=
  (isLineOf_append_newline hname []).trans (isLineOf_nil name)

theorem changeLine_append_newline (hname : '=' ∉ pcmd.name) (status : Bool) (l : List Char) :
    changeLine pcmd status (l ++ ['\n']) = changeLine pcmd status l ++ ['\n'] := by
  rw [changeLine, changeLine, isLineOf_append_newline hname, pline_append_newline]
  split
  · split <;> rfl
  · rfl

theorem changeLine_newline (hname : '=' ∉ pcmd.name) (status : Bool) : changeLine pcmd status ['\n'] = ['\n'] := by
  have hline : isLineOf pcmd.name (pline ['\n']) = false := isLineOf_newline hname
  rw [changeLine, hline]
  rfl

theorem changeLine_nil (status : Bool) : changeLine pcmd status [] = [] := by
  have hline : isLineOf pcmd.name (pline []) = false := isLineOf_nil _
  rw [changeLine, hline]
  rfl

theorem flatMap_lineBufs (hname : '=' ∉ pcmd.name) (status : Bool) (size : ℕ) (ls : List (List Char)) :
    (ls.flatMap (lineBufs size)).flatMap (changeLine pcmd status) = unlines (ls.map (changeLine pcmd status)) := by
  induction ls with
  | nil => rfl
  | cons l _ ih =>
    have hline : (lineBufs size l).flatMap (changeLine pcmd status) = changeLine pcmd status l ++ ['\n'] := by
      rw [lineBufs]
      split
      · rw [flatMap_singleton, changeLine_append_newline hname]
      · rw [flatMap_cons, flatMap_singleton, changeLine_newline hname]
    rw [flatMap_cons, flatMap_append, hline, ih, map_cons, unlines_cons, append_assoc]
    rfl

theorem qsap_change_cfg_lines (hname : '=' ∉ pcmd.name) (status : Bool) {ls : List (List Char)} {last : List Char}
    (hls : ∀ l ∈ ls, '\n' ∉ l ∧ l.length < MAX_CONF_LINE_LEN) (hlast : '\n' ∉ last) (hlen : last.length < MAX_CONF_LINE_LEN) :
    qsap_change_cfg (unlines ls ++ last) pcmd status
      = unlines (ls.map (changeLine pcmd status)) ++ changeLine pcmd status last := by
  rw [qsap_change_cfg, fgetsBufs_unlines (by decide) hls hlast hlen, flatMap_append, flatMap_lineBufs hname]
  congr 1
  split_ifs with h
  · rw [h, changeLine_nil]
    rfl
  · exact flatMap_singleton _ _

theorem mem_of_mem_pline {c : Char} (h : c ∈ pline l) : c ∈ l := by
  rw [pline.eq_def] at h
  split at h
  · exact mem_cons_of_mem _ h
  · exact h

theorem mem_changeLine {c : Char} {status : Bool} (hc : c ≠ '#') (h : c ∈ changeLine pcmd status l) : c ∈ l := by
  rw [changeLine] at h
  split at h
  · split at h
    · exact mem_of_mem_pline h
    · exact mem_of_mem_pline ((mem_cons.mp h).resolve_left hc)
  · exact h

theorem entry_changeLine (hname : IsName pcmd.name) (status : Bool) (l : List Char) :
    entry (changeLine pcmd status l)
      = (entry l).map (fun e => if e.1 = pcmd.name then (e.1, e.2.1, status) else e) := by
  obtain ⟨hne, hhash, heq, -⟩ := hname
  by_cases hline : isLineOf pcmd.name (pline l) = true
  · obtain ⟨r, hr⟩ := isLineOf_iff.mp hline
    rw [changeLine, if_pos hline, entry_eq heq hr, map_some, if_pos rfl]
    cases status with
    | false =>
      have hpl : pline ('#' :: pline l) = pcmd.name ++ '=' :: r := hr
      rw [if_neg Bool.noConfusion, entry_eq heq hpl]
      rfl
    | true =>
      have hhead : (pline l).head? ≠ some '#' := by
        rw [hr, head?_append_of_ne_nil _ hne]
        exact hhash
      have hpl : pline (pline l) = pcmd.name ++ '=' :: r := by rw [pline_of_head hhead, hr]
      rw [if_pos rfl, entry_eq heq hpl, decide_eq_true hhead]
  rw [changeLine, if_neg hline]
  obtain hnone | ⟨e, he⟩ := eq_none_or_eq_some (entry l)
  · rw [hnone]
    rfl
  · have hk : e.1 ≠ pcmd.name := fun hk => hline ((isLineOf_iff_entry heq).mpr ⟨e, he, hk⟩)
    rw [he, map_some, if_neg hk]

theorem entries_changeLine (hname : IsName pcmd.name) (status : Bool) (ls : List (List Char)) :
    entries (ls.map (changeLine pcmd status)) = AssocList.modify pcmd.name (fun e => (e.1, status)) (entries ls) := by
  rw [entries, filterMap_map, entries, AssocList.modify, map_filterMap]
  congr 1
  funext l
  exact entry_changeLine hname status l

theorem length_changeLine {status : Bool} {n : ℕ} (h : l.length < n ∨ (l.length = n ∧ l.head? = some '#')) :
    (changeLine pcmd status l).length < n
      ∨ ((changeLine pcmd status l).length = n ∧ (changeLine pcmd status l).head? = some '#') := by
  -- A comment is one longer than its text.
  have hpl : (l.head? = some '#' ∧ (pline l).length + 1 = l.length) ∨ (l.head? ≠ some '#' ∧ pline l = l) := by
    cases l with
    | nil => exact .inr ⟨by simp, rfl⟩
    | cons c l =>
      by_cases hc : c = '#'
      · subst hc
        exact .inl ⟨rfl, rfl⟩
      · have hh : (c :: l).head? ≠ some '#' := fun hh => hc (some.inj hh)
        exact .inr ⟨hh, pline_of_head hh⟩
  rw [changeLine]
  split
  · have hle : (pline l).length + 1 ≤ n := by
      rcases hpl with ⟨-, hlen⟩ | ⟨hh, hlen⟩
      · rcases h with h | ⟨h, -⟩ <;> omega
      · have := h.resolve_right (fun h => hh h.2)
        rw [hlen]
        omega
    split
    · exact .inl (by omega)
    · rcases Nat.lt_or_eq_of_le hle with h | h
      · exact .inl h
      · exact .inr ⟨h, rfl⟩
  · exact h

theorem qsap_change_cfg_eq (h : Inv file) (hname : IsName pcmd.name) (status : Bool) :
    view (qsap_change_cfg file pcmd status) = (view file).change pcmd.name status
      ∧ Inv (qsap_change_cfg file pcmd status) := by
  obtain ⟨ls, last, rfl, hlines, hls, hlast⟩ := exists_fileLines file
  have heq : '=' ∉ pcmd.name := hname.2.2.1
  have hlen := h.length_lt
  rw [hlines] at hlen
  have hfile : qsap_change_cfg (unlines ls ++ last) pcmd status
      = unlines (ls.map (changeLine pcmd status)) ++ changeLine pcmd status last :=
    qsap_change_cfg_lines heq status (fun l hl => ⟨hls l hl, hlen l (mem_append_left _ hl)⟩) hlast (hlen last (by simp))
  have hlines' : fileLines (qsap_change_cfg (unlines ls ++ last) pcmd status)
      = (ls ++ [last]).map (changeLine pcmd status) := by
    rw [hfile, fileLines_unlines, map_append, map_singleton]
    · intro m hm
      obtain ⟨l, hl, rfl⟩ := mem_map.mp hm
      exact fun h => hls l hl (mem_changeLine (by decide) h)
    · exact fun h => hlast (mem_changeLine (by decide) h)
  constructor
  · rw [view, hlines', entries_changeLine hname, toMap_modify, ← hlines]
    rfl
  constructor
  · intro m hm
    rw [hlines'] at hm
    obtain ⟨l, hl, rfl⟩ := mem_map.mp hm
    exact length_changeLine (h.short l (hlines ▸ hl))
  · intro m hm
    rw [hlines', entries_changeLine hname, ← hlines]
    exact (h.first m hm).modify (fun _ _ => rfl)

end G4Common.SoftAp
