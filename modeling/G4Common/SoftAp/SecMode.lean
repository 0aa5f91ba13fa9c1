/-
The security mode of the access point (`qsap_set_security_mode()` and `qsap_read_security_mode()`).

A mode is spread over nine parameters, and setting it goes through the file once for each.  On lines that a buffer holds
each of these changes is a change of single lines that leaves the text behind the `#` as it is, so a line has at the end
the flag that the mode has for its parameter (`isOn_secChanges`).  The pairwise cipher of WPA is no part of the
changes for the modes without WPA: where its line was enabled it stays so, which is the only way in which a mode can be
set wrong (`secMode_iff`).
-/
import G4Common.SoftAp.CfgWrite

namespace G4Common.SoftAp

open CString List Function

def ERR_UNKNOWN : List Char := "failure unknown error".toList
def ERR_NOT_SUPPORTED : List Char := "failure not supported".toList

/-- `sec_mode_t`. -/
inductive SecMode
  | NONE
  | WEP
  | WPA_PSK
  | WPA2_PSK
  | WPA_WPA2_PSK
  | INVALID
deriving DecidableEq

namespace SecMode

def digit : SecMode → Char
  | NONE => '0'
  | WEP => '1'
  | WPA_PSK => '2'
  | WPA2_PSK => '3'
  | WPA_WPA2_PSK => '4'
  | INVALID => '5'

/-- `wpa_val`; the modes without WPA have none. -/
def wpaVal : SecMode → Option Char
  | WPA_PSK => some '1'
  | WPA2_PSK => some '2'
  | WPA_WPA2_PSK => some '3'
  | _ => none

def rsnStatus (mode : SecMode) : Bool := mode = WPA2_PSK ∨ mode = WPA_WPA2_PSK

end SecMode

/-- A parameter that has no default value. -/
def noDefault (name : String) : Command := ⟨name.toList, none⟩

/-! ### Setting -/

/-- The calls of `qsap_change_cfg()`, in their order. -/
def secChanges (mode : SecMode) : List (Command × Bool) :=
  let wep : Bool := mode = .WEP
  let wpa := mode.wpaVal.isSome
  [ (noDefault "wep_default_key", wep), (noDefault "wep_key0", wep), (noDefault "wep_key1", wep),
    (noDefault "wep_key2", wep), (noDefault "wep_key3", wep), (noDefault "wpa_passphrase", wpa) ] ++
  (if wpa then [(noDefault "wpa_pairwise", !mode.rsnStatus || decide (mode = .WPA_WPA2_PSK))] else []) ++
  [ (noDefault "rsn_pairwise", mode.rsnStatus), (noDefault "wpa", wpa) ]

def qsap_set_security_mode (file : List Char) (mode : SecMode) : List Char :=
  if mode = .INVALID then file
  else
    let file := mode.wpaVal.elim file fun val => qsap_write_cfg file (noDefault "wpa") [val] false
    (secChanges mode).foldl (fun file c => qsap_change_cfg file c.1 c.2) file

/-! ### Reading -/

/-- The mode, and the response. -/
def qsap_read_security_mode (file : List Char) (plen : ℕ) : SecMode × List Char :=
  let key := (qsap_read_cfg file (noDefault "wep_default_key") plen none false).1
  let wpa := (qsap_read_cfg file (noDefault "wpa") plen none false).1
  if key = ERR_FEATURE_NOT_ENABLED then
    let mode : SecMode :=
      if wpa = ERR_FEATURE_NOT_ENABLED then .NONE
      else
        -- the character behind the first `=`
        match (wpa.dropWhile (· ≠ '=')).tail.head? with
        | some '1' => .WPA_PSK
        | some '2' => .WPA2_PSK
        | some '3' => .WPA_WPA2_PSK
        | _ => .INVALID
    (mode, scnprintf plen (if mode = .INVALID then ERR_NOT_SUPPORTED
      else SUCCESS ++ ' ' :: "security_mode=".toList ++ [mode.digit]))
  else if wpa = ERR_FEATURE_NOT_ENABLED then
    (.WEP, scnprintf plen (SUCCESS ++ ' ' :: "security_mode=".toList ++ [SecMode.WEP.digit]))
  else (.INVALID, scnprintf plen ERR_UNKNOWN)

/-! ### What is wanted -/

/-- The parameters of the mode. -/
def SecMode.params : SecMode → List String
  | NONE => []
  | WEP => ["wep_default_key", "wep_key0", "wep_key1", "wep_key2", "wep_key3"]
  | WPA_PSK => ["wpa_passphrase", "wpa_pairwise", "wpa"]
  | WPA2_PSK => ["wpa_passphrase", "rsn_pairwise", "wpa"]
  | WPA_WPA2_PSK => ["wpa_passphrase", "wpa_pairwise", "rsn_pairwise", "wpa"]
  | INVALID => []

/-- The parameters of all modes. -/
def secParams : List String :=
  ["wep_default_key", "wep_key0", "wep_key1", "wep_key2", "wep_key3", "wpa_passphrase", "wpa_pairwise", "rsn_pairwise",
    "wpa"]

/-- The line is one of a parameter. -/
def isParam (name : String) (l : List Char) : Bool := isLineOf name.toList (pline l)

def isOn (l : List Char) : Bool := l.head? ≠ some '#'

/-- A file with the lines `ls` after the mode was set: the mode is read, its parameters are enabled and no other ones,
and all other lines are as they were. -/
structure SecRight (file : List Char) (mode : SecMode) (plen : ℕ) : Prop where
  read : qsap_read_security_mode (qsap_set_security_mode file mode) plen =
    (mode, SUCCESS ++ ' ' :: "security_mode=".toList ++ [mode.digit])
  params : ∀ l ∈ fileLines (qsap_set_security_mode file mode), ∀ name ∈ secParams, isParam name l = true →
    (isOn l = true ↔ name ∈ mode.params)
  others : (fileLines (qsap_set_security_mode file mode)).filter (fun l => secParams.all fun name => !isParam name l) =
    (fileLines file).filter fun l => secParams.all fun name => !isParam name l

/-- Lines that end, that a buffer holds, and of which one is for the default key; a line that has been disabled is one
longer than before. -/
structure SecFile (file : List Char) (ls : List (List Char)) : Prop where
  text : file = unlines ls
  lf : ∀ l ∈ ls, '\n' ∉ l
  short : ∀ l ∈ ls, l.length < MAX_CONF_LINE_LEN - 2 ∨ (l.length = MAX_CONF_LINE_LEN - 2 ∧ l.head? = some '#')
  key : ∃ l ∈ ls, isParam "wep_default_key" l = true

variable {file l p : List Char} {ls : List (List Char)} {pcmd : Command} {mode : SecMode} {plen : ℕ} {name : String}

/-! ### Lines -/

theorem isName_secParams : ∀ name ∈ secParams, IsName name.toList := by
  decide

theorem secChanges_spec : ∀ c ∈ secChanges mode, ∃ name ∈ secParams, c.1 = noDefault name ∧
    c.2 = decide (name ∈ mode.params) := by
  cases mode <;> simp [secChanges, secParams, SecMode.wpaVal, SecMode.rsnStatus, SecMode.params]

theorem exists_secChange (hname : name ∈ secParams) (hmode : mode ≠ .INVALID)
    (hpair : name ≠ "wpa_pairwise" ∨ mode.wpaVal.isSome) : ∃ c ∈ secChanges mode, c.1 = noDefault name := by
  simp only [secParams, mem_cons, not_mem_nil, or_false] at hname
  rcases hname with rfl | rfl | rfl | rfl | rfl | rfl | rfl | rfl | rfl <;> cases mode <;>
    simp_all [secChanges, SecMode.wpaVal]

theorem secChanges_pairwise (h : mode.wpaVal = none) : ∀ c ∈ secChanges mode, c.1 ≠ noDefault "wpa_pairwise" := by
  cases mode <;> cases h <;> simp [secChanges, SecMode.wpaVal, noDefault]

theorem eq_of_isLineOf {n m : List Char} (hn : '=' ∉ n) (hm : '=' ∉ m) (h : isLineOf n p)
    (h' : isLineOf m p) : n = m := by
  obtain ⟨r, rfl⟩ := isLineOf_iff.1 h
  obtain ⟨_, hr⟩ := isLineOf_iff.1 h'
  rw [← takeWhile_name hn r, hr, takeWhile_name hm]

theorem pline_changeLine (hname : IsName pcmd.name) (status : Bool) (l : List Char) :
    pline (changeLine pcmd status l) = pline l := by
  rw [changeLine]
  split
  · rename_i hline
    cases status
    · rfl
    · obtain ⟨r, hr⟩ := isLineOf_iff.1 hline
      rw [if_pos rfl, hr]
      exact pline_newLine hname r
  · rfl

theorem isOn_changeLine (hname : IsName pcmd.name) {status : Bool} (hline : isLineOf pcmd.name (pline l)) :
    isOn (changeLine pcmd status l) = status := by
  rw [changeLine, if_pos hline]
  cases status
  · rfl
  · obtain ⟨r, hr⟩ := isLineOf_iff.1 hline
    rw [if_pos rfl, hr, isOn, head?_append_of_ne_nil _ hname.1]
    exact decide_eq_true hname.2.1

/-- Changes of a line, one after the other. -/
def changeLines (cs : List (Command × Bool)) (l : List Char) : List Char :=
  cs.foldl (fun l c => changeLine c.1 c.2 l) l

variable {cs : List (Command × Bool)}

theorem pline_changeLines (hcs : ∀ c ∈ cs, IsName c.1.name) : pline (changeLines cs l) = pline l := by
  induction cs generalizing l with
  | nil => rfl
  | cons c _ ih =>
    exact (ih fun c' hc => hcs c' (mem_cons_of_mem _ hc)).trans (pline_changeLine (hcs c mem_cons_self) _ _)

theorem changeLines_of_not (h : ∀ c ∈ cs, isLineOf c.1.name (pline l) = false) : changeLines cs l = l := by
  induction cs with
  | nil => rfl
  | cons c _ ih =>
    rw [changeLines, foldl_cons, changeLine, h c mem_cons_self]
    exact ih fun c' hc => h c' (mem_cons_of_mem _ hc)

theorem isOn_changeLines {status : Bool} (hcs : ∀ c ∈ cs, IsName c.1.name)
    (hsome : ∃ c ∈ cs, isLineOf c.1.name (pline l))
    (hall : ∀ c ∈ cs, isLineOf c.1.name (pline l) → c.2 = status) : isOn (changeLines cs l) = status := by
  induction cs using reverseRecOn with
  | nil =>
    obtain ⟨c, hc, -⟩ := hsome
    exact nomatch hc
  | append_singleton cs c ih =>
    have hpl := pline_changeLines (l := l) fun c' hc => hcs c' (mem_append_left _ hc)
    have hc : c ∈ cs ++ [c] := mem_append_right _ mem_cons_self
    have hlast : changeLines (cs ++ [c]) l = changeLine c.1 c.2 (changeLines cs l) := by
      rw [changeLines, foldl_append]
      rfl
    rw [hlast]
    rcases hline : isLineOf c.1.name (pline l) with - | -
    · rw [changeLine, hpl, hline]
      apply ih (fun c' hc => hcs c' (mem_append_left _ hc)) _ fun c' hc => hall c' (mem_append_left _ hc)
      obtain ⟨c', hc', hline'⟩ := hsome
      rcases mem_append.1 hc' with hc' | hc'
      · exact ⟨c', hc', hline'⟩
      · rw [mem_singleton.1 hc', hline] at hline'
        cases hline'
    · rw [isOn_changeLine (hcs c hc) (by rw [hpl, hline])]
      exact hall c hc hline

/-! ### Files -/

theorem SecFile.fileLines (h : SecFile file ls) : fileLines file = ls ++ [[]] := by
  rw [h.text, ← append_nil (unlines ls)]
  exact fileLines_unlines h.lf not_mem_nil

theorem SecFile.change (h : SecFile file ls) (hname : IsName pcmd.name) (status : Bool) :
    SecFile (qsap_change_cfg file pcmd status) (ls.map (changeLine pcmd status)) where
  text := by
    have hmax : MAX_CONF_LINE_LEN = 156 := rfl
    rw [h.text, ← append_nil (unlines ls), qsap_change_cfg_lines hname.2.2.1 status _ not_mem_nil (by decide),
      changeLine_nil, append_nil]
    intro l hl
    refine ⟨h.lf l hl, ?_⟩
    rcases h.short l hl with _ | ⟨_, -⟩ <;> omega
  lf := by
    intro m hm
    obtain ⟨l, hl, rfl⟩ := mem_map.1 hm
    exact fun hlf => h.lf l hl (mem_changeLine (by decide) hlf)
  short := by
    intro m hm
    obtain ⟨l, hl, rfl⟩ := mem_map.1 hm
    exact length_changeLine (h.short l hl)
  key := by
    obtain ⟨l, hl, hkey⟩ := h.key
    refine ⟨_, mem_map_of_mem hl, ?_⟩
    rw [isParam, pline_changeLine hname]
    exact hkey

theorem SecFile.changes (h : SecFile file ls) (hcs : ∀ c ∈ cs, IsName c.1.name) :
    SecFile (cs.foldl (fun file c => qsap_change_cfg file c.1 c.2) file) (ls.map (changeLines cs)) := by
  induction cs generalizing file ls with
  | nil =>
    have hid : ls.map (changeLines []) = ls := map_id _
    rw [foldl_nil, hid]
    exact h
  | cons c _ ih =>
    have hrest := ih (h.change (hcs c mem_cons_self) c.2) fun c' hc => hcs c' (mem_cons_of_mem _ hc)
    rw [map_map] at hrest
    exact hrest

theorem SecFile.bufs (h : SecFile file ls) : fgetsBufs MAX_CONF_LINE_LEN [] file = ls.map (· ++ ['\n']) := by
  have hmax : MAX_CONF_LINE_LEN = 156 := rfl
  have hlen : ∀ l ∈ ls, l.length + 1 < MAX_CONF_LINE_LEN := by
    intro l hl
    rcases h.short l hl with _ | ⟨_, -⟩ <;> omega
  rw [h.text, ← append_nil (unlines ls), fgetsBufs_unlines (by decide)
    (fun l hl => ⟨h.lf l hl, by have := hlen l hl; omega⟩) not_mem_nil (by decide), if_pos rfl, append_nil,
    ← flatMap_pure_eq_map]
  exact flatMap_congr fun l hl => if_pos (hlen l hl)

/-! ### The value of `wpa` -/

/-- The line of `wpa` with a value. -/
def wpaLine (v : Char) : List Char := "wpa".toList ++ '=' :: [v]

theorem fits_wpa {v : Char} (hv : v = '1' ∨ v = '2' ∨ v = '3') : Fits (noDefault "wpa").name [v] := by
  rcases hv with rfl | rfl | rfl <;> exact ⟨by decide, by decide, by decide⟩

theorem isParam_wpaLine (v : Char) : isParam "wpa" (wpaLine v) = true := rfl

theorem SecFile.write (h : SecFile file ls) {v : Char} (hv : v = '1' ∨ v = '2' ∨ v = '3') :
    ∃ A B, SecFile (qsap_write_cfg file (noDefault "wpa") [v] false) (A ++ wpaLine v :: B) ∧
      (∀ l ∈ A, isParam "wpa" l = false) ∧ (∀ l ∈ A ++ B, l ∈ ls) ∧
      (A ++ B).filter (fun l => secParams.all fun name => !isParam name l) =
        ls.filter (fun l => secParams.all fun name => !isParam name l) := by
  have hnew := newLine_eq (fits_wpa hv)
  have hline : ∀ l, isLineOf (noDefault "wpa").name (pline (l ++ ['\n'])) = isParam "wpa" l :=
    fun l => isLineOf_append_newline (by decide) l
  have hother : ∀ l, isParam "wpa" l = true → (secParams.all fun name => !isParam name l) = false := by
    intro l hl
    rw [all_eq_false]
    exact ⟨"wpa", by decide, by simp [hl]⟩
  have hshort : (wpaLine v).length < MAX_CONF_LINE_LEN - 2 := by
    show _ < 154
    simp [wpaLine]
  have hlf : '\n' ∉ wpaLine v := by rcases hv with rfl | rfl | rfl <;> decide
  obtain hnone | ⟨l, hfind⟩ := Option.eq_none_or_eq_some (ls.find? (isParam "wpa"))
  · -- There is none: the line is appended.
    have hno : ∀ l ∈ ls, isParam "wpa" l = false := fun l hl => Bool.eq_false_iff.2 (find?_eq_none.1 hnone l hl)
    have hloop := writeLoop_none (noDefault "wpa") [v] (by
      intro m (hm : m ∈ ls.map (· ++ ['\n']))
      obtain ⟨l, hl, rfl⟩ := mem_map.1 hm
      exact (hline l).trans (hno l hl))
    refine ⟨ls, [], ⟨?_, ?_, ?_, ?_⟩, hno, by simp, by rw [append_nil]⟩
    · rw [qsap_write_cfg, h.bufs, hloop, hnew]
      simp [unlines, flatMap_def, wpaLine, noDefault]
    · intro l hl
      rcases mem_append.1 hl with hl | hl
      · exact h.lf l hl
      · exact mem_singleton.1 hl ▸ hlf
    · intro l hl
      rcases mem_append.1 hl with hl | hl
      · exact h.short l hl
      · exact .inl (mem_singleton.1 hl ▸ hshort)
    · obtain ⟨l, hl, hkey⟩ := h.key
      exact ⟨l, mem_append_left _ hl, hkey⟩
  obtain ⟨hl, A, B, rfl, hA⟩ := find?_eq_some_iff_append.1 hfind
  have hA : ∀ m ∈ A, isParam "wpa" m = false := fun m hm => by simpa using hA m hm
  have hloop := writeLoop_first (noDefault "wpa") (B := B.map (· ++ ['\n'])) [v] (by
      intro m (hm : m ∈ A.map (· ++ ['\n']))
      obtain ⟨l, hl, rfl⟩ := mem_map.1 hm
      exact (hline l).trans (hA l hl)) ((hline l).trans hl)
  have hmem : ∀ m ∈ A ++ B, m ∈ A ++ l :: B := fun m hm => (sublist_cons_self l B).append_left A |>.subset hm
  have hnew_mem : ∀ m ∈ A ++ wpaLine v :: B, m = wpaLine v ∨ m ∈ A ++ B := fun m hm => by simpa [or_left_comm] using hm
  refine ⟨A, B, ⟨?_, ?_, ?_, ?_⟩, hA, hmem, ?_⟩
  · rw [qsap_write_cfg, h.bufs, map_append, map_cons, hloop, hnew]
    simp [unlines, flatMap_def, wpaLine, noDefault]
  · intro m hm
    rcases hnew_mem m hm with rfl | hm
    · exact hlf
    · exact h.lf m (hmem m hm)
  · intro m hm
    rcases hnew_mem m hm with rfl | hm
    · exact .inl hshort
    · exact h.short m (hmem m hm)
  · obtain ⟨k, hk, hkey⟩ := h.key
    have hne : k ≠ l := by
      rintro rfl
      exact absurd (eq_of_isLineOf (by decide) (by decide) hkey hl) (by decide)
    refine ⟨k, ?_, hkey⟩
    simp only [mem_append, mem_cons] at hk ⊢
    tauto
  · rw [filter_append, filter_append, filter_cons_of_neg]
    rw [hother l hl]
    exact Bool.false_ne_true

/-! ### The mode -/

theorem readLoop_lines (hname : '=' ∉ pcmd.name) (ls : List (List Char)) :
    readLoop pcmd false (ls.map (· ++ ['\n'])) =
      (ls.find? fun l => isOn l && isLineOf pcmd.name (pline l)).map fun l => trimEnd (pline l) := by
  induction ls with
  | nil => rfl
  | cons l _ ih =>
    have hhead : (l ++ ['\n']).head? = some '#' ↔ isOn l = false := by
      cases l <;> simp [isOn]
    simp only [map_cons, readLoop, hhead, isLineOf_append_newline hname, ih, find?_cons]
    rcases hon : isOn l with - | -
    · rfl
    · rcases hline : isLineOf pcmd.name (pline l) with - | -
      · rfl
      · simp [pline_append_newline, trimEnd_append_newline]

theorem SecFile.read (h : SecFile file ls) (hname : '=' ∉ (noDefault name).name) (hplen : 28 ≤ plen) :
    (qsap_read_cfg file (noDefault name) plen none false).1 =
      (ls.find? fun l => isOn l && isParam name l).elim ERR_FEATURE_NOT_ENABLED fun l =>
        scnprintf plen (SUCCESS ++ ' ' :: trimEnd (pline l)) := by
  rw [qsap_read_cfg, h.bufs, readLoop_lines hname]
  show (Prod.fst _) = (ls.find? fun l => isOn l && isLineOf (noDefault name).name (pline l)).elim _ _
  rcases ls.find? fun l => isOn l && isLineOf (noDefault name).name (pline l) with - | l
  · show scnprintf plen ERR_FEATURE_NOT_ENABLED = ERR_FEATURE_NOT_ENABLED
    apply scnprintf_of_lt
    exact Nat.lt_of_lt_of_le (by decide) hplen
  · rfl

theorem success_ne_err (hplen : 28 ≤ plen) (r : List Char) :
    scnprintf plen (SUCCESS ++ ' ' :: r) ≠ ERR_FEATURE_NOT_ENABLED := by
  obtain ⟨n, rfl⟩ : ∃ n, plen = n + 2 := ⟨plen - 2, by omega⟩
  intro h
  have hhead := congrArg head? h
  cases hhead

theorem wpaVal_digit {v : Char} (h : mode.wpaVal = some v) : v = '1' ∨ v = '2' ∨ v = '3' := by
  cases mode <;> cases h <;> decide

theorem SecFile.set (h : SecFile file ls) (hmode : mode ≠ .INVALID) :
    ∃ ls', SecFile (qsap_set_security_mode file mode) (ls'.map (changeLines (secChanges mode))) ∧
      (∀ l ∈ ls', l ∈ ls ∨ isParam "wpa" l ∧ mode.wpaVal.isSome) ∧
      (mode.wpaVal = none → ls' = ls) ∧
      (∀ v, mode.wpaVal = some v → (ls'.find? (isParam "wpa")) = some (wpaLine v)) ∧
      ls'.filter (fun l => secParams.all fun name => !isParam name l) =
        ls.filter (fun l => secParams.all fun name => !isParam name l) := by
  have hcs : ∀ c ∈ secChanges mode, IsName c.1.name := by
    intro c hc
    obtain ⟨name, hname, hc, -⟩ := secChanges_spec c hc
    rw [hc]
    exact isName_secParams name hname
  rw [qsap_set_security_mode, if_neg hmode]
  rcases hv : mode.wpaVal with - | v
  · exact ⟨ls, h.changes hcs, fun l hl => .inl hl, fun _ => rfl, nofun, rfl⟩
  obtain ⟨A, B, hfile, hA, hmem, hother⟩ := h.write (wpaVal_digit hv)
  refine ⟨A ++ wpaLine v :: B, hfile.changes hcs, fun l hl => ?_, nofun,
    fun w hw => ?_, ?_⟩
  · rcases mem_append.1 hl with hl | hl
    · exact .inl (hmem l (mem_append_left _ hl))
    · rcases mem_cons.1 hl with rfl | hl
      · exact .inr ⟨isParam_wpaLine v, rfl⟩
      · exact .inl (hmem l (mem_append_right _ hl))
  · cases hw
    rw [find?_append, find?_eq_none.2 fun l hl => Bool.eq_false_iff.1 (hA l hl)]
    rfl
  rw [← hother, filter_append, filter_append, filter_cons_of_neg]
  rw [all_eq_true]
  intro hall
  have hwpa := hall "wpa" (by decide)
  rw [isParam_wpaLine] at hwpa
  cases hwpa

theorem isOn_secChanges (hmode : mode ≠ .INVALID) (hname : name ∈ secParams) (hl : isParam name l) :
    isOn (changeLines (secChanges mode) l) =
      if name ≠ "wpa_pairwise" ∨ mode.wpaVal.isSome = true then decide (name ∈ mode.params) else isOn l := by
  have hcs : ∀ c ∈ secChanges mode, IsName c.1.name ∧ (isLineOf c.1.name (pline l) = true →
      c.1 = noDefault name ∧ c.2 = decide (name ∈ mode.params)) := by
    intro c hc
    obtain ⟨name', hname', hc, hflag⟩ := secChanges_spec c hc
    rw [hc]
    refine ⟨isName_secParams name' hname', fun hline => ?_⟩
    obtain rfl : name' = name := String.toList_injective
      (eq_of_isLineOf (isName_secParams _ hname').2.2.1 (isName_secParams _ hname).2.2.1 hline hl)
    exact ⟨rfl, hflag⟩
  split_ifs with hpair
  · obtain ⟨c, hc, hcname⟩ := exists_secChange hname hmode hpair
    exact isOn_changeLines (fun c hc => (hcs c hc).1) ⟨c, hc, hcname ▸ hl⟩ fun c hc hline => ((hcs c hc).2 hline).2
  -- no change is one of the line
  rw [not_or, not_not] at hpair
  obtain ⟨rfl, hnone⟩ := hpair
  rw [changeLines_of_not]
  intro c hc
  rw [← Bool.not_eq_true]
  intro hline
  exact secChanges_pairwise (by simpa using hnone) c hc ((hcs c hc).2 hline).1

theorem params_pairwise (h : mode.wpaVal = none) : "wpa_pairwise" ∉ mode.params := by
  cases mode <;> cases h <;> decide

theorem isParam_changeLines (name : String) (l : List Char) :
    isParam name (changeLines (secChanges mode) l) = isParam name l := by
  rw [isParam, pline_changeLines, isParam]
  intro c hc
  obtain ⟨name, hname, hc, -⟩ := secChanges_spec c hc
  rw [hc]
  exact isName_secParams name hname

theorem read_secChanges (name : String) (hset : SecFile file (ls.map (changeLines (secChanges mode)))) (hmode : mode ≠ .INVALID)
    (hname : name ∈ secParams) (hpair : name ≠ "wpa_pairwise") (hplen : 28 ≤ plen) :
    (qsap_read_cfg file (noDefault name) plen none false).1 =
      (ls.find? fun l => decide (name ∈ mode.params) && isParam name l).elim ERR_FEATURE_NOT_ENABLED fun l =>
        scnprintf plen (SUCCESS ++ ' ' :: trimEnd (pline (changeLines (secChanges mode) l))) := by
  have hon : (fun l => isOn l && isParam name l) ∘ changeLines (secChanges mode) =
      fun l => decide (name ∈ mode.params) && isParam name l := by
    funext l
    rw [comp_apply, isParam_changeLines]
    rcases hl : isParam name l with - | -
    · rw [Bool.and_false, Bool.and_false]
    · rw [isOn_secChanges hmode hname hl, if_pos (.inl hpair)]
  rw [hset.read (isName_secParams name hname).2.2.1 hplen, find?_map, hon]
  rcases ls.find? fun l => decide (name ∈ mode.params) && isParam name l with - | l <;> rfl

theorem SecFile.reads (h : SecFile file ls) (hmode : mode ≠ .INVALID) (hplen : 28 ≤ plen) :
    qsap_read_security_mode (qsap_set_security_mode file mode) plen =
      (mode, SUCCESS ++ ' ' :: "security_mode=".toList ++ [mode.digit]) := by
  obtain ⟨ls', hset, -, hsame, hfirst, -⟩ := h.set hmode
  have hread := fun name hname hpair => read_secChanges name hset hmode hname hpair hplen
  have hoff : ∀ name ∈ secParams, name ≠ "wpa_pairwise" → name ∉ mode.params →
      (qsap_read_cfg (qsap_set_security_mode file mode) (noDefault name) plen none false).1 =
        ERR_FEATURE_NOT_ENABLED := by
    intro name hname hpair hno
    rw [hread name hname hpair, find?_eq_none.2 fun l _ => by simp [hno]]
    rfl
  have htext : ∀ m : SecMode, scnprintf plen (SUCCESS ++ ' ' :: "security_mode=".toList ++ [m.digit]) =
      SUCCESS ++ ' ' :: "security_mode=".toList ++ [m.digit] :=
    fun m => scnprintf_of_lt (Nat.lt_of_lt_of_le (by cases m <;> decide) hplen)
  -- the text that is read of `wpa`
  have hval : ∀ v, mode.wpaVal = some v →
      (qsap_read_cfg (qsap_set_security_mode file mode) (noDefault "wpa") plen none false).1 =
        SUCCESS ++ ' ' :: wpaLine v := by
    intro v hv
    have hfind : ls'.find? (fun l => decide ("wpa" ∈ mode.params) && isParam "wpa" l) = some (wpaLine v) := by
      have hmem : "wpa" ∈ mode.params := by cases mode <;> cases hv <;> decide
      rw [← hfirst v hv]
      simp [hmem]
    rw [hread "wpa" (by decide) (by decide), hfind, Option.elim_some, scnprintf_of_lt]
    · cases mode <;> cases hv <;> decide
    · apply Nat.lt_of_lt_of_le _ hplen
      cases mode <;> cases hv <;> decide
  rw [qsap_read_security_mode]
  rcases mode with - | - | - | - | - | -
  · rw [if_pos (hoff "wep_default_key" (by decide) (by decide) (by decide)),
      if_pos (hoff "wpa" (by decide) (by decide) (by decide))]
    exact Prod.ext rfl (htext .NONE)
  · obtain ⟨l, hl, hparam⟩ := h.key
    rw [if_neg, if_pos (hoff "wpa" (by decide) (by decide) (by decide)), htext .WEP]
    rw [hread "wep_default_key" (by decide) (by decide)]
    rcases hfind : ls'.find? _ with - | x
    · rw [← hsame rfl] at hl
      have hno := find?_eq_none.1 hfind l hl
      rw [hparam] at hno
      exact absurd rfl hno
    · exact success_ne_err hplen _
  all_goals first
    | exact absurd rfl hmode
    | rw [if_pos (hoff "wep_default_key" (by decide) (by decide) (by decide)), hval _ rfl, if_neg (by decide)]
      exact Prod.ext rfl (htext _)

/-- **Setting a mode** is right unless it has no WPA and the pairwise cipher of WPA is enabled. -/
theorem SecFile.right_iff (h : SecFile file ls) (hmode : mode ≠ .INVALID) (hplen : 28 ≤ plen) :
    SecRight file mode plen ↔
      mode.wpaVal.isSome ∨ ∀ l ∈ ls, isParam "wpa_pairwise" l → isOn l = false := by
  obtain ⟨_, hset, -, hsame, -, hother⟩ := h.set hmode
  constructor
  · intro hright
    rw [or_iff_not_imp_left, Bool.not_eq_true, Option.isSome_eq_false_iff, Option.isNone_iff_eq_none]
    intro hnone l hl hpair
    rw [← hsame hnone] at hl
    have hline := hright.params (changeLines (secChanges mode) l) (hset.fileLines ▸ mem_append_left _ (mem_map_of_mem hl))
      "wpa_pairwise" (by decide) ((isParam_changeLines _ l).trans hpair)
    rw [isOn_secChanges hmode (by decide) hpair, if_neg (by simp [hnone])] at hline
    exact Bool.eq_false_iff.2 fun hon => params_pairwise hnone (hline.1 hon)
  intro hpair
  refine ⟨h.reads hmode hplen, fun l hl name hname hparam => ?_, ?_⟩
  · rw [hset.fileLines] at hl
    rcases mem_append.1 hl with hl | hl
    · obtain ⟨m, hm, rfl⟩ := mem_map.1 hl
      rw [isParam_changeLines] at hparam
      rw [isOn_secChanges hmode hname hparam]
      split_ifs with hcase
      · exact decide_eq_true_iff
      rw [not_or, not_not] at hcase
      obtain ⟨rfl, hnone⟩ := hcase
      rw [Bool.not_eq_true, Option.isSome_eq_false_iff, Option.isNone_iff_eq_none] at hnone
      rw [hsame hnone] at hm
      have hoff := hpair.resolve_left (by simp [hnone]) m hm hparam
      exact iff_of_false (by rw [hoff]; exact Bool.false_ne_true) (params_pairwise hnone)
    · rw [mem_singleton.1 hl, isParam] at hparam
      rw [show pline [] = [] from rfl, isLineOf_nil] at hparam
      cases hparam
  have hkeep : ∀ l, (secParams.all fun name => !isParam name l) = true → changeLines (secChanges mode) l = l := by
    intro l hl
    apply changeLines_of_not
    intro c hc
    obtain ⟨name, hname, hc, -⟩ := secChanges_spec c hc
    rw [hc]
    exact Bool.not_eq_true' _ ▸ all_eq_true.1 hl name hname
  have hsame : (fun l => secParams.all fun name => !isParam name l) ∘ changeLines (secChanges mode) =
      fun l => secParams.all fun name => !isParam name l := by
    funext l
    simp only [comp_apply, isParam_changeLines]
  rw [hset.fileLines, h.fileLines, filter_append, filter_append, filter_map, hsame, ← hother]
  congr 1
  exact (map_congr_left fun l hl => hkeep l (mem_filter.1 hl).2).trans (map_id _)

theorem SecFile.settings (h : SecFile file ls) (before : List SecMode) :
    ∃ ls', SecFile (before.foldl qsap_set_security_mode file) ls' := by
  induction before generalizing file ls with
  | nil => exact ⟨ls, h⟩
  | cons mode _ ih =>
    rw [foldl_cons]
    rcases eq_or_ne mode .INVALID with rfl | hmode
    · exact ih h
    · obtain ⟨_, hset, -⟩ := h.set hmode
      exact ih hset

/-- **The security mode.**  After any settings, the next one is right if it is for WPA, or if the pairwise cipher of WPA
is not enabled before it: no change disables this parameter. -/
theorem secMode_iff (ls : List (List Char)) (before : List SecMode) (mode : SecMode) (plen : ℕ)
    (hls : ∀ l ∈ ls, '\n' ∉ l ∧ l.length + 1 < MAX_CONF_LINE_LEN - 1)
    (hkey : ∃ l ∈ ls, isParam "wep_default_key" l) (hmode : mode ≠ .INVALID) (hplen : 28 ≤ plen) :
    SecRight (before.foldl qsap_set_security_mode (unlines ls)) mode plen ↔
      mode.wpaVal.isSome ∨ ∀ l ∈ fileLines (before.foldl qsap_set_security_mode (unlines ls)),
        isParam "wpa_pairwise" l → isOn l = false := by
  have hfile : SecFile (unlines ls) ls :=
    ⟨rfl, fun l hl => (hls l hl).1, fun l hl => .inl (by have := (hls l hl).2; omega), hkey⟩
  obtain ⟨_, h⟩ := hfile.settings before
  rw [h.right_iff hmode hplen, h.fileLines, forall_mem_append]
  have hnil : ∀ l ∈ [[]], isParam "wpa_pairwise" l = true → isOn l = false := by
    intro l hl hparam
    cases mem_singleton.1 hl
    cases hparam
  rw [and_iff_left hnil]

theorem secMode_iff_sample : SecRight ([SecMode.WEP].foldl qsap_set_security_mode (unlines
    ["#wep_default_key=0".toList, "#wpa_pairwise=TKIP".toList])) .WPA_PSK 28 :=
  (secMode_iff _ _ _ _ (by decide) ⟨_, mem_cons_self, rfl⟩ (by decide) (Nat.le_refl _)).mpr (.inl rfl)

/-- An open network after one with WPA: the cipher of WPA stays enabled. -/
theorem pairwise_left : ¬ ∀ (ls : List (List Char)) (before : List SecMode) (mode : SecMode) (plen : ℕ),
    (∀ l ∈ ls, '\n' ∉ l ∧ l.length + 1 < MAX_CONF_LINE_LEN - 1) →
      (∃ l ∈ ls, isParam "wep_default_key" l) → mode ≠ .INVALID → 28 ≤ plen →
        SecRight (before.foldl qsap_set_security_mode (unlines ls)) mode plen := by
  intro h
  have hright := h ["#wep_default_key=0".toList, "#wpa_pairwise=TKIP".toList] [.WPA_PSK] .NONE 28 (by decide)
    ⟨_, mem_cons_self, rfl⟩ (by decide) (Nat.le_refl _)
  have hline := hright.params "wpa_pairwise=TKIP".toList (by decide) "wpa_pairwise" (by decide) rfl
  exact nomatch hline.1 rfl

end G4Common.SoftAp
