/-
The WEP keys of the access point (`is_valid_wep_key()`, `qsap_read_wep_key()` and `qsap_get_from_config()`).

A key of ASCII characters is stored with quotes, one of hexadecimal digits without; what is read of the file loses its
quotes again, and then the blanks at its end.  The check of the characters starts with the last but one, so the last
character of a key can be any; and a key that ends with a blank is not what is read (`wepKey_iff`).

Where the file has no line of the parameter the new line is appended to it, which makes a line of its own if the text
before ends with a line end, or fills a buffer, or is a `#` (`OwnLine`).
-/
import G4Common.SoftAp.SecMode

namespace G4Common.SoftAp

open CString List

/-! ### Checking and reading -/

def MAX_FILE_PATH_LEN : ℕ := 128

def isascii (c : Char) : Bool := c.toNat < 128

def isxdigit (c : Char) : Bool := (Scanf.hexVal c).isSome

/-- `while(weplen--)`: the characters from `weplen - 1` down to the first are of a kind. -/
def checkDown (ok : Char → Bool) (pwep : List Char) : ℕ → Bool
  | 0 => true
  | weplen + 1 => ok (pwep.getD weplen '\x00') && checkDown ok pwep weplen

/-- The key without quotes around it. -/
def unquoted (pwep : List Char) : List Char :=
  if pwep.head? = some '"' ∧ pwep.getLast? = some '"' then pwep.tail.dropLast else pwep

/-- `is_valid_wep_key()`: the key that is stored, in a buffer of `len` characters, unless it returns `FALSE`. -/
def is_valid_wep_key (pwep : List Char) (len : ℕ) : Option (List Char) :=
  let key := unquoted pwep
  if key.length = 5 ∨ key.length = 13 ∨ key.length = 16 then
    if checkDown isascii key (key.length - 1) then some (scnprintf len ('"' :: key ++ ['"'])) else none
  else if key.length = 10 ∨ key.length = 26 ∨ key.length = 32 then
    if checkDown isxdigit key key.length then some (scnprintf len key) else none
  else none

/-- `qsap_read_wep_key()`: the response, and its length. -/
def qsap_read_wep_key (file : List Char) (pcmd : Command) (plen : ℕ) : List Char × ℕ :=
  let (presp, err) := qsap_read_cfg file pcmd plen none true
  if err ≠ .eSUCCESS then (presp, presp.length)
  else
    let pwep := (presp.dropWhile (· ≠ '=')).tail
    if pwep.head? = some '"' then
      -- the quote is written over, and so is the last character
      ((presp.takeWhile (· ≠ '=') ++ '=' :: pwep.tail).dropLast, presp.length - 2)
    else (presp, presp.length)

/-- The last character of the response that is no blank. -/
def trimBlanks (presp : List Char) : ℕ → ℕ
  | 0 => 0
  | len + 1 =>
    if presp[len + 1]? = some ' ' ∨ presp[len + 1]? = some '\t' then trimBlanks presp len else len + 1

/-- `qsap_get_from_config()` for a WEP key. -/
def qsap_get_wep_key (file : List Char) (pcmd : Command) (plen : ℕ) : List Char × ℕ :=
  let (presp, plen) := qsap_read_wep_key file pcmd plen
  let len := trimBlanks presp (plen - 1)
  (presp.take (len + 1), len + 1)

/-! ### What is wanted -/

/-- A key of ASCII characters or hexadecimal digits, of the lengths that there are. -/
def IsWepKey (key : List Char) : Prop :=
  (key.length = 5 ∨ key.length = 13 ∨ key.length = 16) ∧ (∀ c ∈ key, isascii c = true) ∨
    (key.length = 10 ∨ key.length = 26 ∨ key.length = 32) ∧ ∀ c ∈ key, isxdigit c = true

def wepNames : List String := ["wep_key0", "wep_key1", "wep_key2", "wep_key3"]

def keyText (name : String) (key : List Char) : List Char := SUCCESS ++ ' ' :: name.toList ++ '=' :: key

/-- The keys are accepted, and a key that was stored is returned, with the length of the response. -/
def WepRight (pwep file : List Char) (name : String) : Prop :=
  ((is_valid_wep_key pwep MAX_FILE_PATH_LEN).isSome = true ↔ IsWepKey (unquoted pwep)) ∧
    ∀ key, is_valid_wep_key pwep MAX_FILE_PATH_LEN = some key → ∀ plen, 64 ≤ plen →
      qsap_get_wep_key (qsap_write_cfg file (noDefault name) key false) (noDefault name) plen =
        (keyText name (unquoted pwep), (keyText name (unquoted pwep)).length)

/-- The file has a line of the parameter, or the line that is appended becomes one. -/
def OwnLine (file : List Char) (name : String) (key : List Char) : Prop :=
  (∃ buf ∈ fgetsBufs MAX_CONF_LINE_LEN [] file, isParam name buf = true) ∨
    newLine (noDefault name) key ∈ fgetsBufs MAX_CONF_LINE_LEN [] (file ++ newLine (noDefault name) key) ∨
    '#' :: newLine (noDefault name) key ∈ fgetsBufs MAX_CONF_LINE_LEN [] (file ++ newLine (noDefault name) key)

variable {name : String} {w s file : List Char} {size : ℕ} {A : List (List Char)}

/-! ### Buffers -/

/-- A buffer that `fgets()` returns, whatever follows it. -/
def Complete (size : ℕ) (b : List Char) : Prop := ∀ t, fgetsBufs size [] (b ++ t) = b :: fgetsBufs size [] t

theorem fgetsBufs_complete (hA : ∀ b ∈ A, Complete size b) (t : List Char) :
    fgetsBufs size [] (A.flatten ++ t) = A ++ fgetsBufs size [] t := by
  induction A with
  | nil => rfl
  | cons b _ ih =>
    rw [flatten_cons, append_assoc, hA b mem_cons_self, ih fun b' hb => hA b' (mem_cons_of_mem _ hb)]
    rfl

theorem exists_buffers {acc : List Char} (hacc : ∀ t, fgetsBufs size [] (acc ++ t) = fgetsBufs size acc t)
    (s : List Char) : ∃ (A : List (List Char)) (o : List Char), acc ++ s = A.flatten ++ o ∧
      (∀ b ∈ A, Complete size b) ∧ ∀ t, fgetsBufs size [] (o ++ t) = fgetsBufs size o t := by
  induction s generalizing acc with
  | nil => exact ⟨[], acc, append_nil _, nofun, hacc⟩
  | cons c _ ih =>
    have hstep : ∀ t, fgetsBufs size [] (acc ++ [c] ++ t) = fgetsBufs size acc (c :: t) := by
      intro t
      rw [append_assoc]
      exact hacc _
    by_cases hc : c = '\n' ∨ acc.length + 1 = size - 1
    · obtain ⟨A, o, hs, hA, ho⟩ := ih fun _ => (rfl : fgetsBufs size [] ([] ++ _) = _)
      refine ⟨(acc ++ [c]) :: A, o, ?_, forall_mem_cons.2 ⟨fun t => ?_, hA⟩, ho⟩
      · rw [flatten_cons, append_assoc, ← hs, append_assoc]
        rfl
      · rw [hstep, fgetsBufs, if_pos hc]
    · obtain ⟨A, o, hs, hA, ho⟩ := ih fun t => by rw [hstep, fgetsBufs, if_neg hc]
      exact ⟨A, o, by rw [← hs, append_assoc]; rfl, hA, ho⟩

theorem exists_first_buffer (size : ℕ) (acc : List Char) (hs : s ≠ []) :
    ∃ p q, s = p ++ q ∧ p ≠ [] ∧ fgetsBufs size acc s = (acc ++ p) :: fgetsBufs size [] q := by
  induction s generalizing acc with
  | nil => exact absurd rfl hs
  | cons c s ih =>
    rw [fgetsBufs]
    split_ifs
    · exact ⟨[c], s, rfl, cons_ne_nil _ _, rfl⟩
    rcases eq_or_ne s [] with rfl | hne
    · exact ⟨[c], [], rfl, cons_ne_nil _ _, by simp [fgetsBufs]⟩
    · obtain ⟨p, q, rfl, -, hbufs⟩ := ih (acc ++ [c]) hne
      exact ⟨c :: p, q, rfl, cons_ne_nil _ _, by rw [hbufs, append_assoc]; rfl⟩

theorem flatten_fgetsBufs (size : ℕ) (acc s : List Char) : (fgetsBufs size acc s).flatten = acc ++ s := by
  induction s generalizing acc with
  | nil =>
    rw [fgetsBufs]
    split_ifs with h <;> simp [h]
  | cons _ _ ih =>
    rw [fgetsBufs]
    split_ifs <;> simp [ih]

theorem complete_line {l : List Char} (hl : '\n' ∉ l) (hlen : l.length + 1 < MAX_CONF_LINE_LEN) :
    Complete MAX_CONF_LINE_LEN (l ++ ['\n']) := by
  intro t
  rw [append_assoc, singleton_append, fgetsBufs_cons_line (by decide) (by decide) hl (by rw [nil_append]; exact Nat.lt_of_succ_lt hlen),
    nil_append, lineBufs, if_pos hlen]
  rfl

/-! ### The line of a key -/

variable {key : List Char}

/-- The line as it is written. -/
abbrev keyLine (name : String) (key : List Char) : List Char := newLine (noDefault name) key

theorem readLoop_any (bufs : List (List Char)) : readLoop (noDefault name) true bufs =
    (bufs.find? (isParam name)).map fun b => trimEnd (pline b) := by
  induction bufs with
  | nil => rfl
  | cons b _ ih =>
    rw [readLoop, if_neg (by simp), find?_cons, ih]
    show (if isParam name b = true then _ else _) = _
    rcases isParam name b with - | - <;> rfl

variable (hname : name ∈ wepNames) (hkey : Fits name.toList key) (hlen : key.length ≤ 34)

include hname in
theorem isName_wepNames : IsName name.toList := by
  revert name
  decide

include hkey in
theorem keyLine_eq : keyLine name key = name.toList ++ '=' :: (key ++ ['\n']) := by
  rw [keyLine, newLine_eq hkey]
  simp [noDefault]

include hname hkey in
theorem pline_keyLine : pline (keyLine name key) = keyLine name key ∧
    trimEnd (keyLine name key) = name.toList ++ '=' :: key := by
  rw [keyLine_eq hkey]
  refine ⟨pline_newLine (isName_wepNames hname) _, ?_⟩
  rw [trimEnd_append_cons (by decide), trimEnd_append_newline, trimEnd_of_notMem hkey.cr hkey.lf]

include hname hkey in
theorem isParam_keyLine : isParam name (keyLine name key) = true := by
  rw [isParam, (pline_keyLine hname hkey).1, keyLine_eq hkey]
  exact isLineOf_iff.2 ⟨_, rfl⟩

include hname in
theorem length_wepNames : name.toList.length = 8 := by
  revert name
  decide

include hname hkey hlen in
theorem complete_keyLine : Complete MAX_CONF_LINE_LEN (keyLine name key) ∧
    Complete MAX_CONF_LINE_LEN ('#' :: keyLine name key) := by
  have hlf : '\n' ∉ name.toList ++ '=' :: key := by
    simpa using ⟨(isName_wepNames hname).2.2.2.1, hkey.lf⟩
  have hmax : MAX_CONF_LINE_LEN = 156 := rfl
  have hshort : (name.toList ++ '=' :: key).length < 154 := by
    rw [length_append, length_wepNames hname, length_cons]
    omega
  have hline : keyLine name key = (name.toList ++ '=' :: key) ++ ['\n'] := newLine_eq hkey
  rw [hline]
  exact ⟨complete_line hlf (by omega),
    complete_line (mt (mem_cons.1 ·) (by simpa using hlf)) (by rw [length_cons]; omega)⟩

include hname in
/-- The name of a key can begin again only behind its `=`. -/
theorem nine_le {t u y : List Char} (h : name.toList ++ '=' :: t = u ++ 'w' :: y) (hu : u ≠ []) : 9 ≤ u.length := by
  have hw : ∀ name ∈ wepNames, ∀ i < 9, (name.toList ++ ['='])[i]? = some 'w' → i = 0 := by decide
  have hlen := length_wepNames hname
  by_contra hlt
  have hget := congrArg (·[u.length]?) h
  rw [append_cons, getElem?_append_left (by simp; omega), getElem?_append_right (Nat.le_refl _), Nat.sub_self] at hget
  exact hu (eq_nil_of_length_eq_zero (hw name hname u.length (by omega) hget))

include hname hkey hlen in
/-- The new line is appended: the last buffer of the file is filled up with it. -/
theorem append_bufs (hnone : ∀ b ∈ fgetsBufs MAX_CONF_LINE_LEN [] file, isParam name b = false) :
    ∃ (A : List (List Char)) (o p q : List Char), fgetsBufs MAX_CONF_LINE_LEN [] (file ++ keyLine name key) =
        A ++ (o ++ p) :: fgetsBufs MAX_CONF_LINE_LEN [] q ∧
      (∀ b ∈ A, isParam name b = false) ∧ (o ≠ [] → isParam name o = false) ∧ keyLine name key = p ++ q ∧ p ≠ [] ∧
      (o = [] ∨ o = ['#'] → q = []) := by
  obtain ⟨A, o, hs, hA, ho⟩ := exists_buffers (fun _ => (rfl : fgetsBufs MAX_CONF_LINE_LEN [] ([] ++ _) = _)) file
  have hfile : ∀ t, fgetsBufs MAX_CONF_LINE_LEN [] (file ++ t) = A ++ fgetsBufs MAX_CONF_LINE_LEN o t := by
    intro t
    rw [← nil_append file, hs, append_assoc, fgetsBufs_complete hA, ho]
  have hne : keyLine name key ≠ [] := by
    rw [keyLine_eq hkey]
    exact append_ne_nil_of_left_ne_nil (isName_wepNames hname).1 _
  obtain ⟨p, q, hline, hp, hbufs⟩ := exists_first_buffer MAX_CONF_LINE_LEN o hne
  have hold := hfile []
  rw [append_nil] at hold
  refine ⟨A, o, p, q, by rw [hfile, hbufs], fun b hb => hnone b (hold ▸ mem_append_left _ hb), fun hone => ?_, hline,
    hp, fun hown => ?_⟩
  · apply hnone
    rw [hold, fgetsBufs, if_neg hone]
    exact mem_append_right _ (mem_singleton_self o)
  have hcomplete : fgetsBufs MAX_CONF_LINE_LEN [] (o ++ keyLine name key) = [o ++ keyLine name key] := by
    rcases hown with rfl | rfl
    · have h := (complete_keyLine hname hkey hlen).1 []
      rwa [append_nil] at h
    · have h := (complete_keyLine hname hkey hlen).2 []
      rwa [append_nil] at h
  rw [ho, hbufs] at hcomplete
  have hq := append_cancel_left ((cons.inj hcomplete).1.trans (congrArg (o ++ ·) hline))
  exact self_eq_append_right.1 hq

/-! ### What is found -/

include hname hkey hlen in
/-- The value is found if the file has a line for it, or if the new line is one of its own. -/
theorem found_of_ownLine (h : OwnLine file name key) : readLoop (noDefault name) true
    (fgetsBufs MAX_CONF_LINE_LEN [] (qsap_write_cfg file (noDefault name) key false)) =
      some (name.toList ++ '=' :: key) := by
  have htext := pline_keyLine hname hkey
  have hparam := isParam_keyLine hname hkey
  rw [readLoop_any, qsap_write_cfg]
  obtain hnone | ⟨b, hfind⟩ :=
    Option.eq_none_or_eq_some ((fgetsBufs MAX_CONF_LINE_LEN [] file).find? (isParam name))
  · have hnone : ∀ b ∈ fgetsBufs MAX_CONF_LINE_LEN [] file, isParam name b = false :=
      fun b hb => Bool.eq_false_iff.2 (find?_eq_none.1 hnone b hb)
    rw [writeLoop_none (noDefault name) key hnone, flatten_fgetsBufs]
    obtain ⟨A, o, p, q, hbufs, hA, -, hline, hp, -⟩ := append_bufs hname hkey hlen hnone
    -- what is found is the buffer that the new line begins in
    have hmem : ∀ x, isParam name x = true → (keyLine name key).length ≤ x.length →
        x ∈ fgetsBufs MAX_CONF_LINE_LEN [] (file ++ keyLine name key) → x = o ++ p := by
      intro x hx hlong hmem
      rw [hbufs] at hmem
      rcases mem_append.1 hmem with hmem | hmem
      · rw [hA x hmem] at hx
        cases hx
      rcases mem_cons.1 hmem with hmem | hmem
      · exact hmem
      have hq := flatten_fgetsBufs MAX_CONF_LINE_LEN [] q
      have hle := hlong.trans (sublist_flatten_of_mem hmem).length_le
      rw [hq, hline, nil_append, length_append] at hle
      exact absurd (eq_nil_of_length_eq_zero (by omega)) hp
    have hc : o ++ p = keyLine name key ∨ o ++ p = '#' :: keyLine name key := by
      rcases h with ⟨x, hx, hx'⟩ | h | h
      · rw [hnone x hx] at hx'
        cases hx'
      · exact .inl (hmem _ hparam (Nat.le_refl _) h).symm
      · refine .inr (hmem _ ?_ (Nat.le_succ _) h).symm
        rw [← hparam, isParam, isParam, htext.1]
        rfl
    show Option.map _ (find? (isParam name) (fgetsBufs MAX_CONF_LINE_LEN [] (file ++ keyLine name key ++ []))) = _
    rw [append_nil, hbufs, find?_append, find?_eq_none.2 fun x hx => by rw [hA x hx]; exact Bool.false_ne_true]
    rcases hc with hc | hc
    · rw [hc, Option.none_or, find?_cons_of_pos hparam, Option.map_some, htext.1, htext.2]
    have hparam : isParam name ('#' :: keyLine name key) = true := by
      rw [← hparam, isParam, isParam, htext.1]
      rfl
    rw [hc, Option.none_or, find?_cons_of_pos hparam, Option.map_some, ← htext.2]
    rfl
  obtain ⟨hb, A, B, hbufs, hA⟩ := find?_eq_some_iff_append.1 hfind
  have hA : ∀ m ∈ A, isParam name m = false := fun m hm => by simpa using hA m hm
  rw [hbufs, writeLoop_first (noDefault name) key hA hb]
  have hcomplete : ∀ m ∈ A, Complete MAX_CONF_LINE_LEN m := by
    obtain ⟨_, o, hs, hA', ho⟩ := exists_buffers (fun _ => (rfl : fgetsBufs MAX_CONF_LINE_LEN [] ([] ++ _) = _)) file
    have hold := fgetsBufs_complete hA' o
    rw [← hs, nil_append, hbufs, ← append_nil o, ho, fgetsBufs] at hold
    intro m hm
    apply hA'
    rcases append_eq_append_iff.1 hold with ⟨a, rfl, -⟩ | ⟨a, rfl, ha⟩
    · exact mem_append_left _ hm
    rcases a with - | ⟨x, a⟩
    · simpa using hm
    · have hlen := congrArg length ha
      split_ifs at hlen <;> simp at hlen
  show Option.map _ (find? (isParam name) (fgetsBufs MAX_CONF_LINE_LEN []
    (A.flatten ++ (keyLine name key ++ B.flatten) ++ [] ++ []))) = _
  rw [append_nil, append_nil, fgetsBufs_complete hcomplete, (complete_keyLine hname hkey hlen).1, find?_append,
    find?_eq_none.2 fun x hx => by rw [hA x hx]; exact Bool.false_ne_true, Option.none_or, find?_cons_of_pos hparam,
    Option.map_some, htext.1, htext.2]

include hname hkey hlen in
/-- Otherwise at most a part of the key is found. -/
theorem found_of_not_ownLine (h : ¬OwnLine file name key) {t : List Char} (ht : readLoop (noDefault name) true
      (fgetsBufs MAX_CONF_LINE_LEN [] (qsap_write_cfg file (noDefault name) key false)) = some t) :
    t.length ≤ key.length + 1 := by
  simp only [OwnLine, not_or, not_exists, not_and, Bool.not_eq_true] at h
  obtain ⟨hnone, hown, hown'⟩ := h
  obtain ⟨A, o, p, q, hbufs, hA, ho, hline, hp, hq⟩ := append_bufs hname hkey hlen hnone
  obtain ⟨k, hk⟩ : ∃ k, name.toList = 'w' :: k := by
    have hhead : ∀ name ∈ wepNames, name.toList.head? = some 'w' := by decide
    exact head?_eq_some_iff.1 (hhead name hname)
  -- the text of a line of the parameter, behind what can be before it
  have hparam : ∀ b, isParam name b = true → ∃ x r, b = x ++ (name.toList ++ '=' :: r) ∧ (x = [] ∨ x = ['#']) ∧
      pline b = name.toList ++ '=' :: r := by
    intro b hb
    obtain ⟨r, hr⟩ := isLineOf_iff.1 hb
    rw [pline_eq_ite] at hr
    split_ifs at hr with hhead
    · obtain ⟨b, rfl⟩ := head?_eq_some_iff.1 hhead
      exact ⟨['#'], r, congrArg (_ :: ·) hr, .inr rfl, hr⟩
    · exact ⟨[], r, hr, .inl rfl, by rw [pline_eq_ite, if_neg hhead, hr]⟩
  obtain ⟨p', rfl⟩ : ∃ p', p = 'w' :: p' := by
    rcases p with - | ⟨c, p⟩
    · exact absurd rfl hp
    · rw [keyLine_eq hkey, hk] at hline
      exact ⟨p, congrArg (· :: p) (cons.inj hline).1.symm⟩
  -- a line that begins before the new line is one without it
  have hbefore : ∀ u r, u ++ 'w' :: p' = name.toList ++ '=' :: r → u ≠ [] → isLineOf name.toList u = true := by
    intro u r hu hne
    have hnine := nine_le hname hu.symm hne
    have hpre : name.toList ++ ['='] <+: u := by
      apply prefix_of_prefix_length_le ⟨r, (append_assoc _ _ _).trans hu.symm⟩ (prefix_append u _)
      rw [length_append, length_wepNames hname]
      exact hnine
    obtain ⟨r', rfl⟩ := hpre
    exact isLineOf_iff.2 ⟨r', append_assoc _ _ _⟩
  have hfirst : isParam name (o ++ 'w' :: p') = false := by
    rw [← Bool.not_eq_true]
    intro hc
    obtain ⟨x, r, hr, hx, -⟩ := hparam _ hc
    by_cases hone : o = [] ∨ o = ['#']
    · rw [hq hone, append_nil] at hline
      have hmem : o ++ keyLine name key ∈ fgetsBufs MAX_CONF_LINE_LEN [] (file ++ keyLine name key) := by
        rw [hbufs, hline]
        exact mem_append_right _ mem_cons_self
      rcases hone with rfl | rfl
      · exact hown hmem
      · exact hown' hmem
    rw [not_or] at hone
    have hold := ho hone.1
    rcases hx with rfl | rfl
    · rw [isParam, pline_of_head, hbefore o r hr hone.1] at hold
      · cases hold
      have hhead := congrArg head? hr
      rw [head?_append_of_ne_nil _ hone.1, hk] at hhead
      rw [hhead]
      exact by simp
    obtain ⟨c, o, rfl⟩ := exists_cons_of_ne_nil hone.1
    obtain ⟨rfl, htail⟩ := cons.inj (hr : c :: (o ++ 'w' :: p') = '#' :: (name.toList ++ '=' :: r))
    rw [isParam, pline, hbefore o r htail (by rintro rfl; exact hone.2 rfl)] at hold
    cases hold
  rw [readLoop_any, qsap_write_cfg, writeLoop_none (noDefault name) key hnone, flatten_fgetsBufs] at ht
  replace ht : Option.map (fun b => trimEnd (pline b))
      (find? (isParam name) (fgetsBufs MAX_CONF_LINE_LEN [] (file ++ keyLine name key ++ []))) = some t := ht
  rw [append_nil, hbufs, find?_append, find?_eq_none.2 fun x hx => by rw [hA x hx]; exact Bool.false_ne_true,
    Option.none_or, find?_cons_of_neg (by rw [hfirst]; exact Bool.false_ne_true), Option.map_eq_some_iff] at ht
  obtain ⟨b, hfind, rfl⟩ := ht
  obtain ⟨x, r, hb, -, hpl⟩ := hparam b (find?_some hfind)
  obtain ⟨C, C', hC⟩ := append_of_mem (mem_of_find?_eq_some hfind)
  have hrest := flatten_fgetsBufs MAX_CONF_LINE_LEN [] q
  rw [hC, nil_append] at hrest
  have htext : name.toList ++ '=' :: (key ++ ['\n']) =
      ('w' :: p' ++ C.flatten ++ x) ++ 'w' :: (k ++ '=' :: r ++ C'.flatten) := by
    rw [← keyLine_eq hkey, hline, ← hrest, flatten_append, flatten_cons, hb, hk]
    simp
  have hnine := nine_le hname htext (by simp)
  have hlength := congrArg length htext
  have htrim : (trimEnd (pline b)).length ≤ (pline b).length := ( rdropWhile_prefix _ _).length_le
  have hname := length_wepNames hname
  rw [hk] at hname
  rw [hpl] at htrim ⊢
  rw [hk] at htrim hlength ⊢
  simp only [length_append, length_cons, length_nil] at hlength hnine htrim hname
  omega

/-! ### The check -/

theorem checkDown_eq (ok : Char → Bool) {n : ℕ} (hn : n ≤ w.length) : checkDown ok w n = (w.take n).all ok := by
  induction n with
  | zero => rfl
  | succ n ih =>
    have hget : w.getD n '\x00' = w[n] := by simp [getD, getElem?_eq_getElem (by omega : n < w.length)]
    rw [checkDown, ih (by omega), hget, take_succ_eq_append_getElem (by omega), all_append, Bool.and_comm]
    simp

/-- The last character of an ASCII key is one, if the others are. -/
def LastAscii (key : List Char) : Prop :=
  (key.length = 5 ∨ key.length = 13 ∨ key.length = 16) → (∀ c ∈ key.dropLast, isascii c = true) →
    ∀ c, key.getLast? = some c → isascii c = true

def stored (key : List Char) : List Char :=
  if key.length = 5 ∨ key.length = 13 ∨ key.length = 16 then '"' :: key ++ ['"'] else key

theorem is_valid_wep_key_eq (pwep : List Char) : is_valid_wep_key pwep MAX_FILE_PATH_LEN =
    if (((unquoted pwep).length = 5 ∨ (unquoted pwep).length = 13 ∨ (unquoted pwep).length = 16) ∧
        ∀ c ∈ (unquoted pwep).dropLast, isascii c) ∨
      (((unquoted pwep).length = 10 ∨ (unquoted pwep).length = 26 ∨ (unquoted pwep).length = 32) ∧
        ∀ c ∈ unquoted pwep, isxdigit c) then some (stored (unquoted pwep)) else none := by
  have hmax : MAX_FILE_PATH_LEN = 128 := rfl
  rw [is_valid_wep_key, stored]
  generalize unquoted pwep = w
  by_cases hascii : w.length = 5 ∨ w.length = 13 ∨ w.length = 16
  · have hnot : ¬(w.length = 10 ∨ w.length = 26 ∨ w.length = 32) := by omega
    have htext : scnprintf MAX_FILE_PATH_LEN ('"' :: w ++ ['"']) = '"' :: w ++ ['"'] :=
      scnprintf_of_lt (by simp; omega)
    simp only [hascii, hnot, htext, checkDown_eq isascii (Nat.sub_le _ _), ← dropLast_eq_take, all_eq_true, if_true,
      true_and, false_and, or_false]
  have hlen : (w.length = 10 ∨ w.length = 26 ∨ w.length = 32) → scnprintf MAX_FILE_PATH_LEN w = w :=
    fun h => scnprintf_of_lt (by omega)
  by_cases hhex : w.length = 10 ∨ w.length = 26 ∨ w.length = 32
  · simp only [hascii, hhex, hlen hhex, checkDown_eq isxdigit (Nat.le_refl _), take_length, all_eq_true, if_true,
      if_false, true_and, false_and, false_or]
  · simp [hascii, hhex]

theorem forall_mem_iff_getLast (ok : Char → Bool) (w : List Char) :
    (∀ c ∈ w, ok c) ↔ (∀ c ∈ w.dropLast, ok c) ∧ ∀ c, w.getLast? = some c → ok c = true := by
  cases w using reverseRecOn with
  | nil => simp
  | append_singleton => simp [or_imp, forall_and]

theorem accepts_iff (pwep : List Char) :
    ((is_valid_wep_key pwep MAX_FILE_PATH_LEN).isSome ↔ IsWepKey (unquoted pwep)) ↔
      LastAscii (unquoted pwep) := by
  rw [is_valid_wep_key_eq, IsWepKey, LastAscii]
  generalize unquoted pwep = w
  rw [Option.isSome_ite, forall_mem_iff_getLast isascii w]
  by_cases hascii : w.length = 5 ∨ w.length = 13 ∨ w.length = 16
  · have hnot : ¬(w.length = 10 ∨ w.length = 26 ∨ w.length = 32) := by omega
    simp only [hascii, hnot, true_and, false_and, or_false, true_imp_iff]
    tauto
  · simp only [hascii, false_and, false_or, false_imp_iff]

/-! ### The response -/

theorem trimBlanks_le (presp : List Char) (n : ℕ) : trimBlanks presp n ≤ n := by
  induction n with
  | zero => exact Nat.le_refl _
  | succ _ ih =>
    rw [trimBlanks]
    split_ifs
    · exact Nat.le_succ_of_le ih
    · exact Nat.le_refl _

theorem length_get_le (name : String) (file : List Char) (plen : ℕ) : (qsap_get_wep_key file (noDefault name) plen).1.length ≤
    (qsap_read_cfg file (noDefault name) plen none true).1.length := by
  rw [qsap_get_wep_key]
  apply (length_take_le' _ _).trans
  rw [qsap_read_wep_key]
  rcases qsap_read_cfg file (noDefault name) plen none true with ⟨presp, _⟩
  dsimp only
  split_ifs with herr hquote
  · exact Nat.le_refl _
  · have hsplit := congrArg length (takeWhile_append_dropWhile (p := (· ≠ '=')) (l := presp))
    obtain ⟨t, ht⟩ := head?_eq_some_iff.1 hquote
    have htail := congrArg length ht
    rw [length_append] at hsplit
    simp only [length_dropLast, length_append, length_cons, length_tail] at htail ⊢
    omega
  · exact Nat.le_refl _

theorem get_iff {t : List Char} {plen : ℕ} (ht : 2 ≤ t.length)
    (hread : qsap_read_wep_key file (noDefault name) plen = (t, t.length)) :
    qsap_get_wep_key file (noDefault name) plen = (t, t.length) ↔ ∀ c, t.getLast? = some c → c ≠ ' ' ∧ c ≠ '\t' := by
  obtain ⟨n, hn⟩ : ∃ n, t.length = n + 2 := ⟨t.length - 2, by omega⟩
  have hlast : t.getLast? = t[n + 1]? := by rw [getLast?_eq_getElem?, hn]; rfl
  rw [qsap_get_wep_key, hread]
  show (t.take (trimBlanks t (t.length - 1) + 1), trimBlanks t (t.length - 1) + 1) = _ ↔ _
  rw [hn, show n + 2 - 1 = n + 1 from rfl, trimBlanks, ← hlast]
  split_ifs with hblank
  · apply iff_of_false
    · intro h
      have hle := trimBlanks_le t n
      have hlen := congrArg Prod.snd h
      dsimp only at hlen
      omega
    intro h
    rcases hblank with hblank | hblank
    · exact (h _ hblank).1 rfl
    · exact (h _ hblank).2 rfl
  · rw [not_or] at hblank
    refine iff_of_true (Prod.ext (take_of_length_le (Nat.le_of_eq hn)) rfl) fun c hc => ?_
    exact ⟨fun h => hblank.1 (h ▸ hc), fun h => hblank.2 (h ▸ hc)⟩

theorem length_stored (w : List Char) : (stored w).length ≤ w.length + 2 := by
  rw [stored]
  split_ifs <;> simp

theorem read_found (hname : name ∈ wepNames) (hlen : w.length ≤ 32) (hquote : stored w = w → w.head? ≠ some '"')
    (hfound : readLoop (noDefault name) true (fgetsBufs MAX_CONF_LINE_LEN [] file) = some (name.toList ++ '=' :: stored w))
    {plen : ℕ} (hplen : 64 ≤ plen) :
    qsap_read_wep_key file (noDefault name) plen = (keyText name w, (keyText name w).length) := by
  have heq : '=' ∉ SUCCESS ++ ' ' :: name.toList :=
    (by decide : ∀ name ∈ wepNames, '=' ∉ SUCCESS ++ ' ' :: name.toList) name hname
  have hread : qsap_read_cfg file (noDefault name) plen none true =
      ((SUCCESS ++ ' ' :: name.toList) ++ '=' :: stored w, .eSUCCESS) := by
    rw [qsap_read_cfg, hfound]
    show (scnprintf plen (SUCCESS ++ ' ' :: (name.toList ++ '=' :: stored w)), _) = _
    have hstored := length_stored w
    have hsuccess : SUCCESS.length = 7 := by decide
    rw [scnprintf_of_lt, append_assoc]
    · rfl
    · rw [length_append, length_cons, length_append, length_cons, length_wepNames hname]
      omega
  rw [qsap_read_wep_key, hread]
  dsimp only
  rw [if_neg (by decide), dropWhile_name heq, takeWhile_name heq, tail_cons, stored, keyText]
  by_cases hascii : w.length = 5 ∨ w.length = 13 ∨ w.length = 16
  · have hdrop : (SUCCESS ++ ' ' :: name.toList) ++ '=' :: (w ++ ['"']) =
        (SUCCESS ++ ' ' :: name.toList ++ '=' :: w) ++ ['"'] := by simp
    rw [if_pos hascii, cons_append, if_pos (head?_cons : ('"' :: (w ++ ['"'])).head? = _), tail_cons, hdrop, dropLast_concat]
    refine Prod.ext rfl ?_
    simp only [length_append, length_cons, length_nil]
    omega
  · rw [stored, if_neg hascii] at hquote
    rw [if_neg hascii, if_neg (hquote rfl)]

theorem get_not_found (hname : name ∈ wepNames) (h : ∀ t, readLoop (noDefault name) true
    (fgetsBufs MAX_CONF_LINE_LEN [] file) = some t → t.length ≤ w.length + 3) (plen : ℕ) :
    (qsap_get_wep_key file (noDefault name) plen).1 ≠ keyText name w := by
  intro hget
  rcases hloop : readLoop (noDefault name) true (fgetsBufs MAX_CONF_LINE_LEN [] file) with - | t
  · have hread : qsap_read_cfg file (noDefault name) plen none true =
        (scnprintf plen ERR_FEATURE_NOT_ENABLED, .eERR_CONFIG_PARAM_MISSING) := by
      rw [qsap_read_cfg, hloop]
      rfl
    rw [qsap_get_wep_key, qsap_read_wep_key, hread] at hget
    have hhead : ((scnprintf plen ERR_FEATURE_NOT_ENABLED).take
        (trimBlanks (scnprintf plen ERR_FEATURE_NOT_ENABLED) _ + 1)).head? = some 's' := congrArg head? hget
    rw [head?_take, if_neg (Nat.succ_ne_zero _), scnprintf, head?_take] at hhead
    split_ifs at hhead
    cases hhead
  have hle := length_get_le name file plen
  rw [hget, qsap_read_cfg, hloop] at hle
  have htext := hle.trans (length_take_le' _ _)
  have ht := h t hloop
  rw [keyText, length_append, length_append, length_cons, length_cons, length_append, length_cons,
    length_wepNames hname] at htext
  omega

/-- **The WEP keys** are accepted and returned but for a character at the end of an ASCII key that is none or a blank,
and for an end of the file that the new line is no line of its own behind. -/
theorem wepKey_iff (pwep file : List Char) (name : String) (hcr : '\r' ∉ pwep) (hlf : '\n' ∉ pwep)
    (hname : name ∈ wepNames) :
    WepRight pwep file name ↔ LastAscii (unquoted pwep) ∧ (IsWepKey (unquoted pwep) →
      (∀ c, (unquoted pwep).getLast? = some c → c ≠ ' ' ∧ c ≠ '\t') ∧ OwnLine file name (stored (unquoted pwep))) := by
  have hvalid : ∀ key, LastAscii (unquoted pwep) → (is_valid_wep_key pwep MAX_FILE_PATH_LEN = some key ↔
      IsWepKey (unquoted pwep) ∧ key = stored (unquoted pwep)) := by
    intro _ hlast
    rw [← (accepts_iff pwep).2 hlast, is_valid_wep_key_eq]
    split_ifs <;> simp [eq_comm]
  rw [WepRight, accepts_iff]
  apply and_congr_right
  intro hlast
  simp only [hvalid _ hlast, and_imp, forall_eq_apply_imp_iff]
  have hmem : ∀ c ∈ unquoted pwep, c ∈ pwep := by
    intro c hc
    rw [unquoted] at hc
    split_ifs at hc
    · exact mem_of_mem_tail (mem_of_mem_dropLast hc)
    · exact hc
  generalize unquoted pwep = w at hlast hmem
  apply imp_congr_right
  intro hkey
  have hlen : 5 ≤ w.length ∧ w.length ≤ 32 := by
    rcases hkey with ⟨h, -⟩ | ⟨h, -⟩ <;> omega
  have hstored := length_stored w
  have hfits : Fits name.toList (stored w) := by
    have hchars : ∀ c ∈ stored w, c = '"' ∨ c ∈ pwep := by
      intro c hc
      rw [stored] at hc
      split_ifs at hc
      · simp only [cons_append, mem_cons, mem_append, not_mem_nil, or_false] at hc
        rcases hc with hc | hc | hc
        · exact .inl hc
        · exact .inr (hmem c hc)
        · exact .inl hc
      · exact .inr (hmem c hc)
    refine ⟨fun hc => ?_, fun hc => ?_, ?_⟩
    · exact (hchars _ hc).elim (absurd · (by decide)) hcr
    · exact (hchars _ hc).elim (absurd · (by decide)) hlf
    · have hmax : MAX_CONF_LINE_LEN = 156 := rfl
      rw [length_append, length_cons, length_wepNames hname]
      omega
  have hquote : stored w = w → w.head? ≠ some '"' := by
    intro h hhead
    rcases hkey with ⟨hascii, -⟩ | ⟨-, hhex⟩
    · have hlonger := congrArg length h
      rw [stored, if_pos hascii] at hlonger
      simp only [length_append, length_cons, length_nil] at hlonger
      omega
    · exact absurd (hhex _ (mem_of_mem_head? hhead)) (by decide)
  have hne : w ≠ [] := by
    rintro rfl
    exact absurd hlen.1 (by decide)
  have hlast : (keyText name w).getLast? = w.getLast? := by
    rw [keyText, append_cons, getLast?_append_of_ne_nil _ hne]
  have htwo : 2 ≤ (keyText name w).length := by
    rw [keyText, length_append, length_cons]
    omega
  constructor
  · intro h
    have hget := h 64 (Nat.le_refl _)
    have hown : OwnLine file name (stored w) := by
      by_contra hown
      apply get_not_found hname _ 64 (congrArg Prod.fst hget)
      intro t ht
      have hshort := found_of_not_ownLine hname hfits (by omega) hown ht
      omega
    refine ⟨?_, hown⟩
    rw [← hlast]
    exact (get_iff htwo (read_found hname hlen.2 hquote (found_of_ownLine hname hfits (by omega) hown)
      (Nat.le_refl _))).1 hget
  · rintro ⟨hblank, hown⟩ _ hplen
    rw [← hlast] at hblank
    exact (get_iff htwo (read_found hname hlen.2 hquote (found_of_ownLine hname hfits (by omega) hown) hplen)).2 hblank

theorem wepKey_iff_sample : WepRight "\"ab cd\"".toList "ssid=G4\n".toList "wep_key0" := by
  refine (wepKey_iff _ _ _ (by decide) (by decide) (by decide)).mpr ⟨?_, fun _ => ⟨?_, .inr (.inl (by decide))⟩⟩
  · intro _ _ c hc
    obtain rfl : 'd' = c := Option.some.inj hc
    rfl
  · intro c hc
    obtain rfl : 'd' = c := Option.some.inj hc
    decide

/-- A key whose last character is no ASCII character is accepted. -/
theorem last_not_checked : ¬ ∀ (pwep file : List Char) (name : String), '\r' ∉ pwep → '\n' ∉ pwep → name ∈ wepNames →
    WepRight pwep file name := by
  intro h
  have hright := h "abcd\u00e9".toList [] "wep_key0" (by decide) (by decide) (by decide)
  have hkey : ¬IsWepKey (unquoted "abcd\u00e9".toList) := by
    rintro (⟨-, h⟩ | ⟨h, -⟩)
    · exact absurd (h 'é' (by decide)) (by decide)
    · revert h
      decide
  exact hkey (hright.1.1 (by decide))

end G4Common.SoftAp
