/-
The lists of allowed and denied addresses (`qsap_add_mac_to_file()`, `qsap_remove_from_file()` and
`qsap_get_mac_list()`).

The three functions go through the argument, or the file, in three ways.  The one that adds leaves its loop only when
the list is full: behind the last address it steps over the end of the string and reads on.  It takes a word that is
too long in pieces, and the one that removes compares the begin of each word; both take such a word for the address
that it begins with (`macList_iff`).
-/
import G4Common.SoftAp.WepKey

namespace G4Common.SoftAp

open CString List

def MAC_ADDR_LEN : ℕ := 17
def MAX_ALLOWED_MAC : ℕ := 15

/-! ### The functions -/

def isValid_MAC_address (pMac : List Char) : Bool :=
  decide (MAC_ADDR_LEN ≤ pMac.length) && (range MAC_ADDR_LEN).all fun i =>
    if i ∈ [2, 5, 8, 11, 14] then pMac[i]? == some ':' else pMac[i]?.any isxdigit

/-- What is read of the argument: the characters before a blank, at most those of an address. -/
def macbuf (pVal : List Char) : List Char := (pVal.takeWhile (· ≠ ' ')).take MAC_ADDR_LEN

/-- The addresses that are added; there are none if a character behind the end of `pVal` is read. -/
def addLoop (pVal : List Char) (len num_macs : ℤ) : Option (List (List Char)) :=
  if len ≤ 0 then some []
  else if isValid_MAC_address (macbuf pVal) = true ∧ num_macs + 1 = MAX_ALLOWED_MAC then some [macbuf pVal]
  -- `pVal++` has been done at the terminator
  else if pVal.length ≤ (macbuf pVal).length then none
  else
    let rest := pVal.drop ((macbuf pVal).length + 1)
    let len := len - (macbuf pVal).length - if rest = [] then 0 else 1
    if isValid_MAC_address (macbuf pVal) then (addLoop rest len (num_macs + 1)).map (macbuf pVal :: ·)
    else addLoop rest len num_macs
termination_by pVal.length
decreasing_by all_goals
  rw [length_drop]
  omega

/-- `qsap_add_mac_to_file()`: the new file.  The lines are counted in 16 bits. -/
def qsap_add_mac_to_file (file pVal : List Char) : Option (List Char) :=
  let num_macs := ((fgetsBufs 32 [] file).length : ℤ).bmod (2 ^ 16)
  if MAX_ALLOWED_MAC ≤ num_macs then some file
  else (addLoop pVal pVal.length num_macs).map fun macs => file ++ unlines macs

/-- An address of the argument is the one of the line; `slen` is what is left of the argument. -/
def matchLoop (buf plist : List Char) : Bool :=
  if plist = [] then false
  else if buf.take MAC_ADDR_LEN = plist.take MAC_ADDR_LEN then true
  else matchLoop buf ((plist.dropWhile (· ≠ ' ')).dropWhile fun c => c = ' ' ∨ c = '\t')
termination_by plist.length
decreasing_by
  rename_i hne _
  rcases plist with - | ⟨c, plist⟩
  · exact absurd rfl hne
  · have hlen := fun (p : Char → Bool) l => (dropWhile_suffix p (l := l)).length_le
    rcases eq_or_ne c ' ' with rfl | hc
    · exact Nat.lt_succ_of_le (hlen (fun c => c = ' ' ∨ c = '\t') plist)
    · rw [dropWhile_cons_of_pos (by simpa using hc)]
      exact Nat.lt_succ_of_le ((hlen _ _).trans (hlen _ _))

/-- `qsap_remove_from_file()`: the new file. -/
def qsap_remove_from_file (file pVal : List Char) : List Char :=
  ((fgetsBufs MAX_CONF_LINE_LEN [] file).filter fun buf => !matchLoop buf pVal).flatten

/-- The loop of `qsap_get_mac_list()`, with `*plen` characters left. -/
def getLoop : List (List Char) → ℕ → ℕ → List Char
  | [], _, _ => []
  | buf :: bufs, cnt, plen =>
    if buf.head? = some '#' ∨ isValid_MAC_address buf = false then getLoop bufs cnt plen
    else if plen < buf.dropLast.length then []
    else
      let out := scnprintf plen (buf.dropLast ++ [' '])
      if MAX_ALLOWED_MAC ≤ cnt + 1 then out else out ++ getLoop bufs (cnt + 1) (plen - out.length)

/-- `qsap_get_mac_list()` for a list file: the response, and its length. -/
def qsap_get_mac_list (file name : List Char) (plen : ℕ) : List Char × ℕ :=
  let head := scnprintf plen (SUCCESS ++ ' ' :: name ++ ['='])
  let presp := head ++ getLoop (fgetsBufs MAX_CONF_LINE_LEN [] file) 0 (plen - head.length)
  (presp, presp.length)

/-! ### What is wanted -/

def IsMac (e : List Char) : Prop := isValid_MAC_address e = true ∧ e.length = MAC_ADDR_LEN

instance (e : List Char) : Decidable (IsMac e) := inferInstanceAs (Decidable (_ ∧ _))

/-- The tokens of an argument. -/
def tokens (pVal : List Char) : List (List Char) := pVal.splitOn ' '

/-- The addresses that are to be added to a list. -/
def added (macs : List (List Char)) (pVal : List Char) : List (List Char) :=
  ((tokens pVal).filter fun e => IsMac e).take (MAX_ALLOWED_MAC - macs.length)

def listText (name : List Char) (macs : List (List Char)) : List Char :=
  SUCCESS ++ ' ' :: name ++ ['='] ++ macs.flatMap (· ++ [' '])

/-- A list of addresses and an argument for which the functions do what they are for. -/
structure MacRight (macs : List (List Char)) (pVal : List Char) : Prop where
  add : qsap_add_mac_to_file (unlines macs) pVal = some (unlines (macs ++ added macs pVal))
  remove : qsap_remove_from_file (unlines macs) pVal = unlines (macs.filter fun e => e ∉ tokens pVal)
  get : ∀ name plen, (listText name macs).length < plen →
    qsap_get_mac_list (unlines macs) name plen = (listText name macs, (listText name macs).length)
  restore : (∀ e ∈ added macs pVal, e ∉ macs) →
    qsap_remove_from_file (unlines (macs ++ added macs pVal)) ([' '].intercalate (added macs pVal)) = unlines macs

/-- A word in pieces of 17 characters, with one character left out between them. -/
def pieces (t : List Char) : List (List Char) :=
  t.take MAC_ADDR_LEN :: if MAC_ADDR_LEN < t.length then pieces (t.drop (MAC_ADDR_LEN + 1)) else []
termination_by t.length
decreasing_by
  rw [length_drop]
  omega

/-- The addresses in the pieces of an argument. -/
def pieceMacs (pVal : List Char) : List (List Char) := ((tokens pVal).flatMap pieces).filter isValid_MAC_address

/-- The pieces fill the list, with the addresses that are to be added. -/
def AddOk (macs : List (List Char)) (pVal : List Char) : Prop :=
  pVal = [] ∨ MAX_ALLOWED_MAC - macs.length ≤ (pieceMacs pVal).length ∧
    (pieceMacs pVal).take (MAX_ALLOWED_MAC - macs.length) = added macs pVal

/-- The words that a line is compared with; tabs at the begin of one are left out, but for the first. -/
def seen (pVal : List Char) : List (List Char) :=
  (tokens pVal).take 1 ++ (tokens pVal).tail.map (dropWhile (· = '\t'))

/-- A word that begins with an address of the list is one that the address is a token of. -/
def RemoveOk (macs : List (List Char)) (pVal : List Char) : Prop :=
  ∀ e ∈ macs, (∃ w ∈ seen pVal, e <+: w) → e ∈ tokens pVal

variable {macs : List (List Char)} {e s t pVal : List Char} {len : ℤ} {r : ℕ}

/-! ### Words -/

theorem tokens_cases (s : List Char) : ' ' ∉ s ∧ tokens s = [s] ∨
    ∃ t rest, s = t ++ ' ' :: rest ∧ ' ' ∉ t ∧ tokens s = t :: tokens rest := by
  by_cases hs : ' ' ∈ s
  · obtain ⟨t, rest, rfl, ht⟩ := eq_append_cons_of_mem hs
    exact .inr ⟨t, rest, rfl, ht, splitOn_append_cons_self_of_not_mem ht rest⟩
  · exact .inl ⟨hs, splitOn_eq_singleton hs⟩

theorem takeWhile_word (ht : ' ' ∉ t) : t.takeWhile (· ≠ ' ') = t := by
  rw [takeWhile_eq_self_iff]
  intro c hc
  exact decide_eq_true fun h => ht (h ▸ hc)

theorem takeWhile_word_append (ht : ' ' ∉ t) (rest : List Char) : (t ++ ' ' :: rest).takeWhile (· ≠ ' ') = t := by
  rw [takeWhile_append_of_pos, takeWhile_cons_of_neg (by decide), append_nil]
  intro c hc
  exact decide_eq_true fun h => ht (h ▸ hc)

theorem pieceMacs_eq (s : List Char) : pieceMacs s = (tokens s).flatMap fun t => (pieces t).filter isValid_MAC_address := by
  rw [pieceMacs, filter_flatMap]

theorem filter_pieces (t : List Char) : (pieces t).filter isValid_MAC_address =
    (if isValid_MAC_address (t.take MAC_ADDR_LEN) then [t.take MAC_ADDR_LEN] else []) ++
      if MAC_ADDR_LEN < t.length then (pieces (t.drop (MAC_ADDR_LEN + 1))).filter isValid_MAC_address else [] := by
  rw [pieces, filter_cons]
  split_ifs <;> rfl

theorem pieceMacs_step (s : List Char) : pieceMacs s =
    (if isValid_MAC_address (macbuf s) then [macbuf s] else []) ++
      if s.length ≤ (macbuf s).length then [] else pieceMacs (s.drop ((macbuf s).length + 1)) := by
  have hmax : MAC_ADDR_LEN = 17 := rfl
  rcases tokens_cases s with ⟨hs, htok⟩ | ⟨t, rest, rfl, ht, htok⟩
  · rw [macbuf, takeWhile_word hs, pieceMacs_eq, htok, flatMap_singleton, filter_pieces, length_take]
    congr 1
    by_cases hlen : MAC_ADDR_LEN < s.length
    · have hrest : ' ' ∉ s.drop (MAC_ADDR_LEN + 1) := fun h => hs (mem_of_mem_drop h)
      rw [if_pos hlen, if_neg (by omega), Nat.min_eq_left (Nat.le_of_lt hlen), pieceMacs_eq, tokens,
        splitOn_eq_singleton hrest, flatMap_singleton]
    · rw [if_neg hlen, if_pos (by omega)]
  rw [macbuf, takeWhile_word_append ht, pieceMacs_eq, htok, flatMap_cons, filter_pieces, length_take, append_assoc]
  congr 1
  have hmore : ¬(t ++ ' ' :: rest).length ≤ min MAC_ADDR_LEN t.length := by
    rw [length_append, length_cons]
    omega
  rw [if_neg hmore]
  by_cases hlen : MAC_ADDR_LEN < t.length
  · have hrest : ' ' ∉ t.drop (MAC_ADDR_LEN + 1) := fun h => ht (mem_of_mem_drop h)
    rw [if_pos hlen, Nat.min_eq_left (Nat.le_of_lt hlen), drop_append_of_le_length hlen, pieceMacs_eq]
    show _ = (((t.drop (MAC_ADDR_LEN + 1) ++ ' ' :: rest).splitOn ' ').flatMap _)
    rw [splitOn_append_cons_self_of_not_mem hrest, flatMap_cons]
    rfl
  · rw [if_neg hlen, Nat.min_eq_right (by omega), drop_append, Nat.add_sub_cancel_left, drop_eq_nil_of_le (by omega),
      pieceMacs_eq]
    rfl

/-! ### Adding -/

theorem addLoop_eq (hlen : 0 < len) (hle : s.length ≤ len) :
    addLoop s len (MAX_ALLOWED_MAC - (r + 1)) =
      if r < (pieceMacs s).length then some ((pieceMacs s).take (r + 1)) else none := by
  induction hn : s.length using Nat.strong_induction_on generalizing s len r with
  | _ n ih =>
    rw [addLoop, if_neg (by omega), pieceMacs_step s]
    have hmax : MAX_ALLOWED_MAC = 15 := rfl
    have hfull : (MAX_ALLOWED_MAC : ℤ) - (r + 1) + 1 = MAX_ALLOWED_MAC ↔ r = 0 := by omega
    simp only [hfull]
    by_cases hend : s.length ≤ (macbuf s).length
    · rw [if_pos hend, if_pos hend, append_nil]
      rcases isValid_MAC_address (macbuf s) with - | -
      · rfl
      · rcases r with - | r <;> rfl
    rw [if_neg hend, if_neg hend]
    -- the counter stays at least what is left, and positive behind a last blank
    have hrest := length_drop (i := (macbuf s).length + 1) (l := s)
    have hlen' : 0 < len - (macbuf s).length - (if s.drop ((macbuf s).length + 1) = [] then 0 else 1) ∧
        (s.drop ((macbuf s).length + 1)).length ≤
          len - (macbuf s).length - (if s.drop ((macbuf s).length + 1) = [] then 0 else 1) := by
      split_ifs with hnil
      · rw [hnil, length_nil] at hrest ⊢
        omega
      · have hpos := length_pos_iff.2 hnil
        omega
    have hrec := fun r => ih _ (by omega) hlen'.1 hlen'.2 (r := r) rfl
    rcases isValid_MAC_address (macbuf s) with - | -
    · rw [if_neg (by simp)]
      exact hrec r
    rcases r with - | r
    · rfl
    rw [if_neg (by simp)]
    show (addLoop _ _ _).map _ = _
    have hnum : (MAX_ALLOWED_MAC : ℤ) - (((r + 1 : ℕ) : ℤ) + 1) + 1 = MAX_ALLOWED_MAC - (r + 1) := by omega
    rw [hnum, hrec r]
    simp only [if_true, singleton_append, length_cons, Nat.add_lt_add_iff_right, take_succ_cons]
    split_ifs <;> rfl

/-! ### Addresses -/

theorem isValid_append (h : isValid_MAC_address e) (t : List Char) : isValid_MAC_address (e ++ t) = true := by
  rw [isValid_MAC_address, Bool.and_eq_true, decide_eq_true_iff, all_eq_true] at h ⊢
  refine ⟨h.1.trans (by simp), fun i hi => ?_⟩
  rw [getElem?_append_left ((mem_range.1 hi).trans_le h.1)]
  exact h.2 i hi

theorem IsMac.chars (h : IsMac e) {c : Char} (hc : c ∈ e) : c = ':' ∨ isxdigit c = true := by
  obtain ⟨i, hi, rfl⟩ := getElem_of_mem hc
  have hvalid := h.1
  rw [isValid_MAC_address, Bool.and_eq_true, all_eq_true] at hvalid
  have hat := hvalid.2 i (mem_range.2 (hi.trans_le (Nat.le_of_eq h.2)))
  rw [getElem?_eq_getElem hi] at hat
  split_ifs at hat
  · exact .inl (by simpa using hat)
  · exact .inr (by simpa using hat)

theorem IsMac.notMem (h : IsMac e) {c : Char} (hc : c ≠ ':' ∧ isxdigit c = false) : c ∉ e := by
  intro hmem
  rcases h.chars hmem with hcolon | hdigit
  · exact hc.1 hcolon
  · rw [hc.2] at hdigit
    cases hdigit

theorem IsMac.ne_nil (h : IsMac e) : e ≠ [] := by
  rintro rfl
  exact absurd h.2 (by decide)

theorem IsMac.dropTabs (h : IsMac e) : e.dropWhile (· = '\t') = e := by
  rw [dropWhile_eq_self_iff]
  intro hlen htab
  exact h.notMem (by decide) (of_decide_eq_true htab ▸ getElem_mem hlen)

theorem bufs_unlines {size : ℕ} (hsize : 18 < size) (hmacs : ∀ e ∈ macs, IsMac e) :
    fgetsBufs size [] (unlines macs) = macs.map (· ++ ['\n']) := by
  have hlen : ∀ e ∈ macs, e.length + 1 < size := by
    intro e he
    rw [(hmacs e he).2]
    exact hsize
  rw [← append_nil (unlines macs), fgetsBufs_unlines (by omega)
    (fun e he => ⟨(hmacs e he).notMem (by decide), Nat.lt_of_succ_lt (hlen e he)⟩) not_mem_nil (by simp; omega),
    if_pos rfl, append_nil, ← flatMap_pure_eq_map]
  exact flatMap_congr fun e he => if_pos (hlen e he)

theorem unlines_injective {ls ls' : List (List Char)} (h : ∀ e ∈ ls, IsMac e) (h' : ∀ e ∈ ls', IsMac e)
    (heq : unlines ls = unlines ls') : ls = ls' := by
  have hmap := congrArg (fgetsBufs 32 []) heq
  rw [bufs_unlines (by decide) h, bufs_unlines (by decide) h'] at hmap
  exact map_injective_iff.2 (fun _ _ => append_cancel_right) hmap

/-! ### Removing -/

/-- A word but for the tabs at its begin. -/
def seenTail (e s : List Char) : Prop := ∃ w ∈ (tokens s).map (dropWhile (· = '\t')), e <+: w

theorem seenTail_skip (he : e ≠ []) (s : List Char) :
    seenTail e (s.dropWhile fun c => c = ' ' ∨ c = '\t') ↔ seenTail e s := by
  induction s with
  | nil => rfl
  | cons c s ih =>
    by_cases hc : c = ' ' ∨ c = '\t'
    · rw [dropWhile_cons, if_pos (decide_eq_true hc), ih, seenTail, seenTail]
      rcases hc with rfl | rfl
      · have htok : tokens (' ' :: s) = [] :: tokens s := splitOn_append_cons_self_of_not_mem not_mem_nil s
        rw [htok, map_cons, exists_mem_cons_iff, dropWhile_nil, prefix_nil]
        exact (or_iff_right he).symm
      have htok : tokens ('\t' :: s) = (tokens s).modifyHead ('\t' :: ·) := by
        rw [tokens, splitOn_cons_eq_if_modifyHead]
        rfl
      obtain ⟨t, _, hts⟩ := exists_cons_of_ne_nil (splitOn_ne_nil ' ' s)
      rw [htok, tokens, hts]
      rfl
    · rw [dropWhile_cons_of_neg (by simpa using hc)]

theorem seen_eq (h : s.head? ≠ some '\t') : seen s = (tokens s).map (dropWhile (· = '\t')) := by
  have hword : ∀ t : List Char, t.head? ≠ some '\t' → t.dropWhile (· = '\t') = t := by
    intro t ht
    rw [dropWhile_eq_self_iff]
    intro hlen htab
    rw [head?_eq_getElem?, getElem?_eq_getElem hlen, of_decide_eq_true htab] at ht
    exact ht rfl
  rw [seen]
  rcases tokens_cases s with ⟨-, htok⟩ | ⟨t, _, rfl, -, htok⟩
  · rw [htok, map_singleton, hword s h]
    rfl
  rw [htok, map_cons, hword t]
  · rfl
  · rcases t with - | ⟨c, t⟩
    · exact by simp
    · exact h

theorem matchLoop_iff (he : IsMac e) (s : List Char) : matchLoop (e ++ ['\n']) s ↔ ∃ w ∈ seen s, e <+: w := by
  induction hn : s.length using Nat.strong_induction_on generalizing s with
  | _ n ih =>
    have htake : (e ++ ['\n']).take MAC_ADDR_LEN = e := by
      rw [← he.2]
      exact take_left
    have hpre : ∀ t, e = t.take MAC_ADDR_LEN ↔ e <+: t := by
      intro t
      rw [prefix_iff_eq_take, he.2]
    rw [matchLoop, htake]
    simp only [hpre]
    rcases eq_or_ne s [] with rfl | hne
    · simp [seen, tokens, he.ne_nil]
    rw [if_neg hne]
    simp only [Bool.if_true_left, Bool.or_eq_true, decide_eq_true_eq]
    rcases tokens_cases s with ⟨hs, htok⟩ | ⟨t, rest, rfl, ht, htok⟩
    · have hdrop : s.dropWhile (· ≠ ' ') = [] :=
        dropWhile_eq_nil_iff.2 fun c hc => decide_eq_true fun h => hs (h ▸ hc)
      rw [hdrop, dropWhile_nil, matchLoop, seen, htok]
      simp
    have hdrop : (t ++ ' ' :: rest).dropWhile (· ≠ ' ') = ' ' :: rest := by
      rw [dropWhile_append_of_pos, dropWhile_cons_of_neg (by decide)]
      exact fun c hc => decide_eq_true fun h => ht (h ▸ hc)
    have hfirst : e <+: t ++ ' ' :: rest ↔ e <+: t := by
      refine ⟨fun h => ?_, fun h => h.trans (prefix_append _ _)⟩
      obtain ⟨u, hu⟩ := h
      rcases append_eq_append_iff.1 hu with ⟨a, rfl, -⟩ | ⟨a, rfl, ha⟩
      · exact prefix_append e a
      rcases a with - | ⟨c, a⟩
      · rw [append_nil]
      · rw [← (cons.inj ha).1] at he
        exact absurd (mem_append_right t mem_cons_self) (he.notMem (by decide))
    have hhead : (rest.dropWhile fun c => c = ' ' ∨ c = '\t').head? ≠ some '\t' := by
      have hnot := head?_dropWhile_not (fun c => decide (c = ' ' ∨ c = '\t')) rest
      intro h
      rw [h] at hnot
      cases hnot
    have hrest : matchLoop (e ++ ['\n']) (rest.dropWhile fun c => c = ' ' ∨ c = '\t') = true ↔ seenTail e rest := by
      rw [ih _ _ _ rfl, seen_eq hhead]
      · exact seenTail_skip he.ne_nil rest
      · have hle := (dropWhile_suffix (fun c => decide (c = ' ' ∨ c = '\t')) (l := rest)).length_le
        rw [← hn, length_append, length_cons]
        omega
    rw [hdrop, dropWhile_cons, if_pos (by decide), hrest, hfirst, seen, htok]
    simp [seenTail]

theorem remove_unlines (hmacs : ∀ e ∈ macs, IsMac e) (s : List Char) :
    qsap_remove_from_file (unlines macs) s = unlines (macs.filter fun e => ¬∃ w ∈ seen s, e <+: w) := by
  rw [qsap_remove_from_file, bufs_unlines (by decide) hmacs, filter_map, ← flatMap_def]
  have hsame : macs.filter ((fun buf => !matchLoop buf s) ∘ (· ++ ['\n'])) =
      macs.filter fun e => ¬∃ w ∈ seen s, e <+: w := by
    apply filter_congr
    intro e he
    rw [Function.comp_apply, Bool.eq_iff_iff, decide_eq_true_iff, ← matchLoop_iff (hmacs e he), Bool.not_eq_true',
      Bool.not_eq_true]
  rw [hsame]
  rfl

theorem exists_seen (he : IsMac e) (h : e ∈ tokens s) : ∃ w ∈ seen s, e <+: w := by
  refine ⟨e, ?_, prefix_refl e⟩
  rw [seen]
  obtain ⟨t, _, hts⟩ := exists_cons_of_ne_nil (splitOn_ne_nil ' ' s)
  rw [tokens, hts] at h ⊢
  rcases mem_cons.1 h with rfl | h
  · exact mem_append_left _ mem_cons_self
  · exact mem_append_right _ (he.dropTabs ▸ mem_map_of_mem h)

theorem remove_iff (hmacs : ∀ e ∈ macs, IsMac e) (s : List Char) :
    qsap_remove_from_file (unlines macs) s = unlines (macs.filter fun e => e ∉ tokens s) ↔ RemoveOk macs s := by
  rw [remove_unlines hmacs]
  constructor
  · intro h e he hseen
    by_contra htok
    have hfilter := unlines_injective (fun e he => hmacs e (mem_of_mem_filter he))
      (fun e he => hmacs e (mem_of_mem_filter he)) h
    have hmem : e ∈ macs.filter fun e => e ∉ tokens s := mem_filter.2 ⟨he, decide_eq_true htok⟩
    rw [← hfilter, mem_filter, decide_eq_true_iff] at hmem
    exact hmem.2 hseen
  intro h
  congr 1
  apply filter_congr
  intro e he
  rw [decide_eq_decide, not_iff_not]
  exact ⟨h e he, exists_seen (hmacs e he)⟩

theorem remove_added {new : List (List Char)} (hmacs : ∀ e ∈ macs, IsMac e) (hnew : ∀ e ∈ new, IsMac e)
    (hdisj : ∀ e ∈ new, e ∉ macs) :
    qsap_remove_from_file (unlines (macs ++ new)) ([' '].intercalate new) = unlines macs := by
  have hall : ∀ e ∈ macs ++ new, IsMac e := by
    intro e he
    rcases mem_append.1 he with he | he
    · exact hmacs e he
    · exact hnew e he
  have hseen : ∀ e, IsMac e → ((∃ w ∈ seen ([' '].intercalate new), e <+: w) ↔ e ∈ new) := by
    intro e he
    rcases eq_or_ne new [] with rfl | hne
    · simp [seen, tokens, he.ne_nil]
    have htok : tokens ([' '].intercalate new) = new :=
      splitOn_intercalate ' ' (fun e he => (hnew e he).notMem (by decide)) hne
    have hwords : seen ([' '].intercalate new) = new := by
      rw [seen, htok, map_congr_left fun e he => (hnew e (mem_of_mem_tail he)).dropTabs, map_id', ← drop_one,
        take_append_drop]
    rw [hwords]
    constructor
    · rintro ⟨w, hw, hpre⟩
      rw [hpre.eq_of_length (he.2.trans (hnew w hw).2.symm)]
      exact hw
    · exact fun h => ⟨e, h, prefix_refl e⟩
  rw [remove_unlines hall, filter_append, filter_eq_self.2, filter_eq_nil_iff.2, append_nil]
  · intro e he
    rw [decide_eq_true_iff, not_not, hseen e (hnew e he)]
    exact he
  · intro e he
    rw [decide_eq_true_iff, hseen e (hmacs e he)]
    exact fun h => hdisj e h he

/-! ### The response -/

theorem getLoop_eq {cnt plen : ℕ} (hmacs : ∀ e ∈ macs, IsMac e) (hcnt : cnt < MAX_ALLOWED_MAC)
    (hplen : 18 * macs.length < plen) :
    getLoop (macs.map (· ++ ['\n'])) cnt plen = (macs.take (MAX_ALLOWED_MAC - cnt)).flatMap (· ++ [' ']) := by
  induction macs generalizing cnt plen with
  | nil => rw [map_nil, take_nil]; rfl
  | cons e macs ih =>
    have he := hmacs e mem_cons_self
    have hlen : e.length = 17 := he.2
    have hhead : (e ++ ['\n']).head? ≠ some '#' := by
      rw [head?_append_of_ne_nil _ he.ne_nil]
      exact fun h => he.notMem (by decide) (mem_of_mem_head? h)
    rw [length_cons] at hplen
    have hout : scnprintf plen (e ++ [' ']) = e ++ [' '] :=
      scnprintf_of_lt (by rw [length_append, hlen, length_singleton]; omega)
    rw [map_cons, getLoop, if_neg (not_or.2 ⟨hhead, by simp [isValid_append he.1]⟩), dropLast_concat, if_neg (by omega), hout]
    obtain ⟨n, hn⟩ : ∃ n, MAX_ALLOWED_MAC - cnt = n + 1 := ⟨MAX_ALLOWED_MAC - cnt - 1, by omega⟩
    rw [hn, take_succ_cons, flatMap_cons]
    dsimp only
    split_ifs with hmax
    · rw [show n = 0 by omega, take_zero, flatMap_nil, append_nil]
    · rw [ih (fun e he => hmacs e (mem_cons_of_mem _ he)) (by omega)
        (by rw [length_append, hlen, length_singleton]; omega), show MAX_ALLOWED_MAC - (cnt + 1) = n by omega]

theorem length_listText (name : List Char) (hmacs : ∀ e ∈ macs, IsMac e) :
    (listText name macs).length = (SUCCESS ++ ' ' :: name ++ ['=']).length + 18 * macs.length := by
  rw [listText, length_append, length_flatMap]
  congr 1
  rw [map_congr_left (g := fun _ => 18) fun e he => by rw [length_append, (hmacs e he).2]; rfl, map_const', sum_replicate]
  exact Nat.mul_comm _ _

theorem get_iff_length (hmacs : ∀ e ∈ macs, IsMac e) : (∀ name plen, (listText name macs).length < plen →
    qsap_get_mac_list (unlines macs) name plen = (listText name macs, (listText name macs).length)) ↔
      macs.length ≤ MAX_ALLOWED_MAC := by
  have hget : ∀ name plen, (listText name macs).length < plen → qsap_get_mac_list (unlines macs) name plen =
      (listText name (macs.take MAX_ALLOWED_MAC), (listText name (macs.take MAX_ALLOWED_MAC)).length) := by
    intro name plen hplen
    rw [length_listText name hmacs] at hplen
    rw [qsap_get_mac_list, bufs_unlines (by decide) hmacs, scnprintf_of_lt (by omega),
      getLoop_eq hmacs (by decide) (by omega)]
    rfl
  constructor
  · intro h
    have hplen := Nat.lt_succ_self (listText [] macs).length
    have heq := (hget [] _ hplen).symm.trans (h [] _ hplen)
    have hlen := congrArg Prod.snd heq
    dsimp only at hlen
    rw [length_listText _ hmacs, length_listText _ fun e he => hmacs e (mem_of_mem_take he), length_take] at hlen
    omega
  · intro hle name plen hplen
    rw [hget name plen hplen, take_of_length_le hle]

/-! ### The lists -/

theorem isMac_added (macs : List (List Char)) (s : List Char) : ∀ e ∈ added macs s, IsMac e := by
  intro e he
  exact of_decide_eq_true (mem_filter.1 (mem_of_mem_take he)).2

theorem isMac_pieceMacs (s : List Char) : ∀ e ∈ pieceMacs s, IsMac e := by
  have hpieces : ∀ t : List Char, ∀ e ∈ pieces t, e.length ≤ MAC_ADDR_LEN := by
    intro t
    induction hn : t.length using Nat.strong_induction_on generalizing t with
    | _ n ih =>
      intro e he
      rw [pieces] at he
      rcases mem_cons.1 he with rfl | he
      · exact length_take_le _ _
      · split_ifs at he with hlen
        · exact ih _ (by rw [length_drop]; omega) _ rfl e he
        · exact nomatch he
  intro e he
  obtain ⟨he, hvalid⟩ := mem_filter.1 he
  obtain ⟨t, -, he⟩ := mem_flatMap.1 he
  refine ⟨hvalid, Nat.le_antisymm (hpieces t e he) ?_⟩
  rw [isValid_MAC_address, Bool.and_eq_true, decide_eq_true_iff] at hvalid
  exact hvalid.1

theorem add_iff (hmacs : ∀ e ∈ macs, IsMac e) (hle : macs.length ≤ MAX_ALLOWED_MAC) (s : List Char) :
    qsap_add_mac_to_file (unlines macs) s = some (unlines (macs ++ added macs s)) ↔ AddOk macs s := by
  have hmax : MAX_ALLOWED_MAC = 15 := rfl
  have hnum : ((macs.length : ℕ) : ℤ).bmod (2 ^ 16) = macs.length :=
    Int.bmod_eq_of_le_mul_two (by push_cast; omega) (by push_cast; omega)
  have hnum' : ((fgetsBufs 32 [] (unlines macs)).length : ℤ).bmod (2 ^ 16) = macs.length := by
    rw [bufs_unlines (by decide) hmacs, length_map, hnum]
  have hadd : qsap_add_mac_to_file (unlines macs) s = if (MAX_ALLOWED_MAC : ℤ) ≤ macs.length then some (unlines macs)
      else (addLoop s s.length macs.length).map fun new => unlines macs ++ unlines new := by
    rw [← hnum']
    rfl
  rw [hadd, unlines_append, AddOk]
  have htake := isMac_added macs s
  rcases hle.eq_or_lt with hfull | _
  · have hnone : added macs s = [] := by rw [added, hfull, Nat.sub_self, take_zero]
    rw [if_pos (by omega), hnone, hfull, Nat.sub_self, take_zero, unlines_nil, append_nil]
    exact iff_of_true rfl (.inr ⟨Nat.zero_le _, rfl⟩)
  rw [if_neg (by omega)]
  rcases eq_or_ne s [] with rfl | hne
  · have hnone : added macs [] = [] := by
      rw [added, tokens, splitOn_nil, filter_cons_of_neg (by decide), filter_nil, take_nil]
    rw [addLoop, if_pos (by simp), hnone]
    exact iff_of_true rfl (.inl rfl)
  obtain ⟨r, hr⟩ : ∃ r, MAX_ALLOWED_MAC - macs.length = r + 1 := ⟨MAX_ALLOWED_MAC - macs.length - 1, by omega⟩
  have hnum : (macs.length : ℤ) = MAX_ALLOWED_MAC - (r + 1) := by omega
  have hpos := length_pos_iff.2 hne
  rw [hnum, addLoop_eq (by omega) (Int.le_refl _), hr, or_iff_right hne]
  split_ifs with hlen
  · rw [Option.map_some, Option.some_inj, append_cancel_left_eq, and_iff_right (Nat.succ_le_of_lt hlen)]
    refine ⟨fun h => ?_, congrArg unlines⟩
    exact unlines_injective (fun e he => isMac_pieceMacs s e (mem_of_mem_take he)) htake h
  · exact iff_of_false (by simp) fun h => hlen h.1

/-- **The lists** are changed and returned as they should be if the argument fills the list, no word of it is longer
than an address of the list that it begins with, and the list has no more than 15 addresses. -/
theorem macList_iff (macs : List (List Char)) (pVal : List Char) (hmacs : ∀ e ∈ macs, IsMac e) :
    MacRight macs pVal ↔ macs.length ≤ MAX_ALLOWED_MAC ∧ AddOk macs pVal ∧ RemoveOk macs pVal := by
  constructor
  · rintro ⟨hadd, hremove, hget, -⟩
    have hle := (get_iff_length hmacs).1 hget
    exact ⟨hle, (add_iff hmacs hle pVal).1 hadd, (remove_iff hmacs pVal).1 hremove⟩
  · rintro ⟨hle, hadd, hremove⟩
    exact ⟨(add_iff hmacs hle pVal).2 hadd, (remove_iff hmacs pVal).2 hremove, (get_iff_length hmacs).2 hle,
      remove_added hmacs (isMac_added macs pVal)⟩

theorem macList_iff_sample : MacRight (replicate 14 "00:11:22:33:44:55".toList) "11:22:33:44:55:66".toList := by
  have htokens : tokens "11:22:33:44:55:66".toList = ["11:22:33:44:55:66".toList] := splitOn_eq_singleton (by decide)
  have hpieces : pieceMacs "11:22:33:44:55:66".toList = ["11:22:33:44:55:66".toList] := by
    rw [pieceMacs_step]
    decide
  refine (macList_iff _ _ (by decide)).mpr ⟨by decide, .inr ?_, fun e he hseen => ?_⟩
  · rw [added, htokens, hpieces]
    decide
  · -- The address of the list does not begin the one that is given.
    obtain rfl := eq_of_mem_replicate he
    rw [seen, htokens] at hseen
    exact absurd hseen (by decide)

/-- An address is added to an empty list: the loop reads on behind the end of the argument. -/
theorem terminator_passed : ¬ ∀ (macs : List (List Char)) (pVal : List Char), (∀ e ∈ macs, IsMac e) →
    MacRight macs pVal := by
  intro h
  have hadd := (h [] "11:22:33:44:55:66".toList (by simp)).add
  revert hadd
  decide +kernel

end G4Common.SoftAp
