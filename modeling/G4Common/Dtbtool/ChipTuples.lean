/-
The groups of numbers that `getChipInfo()` reads.

`dtc` prints a property on one line, as hexadecimal numbers with a blank between each two.  The numbers are read back in
groups; numbers that are left over make no group (`readGroups_cells`, `readTriples_cells`).
-/
import G4Common.Dtbtool.ChipInfo
import G4Common.Lib.Chunks

namespace G4Common.Dtbtool

open CString Chunks Scanf List Function

/-! ### A group -/

section Groups

variable {k i n : ℕ} {g : GroupState} {ws : List (List Char)}

/-- The words of a line that can be numbers. -/
def NumberWords (ws : List (List Char)) : Prop := ∀ w ∈ ws, IsWord blanks w ∧ w.head? ≠ some '>'

/-- The numbers that are read. -/
def wordValues (ws : List (List Char)) : List UInt32 := ws.map fun w => UInt32.ofNat (strtoul w)

theorem readGroup_ended (hvalid : g.entryValid = false) (hended : g.entryEnded) :
    (readGroup k i g).entryValid = false ∧ (readGroup k i g).entryEnded = true := by
  induction k generalizing i g with
  | zero => exact ⟨hvalid, hended⟩
  | succ k ih =>
    rw [readGroup]
    split
    · split
      · exact ⟨rfl, rfl⟩
      · exact ih hvalid hended
    · exact ih rfl rfl

theorem readGroup_words (hws : NumberWords ws) (hlen : k ≤ ws.length) (hg : g.sptr = spaced ws) :
    ∃ data, readGroup k i g = { g with sptr := spaced (ws.drop k), data := data } ∧ (∀ j < i, data j = g.data j) ∧
      ∀ j < k, data (i + j) = (wordValues ws).getD j 0 := by
  induction k generalizing i g ws with
  | zero =>
    refine ⟨g.data, ?_, fun _ _ => rfl, fun j hj => absurd hj (Nat.not_lt_zero j)⟩
    rw [readGroup, drop_zero, ← hg]
  | succ k ih =>
    rcases ws with - | ⟨w, ws⟩
    · exact absurd hlen (Nat.not_succ_le_zero k)
    obtain ⟨⟨hword, hhead⟩, hrest⟩ := forall_mem_cons.1 hws
    have htok : strtokR blanks g.sptr = (some w, spaced ws) := by
      rw [hg]
      exact strtokR_spaced hword mem_cons_self
    obtain ⟨data, hread, hbefore, hvals⟩ := ih (i := i + 1) (g := { g with
      sptr := spaced ws, data := update g.data i (UInt32.ofNat (strtoul w)) }) hrest
      (Nat.le_of_succ_le_succ hlen) rfl
    refine ⟨data, ?_, ?_, ?_⟩
    · rw [readGroup, htok]
      dsimp only
      rw [if_neg hhead, hread]
      rfl
    · intro j hj
      rw [hbefore j (Nat.lt_succ_of_lt hj)]
      exact update_of_ne (Nat.ne_of_lt hj) _ _
    intro j hj
    rcases j with - | j
    · rw [Nat.add_zero, hbefore i (Nat.lt_succ_self i)]
      exact update_self ..
    · rw [← Nat.succ_add_eq_add_succ]
      exact hvals j (Nat.lt_of_succ_lt_succ hj)

theorem readGroup_short (hws : NumberWords ws) (hlen : ws.length < k) (hg : g.sptr = spaced ws) :
    (readGroup k i g).entryValid = false ∧ (readGroup k i g).entryEnded = true := by
  induction k generalizing i g ws with
  | zero => exact absurd hlen (Nat.not_lt_zero _)
  | succ k ih =>
    rcases ws with - | ⟨w, ws⟩
    · have htok : strtokR blanks g.sptr = (none, []) := by rw [hg]; rfl
      rw [readGroup, htok]
      exact readGroup_ended rfl rfl
    obtain ⟨⟨hword, hhead⟩, hrest⟩ := forall_mem_cons.1 hws
    have htok : strtokR blanks g.sptr = (some w, spaced ws) := by
      rw [hg]
      exact strtokR_spaced hword mem_cons_self
    rw [readGroup, htok]
    dsimp only
    rw [if_neg hhead]
    exact ih hrest (Nat.lt_of_succ_lt_succ hlen) rfl

theorem length_readGroup (h : (readGroup k i g).entryEnded = false) :
    (readGroup k i g).sptr.length + k ≤ g.sptr.length := by
  induction k generalizing i g with
  | zero => exact Nat.le_refl _
  | succ k ih =>
    rw [readGroup] at h ⊢
    split at h
    · rename_i tok sptr htok
      have hlt := length_strtokR htok
      split at h
      · cases h
      rename_i hhead
      rw [if_neg hhead]
      have hle := ih h
      dsimp only at hle
      omega
    · rw [(readGroup_ended rfl rfl).2] at h
      cases h

/-! ### The loops over groups -/

theorem readGroups_ne_none {α : Type*} {entry : (ℕ → UInt32) → α} {fuel : ℕ} {l : List α} (hn : 0 < n)
    (hfuel : g.sptr.length < fuel) : readGroups n entry fuel g l ≠ none := by
  induction fuel generalizing g l with
  | zero => exact absurd hfuel (Nat.not_lt_zero _)
  | succ fuel ih =>
    rw [readGroups]
    split
    · exact Option.some_ne_none _
    rename_i hended
    have hle := length_readGroup (Bool.not_eq_true _ ▸ hended)
    apply ih
    dsimp only at hle
    omega

/-- The groups that a loop reads, with what it makes of each. -/
def groupEntries {α : Type*} (n : ℕ) (entry : (ℕ → UInt32) → α) (values : List UInt32) : List α :=
  (completeGroups n values).map fun d => entry fun j => d.getD j 0

section

variable {α : Type*} {entry : (ℕ → UInt32) → α} {values : List UInt32}

theorem groupEntries_of_lt (h : values.length < n) : groupEntries n entry values = [] := by
  rw [groupEntries, completeGroups_of_lt h]
  rfl

theorem groupEntries_of_le (hn : 0 < n) (h : n ≤ values.length) : groupEntries n entry values =
      (entry fun j => (values.take n).getD j 0) :: groupEntries n entry (values.drop n) := by
  rw [groupEntries, completeGroups_of_le hn h]
  rfl

end

/-- An entry is made of the numbers of its group. -/
def ReadsFirst {α : Type*} (n : ℕ) (entry : (ℕ → UInt32) → α) : Prop :=
  ∀ d d' : ℕ → UInt32, (∀ j < n, d j = d' j) → entry d = entry d'

theorem getD_take {values : List UInt32} {j : ℕ} (hj : j < n) : (values.take n).getD j 0 = values.getD j 0 := by
  rw [getD_eq_getElem?_getD, getD_eq_getElem?_getD, getElem?_take_of_lt hj]

/-- **Groups are read back**: each full group gives an entry, and what is left over gives none. -/
theorem readGroups_words {α : Type*} {entry : (ℕ → UInt32) → α} (hentry : ReadsFirst n entry) (hn : 0 < n) {fuel : ℕ}
    (hws : NumberWords ws) (hended : g.entryEnded = false) (hg : g.sptr = spaced ws) (hfuel : ws.length < fuel)
    (l : List α) :
    ∃ g', readGroups n entry fuel g l =
        some (g', (groupEntries n entry (wordValues ws)).foldl (fun l x => afterHead x l) l) ∧ g'.entryEnded = true := by
  induction fuel generalizing g ws l with
  | zero => exact absurd hfuel (Nat.not_lt_zero _)
  | succ fuel ih =>
    have hlen : (wordValues ws).length = ws.length := length_map _
    rw [readGroups]
    rcases Nat.lt_or_ge ws.length n with hlt | hge
    · have hshort := readGroup_short (i := 0) (g := { g with entryValid := true }) hws hlt hg
      rw [hshort.1, hshort.2, groupEntries_of_lt (hlen ▸ hlt)]
      exact ⟨_, rfl, hshort.2⟩
    obtain ⟨data, hread, -, hvals⟩ := readGroup_words (i := 0) (g := { g with entryValid := true }) hws hge hg
    have hx : entry data = entry fun j => ((wordValues ws).take n).getD j 0 := by
      apply hentry
      intro j hj
      rw [getD_take hj, ← hvals j hj, Nat.zero_add]
    have hdrop : (wordValues ws).drop n = wordValues (ws.drop n) := map_drop.symm
    rw [hread, groupEntries_of_le hn (hlen ▸ hge), foldl_cons, ← hx, hdrop]
    dsimp only
    rw [hended]
    refine ih (fun w hw => hws w (mem_of_mem_drop hw)) rfl rfl ?_ _
    rw [length_drop]
    omega

def tripleEntry (data : ℕ → UInt32) : ChipId := ⟨data 0, data 1, 0, data 2, (0, 0, 0, 0)⟩

theorem readTriples_words {fuel : ℕ} (hws : NumberWords ws) (hended : g.entryEnded = false) (hg : g.sptr = spaced ws)
    (hfuel : ws.length < fuel) (chip : List (ℕ × InfoNode)) :
    readTriples fuel g chip =
      some ((groupEntries 3 tripleEntry (wordValues ws)).foldl (fun l x => pushChip x l) chip) := by
  induction fuel generalizing g ws chip with
  | zero => exact absurd hfuel (Nat.not_lt_zero _)
  | succ fuel ih =>
    have hlen : (wordValues ws).length = ws.length := length_map _
    rw [readTriples]
    rcases Nat.lt_or_ge ws.length 3 with hlt | hge
    · have hshort := readGroup_short (i := 0) (g := { g with entryValid := true }) hws hlt hg
      rw [if_pos hshort.2, groupEntries_of_lt (hlen ▸ hlt)]
      rfl
    obtain ⟨data, hread, -, hvals⟩ := readGroup_words (i := 0) (g := { g with entryValid := true }) hws hge hg
    have hx : tripleEntry data = tripleEntry fun j => ((wordValues ws).take 3).getD j 0 := by
      have hj : ∀ j < 3, data j = ((wordValues ws).take 3).getD j 0 := by
        intro j hj
        rw [getD_take hj, ← hvals j hj, Nat.zero_add]
      rw [tripleEntry, tripleEntry, hj 0 (by decide), hj 1 (by decide), hj 2 (by decide)]
    have hdrop : (wordValues ws).drop 3 = wordValues (ws.drop 3) := map_drop.symm
    rw [hread, groupEntries_of_le (by decide) (hlen ▸ hge), foldl_cons, ← hx, hdrop]
    dsimp only
    rw [hended]
    refine ih (fun w hw => hws w (mem_of_mem_drop hw)) rfl rfl ?_ _
    rw [length_drop]
    omega

end Groups

/-! ### Properties -/

/-- A cell as `dtc` prints it: `0x` and the digits of a number of 32 bits. -/
structure Cell where
  digits : List Char
  nonempty : digits ≠ []
  hex : ∀ c ∈ digits, (hexVal c).isSome = true
  fits : hexNum digits < 2 ^ 32

def Cell.text (c : Cell) : List Char := '0' :: 'x' :: c.digits

def Cell.value (c : Cell) : UInt32 := UInt32.ofNat (hexNum c.digits)

def propLine (indent tag : List Char) (cells : List Cell) (eol : List Char) : List Char :=
  indent ++ tag ++ (spaced (cells.map Cell.text) ++ (['>', ';'] ++ eol))

section Cells

variable {cells : List Cell} {tail : List Char} {g : GroupState} {n : ℕ}

/-- The words of a line with some cells: the last one has what follows. -/
def lineWords (tail : List Char) : List Cell → List (List Char)
  | [] => [tail]
  | [c] => [c.text ++ tail]
  | c :: d :: cells => c.text :: lineWords tail (d :: cells)

theorem spaced_lineWords (cells : List Cell) : spaced (lineWords tail cells) = spaced (cells.map Cell.text) ++ tail := by
  induction cells with
  | nil => rfl
  | cons c cells ih =>
    rcases cells with - | ⟨d, cells⟩
    · rfl
    obtain ⟨w, ws, hws⟩ : ∃ w ws, lineWords tail (d :: cells) = w :: ws := by
      rcases cells with - | ⟨e, cells⟩
      · exact ⟨_, _, rfl⟩
      · exact ⟨_, _, rfl⟩
    rw [lineWords, hws, spaced, ← hws, ih]
    show _ = (c.text ++ ' ' :: spaced ((d :: cells).map Cell.text)) ++ tail
    rw [append_assoc, cons_append]

/-- What follows the cells of a line: it does not look like a number, and is not cut. -/
structure LineTail (tail : List Char) : Prop where
  head : tail.head? = some '>'
  noBlank : ∀ c ∈ tail, c ∉ blanks

theorem LineTail.end (eol : List Char) (h : eol = [] ∨ eol = ['\n']) : LineTail (['>', ';'] ++ eol) := by
  refine ⟨rfl, ?_⟩
  intro c hc
  rcases mem_cons.1 hc with rfl | hc
  · decide
  rcases mem_cons.1 hc with rfl | hc
  · decide
  rcases h with rfl | rfl
  · exact nomatch hc
  · obtain rfl := mem_singleton.1 hc
    decide

theorem notMem_blanks_of_hexVal {c : Char} (h : (hexVal c).isSome) : c ∉ blanks := by
  rintro hc
  rcases mem_cons.1 hc with rfl | hc
  · exact nomatch h
  · obtain rfl := mem_singleton.1 hc
    exact nomatch h

theorem Cell.notMem_blanks (c : Cell) : ∀ d ∈ c.text, d ∉ blanks := by
  intro d hd
  rcases mem_cons.1 hd with rfl | hd
  · decide
  · rcases mem_cons.1 hd with rfl | hd
    · decide
    · exact notMem_blanks_of_hexVal (c.hex d hd)

theorem Cell.isWord (c : Cell) : IsWord blanks c.text := ⟨cons_ne_nil _ _, c.notMem_blanks⟩

theorem Cell.isWord_tail (c : Cell) (htail : LineTail tail) : IsWord blanks (c.text ++ tail) := by
  refine ⟨cons_ne_nil _ _, ?_⟩
  intro d hd
  rcases mem_append.1 hd with hd | hd
  · exact c.notMem_blanks d hd
  · exact htail.noBlank d hd

theorem Cell.strtoul_text (c : Cell) {rest : List Char} (hrest : ∀ d ∈ rest.head?, hexVal d = none) :
    UInt32.ofNat (strtoul (c.text ++ rest)) = c.value := by
  show UInt32.ofNat (strtoul ('0' :: 'x' :: (c.digits ++ rest))) = _
  rw [strtoul_hex c.hex hrest (lt_trans c.fits (by decide))]
  rfl

theorem LineTail.hexVal_head (htail : LineTail tail) : ∀ d ∈ tail.head?, hexVal d = none := by
  intro d hd
  rw [htail.head] at hd
  cases hd
  decide

theorem numberWords_lineWords (htail : LineTail tail) (hcells : cells ≠ []) : NumberWords (lineWords tail cells) := by
  induction cells with
  | nil => exact absurd rfl hcells
  | cons c cells ih =>
    have hzero : some '0' ≠ some '>' := by decide
    rcases cells with - | ⟨d, _⟩
    · intro w hw
      obtain rfl := mem_singleton.1 hw
      exact ⟨c.isWord_tail htail, hzero⟩
    intro w hw
    rcases mem_cons.1 hw with rfl | hw
    · exact ⟨c.isWord, hzero⟩
    · exact ih (cons_ne_nil _ _) w hw

theorem wordValues_lineWords (htail : LineTail tail) (hcells : cells ≠ []) :
    wordValues (lineWords tail cells) = cells.map Cell.value := by
  induction cells with
  | nil => exact absurd rfl hcells
  | cons c cells ih =>
    rcases cells with - | ⟨d, cells⟩
    · show [UInt32.ofNat (strtoul (c.text ++ tail))] = _
      rw [c.strtoul_text htail.hexVal_head]
      rfl
    show UInt32.ofNat (strtoul c.text) :: wordValues (lineWords tail (d :: cells)) = _
    have hc := @Cell.strtoul_text c [] fun d hd => absurd hd (Option.not_mem_none d)
    rw [append_nil] at hc
    rw [ih (cons_ne_nil _ _), hc]
    rfl

/-- **The groups of a property**, from the end of its tag on. -/
theorem readGroups_cells {α : Type*} {entry : (ℕ → UInt32) → α} (hentry : ReadsFirst n entry) (hn : 0 < n)
    (htail : LineTail tail) (hended : g.entryEnded = false) (hg : g.sptr = spaced (cells.map Cell.text) ++ tail)
    (l : List α) :
    ∃ g', readGroups n entry (g.sptr.length + 1) g l =
        some (g', (groupEntries n entry (cells.map Cell.value)).foldl (fun l x => afterHead x l) l) ∧
      g'.entryEnded = true := by
  rw [← spaced_lineWords] at hg
  rcases eq_or_ne cells [] with rfl | hcells
  · -- No cells: the first token starts with `>`.
    have hempty : readGroup n 0 { g with entryValid := true } =
        { g with sptr := [], entryEnded := true, entryValid := false } := by
      have hword : IsWord blanks tail := ⟨fun h => absurd htail.head (by rw [h]; decide), htail.noBlank⟩
      have htok : strtokR blanks g.sptr = (some tail, []) := by
        rw [hg]
        exact strtokR_word hword
      obtain ⟨n, rfl⟩ := Nat.exists_eq_succ_of_ne_zero (Nat.ne_of_gt hn)
      rw [readGroup, htok]
      exact if_pos htail.head
    rw [readGroups, hempty, groupEntries_of_lt hn]
    exact ⟨_, rfl, rfl⟩
  have hws := numberWords_lineWords htail hcells
  have hlen := length_le_spaced fun w hw => (hws w hw).1.1
  rw [← hg] at hlen
  rw [← wordValues_lineWords htail hcells]
  exact readGroups_words hentry hn hws hended hg (Nat.lt_succ_of_le hlen) l

theorem readTriples_cells (htail : LineTail tail) (hended : g.entryEnded = false)
    (hg : g.sptr = spaced (cells.map Cell.text) ++ tail) (chip : List (ℕ × InfoNode)) :
    readTriples (g.sptr.length + 1) g chip =
      some ((groupEntries 3 tripleEntry (cells.map Cell.value)).foldl (fun l x => pushChip x l) chip) := by
  rw [← spaced_lineWords] at hg
  rcases eq_or_ne cells [] with rfl | hcells
  · have hempty : (readGroup 3 0 { g with entryValid := true }).entryEnded = true := by
      have hword : IsWord blanks tail := ⟨fun h => absurd htail.head (by rw [h]; decide), htail.noBlank⟩
      have htok : strtokR blanks g.sptr = (some tail, []) := by
        rw [hg]
        exact strtokR_word hword
      rw [readGroup, htok]
      dsimp only
      rw [if_pos htail.head]
    rw [readTriples, if_pos hempty, groupEntries_of_lt (by decide)]
    rfl
  have hws := numberWords_lineWords htail hcells
  have hlen := length_le_spaced fun w hw => (hws w hw).1.1
  rw [← hg] at hlen
  rw [← wordValues_lineWords htail hcells]
  exact readTriples_words hws hended hg (Nat.lt_succ_of_le hlen) chip

end Cells

end G4Common.Dtbtool
