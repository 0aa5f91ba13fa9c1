/-
What `dtbtool` reads of a DTB file (`getChipInfo()` and `GetVersionInfo()` of `dtbtool/dtbtool.c`).

The text is what `dtc` prints, as the lines that `getline()` gives; `popen()` may fail.  Behind a tag, groups of numbers
are read with `strtok_r()` up to the end of the line or to a token that starts with `>`.  The numbers of a group go to
an array that keeps what was in it before.  The tokenizer cuts the line off, so the tags that are looked for next are
looked for in what is left.

Nodes of the list `chip` have numbers, for `master`; memory is available.  The loops over groups have a bound on their
turns, which is not reached (`readGroups_ne_none`).
-/
import G4Common.Dtbtool.ChipList
import G4Common.Lib.CTokens

namespace G4Common.Dtbtool

open CString

def QCDT_DT_TAG : List Char := "qcom,msm-id = <".toList

def QCDT_BOARD_TAG : List Char := "qcom,board-id = <".toList

def QCDT_PMIC_TAG : List Char := "qcom,pmic-id = <".toList

/-! ### Lists -/

/-- A `chipInfo_t`, as it is made here. -/
structure InfoNode where
  id : ChipId
  dtb_size : UInt32
  dtb_file : Option (List Char)
  master : ℕ
  wroteDtb : Bool
  master_offset : UInt32
deriving DecidableEq

/-- A list with the links `t_next`; a new element goes behind the first one. -/
def afterHead {α : Type*} (x : α) : List α → List α
  | [] => [x]
  | head :: rest => head :: x :: rest

/-- A new node of `chip`; the first one is its own master. -/
def pushChip (id : ChipId) (chip : List (ℕ × InfoNode)) : List (ℕ × InfoNode) :=
  let master := (chip.head?.map Prod.fst).getD 0
  afterHead (chip.length, ⟨id, 0, none, master, false, 0⟩) chip

/-! ### Groups of numbers -/

/-- The delimiters of `strtok_r()`. -/
def blanks : List Char := [' ', '\t']

/-- `sptr`, the array, `entryValid` and `entryEnded`. -/
structure GroupState where
  sptr : List Char
  data : ℕ → UInt32
  entryValid : Bool
  entryEnded : Bool

/-- The loop over the numbers of a group, from the index `i` on, with `k` numbers to read. -/
def readGroup : ℕ → ℕ → GroupState → GroupState
  | 0, _, g => g
  | k + 1, i, g =>
    match strtokR blanks g.sptr with
    | (some tok, sptr) =>
      if tok.head? = some '>' then { g with sptr := sptr, entryEnded := true, entryValid := false }
      else readGroup k (i + 1) { g with sptr := sptr, data := Function.update g.data i (UInt32.ofNat (strtoul tok)) }
    | (none, sptr) =>
      readGroup k (i + 1)
        { sptr := sptr, data := Function.update g.data i 0, entryValid := false, entryEnded := true }

/-- The loop over the groups of version 1. -/
def readTriples : ℕ → GroupState → List (ℕ × InfoNode) → Option (List (ℕ × InfoNode))
  | 0, _, _ => none
  | fuel + 1, g, chip =>
    let g := readGroup 3 0 { g with entryValid := true }
    if g.entryEnded then some chip
    else
      readTriples fuel g
        (if g.entryValid then pushChip ⟨g.data 0, g.data 1, 0, g.data 2, (0, 0, 0, 0)⟩ chip else chip)

/-- The loop over the groups of `n` numbers of the other versions. -/
def readGroups {α : Type*} (n : ℕ) (entry : (ℕ → UInt32) → α) : ℕ → GroupState → List α → Option (GroupState × List α)
  | 0, _, _ => none
  | fuel + 1, g, l =>
    let g := readGroup n 0 { g with entryValid := true }
    let l := if g.entryValid then afterHead (entry g.data) l else l
    if g.entryEnded then some (g, l) else readGroups n entry fuel g l

/-! ### Lines -/

/-- What is known of a tag: the array, `entryEnded` and the list; and the line as the tokenizer leaves it. -/
structure TagState (α : Type*) where
  line : List Char
  data : ℕ → UInt32
  entryEnded : Bool
  entries : List α

/-- A tag is looked for in a line. -/
def scanTag {α : Type*} (n : ℕ) (tag : List Char) (entry : (ℕ → UInt32) → α) (t : TagState α) :
    Option (TagState α) :=
  match strstr tag t.line with
  | none => some t
  | some (front, pos) => do
    let (g, entries) ← readGroups n entry (pos.length + 1) ⟨pos, t.data, false, false⟩ t.entries
    some ⟨front ++ tag ++ cutToken blanks pos, g.data, g.entryEnded, entries⟩

def pairEntry (data : ℕ → UInt32) : UInt32 × UInt32 := (data 0, data 1)

def pmicEntry (data : ℕ → UInt32) : UInt32 × UInt32 × UInt32 × UInt32 := (data 0, data 1, data 2, data 3)

/-- The lists of versions 2 and 3, the arrays, and the flags, which are read only when they have been set. -/
structure ScanState where
  /-- `chipset` and `revNum` -/
  chipId : List (UInt32 × UInt32)
  /-- `platform` and `subtype` -/
  chipSt : List (UInt32 × UInt32)
  chipPt : List (UInt32 × UInt32 × UInt32 × UInt32)
  data_st : ℕ → UInt32
  data_pt : ℕ → UInt32
  entryEndedDT : Bool
  entryEndedST : Bool
  entryEndedPT : Bool

def ScanState.start : ScanState := ⟨[], [], [], fun _ => 0, fun _ => 0, false, false, false⟩

/-- A line of versions 2 and 3. -/
def scanLine (dt_tag : List Char) (s : ScanState) (line : List Char) : Option ScanState := do
  let dt ← scanTag 2 dt_tag pairEntry ⟨line, s.data_st, s.entryEndedDT, s.chipId⟩
  let st ← scanTag 2 QCDT_BOARD_TAG pairEntry ⟨dt.line, dt.data, s.entryEndedST, s.chipSt⟩
  let pt ← scanTag 4 QCDT_PMIC_TAG pmicEntry ⟨st.line, s.data_pt, s.entryEndedPT, s.chipPt⟩
  some ⟨dt.entries, st.entries, pt.entries, st.data, pt.data, dt.entryEnded, st.entryEnded, pt.entryEnded⟩

/-! ### Combinations -/

def pairedId (id st : UInt32 × UInt32) (pmic : UInt32 × UInt32 × UInt32 × UInt32) : ChipId :=
  ⟨id.1, st.1, st.2, id.2, pmic⟩

def walkPt (id st : UInt32 × UInt32) :
    List (UInt32 × UInt32 × UInt32 × UInt32) → List (ℕ × InfoNode) → List (ℕ × InfoNode)
  | [], chip => chip
  | pt :: cPt, chip => walkPt id st cPt (pushChip (pairedId id st pt) chip)

/-- The walk of `cSt`, which puts `cPt` back to `tmp_pt`; it gives the list and `cPt`. -/
def walkSt (msmversion : ℕ) (tmp_pt : List (UInt32 × UInt32 × UInt32 × UInt32)) (id : UInt32 × UInt32) :
    List (UInt32 × UInt32) → List (UInt32 × UInt32 × UInt32 × UInt32) → List (ℕ × InfoNode) →
      List (ℕ × InfoNode) × List (UInt32 × UInt32 × UInt32 × UInt32)
  | [], cPt, chip => (chip, cPt)
  | st :: cSt, cPt, chip =>
    if msmversion = 3 then walkSt msmversion tmp_pt id cSt tmp_pt (walkPt id st cPt chip)
    else walkSt msmversion tmp_pt id cSt cPt (pushChip (pairedId id st (0, 0, 0, 0)) chip)

/-- The walk of `cId`, which puts `cSt` back to `tmp_st`. -/
def walkId (msmversion : ℕ) (tmp_st : List (UInt32 × UInt32)) (tmp_pt : List (UInt32 × UInt32 × UInt32 × UInt32)) :
    List (UInt32 × UInt32) → List (UInt32 × UInt32) → List (UInt32 × UInt32 × UInt32 × UInt32) →
      List (ℕ × InfoNode) → List (ℕ × InfoNode)
  | [], _, _, chip => chip
  | id :: cId, cSt, cPt, chip =>
    let (chip, cPt) := walkSt msmversion tmp_pt id cSt cPt chip
    walkId msmversion tmp_st tmp_pt cId tmp_st cPt chip

/-- What follows the lines of versions 2 and 3: the list, empty for `NULL`, and `*num`. -/
def pairChips (msmversion num : ℕ) (s : ScanState) : List (ℕ × InfoNode) × ℕ :=
  if s.chipId = [] then ([], num)
  else if s.chipSt = [] then ([], num)
  else if s.chipPt = [] ∧ msmversion = 3 then ([], num)
  else
    let chip := walkId msmversion s.chipSt s.chipPt s.chipId s.chipSt s.chipPt []
    let entryEndedPT := if msmversion = 2 then true else s.entryEndedPT
    if s.entryEndedST ∧ s.entryEndedDT ∧ entryEndedPT then (chip, s.chipId.length) else ([], num)

/-- The lines of version 1, up to the first one with the tag. -/
def scanTriples (dt_tag : List Char) (num : ℕ) : List (List Char) → Option (List (ℕ × InfoNode) × ℕ)
  | [] => some (pairChips 1 num ScanState.start)
  | line :: lines =>
    match strstr dt_tag line with
    | none => scanTriples dt_tag num lines
    | some (_, pos) => do
      let chip ← readTriples (pos.length + 1) ⟨pos, fun _ => 0, false, false⟩ []
      some (chip, chip.length)

/-- `getChipInfo()`, with the lines that `dtc` prints: the list, empty for `NULL`, and `*num`. -/
def getChipInfo (dt_tag : List Char) (msmversion num : ℕ) (dtc : Option (List (List Char))) :
    Option (List (ℕ × InfoNode) × ℕ) :=
  match dtc with
  | none => some (pairChips msmversion num ScanState.start)
  | some lines =>
    if msmversion = 1 then scanTriples dt_tag num lines
    else if msmversion = 2 ∨ msmversion = 3 then
      (lines.foldlM (scanLine dt_tag) ScanState.start).map (pairChips msmversion num)
    else some (pairChips msmversion num ScanState.start)

/-- `GetVersionInfo()`, from a line on. -/
def versionOf : ℕ → List (List Char) → ℕ
  | v, [] => v
  | v, line :: lines =>
    let v := if (strstr QCDT_BOARD_TAG line).isSome then 2 else v
    if (strstr QCDT_PMIC_TAG line).isSome then 3 else versionOf v lines

def getVersionInfo (dtc : Option (List (List Char))) : ℕ :=
  match dtc with
  | none => 1
  | some lines => versionOf 1 lines

end G4Common.Dtbtool
