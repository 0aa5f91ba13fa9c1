/-
The rows of the table that `dtbtool` writes.

`chip_add()` keeps all eight numbers of the nodes apart, and a row has those that its version has.  The version is the
highest one of the input files, unless an option sets it.  Files of a lower version have zeros for the numbers that
their version does not have, so without the option no numbers get lost; with `--force-v2` the power chips of version 3
do (`table_rows_distinct_iff`).
-/
import G4Common.Dtbtool.ChipScan
import G4Common.Dtbtool.ImageLayout

namespace G4Common.Dtbtool

open List Option

/-! ### Inputs -/

/-- The options that set the version. -/
inductive VersionFlag
  | force_v2
  | force_v3
deriving DecidableEq

def VersionFlag.number : VersionFlag → ℕ
  | .force_v2 => 2
  | .force_v3 => 3

/-- What `parse_commandline()` does with them; only one may be passed. -/
def parseVersion : ℕ → List VersionFlag → Option ℕ
  | version_override, [] => some version_override
  | version_override, c :: args => if version_override ≠ 0 then none else parseVersion c.number args

/-- What is found out about files by what `dtc` prints for them. -/
def dtcFind (dt_tag : List Char) (dtc : List Char → Option (List (List Char))) (statSize : List Char → Option ℕ)
    (statMode : List Char → Option FileType) : DtbEnv where
  getVersionInfo name := getVersionInfo (dtc name)
  getChipInfo name msmversion :=
    match getChipInfo dt_tag msmversion 1 (dtc name) with
    | some (head :: rest, _) => some (head.2.id, rest.map fun x => x.2.id)
    | some ([], _) => none
    | none => none
  statSize := statSize
  statMode := statMode

/-- The files that are visited from the input path on. -/
def inputFiles (find : DtbEnv) (path : List Char) (opens : Bool) (entries : Forest Dirent) : List (List Char) :=
  if opens then visitedFiles find path entries else []

/-- The identities of the files that are kept: each file whose first identity is not one of a file before. -/
def KeptId (find : DtbEnv) (path : List Char) (opens : Bool) (entries : Forest Dirent) (i : ChipId) : Prop :=
  ∃ ids ∈ keptLists [] ((inputFiles find path opens entries).map (fileIds find)), i ∈ ids

theorem parseVersion_some {v w : ℕ} {args : List VersionFlag} (h : parseVersion v args = some w) :
    w = v ∨ w = 2 ∨ w = 3 := by
  induction args generalizing v with
  | nil => exact .inl (some.inj h).symm
  | cons c _ ih =>
    rw [parseVersion] at h
    split at h
    · cases h
    rcases ih h with rfl | h
    · cases c with
      | force_v2 => exact .inr (.inl rfl)
      | force_v3 => exact .inr (.inr rfl)
    · exact .inr h

/-! ### Identities by version -/

section Versions

variable {dt_tag : List Char} {num n : ℕ} {chip chip' : List (ℕ × InfoNode)} {lines : List (List Char)}

theorem mem_pushChip {id : ChipId} {x : ℕ × InfoNode} (h : x ∈ pushChip id chip) : x.2.id = id ∨ x ∈ chip := by
  rcases mem_cons.1 ((afterHead_perm _ chip).mem_iff.1 h) with rfl | h
  · exact .inl rfl
  · exact .inr h

/-- No subtype and no power chips. -/
def FirstVersion (i : ChipId) : Prop := i.subtype = 0 ∧ i.pmic_model = (0, 0, 0, 0)

theorem firstVersion_readTriples {fuel : ℕ} {g : GroupState} (hchip : ∀ x ∈ chip, FirstVersion x.2.id)
    (h : readTriples fuel g chip = some chip') : ∀ x ∈ chip', FirstVersion x.2.id := by
  induction fuel generalizing g chip with
  | zero => cases h
  | succ _ ih =>
    rw [readTriples] at h
    split at h
    · cases h
      exact hchip
    refine ih ?_ h
    split
    · intro x hx
      rcases mem_pushChip hx with hid | hx
      · rw [hid]
        exact ⟨rfl, rfl⟩
      · exact hchip x hx
    · exact hchip

theorem firstVersion_scanTriples (h : scanTriples dt_tag num lines = some (chip, n)) :
    ∀ x ∈ chip, FirstVersion x.2.id := by
  induction lines with
  | nil =>
    obtain ⟨rfl, -⟩ := Prod.mk.inj (some.inj h)
    exact nofun
  | cons _ _ ih =>
    rw [scanTriples] at h
    split at h
    · exact ih h
    · obtain ⟨_, hread, h⟩ := bind_eq_some_iff.1 h
      obtain ⟨rfl, -⟩ := Prod.mk.inj (some.inj h)
      exact firstVersion_readTriples (fun x hx => absurd hx not_mem_nil) hread

theorem firstVersion_getChipInfo {dtc : Option (List (List Char))}
    (h : getChipInfo dt_tag 1 num dtc = some (chip, n)) : ∀ x ∈ chip, FirstVersion x.2.id := by
  rcases dtc with - | _
  · obtain ⟨rfl, -⟩ := Prod.mk.inj (some.inj h)
    exact nofun
  · exact firstVersion_scanTriples h

theorem pmic_pairChips (s : ScanState) : ∀ x ∈ (pairChips 2 num s).1, x.2.id.pmic_model = (0, 0, 0, 0) := by
  intro x hx
  rcases @pairChips_cases 2 num s with h | h
  · rw [h] at hx
    exact nomatch hx
  rw [h] at hx
  have hext := Extracted.nil.foldl (crossIds s.chipId s.chipSt (usedPmics 2 s.chipPt))
  have hid := hext.ids.mem_iff.1 (mem_map.2 ⟨x, hx, rfl⟩)
  rw [append_nil] at hid
  obtain ⟨_, -, hid⟩ := mem_flatMap.1 hid
  obtain ⟨_, -, hid⟩ := mem_flatMap.1 hid
  obtain ⟨_, hpt, hid⟩ := mem_map.1 hid
  obtain rfl := mem_singleton.1 hpt
  rw [← hid]
  rfl

theorem pmic_getChipInfo {dtc : Option (List (List Char))} (h : getChipInfo dt_tag 2 num dtc = some (chip, n)) :
    ∀ x ∈ chip, x.2.id.pmic_model = (0, 0, 0, 0) := by
  rcases dtc with - | _
  · obtain ⟨rfl, -⟩ := Prod.mk.inj (some.inj h)
    exact nofun
  obtain ⟨s, -, hs⟩ := map_eq_some_iff.1 h
  have hchip : chip = (pairChips 2 num s).1 := by rw [hs]
  rw [hchip]
  exact pmic_pairChips s

theorem versionOf_cases (v : ℕ) (lines : List (List Char)) :
    versionOf v lines = v ∨ versionOf v lines = 2 ∨ versionOf v lines = 3 := by
  induction lines generalizing v with
  | nil => exact .inl rfl
  | cons _ _ ih =>
    rw [versionOf]
    split
    · exact .inr (.inr rfl)
    split
    · rcases ih 2 with h | h
      · exact .inr (.inl h)
      · exact .inr h
    · exact ih v

theorem getVersionInfo_cases (dtc : Option (List (List Char))) :
    getVersionInfo dtc = 1 ∨ getVersionInfo dtc = 2 ∨ getVersionInfo dtc = 3 := by
  rcases dtc with - | lines
  · exact .inl rfl
  · exact versionOf_cases 1 lines

end Versions

/-! ### The list -/

section Chips

variable (find : DtbEnv) (page_size : ℕ) {st : FindState} {l : List ChipNode}

/-- Sorted by the first four numbers, and no identity comes twice. -/
structure ChipSet (l : List ChipNode) : Prop where
  placed : Placed l
  nodup : (l.map ChipNode.id).Nodup

theorem ChipSet.step (h : ChipSet l) (c : ChipNode) : ChipSet (chipStep l c) := by
  refine ⟨placed_chipStep h.placed, ?_⟩
  rcases chipStep_cases (c := c) h.placed with ⟨-, -, hstep⟩ | ⟨hnot, -, p, q, rfl, hstep, -, -⟩
  · rw [hstep]
    exact h.nodup
  have hperm : ((p ++ c :: q).map ChipNode.id).Perm (c.id :: (p ++ q).map ChipNode.id) :=
    perm_middle.map ChipNode.id
  rw [hstep, hperm.nodup_iff, nodup_cons]
  exact ⟨hnot, h.nodup⟩

theorem ChipSet.foldl (h : ChipSet l) (cs : List ChipNode) : ChipSet (cs.foldl chipStep l) :=
  foldlRecOn cs chipStep h fun _ h c _ => h.step c

theorem ChipSet.addFile (h : ChipSet st.chips) (filename : List Char) :
    ChipSet (addFile find page_size st filename).chips := by
  rw [addFile_chips find page_size h.placed, addIds.eq_def]
  split
  · exact h
  · split
    · exact h
    · exact h.foldl _

theorem ChipSet.visits (h : ChipSet st.chips) (visits : List DtbVisit) :
    ChipSet (visits.foldl (visitStep find page_size) st).chips := by
  induction visits generalizing st with
  | nil => exact h
  | cons v _ ih =>
    cases v with
    | file name => exact ih (h.addFile find page_size name)
    | closed => exact @ih (closedDir st) h

theorem chipSet_findInput (path : List Char) (opens : Bool) (entries : Forest Dirent) :
    ChipSet (findInput find page_size path opens entries).chips := by
  have hnil : ChipSet (FindState.mk [] [] 0 0).chips := ⟨List.Pairwise.nil, nodup_nil⟩
  rw [findInput]
  cases opens with
  | true =>
    rw [if_pos rfl, findDtb_eq_foldl]
    exact hnil.visits find page_size _
  | false => exact hnil

theorem mem_chips_findInput (path : List Char) (opens : Bool) (entries : Forest Dirent) (i : ChipId) :
    i ∈ (findInput find page_size path opens entries).chips.map ChipNode.id ↔ KeptId find path opens entries i := by
  have hnil : Placed (FindState.mk [] [] 0 0).chips := List.Pairwise.nil
  rw [findInput, KeptId, inputFiles]
  cases opens with
  | true =>
    rw [if_pos rfl, if_pos rfl, findDtb_eq_foldl, mem_foldl_visits find page_size hnil (fun _ => Iff.rfl)]
    exact or_iff_right not_mem_nil
  | false => exact iff_of_false not_mem_nil (by rintro ⟨_, h, _⟩; exact absurd h not_mem_nil)

/-! ### The version -/

theorem version_addFile (filename : List Char) :
    (addFile find page_size st filename).version = max st.version (find.getVersionInfo filename) := by
  have hothers : ∀ (m : ℕ) (ids : List ChipId) (st : FindState), (ids.foldl (addOther m) st).version = st.version := by
    intro m ids
    induction ids with
    | nil => exact fun _ => rfl
    | cons id _ ih =>
      intro st
      rw [foldl_cons, ih, addOther]
      cases chipAdd ⟨id, m⟩ st.chips <;> rfl
  rw [Dtbtool.addFile]
  dsimp only
  split
  · rfl
  split
  · rfl
  split
  · rfl
  · split
    · rfl
    · exact hothers _ _ _

theorem le_version_visits (visits : List DtbVisit) : st.version ≤ (visits.foldl (visitStep find page_size) st).version ∧
    ∀ name ∈ visits.filterMap DtbVisit.name,
      find.getVersionInfo name ≤ (visits.foldl (visitStep find page_size) st).version := by
  induction visits generalizing st with
  | nil => exact ⟨le_refl _, nofun⟩
  | cons v visits ih =>
    cases v with
    | closed => exact @ih (closedDir st)
    | file name =>
      obtain ⟨hle, hnames⟩ := @ih (addFile find page_size st name)
      have hfile := @version_addFile find page_size st name
      rw [hfile] at hle
      have hcons : (DtbVisit.file name :: visits).filterMap DtbVisit.name = name :: visits.filterMap DtbVisit.name :=
        filterMap_cons_some rfl
      rw [hcons]
      refine ⟨le_trans (le_max_left _ _) hle, ?_⟩
      intro other hother
      rcases mem_cons.1 hother with rfl | hother
      · exact le_trans (le_max_right _ _) hle
      · exact hnames other hother

theorem exists_file_of_keptId {path : List Char} {opens : Bool} {entries : Forest Dirent} {i : ChipId}
    (h : KeptId find path opens entries i) : ∃ name, i ∈ fileIds find name ∧
      find.getVersionInfo name ≤ (findInput find page_size path opens entries).version := by
  obtain ⟨_, hids, hi⟩ := h
  obtain ⟨name, hname, rfl⟩ := mem_map.1 (mem_of_mem_keptLists hids)
  refine ⟨name, hi, ?_⟩
  rw [inputFiles] at hname
  rw [findInput]
  cases opens with
  | true =>
    rw [if_pos rfl] at hname ⊢
    rw [findDtb_eq_foldl]
    exact (le_version_visits find page_size _).2 name hname
  | false => cases hname

end Chips

theorem dtcFind_ids {dt_tag : List Char} {dtc : List Char → Option (List (List Char))}
    {statSize : List Char → Option ℕ} {statMode : List Char → Option FileType} {name : List Char} {i : ChipId}
    (h : i ∈ fileIds (dtcFind dt_tag dtc statSize statMode) name) :
    (getVersionInfo (dtc name) = 1 → FirstVersion i) ∧ (getVersionInfo (dtc name) = 2 → i.pmic_model = (0, 0, 0, 0)) := by
  have hmem : ∃ chip n, getChipInfo dt_tag (getVersionInfo (dtc name)) 1 (dtc name) = some (chip, n) ∧
      ∃ x ∈ chip, x.2.id = i := by
    rw [fileIds] at h
    dsimp only [dtcFind] at h
    split at h
    · cases h
    rename_i head others hinfo
    split at h
    · cases h
    split at h
    · cases h
    split at hinfo
    · rename_i first rest n hchip
      cases hinfo
      refine ⟨_, n, hchip, ?_⟩
      rcases mem_cons.1 h with rfl | h
      · exact ⟨first, mem_cons_self, rfl⟩
      · obtain ⟨x, hx, rfl⟩ := mem_map.1 h
        exact ⟨x, mem_cons_of_mem _ hx, rfl⟩
    · cases hinfo
    · cases hinfo
  obtain ⟨_, n, hchip, x, hx, rfl⟩ := hmem
  constructor
  · intro hv
    rw [hv] at hchip
    exact firstVersion_getChipInfo hchip x hx
  · intro hv
    rw [hv] at hchip
    exact pmic_getChipInfo hchip x hx

/-! ### Rows -/

/-- A row: the numbers that identify it, its offset and its size. -/
abbrev TableRow := List (BitVec 32) × BitVec 32 × BitVec 32

/-- The calls that write a row. -/
def rowCalls (row : TableRow) : List Bytes := (row.1 ++ [row.2.1, row.2.2]).map le32

section Rows

variable (env : ImageEnv) (st : FindState)

theorem tableTurn_out (version : ℕ) (t : TableState) (c : ChipNode) : ∃ row : TableRow,
    row.1 = idWords version c.id ∧ (tableTurn env st version t c).out = t.out.writeAll env.write (rowCalls row) := by
  rw [tableTurn]
  split
  · refine ⟨⟨_, t.master_offset c.master, BitVec.ofNat 32 (st.master c.master).dtb_size⟩, rfl, ?_⟩
    rw [rowCalls, map_append, writeAll_append]
    rfl
  · refine ⟨⟨_, t.expected.setWidth 32, BitVec.ofNat 32 (st.master c.master).dtb_size⟩, rfl, ?_⟩
    rw [rowCalls, map_append, writeAll_append]
    rfl

theorem tableLoop_out (version : ℕ) (l : List ChipNode) (t : TableState) : ∃ rows : List TableRow,
    rows.map Prod.fst = l.map (fun c => idWords version c.id) ∧
      (l.foldl (tableTurn env st version) t).out = t.out.writeAll env.write (rows.flatMap rowCalls) := by
  induction l generalizing t with
  | nil => exact ⟨[], rfl, rfl⟩
  | cons c _ ih =>
    obtain ⟨row, hrow, hout⟩ := tableTurn_out env st version t c
    obtain ⟨rows, hrows, hrest⟩ := ih (tableTurn env st version t c)
    refine ⟨row :: rows, ?_, ?_⟩
    · rw [map_cons, map_cons, hrow, hrows]
    · rw [foldl_cons, hrest, hout, flatMap_cons, writeAll_append]

/-- The calls before the rows. -/
def headerCalls : List Bytes :=
  [QCDT_MAGIC, le32 (BitVec.ofNat 32 (imageVersion env st)), le32 (BitVec.ofInt 32 st.dtb_count)]

theorem writeTable_out : ∃ rows : List TableRow,
    rows.map Prod.fst = st.chips.map (fun c => idWords (imageVersion env st) c.id) ∧
      (writeTable env st).out = OutFile.opened.writeAll env.write (headerCalls env st ++ rows.flatMap rowCalls ++
        le32 (BitVec.ofInt 32 RC_SUCCESS) ::
          if 0 < tablePadding env st then [filler (tablePadding env st).toNat] else []) := by
  obtain ⟨rows, hrows, hout⟩ := tableLoop_out env st (imageVersion env st) st.chips
    ⟨OutFile.opened.writeAll env.write (headerCalls env st), BitVec.ofInt 64 (tableEnd env st + tablePadding env st),
      fun _ => 0⟩
  refine ⟨rows, hrows, ?_⟩
  have hrowsOut : (writeRows env st).out =
      OutFile.opened.writeAll env.write (headerCalls env st ++ rows.flatMap rowCalls) := by
    rw [writeAll_append]
    exact hout
  rw [writeTable, writeAll_append, ← hrowsOut]
  dsimp only
  split <;> rfl

theorem blobLoop_calls (l : List ChipNode) {out out' : OutFile (BitVec 8)} {wroteDtb : ℕ → Bool} {ok : Bool}
    (h : blobLoop env st l out wroteDtb = some (out', ok)) : ∃ rest, out'.calls = out.calls ++ rest := by
  induction l generalizing out wroteDtb with
  | nil =>
    obtain ⟨rfl, -⟩ := Prod.mk.inj (some.inj h)
    exact ⟨[], (append_nil _).symm⟩
  | cons c l ih =>
    rw [blobLoop] at h
    split at h
    · exact ih h
    split at h
    · obtain ⟨rfl, -⟩ := Prod.mk.inj (some.inj h)
      exact ⟨[], (append_nil _).symm⟩
    rename_i bytes _
    dsimp only at h
    split at h
    · cases h
    split at h
    · obtain ⟨rfl, -⟩ := Prod.mk.inj (some.inj h)
      exact ⟨_, calls_writeAll _ _⟩
    obtain ⟨_, hrest⟩ := ih h
    rw [hrest]
    split
    · rw [calls_write, calls_writeAll, append_assoc, append_assoc]
      exact ⟨_, rfl⟩
    · rw [calls_writeAll, append_assoc]
      exact ⟨_, rfl⟩

theorem dtbMain_calls {r : DtbResult} (h : dtbMain env st = some r) (hcalls : r.calls ≠ []) :
    ∃ (rows : List TableRow) (rest : List Bytes),
      r.calls = [QCDT_MAGIC, le32 (BitVec.ofNat 32 (imageVersion env st)), le32 (BitVec.ofInt 32 st.dtb_count)] ++
        rows.flatMap rowCalls ++ rest ∧
      rows.map Prod.fst = st.chips.map fun c => idWords (imageVersion env st) c.id := by
  rw [dtbMain] at h
  split at h
  · cases h
    exact absurd rfl hcalls
  split at h
  · cases h
    exact absurd rfl hcalls
  split at h
  · cases h
  dsimp only at h
  split at h
  · cases h
  rename_i out ok hloop
  cases h
  obtain ⟨rest, hrest⟩ := blobLoop_calls env st _ hloop
  obtain ⟨rows, hrows, htable⟩ := writeTable_out env st
  refine ⟨rows, (le32 (BitVec.ofInt 32 RC_SUCCESS) ::
    if 0 < tablePadding env st then [filler (tablePadding env st).toNat] else []) ++ rest, ?_, hrows⟩
  dsimp only
  rw [hrest, htable, calls_writeAll, show (OutFile.opened : OutFile (BitVec 8)).calls = [] from rfl, nil_append]
  exact append_assoc _ _ _

theorem idWords_inj {version : ℕ} {i j : ChipId} (h : idWords version i = idWords version j) :
    i.chipset = j.chipset ∧ i.platform = j.platform ∧ i.revNum = j.revNum ∧ (2 ≤ version → i.subtype = j.subtype) ∧
      (3 ≤ version → i.pmic_model = j.pmic_model) := by
  rw [idWords, idWords] at h
  by_cases h2 : 2 ≤ version
  · by_cases h3 : 3 ≤ version
    · simp only [if_pos h2, if_pos h3, cons_append, nil_append, cons.injEq, UInt32.toBitVec_inj, and_true] at h
      obtain ⟨h1, h₂, h4, h5, h6, h7, h8, h9⟩ := h
      exact ⟨h1, h₂, h5, fun _ => h4, fun _ => Prod.ext h6 (Prod.ext h7 (Prod.ext h8 h9))⟩
    simp only [if_pos h2, if_neg h3, cons_append, nil_append, append_nil, cons.injEq,
      UInt32.toBitVec_inj, and_true] at h
    obtain ⟨h1, h₂, h4, h5⟩ := h
    exact ⟨h1, h₂, h5, fun _ => h4, fun h => absurd h h3⟩
  have h3 : ¬ 3 ≤ version := fun h => h2 (Nat.le_of_succ_le h)
  simp only [if_neg h2, if_neg h3, cons_append, nil_append, append_nil, cons.injEq,
    UInt32.toBitVec_inj, and_true] at h
  obtain ⟨h1, h₂, h5⟩ := h
  exact ⟨h1, h₂, h5, fun h => absurd h h2, fun h => absurd h h3⟩

end Rows

/-- The same board with other power chips. -/
def DifferInPmics (i j : ChipId) : Prop :=
  i.chipset = j.chipset ∧ i.platform = j.platform ∧ i.subtype = j.subtype ∧ i.revNum = j.revNum ∧
    i.pmic_model ≠ j.pmic_model

section Distinct

variable {find : DtbEnv} {path : List Char} {opens : Bool} {entries : Forest Dirent}

theorem nodup_rows_iff (page_size version : ℕ) :
    ((findInput find page_size path opens entries).chips.map fun c => idWords version c.id).Nodup ↔
      ∀ i j, KeptId find path opens entries i → KeptId find path opens entries j →
        idWords version i = idWords version j → i = j := by
  have hset := chipSet_findInput find page_size path opens entries
  have hmap : (findInput find page_size path opens entries).chips.map (fun c => idWords version c.id) =
      ((findInput find page_size path opens entries).chips.map ChipNode.id).map (idWords version) := by
    rw [List.map_map]
    rfl
  rw [hmap, nodup_map_iff_inj_on hset.nodup]
  constructor
  · intro h i j hi hj
    exact h i ((mem_chips_findInput find page_size path opens entries i).2 hi) j
      ((mem_chips_findInput find page_size path opens entries j).2 hj)
  · intro h i hi j hj
    exact h i j ((mem_chips_findInput find page_size path opens entries i).1 hi)
      ((mem_chips_findInput find page_size path opens entries j).1 hj)

variable {dt_tag : List Char} {dtc : List Char → Option (List (List Char))} {statSize : List Char → Option ℕ}
  {statMode : List Char → Option FileType}

theorem eq_of_idWords_version {page_size : ℕ} {i j : ChipId}
    (hi : KeptId (dtcFind dt_tag dtc statSize statMode) path opens entries i)
    (hj : KeptId (dtcFind dt_tag dtc statSize statMode) path opens entries j)
    (h : idWords (findInput (dtcFind dt_tag dtc statSize statMode) page_size path opens entries).version i =
      idWords (findInput (dtcFind dt_tag dtc statSize statMode) page_size path opens entries).version j) : i = j := by
  obtain ⟨ni, hidi, hvi⟩ := exists_file_of_keptId _ page_size hi
  obtain ⟨nj, hidj, hvj⟩ := exists_file_of_keptId _ page_size hj
  revert hvi hvj h
  generalize (findInput (dtcFind dt_tag dtc statSize statMode) page_size path opens entries).version = v
  intro h hvi hvj
  obtain ⟨h1, h₂, h₃, h4, h5⟩ := idWords_inj h
  have hext : i.subtype = j.subtype → i.pmic_model = j.pmic_model → i = j := by
    intro hs hp
    obtain ⟨i1, i2, i3, i4, i5⟩ := i
    obtain ⟨j1, j2, j3, j4, j5⟩ := j
    obtain rfl : i1 = j1 := h1
    obtain rfl : i2 = j2 := h₂
    obtain rfl : i3 = j3 := hs
    obtain rfl : i4 = j4 := h₃
    obtain rfl : i5 = j5 := hp
    rfl
  have hni : getVersionInfo (dtc ni) ≤ v := hvi
  have hnj : getVersionInfo (dtc nj) ≤ v := hvj
  have hci := getVersionInfo_cases (dtc ni)
  have hcj := getVersionInfo_cases (dtc nj)
  obtain ⟨hi1, hi2⟩ := dtcFind_ids hidi
  obtain ⟨hj1, hj2⟩ := dtcFind_ids hidj
  -- A file of a lower version has zeros for the numbers that the table does not have.
  have hpi : v ≤ 2 → i.pmic_model = (0, 0, 0, 0) := by
    intro hv
    rcases hci with hc | hc | hc
    · exact (hi1 hc).2
    · exact hi2 hc
    · omega
  have hpj : v ≤ 2 → j.pmic_model = (0, 0, 0, 0) := by
    intro hv
    rcases hcj with hc | hc | hc
    · exact (hj1 hc).2
    · exact hj2 hc
    · omega
  apply hext
  · rcases Nat.lt_or_ge v 2 with hv | hv
    · rw [(hi1 (by omega)).1, (hj1 (by omega)).1]
    · exact h4 hv
  · rcases Nat.lt_or_ge v 3 with hv | hv
    · rw [hpi (Nat.le_of_lt_succ hv), hpj (Nat.le_of_lt_succ hv)]
    · exact h5 hv

/-- **No two rows are for the same board**, unless `--force-v2` is used with kept identities that differ in the power
chips only. -/
theorem table_rows_distinct_iff (env : ImageEnv) {args : List VersionFlag}
    (hargs : parseVersion 0 args = some env.version_override) {st : FindState}
    (hst : st = findInput (dtcFind dt_tag dtc statSize statMode) env.page_size path opens entries) {r : DtbResult}
    (hr : dtbMain env st = some r) (hcalls : r.calls ≠ []) :
    ∃ (rows : List TableRow) (rest : List Bytes),
      r.calls = [QCDT_MAGIC, le32 (BitVec.ofNat 32 (imageVersion env st)), le32 (BitVec.ofInt 32 st.dtb_count)] ++
        rows.flatMap rowCalls ++ rest ∧
      rows.map Prod.fst = st.chips.map (fun c => idWords (imageVersion env st) c.id) ∧
      ((rows.map Prod.fst).Nodup ↔
        ¬ (env.version_override = 2 ∧
          ∃ i j, KeptId (dtcFind dt_tag dtc statSize statMode) path opens entries i ∧
            KeptId (dtcFind dt_tag dtc statSize statMode) path opens entries j ∧ DifferInPmics i j)) := by
  obtain ⟨rows, rest, hrows, hids⟩ := dtbMain_calls env st hr hcalls
  refine ⟨rows, rest, hrows, hids, ?_⟩
  rw [hids, hst, nodup_rows_iff]
  rcases parseVersion_some hargs with hv | hv | hv
  · rw [imageVersion, hv, if_neg (not_not_intro rfl)]
    refine iff_of_true (fun i j hi hj h => eq_of_idWords_version hi hj h) ?_
    rintro ⟨h, -⟩
    exact nomatch h
  · rw [imageVersion, hv, if_pos (by decide)]
    constructor
    · rintro h ⟨-, i, j, hi, hj, h1, h₂, h₃, h4, hne⟩
      apply hne
      rw [h i j hi hj]
      show [i.chipset.toBitVec, i.platform.toBitVec, i.subtype.toBitVec, i.revNum.toBitVec] = _
      rw [h1, h₂, h₃, h4]
      rfl
    intro hno i j hi hj h
    obtain ⟨h1, h₂, h₃, h4, -⟩ := idWords_inj h
    by_contra hij
    refine hno ⟨rfl, i, j, hi, hj, h1, h₂, h4 (Nat.le_refl 2), h₃, ?_⟩
    intro hp
    apply hij
    apply tableKey_injective
    rw [ChipId.tableKey, ChipId.tableKey, h1, h₂, h₃, h4 (Nat.le_refl 2), hp]
  rw [imageVersion, hv, if_pos (by decide)]
  refine iff_of_true ?_ fun h => absurd h.1 (by decide)
  intro i j _ _ h
  obtain ⟨h1, h₂, h₃, h4, h5⟩ := idWords_inj h
  apply tableKey_injective
  rw [ChipId.tableKey, ChipId.tableKey, h1, h₂, h₃, h4 (by decide), h5 (Nat.le_refl 3)]

end Distinct

def digitChars : List Char := ['0', '1', '2', '3', '4', '5', '6', '7', '8', '9', 'a', 'b', 'c', 'd', 'e', 'f']

theorem isSome_hexVal_digit (i : Fin 16) : (Scanf.hexVal (digitChars.getD i.val '0')).isSome = true := by
  revert i
  decide

/-- A cell of one digit. -/
def hexCell (i : Fin 16) : Cell := digitCell (digitChars.getD i.val '0') (isSome_hexVal_digit i)

theorem pmicImage_pages : 0 < 16 ∧ 16 ≤ PAGE_SIZE_MAX := by
  decide

/-- A board with a power chip, as `dtc` prints it. -/
def pmicLines (pmic : Cell) : List (List Char) :=
  [propLine ['\t'] QCDT_DT_TAG [hexCell 7, hexCell 1] ['\n'],
    propLine ['\t'] QCDT_BOARD_TAG [hexCell 8, hexCell 0] ['\n'],
    propLine ['\t'] QCDT_PMIC_TAG [pmic, hexCell 0, hexCell 0, hexCell 0] ['\n']]

/-- Two files for a board with different power chips. -/
def twoPmics : DtbEnv :=
  dtcFind QCDT_DT_TAG
    (fun name => some (pmicLines (if name = "/a.dtb".toList then hexCell 9 else hexCell 10)))
    (fun _ => some 3) fun _ => none

def pmicImage (version_override : ℕ) : ImageEnv where
  page_size := 16
  page_size_ok := pmicImage_pages
  version_override := version_override
  opens := true
  fopen _ := some [1, 2, 3]
  write _ := some 4096

def pmicList : FindState := findInput twoPmics 16 ['/'] true (dtbEntry "a.dtb" (dtbEntry "b.dtb" .nil))

/-- Without an option the rows are distinct; the theorem applies. -/
theorem table_rows_distinct_iff_pmics : ∃ (r : DtbResult) (rows : List TableRow) (rest : List Bytes),
    dtbMain (pmicImage 0) pmicList = some r ∧
    r.calls = [QCDT_MAGIC, le32 3, le32 2] ++ rows.flatMap rowCalls ++ rest ∧ (rows.map Prod.fst).Nodup := by
  have hsome : (dtbMain (pmicImage 0) pmicList).isSome = true := by decide
  obtain ⟨r, hr⟩ := isSome_iff_exists.1 hsome
  have hcalls : r.calls ≠ [] := by
    have h : (dtbMain (pmicImage 0) pmicList).map (fun r => decide (r.calls ≠ [])) = some true := by decide
    rw [hr] at h
    exact of_decide_eq_true (some.inj h)
  obtain ⟨rows, rest, hrows, -, hiff⟩ := table_rows_distinct_iff (pmicImage 0) (show parseVersion 0 [] = some 0 from rfl)
    (show pmicList = _ from rfl) hr hcalls
  have hversion : imageVersion (pmicImage 0) pmicList = 3 := by decide
  have hcount : pmicList.dtb_count = 2 := by decide
  rw [hversion, hcount] at hrows
  exact ⟨r, rows, rest, hr, hrows, hiff.2 fun h => absurd h.1 (by decide)⟩

/-- With `--force-v2` there are two rows for the board, and `main()` succeeds. -/
theorem table_rows_distinct_fails : parseVersion 0 [.force_v2] = some (pmicImage 2).version_override ∧
    ∃ (row row' : TableRow) (rest : List Bytes),
      (dtbMain (pmicImage 2) pmicList).map (fun r => (r.rc, r.calls)) =
        some (RC_SUCCESS, [QCDT_MAGIC, le32 2, le32 2] ++ rowCalls row ++ rowCalls row' ++ rest) ∧
      row.1 = row'.1 := by
  refine ⟨rfl, ⟨[7, 8, 0, 1], 80, 16⟩, ⟨[7, 8, 0, 1], 96, 16⟩, ?_⟩
  refine ⟨[le32 0, filler 16, [1, 2, 3], filler 13, [1, 2, 3], filler 13], ?_, rfl⟩
  decide

end G4Common.Dtbtool
