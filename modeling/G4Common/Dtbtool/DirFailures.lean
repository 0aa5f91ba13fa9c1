/-
Directories that cannot be opened.

`find_dtb()` returns `RC_ERROR` for such a directory, and the search above it adds this to its count.  So the count is
the number of nodes less the number of these directories (`dtb_count_findInput`).  `main()` uses it for the header, for
the place of the first file, for the padding of the table and to tell whether anything was found.

When all directories can be opened, the padding is not longer than a page, and `main()` succeeds only with the whole
file, whatever the sizes of the files are (`succeedsComplete_of_count`): what is expected is never less than what the
calls are to write.
-/
import G4Common.Dtbtool.TableRows

namespace G4Common.Dtbtool

open List

/-! ### The count -/

/-- The number of directories that are visited and cannot be opened. -/
def closedDirs (find : DtbEnv) (path : List Char) (opens : Bool) (entries : Forest Dirent) : ℕ :=
  if opens then (dtbVisits find path entries).count .closed else 1

section Count

variable (find : DtbEnv) (page_size : ℕ) {st : FindState}

theorem length_chipAdd {c : ChipNode} {l l' : List ChipNode} (h : chipAdd c l = some l') : l'.length = l.length + 1 := by
  induction l generalizing l' with
  | nil =>
    cases h
    rfl
  | cons x l ih =>
    rw [chipAdd] at h
    split at h
    · cases h
      rfl
    split at h
    · cases h
    · obtain ⟨m, hm, rfl⟩ := Option.map_eq_some_iff.1 h
      rw [length_cons, ih hm, length_cons]

/-- The count without the nodes. -/
def FindState.excess (st : FindState) : ℤ := st.dtb_count - st.chips.length

theorem excess_addOthers (m : ℕ) (ids : List ChipId) (st : FindState) :
    (ids.foldl (addOther m) st).excess = st.excess := by
  induction ids generalizing st with
  | nil => rfl
  | cons id ids ih =>
    rw [foldl_cons, ih, addOther]
    split
    · rfl
    rename_i chips hadd
    show st.dtb_count + 1 - (chips.length : ℤ) = st.dtb_count - st.chips.length
    rw [length_chipAdd hadd]
    push_cast
    omega

theorem excess_addFile (filename : List Char) : (addFile find page_size st filename).excess = st.excess := by
  rw [addFile]
  dsimp only
  split
  · rfl
  split
  · rfl
  split
  · rfl
  split
  · rfl
  rename_i chips hadd
  rw [excess_addOthers]
  show st.dtb_count + 1 - (chips.length : ℤ) = st.dtb_count - st.chips.length
  rw [length_chipAdd hadd]
  push_cast
  omega

theorem excess_visits (visits : List DtbVisit) :
    (visits.foldl (visitStep find page_size) st).excess = st.excess - (visits.count .closed : ℤ) := by
  induction visits generalizing st with
  | nil => exact (Int.sub_zero _).symm
  | cons v visits ih =>
    rw [foldl_cons, ih]
    cases v with
    | file name =>
      have hcount : (DtbVisit.file name :: visits).count .closed = visits.count .closed :=
        count_cons_of_ne (fun h => DtbVisit.noConfusion h)
      rw [hcount, visitStep, excess_addFile]
    | closed =>
      rw [count_cons_self]
      show st.dtb_count - 1 - (st.chips.length : ℤ) - _ = st.dtb_count - (st.chips.length : ℤ) - _
      push_cast
      omega

/-- **The count** is the number of nodes less the number of directories that cannot be opened. -/
theorem dtb_count_findInput (path : List Char) (opens : Bool) (entries : Forest Dirent) :
    (findInput find page_size path opens entries).dtb_count =
      (findInput find page_size path opens entries).chips.length - (closedDirs find path opens entries : ℤ) := by
  have hexcess : (findInput find page_size path opens entries).excess = -(closedDirs find path opens entries : ℤ) := by
    rw [findInput, closedDirs]
    cases opens with
    | true =>
      rw [if_pos rfl, if_pos rfl, findDtb_eq_foldl, excess_visits]
      exact Int.zero_sub _
    | false => rfl
  rw [FindState.excess] at hexcess
  omega

end Count

/-! ### The padding -/

section Main

variable (env : ImageEnv) (st : FindState)

/-- No call is given more of the filler than there is. -/
def PaddingsFit : Prop :=
  st.dtb_count ≠ 0 → env.opens = true →
    tablePadding env st ≤ env.page_size ∧ ∀ c ∈ st.chips, filePadding env st c.master ≤ env.page_size

theorem tableEnd_neg_iff : tableEnd env st < 0 ↔ st.dtb_count < 0 := by
  rw [tableEnd, entrySize]
  split
  · omega
  split <;> omega

theorem paddingsFit_iff : PaddingsFit env st ↔
    ¬ (st.dtb_count < 0 ∧ env.opens ∧ ¬ (env.page_size : ℤ) ∣ tableEnd env st) := by
  have hfile : ∀ c ∈ st.chips, filePadding env st c.master ≤ env.page_size := fun c _ => Nat.sub_le _ _
  have hpage : 0 < (env.page_size : ℤ) := Int.natCast_pos.2 env.page_size_ok.1
  have hpad : tablePadding env st ≤ env.page_size ↔ 0 ≤ (tableEnd env st).tmod env.page_size := by
    rw [tablePadding]
    omega
  rcases lt_or_ge (tableEnd env st) 0 with hneg | hpos
  · have hcount := (tableEnd_neg_iff env st).1 hneg
    have hmod : 0 ≤ (tableEnd env st).tmod env.page_size ↔ (env.page_size : ℤ) ∣ tableEnd env st := by
      have hle : (tableEnd env st).tmod env.page_size ≤ 0 := by
        have h := Int.tmod_nonneg (env.page_size : ℤ) (Int.neg_nonneg_of_nonpos hneg.le)
        rw [Int.neg_tmod] at h
        omega
      rw [Int.dvd_iff_tmod_eq_zero]
      omega
    rw [PaddingsFit, hpad, hmod]
    constructor
    · rintro h ⟨-, hopens, hdvd⟩
      exact hdvd (h (ne_of_lt hcount) hopens).1
    · intro h _ hopens
      exact ⟨by_contra fun hdvd => h ⟨hcount, hopens, hdvd⟩, hfile⟩
  refine iff_of_true (fun _ _ => ⟨?_, hfile⟩) ?_
  · rw [hpad]
    exact Int.tmod_nonneg _ hpos
  · rintro ⟨hcount, -⟩
    exact absurd ((tableEnd_neg_iff env st).2 hcount) (not_lt.2 hpos)

/-! ### What is expected -/

theorem tableLoop_expected (version : ℕ) (l : List ChipNode) {t : TableState} {seen : List ℕ} {s : ℕ}
    (hexpected : t.expected = BitVec.ofNat 64 s) (hseen : ∀ m, m ∉ seen → t.master_offset m = 0)
    (hsize : ∀ c ∈ l, (st.master c.master).dtb_size < 2 ^ 32) :
    ∃ s', (l.foldl (tableTurn env st version) t).expected = BitVec.ofNat 64 s' ∧
      s + segTotal (fun m => (st.master m).dtb_size) (firsts seen (l.map ChipNode.master)) ≤ s' ∧
      s' ≤ s + l.length * 2 ^ 32 := by
  induction l generalizing t seen s with
  | nil => exact ⟨s, hexpected, Nat.le_refl _, Nat.le_add_right _ _⟩
  | cons c l ih =>
    obtain ⟨_, hl⟩ := forall_mem_cons.1 hsize
    have hlen : (c :: l).length * 2 ^ 32 = l.length * 2 ^ 32 + 2 ^ 32 := Nat.add_one_mul _ _
    rw [foldl_cons, map_cons, firsts, hlen]
    by_cases hzero : t.master_offset c.master = 0
    · have hnext : (tableTurn env st version t c).expected = BitVec.ofNat 64 (s + (st.master c.master).dtb_size) := by
        rw [tableTurn, if_neg (not_not_intro hzero), hexpected, BitVec.ofNat_add]
      have hoffset : ∀ m, m ∉ c.master :: seen → (tableTurn env st version t c).master_offset m = 0 := by
        intro m hm
        rw [mem_cons, not_or] at hm
        rw [tableTurn, if_neg (not_not_intro hzero)]
        dsimp only
        rw [if_neg hm.1]
        exact hseen m hm.2
      split_ifs with hmem
      · have hsame : ∀ m, m ∉ seen → (tableTurn env st version t c).master_offset m = 0 := by
          intro m hm
          apply hoffset
          rw [mem_cons, not_or]
          refine ⟨?_, hm⟩
          rintro rfl
          exact hm hmem
        obtain ⟨s', hs', hle, hge⟩ := ih hnext hsame hl
        exact ⟨s', hs', by omega, by omega⟩
      · obtain ⟨s', hs', hle, hge⟩ := ih hnext hoffset hl
        rw [segTotal_cons]
        exact ⟨s', hs', by omega, by omega⟩
    -- The master has its place already.
    have hmem : c.master ∈ seen := by
      by_contra hnot
      exact hzero (hseen _ hnot)
    have hturn : (tableTurn env st version t c).expected = t.expected ∧
        (tableTurn env st version t c).master_offset = t.master_offset := by
      rw [tableTurn, if_pos hzero]
      exact ⟨rfl, rfl⟩
    rw [if_pos hmem]
    obtain ⟨s', hs', hle, hge⟩ := ih (hturn.1.trans hexpected) (by rw [hturn.2]; exact hseen) hl
    exact ⟨s', hs', hle, hge.trans (Nat.add_le_add_left (Nat.le_add_right _ _) s)⟩

/-! ### The file -/

/-- The header, the rows, the word behind them, the padding and the files of all masters. -/
def wholeCalls (rows : List TableRow) : List Bytes :=
  headerCalls env st ++ rows.flatMap rowCalls ++
    [le32 (BitVec.ofInt 32 RC_SUCCESS), filler (tablePadding env st).toNat] ++
      (imageMasters st).flatMap (fileCalls env st)

/-- The whole file has been written, with a row for each node. -/
structure WholeFile (r : DtbResult) : Prop where
  calls : ∃ rows : List TableRow, rows.map Prod.fst = st.chips.map (fun c => idWords (imageVersion env st) c.id) ∧
    r.calls = wholeCalls env st rows
  files : ∀ m ∈ imageMasters st, FileOk env st m
  full : AllFull env.write 0 r.calls
  output : r.output = .written r.calls.flatten

/-- With nodes in the list, success means that the whole file has been written. -/
def SucceedsComplete : Prop :=
  st.chips ≠ [] → ∀ r, dtbMain env st = some r → r.rc = RC_SUCCESS → WholeFile env st r

variable {env st}

theorem length_flatten_rows {version : ℕ} {l : List ChipNode} {rows : List TableRow}
    (h : rows.map Prod.fst = l.map fun c => idWords version c.id) :
    (rows.flatMap rowCalls).flatten.length ≤ entrySize version * l.length := by
  induction l generalizing rows with
  | nil =>
    obtain rfl := map_eq_nil_iff.1 h
    exact Nat.zero_le _
  | cons c l ih =>
    rcases rows with - | ⟨row, _⟩
    · cases h
    obtain ⟨hrow, hrows⟩ := cons.inj h
    have hle := four_mul_length_rowWords_le ⟨[], [], 0, 0⟩ version (fun _ => 0) c
    have hrest := ih hrows
    have hrow : row.1 = idWords version c.id := hrow
    have hbytes : (rowCalls row).flatten.length = 4 * (row.1.length + 2) := by
      rw [rowCalls, ← flatMap_def, length_flatMap_le32, length_append]
      rfl
    rw [rowWords, length_append, ← hrow] at hle
    have hlen : 4 * (row.1.length + 2) ≤ entrySize version := hle
    have hmul : entrySize version * (l.length + 1) = entrySize version * l.length + entrySize version :=
      Nat.mul_succ _ _
    rw [flatMap_cons, flatten_append, length_append, hbytes, length_cons, hmul]
    omega

theorem dtb_size_lt {find : DtbEnv} {page_size : ℕ} (h : MastersOk find page_size st) :
    ∀ c ∈ st.chips, (st.master c.master).dtb_size < 2 ^ 32 := by
  intro c hc
  obtain ⟨d, hd, -, _, -, hsize⟩ := h c hc
  rw [FindState.master, getD_eq_getElem?_getD, hd]
  show d.dtb_size < 2 ^ 32
  rw [hsize]
  exact Nat.mod_lt _ (by decide)

theorem tablePadding_pos (hcount : st.dtb_count = st.chips.length) : 0 < tablePadding env st := by
  have hmod := Nat.mod_lt (tableBytes env st) env.page_size_ok.1
  rw [tablePadding_eq hcount]
  omega

theorem length_pos_of_mem_wholeCalls (hcount : st.dtb_count = st.chips.length) {rows : List TableRow} {buf : Bytes}
    (hbuf : buf ∈ wholeCalls env st rows) : 0 < buf.length := by
  have hpad : 0 < tablePadding env st := tablePadding_pos hcount
  rw [wholeCalls, mem_append, mem_append, mem_append, mem_flatMap, mem_flatMap] at hbuf
  rcases hbuf with ((hbuf | ⟨_, -, hbuf⟩) | hbuf) | ⟨m, -, hbuf⟩
  · rcases mem_cons.1 hbuf with rfl | hbuf
    · exact Nat.succ_pos _
    rcases mem_cons.1 hbuf with rfl | hbuf
    · exact Nat.succ_pos _
    obtain rfl := mem_singleton.1 hbuf
    exact Nat.succ_pos _
  · obtain ⟨x, -, rfl⟩ := mem_map.1 hbuf
    exact Nat.succ_pos _
  · rcases mem_cons.1 hbuf with rfl | hbuf
    · exact Nat.succ_pos _
    obtain rfl := mem_singleton.1 hbuf
    rw [filler, length_replicate]
    omega
  rw [fileCalls, mem_append, mem_singleton] at hbuf
  rcases hbuf with hbuf | rfl
  · exact length_pos_of_mem_copyBlocks hbuf
  · rw [filler, length_replicate]
    exact filePadding_pos m

theorem length_flatten_wholeCalls {rows : List TableRow} (hcount : st.dtb_count = st.chips.length)
    (hrows : rows.map Prod.fst = st.chips.map fun c => idWords (imageVersion env st) c.id)
    (hfiles : ∀ m ∈ imageMasters st, FileOk env st m) :
    (wholeCalls env st rows).flatten.length ≤ imageTotal env st := by
  have hmod := Nat.mod_lt (tableBytes env st) env.page_size_ok.1
  have hpad : (tablePadding env st).toNat = env.page_size - tableBytes env st % env.page_size := by
    rw [tablePadding_eq hcount, Int.toNat_natCast]
  have hheader : (headerCalls env st).flatten.length = 12 := rfl
  have hend : [le32 (BitVec.ofInt 32 RC_SUCCESS),
      filler (env.page_size - tableBytes env st % env.page_size)].flatten.length =
        4 + (env.page_size - tableBytes env st % env.page_size) := by
    rw [flatten_cons, flatten_singleton, length_append, length_le32, filler, length_replicate]
  have hle := length_flatten_rows hrows
  rw [wholeCalls, hpad, flatten_append, flatten_append, flatten_append, length_append,
    length_append, length_append, hheader, hend, length_flatten_files hfiles, imageTotal, tableStart,
    tableBytes]
  rw [tableBytes] at hmod
  omega

section

variable {find : DtbEnv} (hmasters : MastersOk find env.page_size st)
    (hcount : st.dtb_count = st.chips.length)
include hmasters hcount

theorem writeTable_expected (hfault : ¬ TableFault env st) :
    ∃ s, (writeTable env st).expected = BitVec.ofNat 64 s ∧ imageTotal env st ≤ s ∧ s < 2 ^ 60 := by
  have hstart : tableEnd env st + tablePadding env st = (tableStart env st : ℕ) := by
    rw [tableEnd_eq hcount, tablePadding_eq hcount, tableStart]
    push_cast
    rfl
  have hinit : BitVec.ofInt 64 (tableEnd env st + tablePadding env st) = BitVec.ofNat 64 (tableStart env st) := by
    rw [hstart, BitVec.ofInt_natCast]
  obtain ⟨s, hs, hle, _⟩ : ∃ s, (writeRows env st).expected = BitVec.ofNat 64 s ∧ _ :=
    tableLoop_expected env st (imageVersion env st) st.chips hinit (fun _ (_ : _ ∉ []) => rfl) (dtb_size_lt hmasters)
  refine ⟨s, hs, hle, ?_⟩
  have hsmall : tableStart env st < 2 ^ 31 := by
    rw [TableFault, hstart] at hfault
    omega
  have hentry : 20 ≤ entrySize (imageVersion env st) := by
    rw [entrySize]
    split_ifs <;> decide
  have hchips : 20 * st.chips.length ≤ tableStart env st := by
    have hmul := Nat.mul_le_mul_right st.chips.length hentry
    rw [tableStart, tableBytes]
    omega
  omega

/-- **Success means the whole file**, when the count is the number of nodes: whatever the sizes of the files are, the
sum of what the calls return is as expected only if each call wrote everything. -/
theorem succeedsComplete_of_count : SucceedsComplete env st := by
  intro hne r h hrc
  have hpos := List.length_pos_iff.2 hne
  rw [dtbMain, if_neg (by omega)] at h
  split at h
  · cases h
    exact absurd hrc (by decide)
  split at h
  · cases h
  rename_i hfault
  dsimp only at h
  split at h
  · cases h
  rename_i out ok hloop
  cases h
  dsimp only at hrc
  split at hrc
  swap
  · exact absurd hrc (by decide)
  rename_i hall
  obtain ⟨rfl, hwrote⟩ := hall
  have hsuccess : (if true = true ∧ (writeTable env st).expected = out.wrote then RC_SUCCESS else RC_ERROR) =
      RC_SUCCESS := if_pos ⟨rfl, hwrote⟩
  obtain ⟨rows, hrows, htable⟩ := writeTable_out env st
  obtain ⟨hblobs, hfiles⟩ := blobLoop_eq st.chips
    (fun m => ⟨fun h => absurd h Bool.false_ne_true, fun h => absurd h not_mem_nil⟩) hloop
  have hout : out = OutFile.opened.writeAll env.write (wholeCalls env st rows) := by
    rw [hblobs, htable, if_pos (tablePadding_pos hcount), ← writeAll_append]
    rfl
  have hcalls : out.calls = wholeCalls env st rows := by
    rw [hout, calls_writeAll]
    rfl
  obtain ⟨s, hs, htotal, _⟩ := writeTable_expected hmasters hcount hfault
  have hle := length_flatten_wholeCalls hcount hrows hfiles
  have hlen : (wholeCalls env st rows).length ≤ (wholeCalls env st rows).flatten.length :=
    length_le_length_flatten fun _ => length_pos_of_mem_wholeCalls hcount
  rw [hs, hout] at hwrote
  obtain ⟨-, hfull⟩ := (wrote_writeAll_iff (hle.trans htotal) (by omega)).1 hwrote.symm
  refine ⟨⟨rows, hrows, hcalls⟩, hfiles, ?_, ?_⟩
  · dsimp only
    rw [hcalls]
    exact hfull
  · dsimp only
    rw [hsuccess, if_neg (not_not_intro rfl), hout, calls_writeAll, bytes_writeAll hfull]
    rfl

end

end Main

/-! ### The result -/

/-- **Counts and failures**: the count is the number of nodes exactly when all directories that are visited can be
opened, and then nothing else goes wrong.  The padding is too long when the count is negative and the end of the table
is not a multiple of the page size. -/
theorem counts_and_failures_iff (find : DtbEnv) (env : ImageEnv) (path : List Char) (opens : Bool)
    (entries : Forest Dirent) :
    ((findInput find env.page_size path opens entries).dtb_count =
          (findInput find env.page_size path opens entries).chips.length ∧
        PaddingsFit env (findInput find env.page_size path opens entries) ∧
        SucceedsComplete env (findInput find env.page_size path opens entries) ↔
      closedDirs find path opens entries = 0) ∧
    (PaddingsFit env (findInput find env.page_size path opens entries) ↔
      ¬ ((findInput find env.page_size path opens entries).chips.length < closedDirs find path opens entries ∧
        env.opens ∧
        ¬ (env.page_size : ℤ) ∣ tableEnd env (findInput find env.page_size path opens entries))) := by
  have hcount := dtb_count_findInput find env.page_size path opens entries
  have hmasters : MastersOk find env.page_size (findInput find env.page_size path opens entries) :=
    mastersOk_findInput path opens entries
  constructor
  · constructor
    · rintro ⟨hall, -⟩
      omega
    intro _
    have hall : (findInput find env.page_size path opens entries).dtb_count =
        (findInput find env.page_size path opens entries).chips.length := by omega
    refine ⟨hall, ?_, succeedsComplete_of_count hmasters hall⟩
    rw [paddingsFit_iff]
    rintro ⟨hneg, -⟩
    omega
  rw [paddingsFit_iff, hcount]
  have hneg : ((findInput find env.page_size path opens entries).chips.length : ℤ) -
      (closedDirs find path opens entries : ℤ) < 0 ↔
        (findInput find env.page_size path opens entries).chips.length < closedDirs find path opens entries := by
    omega
  rw [hneg]

/-- A directory that cannot be opened. -/
def closedEntry (name : String) (next : Forest Dirent) : Forest Dirent := .node ⟨name.toList, .dir, false⟩ .nil next

/-- One file and one such directory: the count is `0`, and `main()` succeeds without a file.  The input path cannot be
opened: the count is `-1`, and the padding is longer than a page. -/
theorem counts_and_failures_fail :
    ((findInput sharedFiles 16 ['/'] true (dtbEntry "b.dtb" (closedEntry "sub" .nil))).dtb_count = 0 ∧
      (findInput sharedFiles 16 ['/'] true (dtbEntry "b.dtb" (closedEntry "sub" .nil))).chips.length = 1 ∧
      dtbMain (sharedImage fun _ => some 4096)
        (findInput sharedFiles 16 ['/'] true (dtbEntry "b.dtb" (closedEntry "sub" .nil))) =
          some ⟨RC_SUCCESS, .untouched, []⟩) ∧
    (findInput sharedFiles 16 ['/'] false .nil).dtb_count = -1 ∧
    ((sharedImage fun _ => some 4096).page_size : ℤ) <
      tablePadding (sharedImage fun _ => some 4096) (findInput sharedFiles 16 ['/'] false .nil) ∧
    ¬ PaddingsFit (sharedImage fun _ => some 4096) (findInput sharedFiles 16 ['/'] false .nil) := by
  have hpad : ((sharedImage fun _ => some 4096).page_size : ℤ) <
      tablePadding (sharedImage fun _ => some 4096) (findInput sharedFiles 16 ['/'] false .nil) := by decide
  refine ⟨⟨by decide, by decide, by decide⟩, by decide, hpad, ?_⟩
  intro h
  exact absurd (h (by decide) rfl).1 (not_le.2 hpad)

end G4Common.Dtbtool
