/-
The layout of the image that `dtbtool` writes.

Both loops of `main()` come to the masters in the order in which they appear first in the list, so the place that the
first loop gives to a master is where the second one writes its file: the segments of `Lib/Segments`, from the page
after the table on.  All calls of `write()` together are to write `expected` bytes, so `wrote` is `expected` only if
none of them fell short (`Lib/OutFile`).
-/
import G4Common.Dtbtool.Image
import G4Common.Lib.Segments

namespace G4Common.Dtbtool

open List Option

/-! ### Masters -/

section Masters

variable (find : DtbEnv) (page_size : ℕ)

/-- The master of each node has the name and the size of a file with the numbers of the node. -/
def MastersOk (st : FindState) : Prop :=
  ∀ c ∈ st.chips, ∃ d, st.masters[c.master]? = some d ∧ c.id ∈ fileIds find d.dtb_file ∧
    ∃ size, find.statSize d.dtb_file = some size ∧
      d.dtb_size = (size + (page_size - size % page_size)) % 2 ^ 32

variable {find page_size}

theorem mem_chipAdd {c x : ChipNode} {l l' : List ChipNode} (h : chipAdd c l = some l') (hx : x ∈ l') :
    x = c ∨ x ∈ l := by
  induction l generalizing l' with
  | nil =>
    cases h
    exact .inl (mem_singleton.1 hx)
  | cons y _ ih =>
    rw [chipAdd] at h
    split at h
    · cases h
      exact mem_cons.1 hx
    split at h
    · exact absurd h.symm (some_ne_none _)
    obtain ⟨_, hl, rfl⟩ := map_eq_some_iff.1 h
    rcases mem_cons.1 hx with rfl | hx
    · exact .inr mem_cons_self
    · exact (ih hl hx).imp id (mem_cons_of_mem y)

section

variable {st : FindState} (h : MastersOk find page_size st)
include h

theorem mastersOk_addOther {m : ℕ} {d : DtbMaster} {id : ChipId}
    (hd : st.masters[m]? = some d) (hid : id ∈ fileIds find d.dtb_file) {size : ℕ}
    (hstat : find.statSize d.dtb_file = some size)
    (hsize : d.dtb_size = (size + (page_size - size % page_size)) % 2 ^ 32) :
    MastersOk find page_size (addOther m st id) ∧ (addOther m st id).masters = st.masters := by
  rw [addOther]
  cases hadd : chipAdd ⟨id, m⟩ st.chips with
  | none => exact ⟨h, rfl⟩
  | some =>
    refine ⟨?_, rfl⟩
    intro c hc
    rcases mem_chipAdd hadd hc with rfl | hc
    · exact ⟨d, hd, hid, size, hstat, hsize⟩
    · exact h c hc

theorem mastersOk_addOthers {m : ℕ} {d : DtbMaster}
    {ids : List ChipId} (hd : st.masters[m]? = some d) (hids : ∀ id ∈ ids, id ∈ fileIds find d.dtb_file) {size : ℕ}
    (hstat : find.statSize d.dtb_file = some size)
    (hsize : d.dtb_size = (size + (page_size - size % page_size)) % 2 ^ 32) :
    MastersOk find page_size (ids.foldl (addOther m) st) := by
  induction ids generalizing st with
  | nil => exact h
  | cons id _ ih =>
    obtain ⟨hok, hmasters⟩ := mastersOk_addOther h hd (hids id mem_cons_self) hstat hsize
    exact ih hok (by rw [hmasters]; exact hd) fun i hi => hids i (mem_cons_of_mem _ hi)

theorem mastersOk_addFile (filename : List Char) : MastersOk find page_size (addFile find page_size st filename) := by
  rw [addFile]
  dsimp only
  cases hinfo : find.getChipInfo filename (find.getVersionInfo filename) with
  | none => exact h
  | some info =>
    obtain ⟨head, others⟩ := info
    cases hstat : find.statSize filename with
    | none => exact h
    | some size =>
      dsimp only
      by_cases hzero : size = 0
      · rw [if_pos hzero]
        exact h
      rw [if_neg hzero]
      have hids : fileIds find filename = head :: others := by
        rw [fileIds, hinfo, hstat]
        exact if_neg hzero
      cases hadd : chipAdd ⟨head, st.masters.length⟩ st.chips with
      | none => exact h
      | some =>
        have hlast := getElem?_concat_length
          (l := st.masters) (a := ⟨filename, (size + (page_size - size % page_size)) % 2 ^ 32⟩)
        refine mastersOk_addOthers ?_ hlast ?_ hstat rfl
        · intro c hc
          rcases mem_chipAdd hadd hc with rfl | hc
          · exact ⟨_, hlast, by rw [hids]; exact mem_cons_self, size, hstat, rfl⟩
          -- The masters that were there keep their numbers.
          obtain ⟨d, hd, hrest⟩ := h c hc
          refine ⟨d, ?_, hrest⟩
          rw [getElem?_append_left (List.getElem?_eq_some_iff.1 hd).1]
          exact hd
        · intro i hi
          rw [hids]
          exact mem_cons_of_mem _ hi

end

theorem mastersOk_findInput (path : List Char) (opens : Bool) (entries : Forest Dirent) :
    MastersOk find page_size (findInput find page_size path opens entries) := by
  have hinit : MastersOk find page_size ⟨[], [], 0, 0⟩ := nofun
  rw [findInput]
  cases opens with
  | false => exact hinit
  | true =>
    rw [if_pos rfl, findDtb_eq_foldl]
    refine foldlRecOn _ _ hinit ?_
    intro _ hst v _
    cases v with
    | file name => exact mastersOk_addFile hst name
    | closed => exact hst

end Masters

/-! ### Words and calls -/

theorem length_le32 (x : BitVec 32) : (le32 x).length = 4 := rfl

theorem length_flatMap_le32 (words : List (BitVec 32)) : (words.flatMap le32).length = 4 * words.length := by
  induction words with
  | nil => rfl
  | cons x words ih =>
    rw [flatMap_cons, length_append, ih, length_le32, length_cons]
    omega

/-- The words of a row, when `place` has the offsets. -/
def rowWords (st : FindState) (version : ℕ) (place : ℕ → BitVec 32) (c : ChipNode) : List (BitVec 32) :=
  idWords version c.id ++ [place c.master, BitVec.ofNat 32 (st.master c.master).dtb_size]

theorem four_mul_length_rowWords_le (st : FindState) (version : ℕ) (place : ℕ → BitVec 32) (c : ChipNode) :
    4 * (rowWords st version place c).length ≤ entrySize version := by
  rw [rowWords, idWords, entrySize]
  by_cases h2 : 2 ≤ version
  · by_cases h3 : 3 ≤ version
    · rw [if_pos h2, if_pos h3, if_neg (by omega), if_neg (by omega)]
      exact Nat.le_refl 40
    · rw [if_pos h2, if_neg h3, if_neg (by omega), if_pos (by omega)]
      exact Nat.le_refl 24
  rw [if_neg h2, if_neg (by omega)]
  show 20 ≤ _
  split
  · exact Nat.le_refl 20
  · split <;> omega

theorem dvd_add_padding {p : ℕ} (hp : 0 < p) (n : ℕ) : p ∣ n + (p - n % p) := by
  have hmod := Nat.mod_lt n hp
  have hdiv := Nat.div_add_mod n p
  refine ⟨n / p + 1, ?_⟩
  rw [Nat.mul_add, Nat.mul_one]
  omega

section Main

variable {env : ImageEnv} {st : FindState}
variable {c : ChipNode} {m n version : ℕ}

/-! ### The table loop -/

theorem tableTurn_known {t : TableState} {place : ℕ → BitVec 32}
    (h : t.master_offset c.master ≠ 0) (hplace : place c.master = t.master_offset c.master) :
    tableTurn env st version t c =
      { t with out := t.out.writeAll env.write ((rowWords st version place c).map le32) } := by
  rw [tableTurn, if_pos h, rowWords, map_append, writeAll_append, hplace]
  rfl

theorem tableTurn_new {t : TableState} {place : ℕ → BitVec 32}
    (h : t.master_offset c.master = 0) (hplace : place c.master = t.expected.setWidth 32) :
    tableTurn env st version t c =
      { out := t.out.writeAll env.write ((rowWords st version place c).map le32)
        expected := t.expected + BitVec.ofNat 64 (st.master c.master).dtb_size
        master_offset := fun m => if m = c.master then t.expected.setWidth 32 else t.master_offset m } := by
  rw [tableTurn, if_neg (not_not_intro h), rowWords, map_append, writeAll_append, hplace]
  rfl

theorem tableLoop_eq (version : ℕ) (place : ℕ → BitVec 32) (l : List ChipNode) (t : TableState) (seen : List ℕ) (s : ℕ)
    (hexpected : t.expected = BitVec.ofNat 64 s) (hpos : 0 < s)
    (hbound : s + segTotal (fun m => (st.master m).dtb_size) (firsts seen (l.map ChipNode.master)) < 2 ^ 32)
    (hseen : ∀ m, t.master_offset m ≠ 0 ↔ m ∈ seen) (hold : ∀ m ∈ seen, place m = t.master_offset m)
    (hnew : ∀ m ∈ l.map ChipNode.master, m ∉ seen → place m = BitVec.ofNat 32
      (segStart (fun m => (st.master m).dtb_size) s (firsts seen (l.map ChipNode.master)) m)) :
    (l.foldl (tableTurn env st version) t).out =
        t.out.writeAll env.write ((l.flatMap (rowWords st version place)).map le32) ∧
      (l.foldl (tableTurn env st version) t).expected = BitVec.ofNat 64
        (s + segTotal (fun m => (st.master m).dtb_size) (firsts seen (l.map ChipNode.master))) := by
  induction l generalizing t seen s with
  | nil => exact ⟨rfl, hexpected⟩
  | cons c l ih =>
    rw [map_cons, firsts] at hbound hnew
    rw [foldl_cons, map_cons, firsts, flatMap_cons, map_append, writeAll_append]
    by_cases hc : c.master ∈ seen
    · rw [if_pos hc] at hbound hnew ⊢
      rw [tableTurn_known ((hseen _).2 hc) (hold _ hc)]
      exact ih _ _ _ hexpected hpos hbound hseen hold fun m hm => hnew m (mem_cons_of_mem _ hm)
    rw [if_neg hc] at hbound hnew ⊢
    rw [segTotal_cons] at hbound ⊢
    have hzero : t.master_offset c.master = 0 := by
      by_contra h
      exact hc ((hseen _).1 h)
    have hlow : t.expected.setWidth 32 = BitVec.ofNat 32 s := by
      rw [hexpected, BitVec.setWidth_ofNat_of_le (by decide)]
    have hplace : place c.master = t.expected.setWidth 32 := by
      rw [hnew _ mem_cons_self hc, segStart, if_pos rfl, hlow]
    rw [tableTurn_new hzero hplace, ← Nat.add_assoc]
    -- The place is below `2 ^ 32` and not `0`, so the master counts as seen from now on.
    have hne : t.expected.setWidth 32 ≠ 0 := by
      rw [hlow]
      intro h
      have := congrArg BitVec.toNat h
      rw [BitVec.toNat_ofNat, Nat.mod_eq_of_lt (by omega)] at this
      exact absurd this (Nat.ne_of_gt hpos)
    refine ih _ _ _ ?_ (by omega) (by omega) ?_ ?_ ?_
    · rw [hexpected, BitVec.ofNat_add]
    · intro m
      dsimp only
      by_cases hm : m = c.master
      · rw [if_pos hm, hm]
        exact ⟨fun _ => mem_cons_self, fun _ => hne⟩
      · rw [if_neg hm, hseen, mem_cons]
        exact (or_iff_right hm).symm
    · intro m hm
      dsimp only
      by_cases hmc : m = c.master
      · rw [if_pos hmc, hmc, hplace]
      · rw [if_neg hmc]
        exact hold m ((mem_cons.1 hm).resolve_left hmc)
    · intro m hm hmseen
      obtain ⟨hmc, hmseen⟩ := not_or.1 (mt mem_cons.2 hmseen)
      rw [hnew m (mem_cons_of_mem _ hm) hmseen, segStart, if_neg hmc]

/-! ### The second loop -/

theorem flatten_copyBlocks {bytes : Bytes} (hn : bytes.length ≤ n) : (copyBlocks n bytes).flatten = bytes := by
  induction n generalizing bytes with
  | zero => exact (length_eq_zero_iff.1 (Nat.le_zero.1 hn)).symm
  | succ n ih =>
    cases bytes with
    | nil => rfl
    | cons b bytes =>
      have hrest : ((b :: bytes).drop COPY_BLK).length ≤ n := by
        rw [length_drop, COPY_BLK]
        rw [length_cons] at hn ⊢
        omega
      rw [copyBlocks, flatten_cons, ih hrest, take_append_drop]

theorem length_pos_of_mem_copyBlocks {bytes block : Bytes} (h : block ∈ copyBlocks n bytes) : 0 < block.length := by
  induction n generalizing bytes with
  | zero => exact nomatch h
  | succ _ ih =>
    cases bytes with
    | nil => exact nomatch h
    | cons =>
      rw [copyBlocks, mem_cons] at h
      rcases h with rfl | h
      · exact Nat.succ_pos _
      · exact ih h

variable (env st)

/-- The content of the file of a master. -/
def fileOf (m : ℕ) : Bytes := (env.fopen (st.master m).dtb_file).getD []

/-- The padding of the file of a master. -/
def filePadding (m : ℕ) : ℕ := env.page_size - (fileOf env st m).length % env.page_size

/-- The calls that write the file of a master. -/
def fileCalls (m : ℕ) : List Bytes :=
  copyBlocks (fileOf env st m).length (fileOf env st m) ++ [filler (filePadding env st m)]

/-- The file of a master can be opened and has the size that was found out. -/
structure FileOk (m : ℕ) : Prop where
  fopen : env.fopen (st.master m).dtb_file = some (fileOf env st m)
  size : (fileOf env st m).length + filePadding env st m = (st.master m).dtb_size

variable {env st}

theorem filePadding_pos (m : ℕ) : 0 < filePadding env st m := by
  have := Nat.mod_lt (fileOf env st m).length env.page_size_ok.1
  rw [filePadding]
  omega

theorem flatten_fileCalls (m : ℕ) :
    (fileCalls env st m).flatten = fileOf env st m ++ filler (filePadding env st m) := by
  rw [fileCalls, flatten_append, flatten_copyBlocks (Nat.le_refl _), flatten_singleton]

theorem length_flatten_fileCalls (h : FileOk env st m) :
    (fileCalls env st m).flatten.length = (st.master m).dtb_size := by
  rw [flatten_fileCalls, length_append, filler, length_replicate, h.size]

theorem blobLoop_eq (l : List ChipNode) {out out' : OutFile (BitVec 8)} {wroteDtb : ℕ → Bool} {seen : List ℕ}
    (hseen : ∀ m, wroteDtb m ↔ m ∈ seen) (h : blobLoop env st l out wroteDtb = some (out', true)) :
    out' = out.writeAll env.write ((firsts seen (l.map ChipNode.master)).flatMap (fileCalls env st)) ∧
      ∀ m ∈ firsts seen (l.map ChipNode.master), FileOk env st m := by
  induction l generalizing out wroteDtb seen with
  | nil =>
    rw [blobLoop, some_inj, Prod.mk.injEq] at h
    exact ⟨h.1.symm, nofun⟩
  | cons c l ih =>
    rw [blobLoop] at h
    rw [map_cons, firsts]
    by_cases hc : c.master ∈ seen
    · rw [if_pos ((hseen _).2 hc)] at h
      rw [if_pos hc]
      exact ih hseen h
    rw [if_neg fun hw => hc ((hseen _).1 hw)] at h
    rw [if_neg hc]
    cases hopen : env.fopen (st.master c.master).dtb_file with
    | none =>
      rw [hopen, some_inj, Prod.mk.injEq] at h
      exact absurd h.2 Bool.false_ne_true
    | some bytes =>
      have hfile : fileOf env st c.master = bytes := by rw [fileOf, hopen]; rfl
      have hpadding : filePadding env st c.master = env.page_size - bytes.length % env.page_size := by
        rw [filePadding, hfile]
      have hpos : 0 < filePadding env st c.master := filePadding_pos c.master
      rw [hopen] at h
      dsimp only at h
      rw [← hpadding] at h
      by_cases hover : 2 ^ 31 ≤ bytes.length + filePadding env st c.master
      · rw [if_pos hover] at h
        exact absurd h.symm (some_ne_none _)
      rw [if_neg hover] at h
      by_cases hsize : (bytes.length + filePadding env st c.master) % 2 ^ 32 = (st.master c.master).dtb_size
      · rw [if_neg (not_not_intro hsize), if_pos hpos] at h
        have hnext : ∀ m, (if m = c.master then true else wroteDtb m) = true ↔ m ∈ c.master :: seen := by
          intro m
          rw [mem_cons]
          by_cases hm : m = c.master
          · rw [if_pos hm]
            exact ⟨fun _ => Or.inl hm, fun _ => rfl⟩
          · rw [if_neg hm, hseen, or_iff_right hm]
        obtain ⟨hout, hok⟩ := ih hnext h
        have hcalls : (out.writeAll env.write (copyBlocks bytes.length bytes)).write env.write
            (filler (filePadding env st c.master)) = out.writeAll env.write (fileCalls env st c.master) := by
          rw [fileCalls, hfile, writeAll_append, writeAll_singleton]
        have hthis : FileOk env st c.master :=
          ⟨by rw [hopen, hfile], by rw [hfile, ← hsize, Nat.mod_eq_of_lt (by omega)]⟩
        refine ⟨?_, ?_⟩
        · rw [hout, hcalls, flatMap_cons, writeAll_append]
        intro m hm
        rcases mem_cons.1 hm with rfl | hm
        · exact hthis
        · exact hok m hm
      · rw [if_pos hsize, some_inj, Prod.mk.injEq] at h
        exact absurd h.2 Bool.false_ne_true

/-! ### All calls -/

variable (env st)

/-- The masters in the order in which they appear first. -/
def imageMasters : List ℕ := firsts [] (st.chips.map ChipNode.master)

/-- The bytes of the header, the rows and the word behind them. -/
def tableBytes : ℕ := 12 + entrySize (imageVersion env st) * st.chips.length + 4

/-- The page after the table. -/
def tableStart : ℕ := tableBytes env st + (env.page_size - tableBytes env st % env.page_size)

/-- Where the file of a master is written. -/
def imageOffset (m : ℕ) : ℕ := segStart (fun m => (st.master m).dtb_size) (tableStart env st) (imageMasters st) m

def imageTotal : ℕ := tableStart env st + segTotal (fun m => (st.master m).dtb_size) (imageMasters st)

/-- The words of the header, the rows and the word behind them, when `offset` has the offsets. -/
def tableWords (offset : ℕ → ℕ) : List (BitVec 32) :=
  [BitVec.ofNat 32 (imageVersion env st), BitVec.ofInt 32 st.dtb_count] ++
    st.chips.flatMap (rowWords st (imageVersion env st) fun m => BitVec.ofNat 32 (offset m)) ++ [0]

/-- The calls up to the files. -/
def tableCalls : List Bytes :=
  QCDT_MAGIC :: (tableWords env st (imageOffset env st)).map le32 ++
    [filler (env.page_size - tableBytes env st % env.page_size)]

def imageCalls : List Bytes := tableCalls env st ++ (imageMasters st).flatMap (fileCalls env st)

variable {env st}

section

variable (hcount : st.dtb_count = st.chips.length)
include hcount

theorem tableEnd_eq : tableEnd env st = tableBytes env st := by
  rw [tableEnd, tableBytes, hcount]
  push_cast
  rfl

theorem tablePadding_eq : tablePadding env st = (env.page_size - tableBytes env st % env.page_size : ℕ) := by
  have hmod := Nat.mod_lt (tableBytes env st) env.page_size_ok.1
  rw [tablePadding, tableEnd_eq hcount, ← Int.ofNat_tmod]
  omega

theorem writeTable_eq (htotal : imageTotal env st < 2 ^ 32) :
    (writeTable env st).out = OutFile.opened.writeAll env.write (tableCalls env st) ∧
      (writeTable env st).expected = BitVec.ofNat 64 (imageTotal env st) := by
  have hmod := Nat.mod_lt (tableBytes env st) env.page_size_ok.1
  have hpad : 0 < tablePadding env st := by
    rw [tablePadding_eq hcount]
    omega
  have hstart : tableEnd env st + tablePadding env st = (tableStart env st : ℕ) := by
    rw [tableEnd_eq hcount, tablePadding_eq hcount, tableStart]
    push_cast
    rfl
  have hpos : 0 < tableStart env st := by
    rw [tableStart]
    omega
  obtain ⟨hout, hexpected⟩ : (writeRows env st).out = _ ∧ (writeRows env st).expected = _ :=
    tableLoop_eq (imageVersion env st) (fun m => BitVec.ofNat 32 (imageOffset env st m)) st.chips _ [] (tableStart env st)
      (by rw [hstart, BitVec.ofInt_natCast]) hpos htotal (fun m => ⟨fun h => absurd rfl h, nofun⟩)
      nofun (fun m _ _ => rfl)
  refine ⟨?_, hexpected⟩
  have hcalls : tableCalls env st =
      [QCDT_MAGIC, le32 (BitVec.ofNat 32 (imageVersion env st)), le32 (BitVec.ofInt 32 st.dtb_count)] ++
        (st.chips.flatMap (rowWords st (imageVersion env st) fun m => BitVec.ofNat 32 (imageOffset env st m))).map le32 ++
        [le32 (BitVec.ofInt 32 RC_SUCCESS)] ++ [filler (env.page_size - tableBytes env st % env.page_size)] := by
    rw [tableCalls, tableWords, map_append, map_append]
    rfl
  rw [writeTable]
  dsimp only
  rw [if_pos hpad, hout, tablePadding_eq hcount, Int.toNat_natCast, hcalls, writeAll_append, writeAll_append,
    writeAll_append, writeAll_singleton, writeAll_singleton]

end

theorem mem_imageMasters : m ∈ imageMasters st ↔ ∃ c ∈ st.chips, c.master = m := by
  rw [imageMasters, mem_firsts, List.mem_map]
  exact and_iff_left not_mem_nil

theorem flatten_tableCalls : (tableCalls env st).flatten =
    (QCDT_MAGIC ++ (tableWords env st (imageOffset env st)).flatMap le32) ++
      filler (env.page_size - tableBytes env st % env.page_size) := by
  rw [tableCalls, flatten_append, flatten_cons, flatten_singleton, flatMap_def]

theorem length_header_le (offset : ℕ → ℕ) :
    (QCDT_MAGIC ++ (tableWords env st offset).flatMap le32).length ≤ tableBytes env st := by
  have hrows : ∀ l : List ChipNode, 4 * (l.flatMap (rowWords st (imageVersion env st) fun m =>
      BitVec.ofNat 32 (offset m))).length ≤ entrySize (imageVersion env st) * l.length := by
    intro l
    induction l with
    | nil => exact Nat.zero_le _
    | cons c l ih =>
      have hrow := four_mul_length_rowWords_le st (imageVersion env st) (fun m => BitVec.ofNat 32 (offset m)) c
      rw [flatMap_cons, length_append, length_cons, Nat.mul_add, Nat.mul_add]
      omega
  have hall := hrows st.chips
  rw [length_append, length_flatMap_le32, tableWords, length_append, length_append, tableBytes]
  show 4 + 4 * (2 + _ + 1) ≤ _
  omega

theorem length_flatten_files {ms : List ℕ} (h : ∀ m ∈ ms, FileOk env st m) :
    (ms.flatMap (fileCalls env st)).flatten.length = segTotal (fun m => (st.master m).dtb_size) ms := by
  induction ms with
  | nil => rfl
  | cons m _ ih =>
    rw [flatMap_cons, flatten_append, length_append, segTotal_cons,
      length_flatten_fileCalls (h m mem_cons_self), ih fun x hx => h x (mem_cons_of_mem _ hx)]

theorem length_flatten_imageCalls (h : ∀ m ∈ imageMasters st, FileOk env st m) :
    (imageCalls env st).flatten.length + tableBytes env st = imageTotal env st +
      (QCDT_MAGIC ++ (tableWords env st (imageOffset env st)).flatMap le32).length := by
  rw [imageCalls, flatten_append, length_append, flatten_tableCalls, length_append, filler,
    length_replicate, length_flatten_files h, imageTotal, tableStart]
  omega

theorem length_pos_of_mem_imageCalls {buf : Bytes} (h : buf ∈ imageCalls env st) : 0 < buf.length := by
  have hmod := Nat.mod_lt (tableBytes env st) env.page_size_ok.1
  rw [imageCalls, tableCalls, mem_append, mem_append, mem_cons, List.mem_map, mem_singleton,
    mem_flatMap] at h
  rcases h with ((rfl | ⟨x, -, rfl⟩) | rfl) | ⟨m, -, h⟩
  · exact Nat.succ_pos _
  · exact Nat.succ_pos _
  · rw [filler, length_replicate]
    omega
  rw [fileCalls, mem_append, mem_singleton] at h
  rcases h with h | rfl
  · exact length_pos_of_mem_copyBlocks h
  · rw [filler, length_replicate]
    exact filePadding_pos m

theorem wrote_imageCalls_iff (htotal : imageTotal env st < 2 ^ 32) (h : ∀ m ∈ imageMasters st, FileOk env st m) :
    (OutFile.opened.writeAll env.write (imageCalls env st)).wrote = BitVec.ofNat 64 (imageTotal env st) ↔
      (imageCalls env st).flatten.length = imageTotal env st ∧ AllFull env.write 0 (imageCalls env st) := by
  have hlen := length_flatten_imageCalls h
  have hheader : (QCDT_MAGIC ++ (tableWords env st (imageOffset env st)).flatMap le32).length ≤ tableBytes env st :=
    length_header_le _
  have hcalls : (imageCalls env st).length ≤ (imageCalls env st).flatten.length :=
    length_le_length_flatten fun _ => length_pos_of_mem_imageCalls
  exact wrote_writeAll_iff (by omega) (by omega)

theorem dtbMain_cases (hcount : st.dtb_count = st.chips.length) (hne : st.chips ≠ [])
    (htotal : imageTotal env st < 2 ^ 32) {r : DtbResult} (h : dtbMain env st = some r) :
    (r.rc = RC_ERROR ∧ (r.calls = [] ∨ r.output = .removed)) ∨
      (r = ⟨RC_SUCCESS, .written (imageCalls env st).flatten, imageCalls env st⟩ ∧
        (imageCalls env st).flatten.length = imageTotal env st ∧ AllFull env.write 0 (imageCalls env st) ∧
        ∀ m ∈ imageMasters st, FileOk env st m) := by
  have hpos := List.length_pos_iff.2 hne
  rw [dtbMain, if_neg (by omega)] at h
  by_cases hopens : env.opens = true
  · rw [if_neg (not_not_intro hopens)] at h
    by_cases hfault : TableFault env st
    · rw [if_pos hfault] at h
      exact absurd h.symm (some_ne_none _)
    obtain ⟨hout, hexpected⟩ := writeTable_eq hcount htotal
    rw [if_neg hfault] at h
    dsimp only at h
    cases hloop : blobLoop env st st.chips (writeTable env st).out (fun _ => false) with
    | none =>
      rw [hloop] at h
      exact absurd h.symm (some_ne_none _)
    | some res =>
      obtain ⟨out, ok⟩ := res
      rw [hloop, hexpected] at h
      cases h
      dsimp only
      by_cases hall : ok = true ∧ BitVec.ofNat 64 (imageTotal env st) = out.wrote
      · obtain ⟨rfl, hwrote⟩ := hall
        obtain ⟨rfl, hok⟩ := blobLoop_eq st.chips
          (fun m => ⟨fun h => absurd h Bool.false_ne_true, fun h => absurd h not_mem_nil⟩) hloop
        have hcalls : (writeTable env st).out.writeAll env.write
            ((firsts [] (st.chips.map ChipNode.master)).flatMap (fileCalls env st)) =
              OutFile.opened.writeAll env.write (imageCalls env st) := by
          rw [hout, ← writeAll_append]
          rfl
        rw [hcalls] at hwrote ⊢
        have hfull := (wrote_imageCalls_iff htotal hok).1 hwrote.symm
        refine .inr ⟨?_, hfull.1, hfull.2, hok⟩
        rw [if_pos ⟨rfl, hwrote⟩, if_neg (not_not_intro rfl), bytes_writeAll hfull.2, calls_writeAll]
        rfl
      · rw [if_neg hall]
        exact .inl ⟨rfl, Or.inr rfl⟩
  · rw [if_pos hopens] at h
    cases h
    exact .inl ⟨rfl, Or.inl rfl⟩

/-! ### The layout -/

/-- The header and the rows, and the files from the next page on, where `offset` says. -/
structure QcdtLayout (find : DtbEnv) (env : ImageEnv) (st : FindState) (file : Bytes) (offset : ℕ → ℕ) : Prop where
  table : file.take (tableBytes env st) = QCDT_MAGIC ++ (tableWords env st offset).flatMap le32
  /-- The offsets fit into the words of the rows. -/
  small : file.length < 2 ^ 32
  first : ∃ c ∈ st.chips, offset c.master = tableStart env st
  aligned : ∀ c ∈ st.chips, env.page_size ∣ offset c.master
  behind : ∀ c ∈ st.chips, tableBytes env st < offset c.master
  fits : ∀ c ∈ st.chips, offset c.master + (st.master c.master).dtb_size ≤ file.length
  disjoint : ∀ c ∈ st.chips, ∀ c' ∈ st.chips, c.master ≠ c'.master →
    offset c.master + (st.master c.master).dtb_size ≤ offset c'.master ∨
      offset c'.master + (st.master c'.master).dtb_size ≤ offset c.master
  cover : ∀ i, tableStart env st ≤ i → i < file.length →
    ∃ c ∈ st.chips, offset c.master ≤ i ∧ i < offset c.master + (st.master c.master).dtb_size
  /-- A row has numbers of a file, and this file is found at its offset. -/
  content : ∀ c ∈ st.chips, ∃ d bytes, st.masters[c.master]? = some d ∧ c.id ∈ fileIds find d.dtb_file ∧
    env.fopen d.dtb_file = some bytes ∧ bytes.length ≤ d.dtb_size ∧
      (file.drop (offset c.master)).take d.dtb_size = bytes ++ filler (d.dtb_size - bytes.length)

theorem tableBytes_lt_tableStart : tableBytes env st < tableStart env st := by
  have hmod := Nat.mod_lt (tableBytes env st) env.page_size_ok.1
  rw [tableStart]
  omega

theorem imageOffset_head {l : List ChipNode} (h : st.chips = c :: l) :
    imageOffset env st c.master = tableStart env st := by
  rw [imageOffset, imageMasters, h, map_cons, firsts, if_neg not_mem_nil, segStart, if_pos rfl]

theorem qcdtLayout_imageCalls {find : DtbEnv} (hmasters : MastersOk find env.page_size st) (hne : st.chips ≠ [])
    (htotal : imageTotal env st < 2 ^ 32) (hlen : (imageCalls env st).flatten.length = imageTotal env st)
    (hok : ∀ m ∈ imageMasters st, FileOk env st m) :
    QcdtLayout find env st (imageCalls env st).flatten (imageOffset env st) := by
  have hmem : ∀ c ∈ st.chips, c.master ∈ imageMasters st := fun c hc => mem_imageMasters.2 ⟨c, hc, rfl⟩
  have hheader : (QCDT_MAGIC ++ (tableWords env st (imageOffset env st)).flatMap le32).length = tableBytes env st := by
    have := length_flatten_imageCalls hok
    omega
  have hsize : ∀ m ∈ imageMasters st, env.page_size ∣ (st.master m).dtb_size := by
    intro m hm
    rw [← (hok m hm).size]
    exact dvd_add_padding env.page_size_ok.1 _
  have hfront : (tableCalls env st).flatten.length = tableStart env st := by
    rw [flatten_tableCalls, length_append, hheader, filler, length_replicate, tableStart]
  have hfile : (imageCalls env st).flatten =
      (tableCalls env st).flatten ++ (imageMasters st).flatMap fun m => (fileCalls env st m).flatten := by
    rw [imageCalls, flatten_append]
    congr 1
    generalize imageMasters st = ms
    induction ms with
    | nil => rfl
    | cons _ _ ih => rw [flatMap_cons, flatten_append, ih, flatMap_cons]
  constructor
  · rw [hfile, flatten_tableCalls, ← hheader, append_assoc, take_left]
  · rw [hlen]
    exact htotal
  · obtain ⟨c, l, hcl⟩ := exists_cons_of_ne_nil hne
    exact ⟨c, by rw [hcl]; exact mem_cons_self, imageOffset_head hcl⟩
  · intro c _
    exact dvd_segStart (dvd_add_padding env.page_size_ok.1 _) hsize _
  · intro c _
    exact Nat.lt_of_lt_of_le tableBytes_lt_tableStart (start_le_segStart _ _ _)
  · intro c hc
    rw [hlen]
    exact segStart_add_le (hmem c hc)
  · intro c hc c' hc' hne
    exact segments_disjoint (hmem c hc) (hmem c' hc') hne
  · intro i hstart hend
    rw [hlen] at hend
    obtain ⟨m, hm, hlow, hhigh⟩ := segments_cover (nodup_firsts _ _) hstart hend
    obtain ⟨c, hc, rfl⟩ := mem_imageMasters.1 hm
    exact ⟨c, hc, hlow, hhigh⟩
  intro c hc
  obtain ⟨d, hd, hid, -⟩ := hmasters c hc
  have hmaster : st.master c.master = d := by
    rw [FindState.master, getD_eq_getElem?_getD, hd]
    rfl
  have hfileok := hok _ (hmem c hc)
  have hpad : d.dtb_size - (fileOf env st c.master).length = filePadding env st c.master := by
    rw [← hmaster, ← hfileok.size]
    omega
  refine ⟨d, fileOf env st c.master, hd, hid, by rw [← hmaster]; exact hfileok.fopen, ?_, ?_⟩
  · rw [← hmaster, ← hfileok.size]
    exact Nat.le_add_right _ _
  · rw [hpad, ← flatten_fileCalls, hfile, ← hmaster]
    exact segment_slice (fun m hm => length_flatten_fileCalls (hok m hm)) hfront (hmem c hc)

/-! ### Runs without a meaning -/

theorem blobLoop_overflow {l : List ChipNode} {wroteDtb : ℕ → Bool} {bytes : Bytes}
    (out : OutFile (BitVec 8)) (hwrote : wroteDtb c.master = false)
    (hopen : env.fopen (st.master c.master).dtb_file = some bytes) (h : 2 ^ 31 ≤ bytes.length) :
    blobLoop env st (c :: l) out wroteDtb = none := by
  rw [blobLoop, hwrote, hopen, if_neg Bool.false_ne_true]
  dsimp only
  rw [if_pos (Nat.le_trans h (Nat.le_add_right _ _))]

theorem dtbMain_overflow (hcount : st.dtb_count ≠ 0) (hopens : env.opens) (hfault : ¬ TableFault env st)
    (hloop : blobLoop env st st.chips (writeTable env st).out (fun _ => false) = none) : dtbMain env st = none := by
  rw [dtbMain, if_neg hcount, if_neg (not_not_intro hopens), if_neg hfault]
  dsimp only
  rw [hloop]

theorem blobLoop_ne_none (l : List ChipNode) (out : OutFile (BitVec 8)) (wroteDtb : ℕ → Bool)
    (h : ∀ c ∈ l, ∀ bytes, env.fopen (st.master c.master).dtb_file = some bytes →
      bytes.length + env.page_size < 2 ^ 31) : blobLoop env st l out wroteDtb ≠ none := by
  induction l generalizing out wroteDtb with
  | nil => exact some_ne_none _
  | cons c l ih =>
    have hl := fun c' hc' => h c' (mem_cons_of_mem c hc')
    rw [blobLoop]
    split
    · exact ih _ _ hl
    cases hopen : env.fopen (st.master c.master).dtb_file with
    | none => exact some_ne_none _
    | some bytes =>
      have hbytes := h c mem_cons_self bytes hopen
      dsimp only
      rw [if_neg (by omega)]
      split
      · exact some_ne_none _
      · exact ih _ _ hl

theorem dtbMain_ne_none (hcount : st.dtb_count = st.chips.length) (hstart : tableStart env st < 2 ^ 31)
    (h : ∀ c ∈ st.chips, ∀ bytes, env.fopen (st.master c.master).dtb_file = some bytes →
      bytes.length + env.page_size < 2 ^ 31) : dtbMain env st ≠ none := by
  have hfault : ¬ TableFault env st := by
    rw [TableFault, tableEnd_eq hcount, tablePadding_eq hcount, hcount]
    rw [tableStart] at hstart
    have hrows : 0 ≤ (entrySize (imageVersion env st) : ℤ) * st.chips.length :=
      Int.mul_nonneg (Int.natCast_nonneg _) (Int.natCast_nonneg _)
    omega
  rw [dtbMain, if_neg hfault]
  dsimp only
  split
  · exact some_ne_none _
  split
  · exact some_ne_none _
  cases hloop : blobLoop env st st.chips (writeTable env st).out (fun _ => false) with
  | none => exact absurd hloop (blobLoop_ne_none _ _ _ h)
  | some res =>
    obtain ⟨_, _⟩ := res
    exact some_ne_none _

end Main

/-- The image that is left when `main()` succeeds has the layout; when a call falls short, it is removed and `main()`
fails. -/
theorem image_layout (find : DtbEnv) (env : ImageEnv) (path : List Char) (opens : Bool) (entries : Forest Dirent)
    {st : FindState} (hst : st = findInput find env.page_size path opens entries)
    (hcount : st.dtb_count = st.chips.length) (hne : st.chips ≠ []) (htotal : imageTotal env st < 2 ^ 32) :
    (∀ r, dtbMain env st = some r →
      (r.rc = RC_SUCCESS → ∃ file offset, r.output = .written file ∧ QcdtLayout find env st file offset) ∧
      ((∃ k buf, r.calls[k]? = some buf ∧ ¬ Full env.write k buf) → r.rc = RC_ERROR ∧ r.output = .removed)) ∧
    (tableStart env st < 2 ^ 31 → (∀ c ∈ st.chips, ∀ bytes, env.fopen (st.master c.master).dtb_file = some bytes →
        bytes.length + env.page_size < 2 ^ 31) → ∃ r, dtbMain env st = some r) := by
  have hmasters : MastersOk find env.page_size st := by
    rw [hst]
    exact mastersOk_findInput path opens entries
  refine ⟨?_, fun hstart h => ne_none_iff_exists'.1 (dtbMain_ne_none hcount hstart h)⟩
  intro r hr
  rcases dtbMain_cases hcount hne htotal hr with ⟨hrc, hcalls⟩ | ⟨rfl, hlen, hfull, hok⟩
  · constructor
    · intro h
      rw [hrc] at h
      exact nomatch h
    rintro ⟨k, buf, hbuf, -⟩
    refine ⟨hrc, hcalls.resolve_left ?_⟩
    intro hnil
    rw [hnil] at hbuf
    exact nomatch hbuf
  constructor
  · intro _
    exact ⟨_, _, rfl, qcdtLayout_imageCalls hmasters hne htotal hlen hok⟩
  rintro ⟨k, buf, hbuf, hshort⟩
  refine absurd ?_ hshort
  have := hfull k buf hbuf
  rwa [Nat.zero_add] at this

/-! ### Three rows of two files -/

/-- A file for the boards 8 and 12, and one for board 11. -/
def sharedFiles : DtbEnv where
  getVersionInfo _ := 2
  getChipInfo name _ := if name = "/a.dtb".toList then some (boardId 8, [boardId 12]) else some (boardId 11, [])
  statSize name := if name = "/a.dtb".toList then some 5 else some 3
  statMode _ := none

def sharedImage (write : ℕ → Option ℕ) : ImageEnv where
  page_size := 16
  page_size_ok := by decide
  version_override := 0
  opens := true
  fopen name := if name = "/a.dtb".toList then some [1, 2, 3, 4, 5] else some [6, 7, 8]
  write := write

def sharedEntries : Forest Dirent := dtbEntry "a.dtb" (dtbEntry "b.dtb" .nil)

def sharedList : FindState := findInput sharedFiles 16 ['/'] true sharedEntries

/-- The rows of the boards 8 and 12 have the same master; without the second call the image is removed. -/
theorem image_layout_shared : sharedList.chips.map ChipNode.master = [0, 1, 0] ∧
    (∃ r, dtbMain (sharedImage fun _ => some 4096) sharedList = some r ∧ r.rc = RC_SUCCESS ∧
      ∃ file offset, r.output = .written file ∧
        QcdtLayout sharedFiles (sharedImage fun _ => some 4096) sharedList file offset) ∧
    ∃ r, dtbMain (sharedImage fun k => if k = 1 then none else some 4096) sharedList = some r ∧ r.rc = RC_ERROR ∧
      r.output = .removed := by
  have hcount : sharedList.dtb_count = sharedList.chips.length := by decide
  have hne : sharedList.chips ≠ [] := by decide
  have htotal : ∀ write, imageTotal (sharedImage write) sharedList < 2 ^ 32 := by
    intro write
    show imageTotal (sharedImage fun _ => none) sharedList < 2 ^ 32
    decide
  have hlayout := fun write =>
    (image_layout sharedFiles (sharedImage write) ['/'] true sharedEntries rfl hcount hne (htotal write)).1
  refine ⟨by decide, ?_, ?_⟩
  · have hrun : (dtbMain (sharedImage fun _ => some 4096) sharedList).map DtbResult.rc = some RC_SUCCESS := by
      decide
    obtain ⟨r, hr, hrc⟩ := map_eq_some_iff.1 hrun
    exact ⟨r, hr, hrc, (hlayout _ r hr).1 hrc⟩
  have hrun : (dtbMain (sharedImage fun k => if k = 1 then none else some 4096) sharedList).map
      (fun r => r.calls[1]?) = some (some (le32 2)) := by
    decide
  obtain ⟨r, hr, hcall⟩ := map_eq_some_iff.1 hrun
  refine ⟨r, hr, (hlayout _ r hr).2 ⟨1, le32 2, hcall, ?_⟩⟩
  rintro ⟨n, hn, -⟩
  exact absurd hn.symm (some_ne_none n)

/-! ### Lists without an image -/

/-- A search that finds nothing. -/
def emptyList : FindState := findInput sharedFiles 16 ['/'] true .nil

def largeFile (n : ℕ) : DtbEnv where
  getVersionInfo _ := 2
  getChipInfo _ _ := some (boardId 8, [])
  statSize _ := some n
  statMode _ := none

def largeImage (n : ℕ) : ImageEnv where
  page_size := 2048
  page_size_ok := by decide
  version_override := 0
  opens := true
  fopen _ := some (filler n)
  write _ := some 4096

def largeList (n : ℕ) : FindState := findInput (largeFile n) 2048 ['/'] true (dtbEntry "a.dtb" .nil)

/-- Nothing is written for an empty list, and `main()` succeeds; and a total below `2 ^ 32` does not mean that no `int`
overflows. -/
theorem image_layout_fails :
    (emptyList.dtb_count = emptyList.chips.length ∧ imageTotal (sharedImage fun _ => some 4096) emptyList < 2 ^ 32 ∧
      dtbMain (sharedImage fun _ => some 4096) emptyList = some ⟨RC_SUCCESS, .untouched, []⟩ ∧
      ¬ ∀ r, dtbMain (sharedImage fun _ => some 4096) emptyList = some r → r.rc = RC_SUCCESS →
        ∃ file offset, r.output = .written file ∧
          QcdtLayout sharedFiles (sharedImage fun _ => some 4096) emptyList file offset) ∧
    ((largeList (2 ^ 31)).dtb_count = (largeList (2 ^ 31)).chips.length ∧
      imageTotal (largeImage (2 ^ 31)) (largeList (2 ^ 31)) < 2 ^ 32 ∧
      dtbMain (largeImage (2 ^ 31)) (largeList (2 ^ 31)) = none) := by
  have hempty : dtbMain (sharedImage fun _ => some 4096) emptyList = some ⟨RC_SUCCESS, .untouched, []⟩ := by decide
  refine ⟨⟨by decide, by decide, hempty, ?_⟩, by decide, by decide, ?_⟩
  · intro h
    obtain ⟨_, _, hfile, -⟩ := h _ hempty rfl
    exact nomatch hfile
  have hchips : (largeList (2 ^ 31)).chips = [⟨boardId 8, 0⟩] := by decide
  have hfault : ¬ TableFault (largeImage (2 ^ 31)) (largeList (2 ^ 31)) := by decide
  have hcount : (largeList (2 ^ 31)).dtb_count ≠ 0 := by decide
  have hopen : ∀ name, (largeImage (2 ^ 31)).fopen name = some (filler (2 ^ 31)) := fun _ => rfl
  have hlen : 2 ^ 31 ≤ (filler (2 ^ 31)).length := by
    rw [filler, length_replicate]
  refine dtbMain_overflow hcount rfl hfault ?_
  rw [hchips]
  exact blobLoop_overflow _ rfl (hopen _) hlen

end G4Common.Dtbtool
