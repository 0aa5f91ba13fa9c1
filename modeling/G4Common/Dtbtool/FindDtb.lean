/-
The search for DTB files (`find_dtb()` of `dtbtool/dtbtool.c`).

A directory is a list of entries in the order of `readdir()`, with the content of each that is a directory.  What is
found out about a file (`GetVersionInfo()`, `getChipInfo()`, `stat()`) is a function of the name that is passed.  A
file with several identities gives a node for each; its first node is the master of the others and is added first, and
when it is a duplicate the file is left out.  Memory is taken to be available.

The search is a loop over the files that are visited (`findDtb_eq_foldl`).
-/
import G4Common.Dtbtool.ChipList
import G4Common.Lib.TreeWalk

namespace G4Common.Dtbtool

open List

/-! ### Directories -/

/-- `d_type`, and what `stat()` says. -/
inductive FileType
  | reg
  | dir
  | unknown
  | other
deriving DecidableEq

structure Dirent where
  d_name : List Char
  d_type : FileType
  /-- `opendir()` succeeds, if it is a directory. -/
  opens : Bool
deriving DecidableEq

def PATH_MAX : ℕ := 4096

/-- What is found out about a name. -/
structure DtbEnv where
  getVersionInfo : List Char → ℕ
  /-- The first element of the list and the others, or `NULL`. -/
  getChipInfo : List Char → ℕ → Option (ChipId × List ChipId)
  /-- `st_size`, if `stat()` succeeds. -/
  statSize : List Char → Option ℕ
  /-- `st_mode`, if `stat()` succeeds. -/
  statMode : List Char → Option FileType

/-- What the first node of a file keeps. -/
structure DtbMaster where
  dtb_file : List Char
  dtb_size : ℕ
deriving DecidableEq

structure FindState where
  chips : List ChipNode
  masters : List DtbMaster
  version : ℕ
  dtb_count : ℤ
deriving DecidableEq

/-- `/`, if the path does not end with it. -/
def separator (path : List Char) : List Char := if path.getLast? = some '/' then [] else ['/']

def isDtbName (name : List Char) : Bool := 4 < name.length ∧ name.drop (name.length - 4) = ".dtb".toList

section Find

variable (env : DtbEnv) (page_size : ℕ)

/-- `d_type`, or the answer of `stat()` when it is not known. -/
def direntType (path : List Char) (e : Dirent) : FileType :=
  if e.d_type = .unknown then
    match env.statMode ((path ++ separator path ++ e.d_name).take (PATH_MAX - 1)) with
    | some .reg => .reg
    | some .dir => .dir
    | some .unknown => .unknown
    | some .other => .unknown
    | none => .unknown
  else e.d_type

/-- A further identity of a file. -/
def addOther (master : ℕ) (st : FindState) (id : ChipId) : FindState :=
  match chipAdd ⟨id, master⟩ st.chips with
  | none => st
  | some chips => { st with chips := chips, dtb_count := st.dtb_count + 1 }

def addFile (st : FindState) (filename : List Char) : FindState :=
  let msmversion := env.getVersionInfo filename
  let st := { st with version := max st.version msmversion }
  match env.getChipInfo filename msmversion with
  | none => st
  | some (head, others) =>
    match env.statSize filename with
    | none => st
    | some size =>
      if size = 0 then st
      else
        let master := st.masters.length
        match chipAdd ⟨head, master⟩ st.chips with
        | none => st
        | some chips =>
          others.foldl (addOther master)
            { st with
              chips := chips
              masters := st.masters ++ [⟨filename, (size + (page_size - size % page_size)) % 2 ^ 32⟩]
              dtb_count := st.dtb_count + 1 }

/-- A directory that cannot be opened: `RC_ERROR` is added to the count. -/
def closedDir (st : FindState) : FindState := { st with dtb_count := st.dtb_count - 1 }

/-- The name of a subdirectory. -/
def subdirName (path : List Char) (e : Dirent) : List Char :=
  (path ++ separator path ++ e.d_name ++ ['/']).take (PATH_MAX - 1)

/-- `find_dtb()`, from an entry of an open directory on. -/
def findDtb (path : List Char) : Forest Dirent → FindState → FindState
  | .nil, st => st
  | .node e content next, st =>
    let st := match direntType env path e with
      | .dir =>
        if e.d_name.head? = some '.' then st
        else if e.opens then findDtb (subdirName path e) content st
        else closedDir st
      | .reg => if isDtbName e.d_name then addFile env page_size st (path ++ e.d_name) else st
      | .unknown => st
      | .other => st
    findDtb path next st

/-- `find_dtb()` of the input path, as `main()` calls it. -/
def findInput (path : List Char) (opens : Bool) (entries : Forest Dirent) : FindState :=
  let st : FindState := ⟨[], [], 0, 0⟩
  if opens then findDtb env page_size path entries st else closedDir st

/-! ### Visits -/

/-- What the search comes to. -/
inductive DtbVisit
  | file (name : List Char)
  | closed
deriving DecidableEq

def dtbVisits (path : List Char) : Forest Dirent → List DtbVisit
  | .nil => []
  | .node e content next =>
    (match direntType env path e with
      | .dir =>
        if e.d_name.head? = some '.' then []
        else if e.opens then dtbVisits (subdirName path e) content
        else [.closed]
      | .reg => if isDtbName e.d_name then [.file (path ++ e.d_name)] else []
      | .unknown => []
      | .other => []) ++ dtbVisits path next

def visitStep (st : FindState) : DtbVisit → FindState
  | .file name => addFile env page_size st name
  | .closed => closedDir st

theorem findDtb_eq_foldl (path : List Char) (entries : Forest Dirent) (st : FindState) :
    findDtb env page_size path entries st = (dtbVisits env path entries).foldl (visitStep env page_size) st := by
  induction entries generalizing path st with
  | nil => rfl
  | node e _ _ ihc ihn =>
    rw [findDtb, dtbVisits, foldl_append, ihn]
    congr 1
    cases direntType env path e with
    | dir =>
      dsimp only
      split
      · rfl
      · split
        · exact ihc _ _
        · rfl
    | reg =>
      dsimp only
      split <;> rfl
    | unknown | other => rfl

/-! ### Identities -/

/-- The identities that a file has, if its list and its size are known. -/
def fileIds (filename : List Char) : List ChipId :=
  match env.getChipInfo filename (env.getVersionInfo filename) with
  | none => []
  | some (head, others) =>
    match env.statSize filename with
    | none => []
    | some size => if size = 0 then [] else head :: others

def DtbVisit.name : DtbVisit → Option (List Char)
  | .file name => some name
  | .closed => none

/-- The files that are visited, in their order. -/
def visitedFiles (path : List Char) (entries : Forest Dirent) : List (List Char) :=
  (dtbVisits env path entries).filterMap DtbVisit.name

/-- The lists of identities whose first is not among those before; the others are left out. -/
def keptLists : List ChipId → List (List ChipId) → List (List ChipId)
  | _, [] => []
  | seen, [] :: rest => keptLists seen rest
  | seen, (head :: others) :: rest =>
    if head ∈ seen then keptLists seen rest
    else (head :: others) :: keptLists (seen ++ head :: others) rest

/-- The list has the identities of all files. -/
def LosesNone (path : List Char) (entries : Forest Dirent) : Prop :=
  ∀ i, i ∈ (findInput env page_size path true entries).chips.map ChipNode.id ↔
    ∃ filename ∈ visitedFiles env path entries, i ∈ fileIds env filename

theorem addOther_chips (master : ℕ) (ids : List ChipId) (st : FindState) :
    (ids.foldl (addOther master) st).chips = (ids.map fun id => ⟨id, master⟩).foldl chipStep st.chips := by
  induction ids generalizing st with
  | nil => rfl
  | cons id _ ih =>
    have hstep : (addOther master st id).chips = chipStep st.chips ⟨id, master⟩ := by
      rw [addOther, chipStep]
      cases chipAdd ⟨id, master⟩ st.chips <;> rfl
    rw [foldl_cons, ih, map_cons, foldl_cons, hstep]

/-- The list after a file with some identities: all are added, or none when the first is there already. -/
def addIds (st : FindState) : List ChipId → List ChipNode
  | [] => st.chips
  | head :: others =>
    if head ∈ st.chips.map ChipNode.id then st.chips
    else ((head :: others).map fun id => ⟨id, st.masters.length⟩).foldl chipStep st.chips

theorem addFile_chips {st : FindState} (hs : Placed st.chips) (filename : List Char) :
    (addFile env page_size st filename).chips = addIds st (fileIds env filename) := by
  rw [addFile, fileIds]
  dsimp only
  cases env.getChipInfo filename (env.getVersionInfo filename) with
  | none => rfl
  | some info =>
    obtain ⟨head, _⟩ := info
    cases env.statSize filename with
    | none => rfl
    | some =>
      dsimp only
      split
      · rfl
      rw [addIds]
      rcases chipStep_cases (c := ⟨head, st.masters.length⟩) hs with ⟨hmem, hadd, -⟩ | ⟨hnot, hadd, -⟩
      · rw [hadd, if_pos hmem]
      · rw [hadd, if_neg hnot]
        dsimp only
        rw [addOther_chips, map_cons, foldl_cons]

theorem mem_foldl_visits {st : FindState} (hs : Placed st.chips) {seen : List ChipId}
    (hseen : ∀ i, i ∈ st.chips.map ChipNode.id ↔ i ∈ seen) (visits : List DtbVisit) (i : ChipId) :
    i ∈ (visits.foldl (visitStep env page_size) st).chips.map ChipNode.id ↔
      i ∈ seen ∨ ∃ ids ∈ keptLists seen ((visits.filterMap DtbVisit.name).map (fileIds env)), i ∈ ids := by
  induction visits generalizing st seen with
  | nil =>
    rw [foldl_nil, hseen]
    exact (or_iff_left fun ⟨_, h, _⟩ => absurd h not_mem_nil).symm
  | cons v visits ih =>
    cases v with
    | closed =>
      have hclosed : Placed (closedDir st).chips := hs
      exact ih hclosed hseen
    | file name =>
      have hchips := addFile_chips env page_size hs name
      have hnames : (DtbVisit.file name :: visits).filterMap DtbVisit.name =
          name :: visits.filterMap DtbVisit.name := filterMap_cons_some rfl
      rw [foldl_cons, visitStep, hnames, map_cons]
      cases hids : fileIds env name with
      | nil =>
        rw [hids, addIds] at hchips
        exact ih (by rw [hchips]; exact hs) (by rw [hchips]; exact hseen)
      | cons head others =>
        rw [hids, addIds] at hchips
        rw [keptLists]
        by_cases hmem : head ∈ seen
        · rw [if_pos ((hseen head).2 hmem)] at hchips
          rw [if_pos hmem]
          exact ih (by rw [hchips]; exact hs) (by rw [hchips]; exact hseen)
        rw [if_neg fun h => hmem ((hseen head).1 h)] at hchips
        have hplaced : Placed (addFile env page_size st name).chips := by
          rw [hchips]
          exact placed_foldl hs _
        have hnext : ∀ i, i ∈ (addFile env page_size st name).chips.map ChipNode.id ↔ i ∈ seen ++ head :: others := by
          intro i
          rw [hchips, mem_map_id_foldl hs, hseen, map_map, mem_append]
          simp only [Function.comp_def, map_id']
        rw [if_neg hmem, ih hplaced hnext, exists_mem_cons_iff, mem_append, or_assoc]

theorem mem_of_mem_keptLists {seen : List ChipId} {lists : List (List ChipId)} {ids : List ChipId}
    (h : ids ∈ keptLists seen lists) : ids ∈ lists := by
  induction lists generalizing seen with
  | nil => exact h
  | cons x _ ih =>
    cases x with
    | nil => exact mem_cons_of_mem _ (ih h)
    | cons =>
      rw [keptLists] at h
      split at h
      · exact mem_cons_of_mem _ (ih h)
      · rcases mem_cons.1 h with rfl | h
        · exact mem_cons_self
        · exact mem_cons_of_mem _ (ih h)

/-- The list has the identities of the files that are kept. -/
theorem mem_chips_iff (path : List Char) (entries : Forest Dirent) (i : ChipId) :
    i ∈ (findInput env page_size path true entries).chips.map ChipNode.id ↔
      ∃ ids ∈ keptLists [] ((visitedFiles env path entries).map (fileIds env)), i ∈ ids := by
  have hnil : Placed (FindState.mk [] [] 0 0).chips := List.Pairwise.nil
  have hvisits : i ∈ ((dtbVisits env path entries).foldl (visitStep env page_size) ⟨[], [], 0, 0⟩).chips.map
      ChipNode.id ↔ i ∈ [] ∨ _ := mem_foldl_visits env page_size hnil (fun _ => Iff.rfl) _ i
  rw [findInput, if_pos rfl, findDtb_eq_foldl, hvisits]
  exact or_iff_right not_mem_nil

/-- No identity is lost when each identity of a file is one of a file that is kept. -/
theorem find_dtb_loses_none_iff (path : List Char) (entries : Forest Dirent) :
    LosesNone env page_size path entries ↔
      ∀ filename ∈ visitedFiles env path entries, ∀ i ∈ fileIds env filename,
        ∃ ids ∈ keptLists [] ((visitedFiles env path entries).map (fileIds env)), i ∈ ids := by
  have hchips := mem_chips_iff env page_size path entries
  constructor
  · intro h filename hfile i hi
    exact (hchips i).1 ((h i).2 ⟨filename, hfile, hi⟩)
  intro h i
  rw [hchips]
  constructor
  · rintro ⟨_, hids, hi⟩
    obtain ⟨filename, hfile, rfl⟩ := mem_map.1 (mem_of_mem_keptLists hids)
    exact ⟨filename, hfile, hi⟩
  · rintro ⟨filename, hfile, hi⟩
    exact h filename hfile i hi

/-- The head of the later list is not in the earlier one. -/
def HeadFresh (earlier later : List ChipId) : Prop := ∀ head ∈ later.head?, head ∉ earlier

/-- Where no head is in a list before it, all lists are kept. -/
theorem keptLists_of_fresh {seen : List ChipId} {lists : List (List ChipId)} (hseen : ∀ ids ∈ lists, HeadFresh seen ids)
    (h : lists.Pairwise HeadFresh) : keptLists seen lists = lists.filter (· ≠ []) := by
  induction lists generalizing seen with
  | nil => rfl
  | cons ids rest ih =>
    obtain ⟨hfresh, hrest⟩ := pairwise_cons.1 h
    obtain ⟨hhead, hlater⟩ := forall_mem_cons.1 hseen
    cases ids with
    | nil => exact ih hlater hrest
    | cons head others =>
      rw [keptLists, if_neg (hhead head rfl), filter_cons_of_pos (by simp)]
      congr 1
      refine ih (fun ids hids i hi hmem => ?_) hrest
      exact (mem_append.1 hmem).elim (hlater ids hids i hi) (hfresh ids hids i hi)

/-- **No identity is lost** when no file's head is an identity of a file before it. -/
theorem losesNone_of_fresh {path : List Char} {entries : Forest Dirent}
    (h : ((visitedFiles env path entries).map (fileIds env)).Pairwise HeadFresh) :
    LosesNone env page_size path entries := by
  intro i
  rw [mem_chips_iff, keptLists_of_fresh (fun _ _ _ _ => not_mem_nil) h]
  constructor
  · rintro ⟨ids, hids, hi⟩
    obtain ⟨filename, hfile, rfl⟩ := mem_map.1 (mem_filter.1 hids).1
    exact ⟨filename, hfile, hi⟩
  · rintro ⟨filename, hfile, hi⟩
    refine ⟨_, mem_filter.2 ⟨mem_map_of_mem hfile, ?_⟩, hi⟩
    simpa using ne_nil_of_mem hi

/-- **The order of the directories does not matter** when no file's head is an identity of another one. -/
theorem findInput_order {path : List Char} {entries entries' : Forest Dirent}
    (hperm : (visitedFiles env path entries).Perm (visitedFiles env path entries'))
    (h : ((visitedFiles env path entries).map (fileIds env)).Pairwise fun x y => HeadFresh x y ∧ HeadFresh y x)
    (i : ChipId) : i ∈ (findInput env page_size path true entries).chips.map ChipNode.id ↔
      i ∈ (findInput env page_size path true entries').chips.map ChipNode.id := by
  have h' : ((visitedFiles env path entries').map (fileIds env)).Pairwise fun x y => HeadFresh x y ∧ HeadFresh y x :=
    h.perm (hperm.map _) And.symm
  rw [losesNone_of_fresh env page_size (h.imp And.left) i, losesNone_of_fresh env page_size (h'.imp And.left) i]
  simp only [hperm.mem_iff]

end Find

/-- A board of a kernel tree. -/
def boardId (platform : UInt32) : ChipId := ⟨206, platform, 0, 0, (0, 0, 0, 0)⟩

/-- One file for a board, and one for it and a second board. -/
def twoFiles : DtbEnv where
  getVersionInfo _ := 2
  getChipInfo name _ := if name = "/a.dtb".toList then some (boardId 8, []) else some (boardId 8, [boardId 11])
  statSize _ := some 100
  statMode _ := none

def dtbEntry (name : String) (next : Forest Dirent) : Forest Dirent := .node ⟨name.toList, .reg, false⟩ .nil next

/-- The second board is in the list or not, depending on the file that comes first. -/
theorem find_dtb_order_matters :
    (findInput twoFiles 2048 ['/'] true (dtbEntry "b.dtb" (dtbEntry "a.dtb" .nil))).chips.map ChipNode.id =
      [boardId 8, boardId 11] ∧
    (findInput twoFiles 2048 ['/'] true (dtbEntry "a.dtb" (dtbEntry "b.dtb" .nil))).chips.map ChipNode.id =
      [boardId 8] ∧
    ¬ LosesNone twoFiles 2048 ['/'] (dtbEntry "a.dtb" (dtbEntry "b.dtb" .nil)) := by
  have hlost : (findInput twoFiles 2048 ['/'] true (dtbEntry "a.dtb" (dtbEntry "b.dtb" .nil))).chips.map ChipNode.id =
      [boardId 8] := by
    decide
  refine ⟨by decide, hlost, ?_⟩
  intro h
  have hmem := (h (boardId 11)).2 ⟨"/b.dtb".toList, by decide, by decide⟩
  rw [hlost] at hmem
  exact nomatch hmem

end G4Common.Dtbtool
