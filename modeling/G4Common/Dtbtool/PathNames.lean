/-
The names that `find_dtb()` makes of a directory and an entry.

There are three: the name for `stat()` when `d_type` is not known and the name of a subdirectory are made with a `/`
when the path does not end with one; the name of a DTB file is the path and the name of the entry, one after the other.
The first two are cut off when they do not fit in `PATH_MAX` bytes.

So a DTB file is looked for under another name than its own when the path does not end with `/`, which is only so for
the input path: the names of subdirectories end with `/` (`namesOk_iff`).  When all names are right, the search does
not depend on how the path is written (`sameSearch_of_namesOk`).
-/
import G4Common.Dtbtool.TableRows
import G4Common.Lib.Paths

namespace G4Common.Dtbtool

open Paths List

/-! ### Names -/

/-- The path of an entry of a directory. -/
def entryPath (path : List Char) (e : Dirent) : List Char := path ++ separator path ++ e.d_name

/-- `stat()` and the like find the file of this path under the name. -/
def NamesPath (name path : List Char) : Prop := name.length < PATH_MAX ∧ SamePath name path

section Names

variable (env : DtbEnv)

/-- The name for `stat()` of an entry, when its `d_type` is not known. -/
def statUses (path : List Char) (e : Dirent) : List (List Char × List Char) :=
  if e.d_type = .unknown then [((entryPath path e).take (PATH_MAX - 1), entryPath path e)] else []

/-- The names that are passed to `stat()`, `find_dtb()`, `GetVersionInfo()` and `getChipInfo()`, and what they are
for. -/
def nameUses (path : List Char) : Forest Dirent → List (List Char × List Char)
  | .nil => []
  | .node e content next =>
    statUses path e ++
      (match direntType env path e with
        | .dir =>
          if e.d_name.head? = some '.' then []
          else
            (subdirName path e, entryPath path e) ::
              if e.opens then nameUses (subdirName path e) content else []
        | .reg => if isDtbName e.d_name then [(path ++ e.d_name, entryPath path e)] else []
        | .unknown => []
        | .other => []) ++
      nameUses path next

def inputUses (path : List Char) (opens : Bool) (entries : Forest Dirent) : List (List Char × List Char) :=
  if opens then nameUses env path entries else []

/-- All names are names of the entries. -/
def NamesOk (path : List Char) (entries : Forest Dirent) : Prop :=
  ∀ u ∈ nameUses env path entries, NamesPath u.1 u.2

/-- All paths of entries that names are made for fit. -/
def PathsFit (path : List Char) (entries : Forest Dirent) : Prop :=
  ∀ u ∈ nameUses env path entries, u.2.length < PATH_MAX

/-- There is a DTB file in the directory itself. -/
def HasDtb (path : List Char) : Forest Dirent → Prop
  | .nil => False
  | .node e _ next => (direntType env path e = .reg ∧ isDtbName e.d_name) ∨ HasDtb path next

end Names

/-- `readdir()` gives names of entries. -/
def Named : Forest Dirent → Prop
  | .nil => True
  | .node e content next => EntryName e.d_name ∧ Named content ∧ Named next

/-- Two names of a file.  One that ends with `/` would be that of a directory. -/
structure SameFile (a b : List Char) : Prop where
  fitLeft : a.length < PATH_MAX
  fitRight : b.length < PATH_MAX
  endLeft : a.getLast? ≠ some '/'
  endRight : b.getLast? ≠ some '/'
  path : SamePath a b

/-- What is found out about a file does not depend on how its path is written. -/
structure ByPath (env : DtbEnv) : Prop where
  statMode : ∀ a b, SameFile a b → env.statMode a = env.statMode b
  statSize : ∀ a b, SameFile a b → env.statSize a = env.statSize b
  getVersionInfo : ∀ a b, SameFile a b → env.getVersionInfo a = env.getVersionInfo b
  getChipInfo : ∀ a b, SameFile a b → env.getChipInfo a = env.getChipInfo b

theorem path_max_pos : 0 < PATH_MAX := by decide

section Entry

variable {path : List Char} {e : Dirent}

theorem entryPath_cases (path : List Char) (e : Dirent) :
    (path.getLast? = some '/' ∧ entryPath path e = path ++ e.d_name) ∨
    (path.getLast? ≠ some '/' ∧ entryPath path e = path ++ '/' :: e.d_name) := by
  rw [entryPath, separator]
  split_ifs with h
  · exact .inl ⟨h, by rw [append_nil]⟩
  · exact .inr ⟨h, by rw [append_assoc, singleton_append]⟩

theorem components_entryPath (hname : EntryName e.d_name) :
    components (entryPath path e) = components path ++ [e.d_name] := by
  rcases entryPath_cases path e with ⟨hlast, hpath⟩ | ⟨-, hpath⟩
  · rw [hpath, components_append hlast hname]
  · rw [hpath, components_slash_append path hname]

theorem head?_entryPath (hpath : path ≠ []) : (entryPath path e).head? = path.head? := by
  rw [entryPath, append_assoc, head?_append hpath]

theorem entryPath_ne_nil (hname : EntryName e.d_name) : entryPath path e ≠ [] :=
  append_ne_nil_of_right_ne_nil _ hname.ne_nil

theorem getLast?_entryPath (hname : EntryName e.d_name) : (entryPath path e).getLast? ≠ some '/' := by
  rw [entryPath, getLast?_append_of_ne_nil _ hname.ne_nil]
  intro h
  exact hname.slash (mem_of_getLast? h)

theorem samePath_entryPath {q : List Char} (hname : EntryName e.d_name) (hp : path ≠ []) (hq : q ≠ [])
    (h : SamePath path q) : SamePath (entryPath path e) (entryPath q e) := by
  constructor
  · rw [head?_entryPath hp, head?_entryPath hq]
    exact h.1
  · rw [components_entryPath hname, components_entryPath hname, h.2]

theorem namesPath_take_iff (hname : EntryName e.d_name) :
    NamesPath ((entryPath path e).take (PATH_MAX - 1)) (entryPath path e) ↔ (entryPath path e).length < PATH_MAX := by
  constructor
  · rintro ⟨-, h⟩
    by_contra hlong
    have hcut : PATH_MAX - 1 < (entryPath path e).length := by have := path_max_pos; omega
    exact not_samePath_take hcut (getLast?_entryPath hname) h
  intro hfit
  have htake : (entryPath path e).take (PATH_MAX - 1) = entryPath path e := take_of_length_le (by omega)
  rw [htake]
  exact ⟨hfit, SamePath.rfl⟩

theorem subdirName_cases (hfit : (entryPath path e).length < PATH_MAX) :
    subdirName path e = entryPath path e ++ ['/'] ∨
    (subdirName path e = entryPath path e ∧ (entryPath path e).length = PATH_MAX - 1) := by
  show (entryPath path e ++ ['/']).take (PATH_MAX - 1) = _ ∨ (entryPath path e ++ ['/']).take (PATH_MAX - 1) = _ ∧ _
  by_cases hfull : (entryPath path e).length = PATH_MAX - 1
  · right
    exact ⟨take_left' hfull, hfull⟩
  left
  apply take_of_length_le
  rw [length_append, length_singleton]
  omega

theorem namesPath_subdirName_iff (hname : EntryName e.d_name) :
    NamesPath (subdirName path e) (entryPath path e) ↔ (entryPath path e).length < PATH_MAX := by
  constructor
  · rintro ⟨-, h⟩
    by_contra hlong
    have hcut : PATH_MAX - 1 < (entryPath path e).length := by have := path_max_pos; omega
    have htake : subdirName path e = (entryPath path e).take (PATH_MAX - 1) :=
      take_append_of_le_length hcut.le
    rw [htake] at h
    exact not_samePath_take hcut (getLast?_entryPath hname) h
  intro hfit
  rcases subdirName_cases hfit with hdir | ⟨hdir, -⟩
  · have hlen : (subdirName path e).length ≤ PATH_MAX - 1 := length_take_le _ _
    refine ⟨Nat.lt_of_le_pred path_max_pos hlen, ?_⟩
    rw [hdir]
    exact samePath_slash (entryPath_ne_nil hname)
  · rw [hdir]
    exact ⟨hfit, SamePath.rfl⟩

theorem subdirName_ne_nil (hname : EntryName e.d_name) : subdirName path e ≠ [] := by
  have hne : entryPath path e ++ ['/'] ≠ [] := append_ne_nil_of_left_ne_nil (entryPath_ne_nil hname) _
  intro h
  rcases take_eq_nil_iff.1 h with h | h
  · exact nomatch h
  · exact hne h

theorem namesPath_file_iff (hpath : path ≠ []) (hname : EntryName e.d_name) :
    NamesPath (path ++ e.d_name) (entryPath path e) ↔
      path.getLast? = some '/' ∧ (entryPath path e).length < PATH_MAX := by
  rcases entryPath_cases path e with ⟨hlast, hentry⟩ | ⟨hlast, hentry⟩
  · rw [hentry]
    constructor
    · intro h
      exact ⟨hlast, h.1⟩
    · intro h
      exact ⟨h.2, SamePath.rfl⟩
  rw [hentry]
  constructor
  · intro h
    exact absurd h.2 (not_samePath_append hpath hlast hname)
  · intro h
    exact absurd h.1 hlast

end Entry

section Walk

variable (env : DtbEnv)
variable {content entries next : Forest Dirent} {path : List Char}

theorem mem_nameUses_node {e : Dirent} {u : List Char × List Char} : u ∈ nameUses env path (.node e content next) ↔
      u ∈ statUses path e ∨
      (direntType env path e = .dir ∧ e.d_name.head? ≠ some '.' ∧ (u = (subdirName path e, entryPath path e) ∨
          e.opens ∧ u ∈ nameUses env (subdirName path e) content)) ∨
      (direntType env path e = .reg ∧ isDtbName e.d_name ∧ u = (path ++ e.d_name, entryPath path e)) ∨
      u ∈ nameUses env path next := by
  rw [nameUses, mem_append, mem_append, or_assoc]
  refine or_congr_right ?_
  rw [← or_assoc]
  refine or_congr_left ?_
  cases direntType env path e with
  | dir =>
    dsimp only
    split
    · rename_i h
      simp [h]
    rename_i h
    split_ifs with hopen <;> simp [h, hopen]
  | reg =>
    dsimp only
    split_ifs with h <;> simp [h]
  | unknown | other => simp

theorem forall_nameUses_node {P : List Char × List Char → Prop} {e : Dirent} :
    (∀ u ∈ nameUses env path (.node e content next), P u) ↔
      (e.d_type = .unknown → P ((entryPath path e).take (PATH_MAX - 1), entryPath path e)) ∧
      (direntType env path e = .dir → e.d_name.head? ≠ some '.' →
        P (subdirName path e, entryPath path e) ∧
          (e.opens → ∀ u ∈ nameUses env (subdirName path e) content, P u)) ∧
      (direntType env path e = .reg → isDtbName e.d_name → P (path ++ e.d_name, entryPath path e)) ∧
      ∀ u ∈ nameUses env path next, P u := by
  constructor
  · intro h
    refine ⟨fun hstat => ?_, fun hdir hshown => ⟨?_, fun hopen u hu => ?_⟩, fun hreg hdtb => ?_, fun u hu => ?_⟩
    · apply h _ ((mem_nameUses_node env).2 (.inl _))
      rw [statUses, if_pos hstat]
      exact mem_singleton_self _
    · exact h _ ((mem_nameUses_node env).2 (.inr (.inl ⟨hdir, hshown, Or.inl rfl⟩)))
    · exact h _ ((mem_nameUses_node env).2 (.inr (.inl ⟨hdir, hshown, Or.inr ⟨hopen, hu⟩⟩)))
    · exact h _ ((mem_nameUses_node env).2 (.inr (.inr (.inl ⟨hreg, hdtb, rfl⟩))))
    · exact h _ ((mem_nameUses_node env).2 (.inr (.inr (.inr hu))))
  rintro ⟨hstat, hdir, hreg, hnext⟩ u hu
  rcases (mem_nameUses_node env).1 hu with hu | ⟨hd, hshown, rfl | ⟨hopen, hu⟩⟩ | ⟨hr, hdtb, rfl⟩ | hu
  · rw [statUses] at hu
    split_ifs at hu with hunknown
    · rw [mem_singleton.1 hu]
      exact hstat hunknown
    · exact nomatch hu
  · exact (hdir hd hshown).1
  · exact (hdir hd hshown).2 hopen u hu
  · exact hreg hr hdtb
  · exact hnext u hu

theorem exists_nameUse_of_hasDtb (h : HasDtb env path entries) :
    ∃ e, (path ++ e.d_name, entryPath path e) ∈ nameUses env path entries := by
  induction entries with
  | nil => exact h.elim
  | node e _ _ _ ihn =>
    rcases h with ⟨hreg, hdtb⟩ | h
    · exact ⟨e, (mem_nameUses_node env).2 (.inr (.inr (.inl ⟨hreg, hdtb, rfl⟩)))⟩
    · obtain ⟨e', he'⟩ := ihn h
      exact ⟨e', (mem_nameUses_node env).2 (.inr (.inr (.inr he')))⟩

theorem subdir_files {e : Dirent} (hname : EntryName e.d_name)
    (hfit : (entryPath path e).length < PATH_MAX) (hcontent : PathsFit env (subdirName path e) content) :
    (subdirName path e).getLast? = some '/' ∨ ¬ HasDtb env (subdirName path e) content := by
  rcases subdirName_cases hfit with hdir | ⟨hdir, hfull⟩
  · left
    rw [hdir]
    exact getLast?_concat
  right
  intro hdtb
  -- The name of the directory fills the buffer, so no path of an entry fits.
  obtain ⟨f, hf⟩ := exists_nameUse_of_hasDtb env hdtb
  have hlen := hcontent _ hf
  rcases entryPath_cases (subdirName path e) f with ⟨hlast, -⟩ | ⟨-, hpath⟩
  · rw [hdir] at hlast
    exact getLast?_entryPath hname hlast
  · rw [hpath, hdir, length_append, hfull, length_cons] at hlen
    omega

/-- **The names are right** when the path ends with `/` or there is no DTB file in the directory itself, and all
paths fit. -/
theorem namesOk_iff (hpath : path ≠ []) (hnamed : Named entries) :
    NamesOk env path entries ↔
      (path.getLast? = some '/' ∨ ¬ HasDtb env path entries) ∧ PathsFit env path entries := by
  induction entries generalizing path with
  | nil =>
    constructor
    · intro _
      exact ⟨Or.inr id, nofun⟩
    · intro _ u hu
      exact nomatch hu
  | node e _ _ ihc ihn =>
    obtain ⟨hname, hcontent, hnext⟩ := hnamed
    have hbelow := ihc (@subdirName_ne_nil path e hname) hcontent
    have hafter := ihn hpath hnext
    rw [NamesOk, PathsFit, forall_nameUses_node, forall_nameUses_node]
    constructor
    · rintro ⟨hstat, hdir, hreg, hok⟩
      obtain ⟨hfiles, hfit⟩ := hafter.1 hok
      constructor
      · by_cases hlast : path.getLast? = some '/'
        · exact .inl hlast
        right
        rintro (⟨hr, hdtb⟩ | hdtb)
        · exact hlast ((namesPath_file_iff hpath hname).1 (hreg hr hdtb)).1
        · exact (hfiles.resolve_left hlast) hdtb
      refine ⟨fun h => ?_, fun hd hshown => ⟨?_, fun hopen => ?_⟩, fun hr hdtb => ?_, hfit⟩
      · exact (namesPath_take_iff hname).1 (hstat h)
      · exact (namesPath_subdirName_iff hname).1 (hdir hd hshown).1
      · exact (hbelow.1 ((hdir hd hshown).2 hopen)).2
      · exact ((namesPath_file_iff hpath hname).1 (hreg hr hdtb)).2
    rintro ⟨hfiles, hstat, hdir, hreg, hfit⟩
    refine ⟨fun h => ?_, fun hd hshown => ⟨?_, fun hopen => ?_⟩, fun hr hdtb => ?_, ?_⟩
    · exact (namesPath_take_iff hname).2 (hstat h)
    · exact (namesPath_subdirName_iff hname).2 (hdir hd hshown).1
    · obtain ⟨hsub, hin⟩ := hdir hd hshown
      exact hbelow.2 ⟨subdir_files env hname hsub (hin hopen), hin hopen⟩
    · have hlast : path.getLast? = some '/' := by
        refine hfiles.resolve_right fun h => h ?_
        exact .inl ⟨hr, hdtb⟩
      exact (namesPath_file_iff hpath hname).2 ⟨hlast, hreg hr hdtb⟩
    · exact hafter.2 ⟨hfiles.imp_right fun h hdtb => h (.inr hdtb), hfit⟩

end Walk

/-! ### Two searches -/

/-- Two visits of one file, or of one directory that cannot be opened. -/
inductive SameVisit : DtbVisit → DtbVisit → Prop
  | file {a b : List Char} (h : SameFile a b) : SameVisit (.file a) (.file b)
  | closed : SameVisit .closed .closed

/-- What is kept of one file. -/
structure SameMaster (a b : DtbMaster) : Prop where
  dtb_file : SamePath a.dtb_file b.dtb_file
  dtb_size : a.dtb_size = b.dtb_size

structure SameFound (s t : FindState) : Prop where
  chips : s.chips = t.chips
  masters : List.Forall₂ SameMaster s.masters t.masters
  version : s.version = t.version
  dtb_count : s.dtb_count = t.dtb_count

section Same

variable {env : DtbEnv} {page_size : ℕ} {p q : List Char}
variable {s t : FindState} {a b : List Char} {vs ws : List DtbVisit}

theorem sameFile_entry {e : Dirent} (hname : EntryName e.d_name) (hp : p ≠ []) (hq : q ≠ [])
    (hpq : SamePath p q) (ha : NamesPath a (entryPath p e)) (hb : NamesPath b (entryPath q e))
    (ha' : a.getLast? ≠ some '/') (hb' : b.getLast? ≠ some '/') : SameFile a b where
  fitLeft := ha.1
  fitRight := hb.1
  endLeft := ha'
  endRight := hb'
  path := ha.2.trans ((samePath_entryPath hname hp hq hpq).trans hb.2.symm)

theorem take_entryPath {e : Dirent} (hname : EntryName e.d_name)
    (h : NamesPath ((entryPath p e).take (PATH_MAX - 1)) (entryPath p e)) :
    (entryPath p e).take (PATH_MAX - 1) = entryPath p e :=
  take_of_length_le (Nat.le_pred_of_lt ((namesPath_take_iff hname).1 h))

theorem direntType_same (henv : ByPath env) {e : Dirent} (hname : EntryName e.d_name) (hp : p ≠ []) (hq : q ≠ [])
    (hpq : SamePath p q) (hpe : e.d_type = .unknown → NamesPath ((entryPath p e).take (PATH_MAX - 1)) (entryPath p e))
    (hqe : e.d_type = .unknown → NamesPath ((entryPath q e).take (PATH_MAX - 1)) (entryPath q e)) :
    direntType env p e = direntType env q e := by
  rw [direntType, direntType]
  split_ifs with hunknown
  · have hlast : ∀ r : List Char, (entryPath r e).getLast? ≠ some '/' := fun r => getLast?_entryPath hname
    have hfile : SameFile ((entryPath p e).take (PATH_MAX - 1)) ((entryPath q e).take (PATH_MAX - 1)) := by
      apply sameFile_entry hname hp hq hpq (hpe hunknown) (hqe hunknown)
      · rw [take_entryPath hname (hpe hunknown)]
        exact hlast p
      · rw [take_entryPath hname (hqe hunknown)]
        exact hlast q
    have hstat : env.statMode ((p ++ separator p ++ e.d_name).take (PATH_MAX - 1)) =
        env.statMode ((q ++ separator q ++ e.d_name).take (PATH_MAX - 1)) := henv.statMode _ _ hfile
    rw [hstat]
  · rfl

/-- **The visits** are the same when all names are right. -/
theorem dtbVisits_same (henv : ByPath env) {entries : Forest Dirent} (hnamed : Named entries) (hp : p ≠ [])
    (hq : q ≠ []) (hpq : SamePath p q) (hpok : NamesOk env p entries) (hqok : NamesOk env q entries) :
    List.Forall₂ SameVisit (dtbVisits env p entries) (dtbVisits env q entries) := by
  induction entries generalizing p q with
  | nil => exact List.Forall₂.nil
  | node e content next ihc ihn =>
    obtain ⟨hname, hcontent, hnext⟩ := hnamed
    obtain ⟨hpstat, hpdir, hpreg, hpnext⟩ := (forall_nameUses_node env).1 hpok
    obtain ⟨hqstat, hqdir, hqreg, hqnext⟩ := (forall_nameUses_node env).1 hqok
    have htype := direntType_same henv hname hp hq hpq hpstat hqstat
    rw [← htype] at hqdir hqreg
    rw [dtbVisits, dtbVisits, ← htype]
    refine rel_append ?_ (ihn hnext hp hq hpq hpnext hqnext)
    cases htp : direntType env p e with
    | dir =>
      dsimp only
      split
      · exact List.Forall₂.nil
      rename_i hshown
      obtain ⟨hpsub, hpbelow⟩ := hpdir htp hshown
      obtain ⟨hqsub, hqbelow⟩ := hqdir htp hshown
      split_ifs with hopen
      · apply ihc hcontent (subdirName_ne_nil hname) (subdirName_ne_nil hname) _ (hpbelow hopen) (hqbelow hopen)
        exact hpsub.2.trans ((samePath_entryPath hname hp hq hpq).trans hqsub.2.symm)
      · exact List.Forall₂.cons SameVisit.closed List.Forall₂.nil
    | reg =>
      dsimp only
      split_ifs with hdtb
      · have hlast : ∀ r : List Char, (r ++ e.d_name).getLast? ≠ some '/' := by
          intro r h
          rw [getLast?_append_of_ne_nil _ hname.ne_nil] at h
          exact hname.slash (mem_of_getLast? h)
        have hfile := sameFile_entry hname hp hq hpq (hpreg htp hdtb) (hqreg htp hdtb) (hlast p) (hlast q)
        exact List.Forall₂.cons (SameVisit.file hfile) List.Forall₂.nil
      · exact List.Forall₂.nil
    | unknown | other => exact List.Forall₂.nil

theorem addOther_same (h : SameFound s t) (m : ℕ) (id : ChipId) : SameFound (addOther m s id) (addOther m t id) := by
  rw [addOther, addOther, ← h.chips]
  cases chipAdd ⟨id, m⟩ s.chips with
  | none => exact h
  | some => exact ⟨rfl, h.masters, h.version, congrArg (· + 1) h.dtb_count⟩

theorem addOthers_same (h : SameFound s t) (m : ℕ) (ids : List ChipId) :
    SameFound (ids.foldl (addOther m) s) (ids.foldl (addOther m) t) := by
  induction ids generalizing s t with
  | nil => exact h
  | cons id _ ih => exact ih (addOther_same h m id)

theorem addFile_same (henv : ByPath env) (h : SameFound s t)
    (hab : SameFile a b) : SameFound (addFile env page_size s a) (addFile env page_size t b) := by
  have hversion : max s.version (env.getVersionInfo a) = max t.version (env.getVersionInfo a) :=
    congrArg (max · _) h.version
  have hlen : s.masters.length = t.masters.length := h.masters.length_eq
  rw [addFile, addFile, ← henv.getVersionInfo a b hab, ← henv.getChipInfo a b hab, ← henv.statSize a b hab]
  dsimp only
  rw [← h.chips, ← hlen]
  -- The file is left out.
  have hskip : SameFound ⟨s.chips, s.masters, max s.version (env.getVersionInfo a), s.dtb_count⟩
      ⟨s.chips, t.masters, max t.version (env.getVersionInfo a), t.dtb_count⟩ :=
    ⟨rfl, h.masters, hversion, h.dtb_count⟩
  cases env.getChipInfo a (env.getVersionInfo a) with
  | none => exact hskip
  | some info =>
    cases env.statSize a with
    | none => exact hskip
    | some =>
      dsimp only
      split
      · exact hskip
      cases chipAdd ⟨info.1, s.masters.length⟩ s.chips with
      | none => exact hskip
      | some =>
        apply addOthers_same
        refine ⟨rfl, ?_, hversion, congrArg (· + 1) h.dtb_count⟩
        exact rel_append h.masters (List.Forall₂.cons ⟨hab.path, rfl⟩ List.Forall₂.nil)

theorem visitStep_same (henv : ByPath env) (h : SameFound s t) {v w : DtbVisit}
    (hvw : SameVisit v w) : SameFound (visitStep env page_size s v) (visitStep env page_size t w) := by
  cases hvw with
  | file hab => exact addFile_same henv h hab
  | closed => exact ⟨h.chips, h.masters, h.version, congrArg (· - 1) h.dtb_count⟩

/-- **What is found** is the same after visits of the same files. -/
theorem visits_same (henv : ByPath env) (hvw : List.Forall₂ SameVisit vs ws) (h : SameFound s t) :
    SameFound (vs.foldl (visitStep env page_size) s) (ws.foldl (visitStep env page_size) t) := by
  induction hvw generalizing s t with
  | nil => exact h
  | cons hv _ ih => exact ih (visitStep_same henv h hv)

theorem files_same (hvw : List.Forall₂ SameVisit vs ws) :
    List.Forall₂ SamePath (vs.filterMap DtbVisit.name) (ws.filterMap DtbVisit.name) := by
  apply rel_filterMap _ hvw
  intro v w hvw
  cases hvw with
  | file hab => exact Option.Rel.some hab.path
  | closed => exact Option.Rel.none

end Same

section Spelling

variable (env : DtbEnv) (page_size : ℕ) (p q : List Char) (opens : Bool) (entries : Forest Dirent)

/-- Both searches use right names only, come to the same files in the same order, and find the same. -/
structure SameSearch : Prop where
  namesLeft : ∀ u ∈ inputUses env p opens entries, NamesPath u.1 u.2
  namesRight : ∀ u ∈ inputUses env q opens entries, NamesPath u.1 u.2
  files : List.Forall₂ SamePath (inputFiles env p opens entries) (inputFiles env q opens entries)
  found : SameFound (findInput env page_size p opens entries) (findInput env page_size q opens entries)

variable {env p q opens entries}

theorem sameSearch_of_namesOk (henv : ByPath env) (hnamed : Named entries) (hp : p ≠ []) (hq : q ≠ [])
    (hpq : SamePath p q) (hpok : NamesOk env p entries) (hqok : NamesOk env q entries) :
    SameSearch env page_size p q true entries := by
  have hvisits := dtbVisits_same henv hnamed hp hq hpq hpok hqok
  refine ⟨hpok, hqok, files_same hvisits, ?_⟩
  rw [findInput, findInput, if_pos rfl, if_pos rfl, findDtb_eq_foldl, findDtb_eq_foldl]
  exact visits_same henv hvisits ⟨rfl, List.Forall₂.nil, rfl, rfl⟩

/-- **The path and the path with a further `/`** come to the same, under right names only, exactly when the directory
cannot be opened, or the path ends with `/` already or there is no DTB file in the directory itself, and all paths
fit. -/
theorem path_spelling_iff (henv : ByPath env) (hnamed : Named entries) (hp : p ≠ []) :
    SameSearch env page_size p (p ++ ['/']) opens entries ↔
      opens = false ∨ ((p.getLast? = some '/' ∨ ¬ HasDtb env p entries) ∧ PathsFit env p entries ∧
        PathsFit env (p ++ ['/']) entries) := by
  have hq : p ++ ['/'] ≠ [] := append_ne_nil_of_left_ne_nil hp _
  have hlast : (p ++ ['/']).getLast? = some '/' := getLast?_concat
  cases opens with
  | false =>
    constructor
    · intro _
      exact .inl rfl
    · intro _
      refine ⟨nofun, nofun, List.Forall₂.nil, ?_⟩
      exact ⟨rfl, List.Forall₂.nil, rfl, rfl⟩
  | true =>
    constructor
    · intro h
      right
      obtain ⟨hfiles, hfit⟩ := (namesOk_iff env hp hnamed).1 h.namesLeft
      exact ⟨hfiles, hfit, ((namesOk_iff env hq hnamed).1 h.namesRight).2⟩
    rintro (h | ⟨hfiles, hfit, hfit'⟩)
    · cases h
    · have hpok := (namesOk_iff env hp hnamed).2 ⟨hfiles, hfit⟩
      have hqok := (namesOk_iff env hq hnamed).2 ⟨Or.inl hlast, hfit'⟩
      exact sameSearch_of_namesOk page_size henv hnamed hp hq (samePath_slash hp).symm hpok hqok

end Spelling

/-- A directory `d` with a DTB file, whose `d_type` is not known, and a subdirectory with one. -/
def boardsEnv : DtbEnv where
  getVersionInfo _ := 2
  getChipInfo name _ :=
    if components name = ["d".toList, "a.dtb".toList] then some (boardId 8, [])
    else if components name = ["d".toList, "boards".toList, "b.dtb".toList] then some (boardId 11, [])
    else none
  statSize _ := some 100
  statMode name := if components name = ["d".toList, "a.dtb".toList] then some .reg else none

def boardsEntries : Forest Dirent :=
  .node ⟨"a.dtb".toList, .unknown, false⟩ .nil (.node ⟨"boards".toList, .dir, true⟩ (dtbEntry "b.dtb" .nil) .nil)

theorem byPath_boardsEnv : ByPath boardsEnv where
  statMode a b h := by
    show (if components a = _ then _ else _) = _
    rw [h.path.2]
    rfl
  statSize _ _ _ := rfl
  getVersionInfo _ _ _ := rfl
  getChipInfo a b h := by
    funext v
    show (if components a = _ then _ else if components a = _ then _ else _) = _
    rw [h.path.2]
    rfl

theorem named_boardsEntries : Named boardsEntries :=
  ⟨⟨by decide, by decide⟩, trivial, ⟨by decide, by decide⟩, ⟨⟨by decide, by decide⟩, trivial, trivial⟩, trivial⟩

/-- With a `/` at the end, the input path may have one more. -/
theorem path_spelling_iff_boards : SameSearch boardsEnv 2048 "d/".toList ("d/".toList ++ ['/']) true boardsEntries :=
  (path_spelling_iff 2048 byPath_boardsEnv named_boardsEntries (by decide)).2
    (.inr ⟨Or.inl (by decide), by unfold PathsFit; decide, by unfold PathsFit; decide⟩)

/-- Without a `/` at the end, `da.dtb` is looked for, and the board of `d/a.dtb` is not in the list. -/
theorem path_spelling_fails :
    (findInput boardsEnv 2048 "d".toList true boardsEntries).chips.map ChipNode.id = [boardId 11] ∧
    (findInput boardsEnv 2048 "d/".toList true boardsEntries).chips.map ChipNode.id = [boardId 8, boardId 11] ∧
    ¬ ∀ (env : DtbEnv) (page_size : ℕ) (p : List Char) (opens : Bool) (entries : Forest Dirent),
      ByPath env → Named entries → p ≠ [] → SameSearch env page_size p (p ++ ['/']) opens entries := by
  have hshort : (findInput boardsEnv 2048 "d".toList true boardsEntries).chips.map ChipNode.id = [boardId 11] := by
    decide
  have hlong : (findInput boardsEnv 2048 "d/".toList true boardsEntries).chips.map ChipNode.id =
      [boardId 8, boardId 11] := by
    decide
  refine ⟨hshort, hlong, ?_⟩
  intro h
  have hsame := (h boardsEnv 2048 "d".toList true boardsEntries byPath_boardsEnv named_boardsEntries
    (by decide)).found.chips
  have hpath : "d".toList ++ ['/'] = "d/".toList := by decide
  rw [hpath] at hsame
  rw [hsame, hlong] at hshort
  exact nomatch hshort

end G4Common.Dtbtool
