/-
When `loc_read_conf()` and `loc_update_conf()` read a configuration completely.

A record keeps what the last line that sets it says (`applyBufs_eq`), and the loops stop at the `n`th line that sets a
record (`confLoop_eq`), `n` being the length of the table, or one less.  So a record is read when it is among the
first `n` such lines, which is the case without repeated names and, for `loc_update_conf()`, with a record too many in
the table.  `loc_update_conf()` returns the number of lines it has read.
-/
import G4Common.Gps.LocCfg
import Mathlib.Data.List.Induction
import Mathlib.Algebra.BigOperators.Group.List.Basic
import Mathlib.Algebra.Order.BigOperators.Group.List

namespace G4Common.Gps

open Scanf CString List Option Bool

/-! ### What is asked -/

def blank (s : List Char) : Bool := s.all isSpace

/-- The name and the value of a line `name = value`. -/
def confSetting (line : List Char) : Option (List Char × List Char) :=
  (confOperands line).filter fun o => !blank o.2

section Spec

variable {F : Type} (lib : CfgLib F)

/-- A line has a value for the record. -/
def Named (lines : List (List Char)) (entry : ConfRecord F) : Prop :=
  ∃ line ∈ lines, ∃ v, confSetting line = some (entry.param_name, v)

/-- A record that is named is set from such a line; any other keeps its value, and its flag is cleared. -/
structure EntryRead (lines : List (List Char)) (before after : ConfRecord F) : Prop where
  named : Named lines before → ∃ line ∈ lines, ∃ v, confSetting line = some (before.param_name, v) ∧
    after.source = some v ∧ confValue (confParam lib (before.param_name, v)) before.param_type = some after.value ∧
    (before.hasSet = true → after.set = true)
  other : ¬ Named lines before → after.source = none ∧ after.value = before.value ∧
    (before.hasSet = true → after.set = false)

def confLines (text : List Char) : List (List Char) := text.splitOn '\n'

/-- Both functions read a text completely, and `loc_update_conf()` returns the number of records it has set. -/
structure ConfComplete (malloc : Bool) (text : List Char) (table params : List (ConfRecord F)) : Prop where
  read : List.Forall₂ (EntryRead lib (confLines text)) table (locReadConf lib (some text) table params).1
  update : List.Forall₂ (EntryRead lib (confLines text)) table (locUpdateConf lib malloc text table).1
  returned : (locUpdateConf lib malloc text table).2 =
    ((locUpdateConf lib malloc text table).1.countP fun entry => entry.source.isSome : ℕ)

/-- The line sets the record. -/
def ConfRecord.sets (entry : ConfRecord F) (buf : List Char) : Bool :=
  (confOperands buf).any fun o => entry.param_name = o.1 ∧ entry.hasPtr ∧ entry.param_type ≠ .other

def hasValue (buf : List Char) : Bool := (confSetting buf).isSome

/-- The line sets a record of the table. -/
def setsOne (table : List (ConfRecord F)) (buf : List Char) : Bool := table.any fun entry => entry.sets buf

/-- The first lines of a file that set a record, as many as there are records. -/
def firstSettings (text : List Char) (table : List (ConfRecord F)) : List (List Char) :=
  ((fgetsBufs LOC_MAX_PARAM_LINE [] text).filter (setsOne table)).take table.length

/-- Every record that is named, or set by one of these lines, is set by one of them, the last time with a value. -/
def ReadMeets (text : List Char) (table : List (ConfRecord F)) : Prop :=
  ∀ entry ∈ table, (Named (confLines text) entry ∨ ∃ buf ∈ firstSettings text table, entry.sets buf = true) →
    ((firstSettings text table).filter entry.sets).getLast?.any hasValue = true

/-- The first lines that are not empty, one less than there are records. -/
def firstLines (text : List Char) (table : List (ConfRecord F)) : List (List Char) :=
  (tokens '\n' text).take (table.length - 1)

/-- Each of these lines sets another record to a value, they set all records that are named, and the flags of the
other records are clear. -/
structure UpdateMeets (malloc : Bool) (text : List Char) (table : List (ConfRecord F)) : Prop where
  started : text ≠ [] ∧ table ≠ [] ∧ malloc = true
  values : ∀ line ∈ firstLines text table, hasValue line = true ∧ setsOne table line = true
  once : ∀ entry ∈ table, ((firstLines text table).filter entry.sets).length ≤ 1
  all : ∀ entry ∈ table, Named (confLines text) entry → ∃ line ∈ firstLines text table, entry.sets line = true
  clear : ∀ entry ∈ table, entry.hasSet = true → ¬ Named (confLines text) entry → entry.set = false

end Spec

/-! ### Lines -/

theorem blank_append (s t : List Char) : blank (s ++ t) = (blank s && blank t) := all_append

theorem trim_fold (s : List Char) :
    (blank s ∧ s.foldl trimStep ⟨false, [], none⟩ = ⟨false, [], none⟩) ∨
    (blank s = false ∧ ∃ written n, s.foldl trimStep ⟨false, [], none⟩ = ⟨true, written, some n⟩ ∧
      n ≤ written.length ∧ blank (written.take n) = false) := by
  induction s using reverseRecOn with
  | nil => exact .inl ⟨rfl, rfl⟩
  | append_singleton _ c ih =>
    rw [foldl_append, foldl_cons, foldl_nil, blank_append]
    have hsingle : blank [c] = isSpace c := and_true _
    rw [hsingle]
    rcases ih with ⟨hblank, hfold⟩ | ⟨hblank, written, n, hfold, hn, _⟩
    · rw [hblank, hfold, Bool.true_and]
      cases hc : isSpace c with
      | true => exact .inl ⟨rfl, by rw [trimStep, hc]; rfl⟩
      | false =>
        exact .inr ⟨rfl, [c], 1, by rw [trimStep, hc]; rfl, Nat.le_refl _, hsingle.trans hc⟩
    rw [hblank, hfold, Bool.false_and]
    refine .inr ⟨rfl, written ++ [c], ?_⟩
    cases hc : isSpace c with
    | true =>
      refine ⟨n, by rw [trimStep, hc]; rfl, ?_, ?_⟩
      · rw [length_append]
        exact Nat.le_add_right_of_le hn
      · rwa [take_append_of_le_length hn]
    | false =>
      have hlen : (written ++ [c]).length = written.length + 1 := by rw [length_append, length_singleton]
      refine ⟨written.length + 1, by rw [trimStep, hc]; rfl, Nat.le_of_eq hlen.symm, ?_⟩
      rw [take_of_length_le (Nat.le_of_eq hlen), blank_append, hsingle, hc, Bool.and_false]

theorem blank_trim (s : List Char) : blank (locUtilTrimSpace s) = blank s := by
  rw [locUtilTrimSpace]
  rcases trim_fold s with ⟨hblank, hfold⟩ | ⟨hblank, _, n, hfold, -, htake⟩
  · rw [hfold]
  · rw [hfold, hblank]
    exact htake

theorem trim_concat_space {s : List Char} {c : Char} (hs : blank s = false) (hc : isSpace c) :
    locUtilTrimSpace (s ++ [c]) = locUtilTrimSpace s := by
  rcases trim_fold s with ⟨hblank, -⟩ | ⟨-, written, n, hfold, hn, -⟩
  · rw [hblank] at hs
    cases hs
  have hstep : (s ++ [c]).foldl trimStep ⟨false, [], none⟩ = ⟨true, written ++ [c], some n⟩ := by
    rw [foldl_append, hfold, foldl_cons, foldl_nil, trimStep, hc]
    rfl
  rw [locUtilTrimSpace, locUtilTrimSpace, hstep, hfold]
  exact take_append_of_le_length hn

theorem confSetting_of_tokens {line name value : List Char} {more : List (List Char)}
    (h : tokens '=' line = name :: value :: more) :
    confSetting line = if blank value then none else some (locUtilTrimSpace name, locUtilTrimSpace value) := by
  rw [confSetting, confOperands, h, filter_some, blank_trim]
  cases blank value <;> rfl

theorem confSetting_newline (s : List Char) : confSetting (s ++ ['\n']) = confSetting s := by
  have hnone : ∀ {line : List Char}, confOperands line = none → confSetting line = none := by
    intro _ h
    rw [confSetting, h, Option.filter_none]
  rcases tokens_concat (show '\n' ≠ '=' by decide) s with ⟨init, last, hs, hsc⟩ | hsc
  · match init, hs, hsc with
    | [], hs, hsc => rw [hnone (by rw [confOperands, hsc]; rfl), hnone (by rw [confOperands, hs]; rfl)]
    | [name], hs, hsc =>
      rw [confSetting_of_tokens hsc, confSetting_of_tokens hs, blank_append]
      cases hlast : blank last with
      | true => rfl
      | false => rw [trim_concat_space hlast rfl]; rfl
    | name :: value :: init, hs, hsc => rw [confSetting_of_tokens hsc, confSetting_of_tokens hs]
  match hs : tokens '=' s with
  | [] => rw [hs] at hsc; rw [hnone (by rw [confOperands, hsc]; rfl), hnone (by rw [confOperands, hs])]
  | [name] =>
    rw [hs] at hsc
    rw [confSetting_of_tokens hsc, hnone (by rw [confOperands, hs])]
    rfl
  | name :: value :: more =>
    rw [hs] at hsc
    rw [confSetting_of_tokens hsc, confSetting_of_tokens hs]

theorem filterMap_confSetting {text : List Char} (hlines : ∀ line ∈ confLines text, line.length < LOC_MAX_PARAM_LINE) :
    (fgetsBufs LOC_MAX_PARAM_LINE [] text).filterMap confSetting = (confLines text).filterMap confSetting :=
  filterMap_fgetsBufs rfl confSetting_newline (by decide) not_mem_nil (by decide) hlines

/-! ### Records -/

section Records

variable {F : Type} (lib : CfgLib F) {entry : ConfRecord F} {buf : List Char}

/-- What a line does to a record. -/
def setBy (buf : List Char) (entry : ConfRecord F) : ConfRecord F :=
  match confOperands buf with
  | none => entry
  | some o => (locSetConfigEntry entry (confParam lib o)).1

/-- What some lines do to a record. -/
def applyBufs (bufs : List (List Char)) (entry : ConfRecord F) : ConfRecord F :=
  bufs.foldl (fun entry buf => setBy lib buf entry) entry

theorem confParam_name (o : List Char × List Char) : (confParam lib o).param_name = o.1 := by
  rw [confParam]
  split <;> rfl

theorem confParam_str (o : List Char × List Char) : (confParam lib o).param_str_value = o.2 := by
  rw [confParam]
  split <;> rfl

theorem confValue_isSome (v : ConfParam F) {type : ParamType} (h : type ≠ .other) :
    ∃ value, confValue v type = some value := by
  cases type with
  | string | number | float => exact ⟨_, rfl⟩
  | other => exact absurd rfl h

theorem setBy_of_sets (h : entry.sets buf) : ∃ v value, confOperands buf = some (entry.param_name, v) ∧
      confValue (confParam lib (entry.param_name, v)) entry.param_type = some value ∧
      setBy lib buf entry =
        { entry with value := value, set := if entry.hasSet then true else entry.set, source := some v } := by
  rw [ConfRecord.sets, Option.any_eq_true] at h
  obtain ⟨⟨_, v⟩, ho, h⟩ := h
  obtain ⟨rfl, hptr, htype⟩ := of_decide_eq_true h
  obtain ⟨value, hvalue⟩ := confValue_isSome (confParam lib (entry.param_name, v)) htype
  refine ⟨v, value, ho, hvalue, ?_⟩
  rw [setBy, ho]
  dsimp only
  rw [locSetConfigEntry, if_pos ⟨(confParam_name lib (entry.param_name, v)).symm, hptr⟩, hvalue]
  dsimp only
  rw [confParam_str]

theorem setBy_of_not_sets (h : entry.sets buf = false) : setBy lib buf entry = entry := by
  rw [setBy]
  cases ho : confOperands buf with
  | none => rfl
  | some o =>
    dsimp only
    rw [locSetConfigEntry]
    split
    · rename_i hname
      cases htype : entry.param_type with
      | other => rfl
      | string | number | float =>
        exact absurd h (by simp [ConfRecord.sets, ho, htype, hname.2, hname.1, confParam_name])
    · rfl

theorem locSetConfigEntry_snd {o : List Char × List Char} (ho : confOperands buf = some o) :
    (locSetConfigEntry entry (confParam lib o)).2 = entry.sets buf := by
  rw [ConfRecord.sets, ho, any_some, locSetConfigEntry, confParam_name]
  by_cases hname : entry.param_name = o.1 ∧ entry.hasPtr = true
  · rw [if_pos hname]
    cases htype : entry.param_type <;> simp [confValue, hname.1, hname.2]
  · rw [if_neg hname, eq_comm, decide_eq_false_iff_not]
    exact fun h => hname ⟨h.1, h.2.1⟩

theorem sets_setBy (buf buf' : List Char) (entry : ConfRecord F) :
    (setBy lib buf entry).sets buf' = entry.sets buf' := by
  cases h : entry.sets buf with
  | true =>
    obtain ⟨v, _, -, -, heq⟩ := setBy_of_sets lib h
    rw [heq]
    rfl
  | false => rw [setBy_of_not_sets lib h]

theorem setBy_setBy {buf' : List Char} (h : entry.sets buf) :
    setBy lib buf (setBy lib buf' entry) = setBy lib buf entry := by
  cases h' : entry.sets buf' with
  | true =>
    obtain ⟨v, value, ho, hvalue, heq⟩ := setBy_of_sets lib h
    obtain ⟨_, _, -, -, heq'⟩ := setBy_of_sets lib h'
    have hsets : (setBy lib buf' entry).sets buf = true := (sets_setBy lib buf' buf entry).trans h
    obtain ⟨w, value'', hw, hvalue'', heq''⟩ := setBy_of_sets lib hsets
    rw [heq'', heq]
    rw [heq'] at hw hvalue'' ⊢
    obtain rfl : v = w := congrArg Prod.snd (some.inj (ho.symm.trans hw))
    obtain rfl : value = value'' := some.inj (hvalue.symm.trans hvalue'')
    cases entry.hasSet <;> simp
  | false => rw [setBy_of_not_sets lib h']

theorem applyBufs_eq (bufs : List (List Char)) (entry : ConfRecord F) : applyBufs lib bufs entry =
      ((bufs.filter entry.sets).getLast?).elim entry fun buf => setBy lib buf entry := by
  induction bufs using reverseRecOn with
  | nil => rfl
  | append_singleton bufs buf ih =>
    have hfold : applyBufs lib (bufs ++ [buf]) entry = setBy lib buf (applyBufs lib bufs entry) := by
      rw [applyBufs, foldl_append]
      rfl
    rw [hfold, ih, filter_append]
    cases h : entry.sets buf with
    | true =>
      rw [filter_cons_of_pos h, filter_nil, getLast?_concat, elim_some]
      cases (bufs.filter entry.sets).getLast? with
      | none => rfl
      | some => exact setBy_setBy lib h
    | false =>
      rw [filter_cons_of_neg (by rw [h]; exact false_ne_true), filter_nil, append_nil]
      cases (bufs.filter entry.sets).getLast? with
      | none => exact setBy_of_not_sets lib h
      | some buf' => exact setBy_of_not_sets lib ((sets_setBy lib buf' buf entry).trans h)

end Records

/-! ### The loop -/

section Hits

variable {α : Type} (hit : α → Bool)

/-- A list up to its `n`th element with a property. -/
def takeHits : ℕ → List α → List α
  | 0, _ => []
  | _ + 1, [] => []
  | n + 1, x :: l => x :: takeHits (if hit x then n else n + 1) l

theorem filter_takeHits (n : ℕ) (l : List α) : (takeHits hit n l).filter hit = (l.filter hit).take n := by
  induction l generalizing n with
  | nil => cases n <;> rfl
  | cons x _ ih =>
    cases n with
    | zero => rfl
    | succ =>
      rw [takeHits]
      cases hx : hit x with
      | true =>
        rw [filter_cons_of_pos hx, filter_cons_of_pos hx, if_pos rfl, ih, take_succ_cons]
      | false =>
        have hneg : ¬ hit x = true := by rw [hx]; exact false_ne_true
        rw [filter_cons_of_neg hneg, filter_cons_of_neg hneg, if_neg Bool.false_ne_true, ih]

theorem mem_of_mem_takeHits {n : ℕ} {l : List α} {x : α} (h : x ∈ takeHits hit n l) : x ∈ l := by
  induction l generalizing n with
  | nil => cases n <;> exact h
  | cons _ _ ih =>
    cases n with
    | zero => exact nomatch h
    | succ =>
      rcases mem_cons.1 h with rfl | h
      · exact mem_cons_self
      · exact mem_cons_of_mem _ (ih h)

theorem takeHits_eq_take {n : ℕ} {l : List α}
    (h : (∀ x ∈ takeHits hit n l, hit x) ∨ ∀ x ∈ l.take n, hit x) : takeHits hit n l = l.take n := by
  induction l generalizing n with
  | nil => cases n <;> rfl
  | cons x _ ih =>
    cases n with
    | zero => rfl
    | succ =>
      rw [takeHits, take_succ_cons] at h
      have hx : hit x = true := h.elim (fun h => h x mem_cons_self) fun h => h x mem_cons_self
      rw [if_pos hx] at h
      rw [takeHits, if_pos hx, take_succ_cons, ih]
      exact h.imp (fun h y hy => h y (mem_cons_of_mem _ hy)) fun h y hy => h y (mem_cons_of_mem _ hy)

end Hits

section Loop

variable {F : Type} (lib : CfgLib F) {table : List (ConfRecord F)}

theorem map_name_setBy (buf : List Char) (table : List (ConfRecord F)) :
    (table.map (setBy lib buf)).map ConfRecord.param_name = table.map ConfRecord.param_name := by
  rw [List.map_map]
  refine map_congr_left ?_
  intro entry _
  rw [Function.comp_apply]
  cases h : entry.sets buf with
  | true =>
    obtain ⟨v, _, -, -, heq⟩ := setBy_of_sets lib h
    rw [heq]
  | false => rw [setBy_of_not_sets lib h]

theorem setsOne_setBy (buf : List Char) (table : List (ConfRecord F)) :
    setsOne (table.map (setBy lib buf)) = setsOne table := by
  funext buf'
  rw [setsOne, setsOne, List.any_map]
  congr 1
  funext entry
  exact sets_setBy lib buf buf' entry

theorem countP_sets_none {buf : List Char} (ho : confOperands buf = none) :
    (table.countP fun entry => entry.sets buf) = 0 := by
  rw [countP_eq_zero]
  intro entry _
  rw [ConfRecord.sets, ho]
  exact false_ne_true

section

variable (hnames : (table.map ConfRecord.param_name).Nodup)
include hnames

theorem countP_sets (buf : List Char) :
    (table.countP fun entry => entry.sets buf) = if setsOne table buf then 1 else 0 := by
  have hle : (table.countP fun entry => entry.sets buf) ≤ 1 := by
    cases ho : confOperands buf with
    | none =>
      exact (countP_sets_none ho).le.trans zero_le_one
    | some o =>
      calc (table.countP fun entry => entry.sets buf)
          ≤ table.countP ((· == o.1) ∘ ConfRecord.param_name) := by
            refine countP_mono_left ?_
            intro entry _ h
            rw [ConfRecord.sets, ho, any_some] at h
            exact beq_iff_eq.2 (of_decide_eq_true h).1
        _ = (table.map ConfRecord.param_name).count o.1 := countP_map.symm
        _ ≤ 1 := nodup_iff_count_le_one.1 hnames o.1
  split_ifs with h
  · have hpos : 0 < table.countP fun entry => entry.sets buf := countP_pos_iff.2 (any_eq_true.1 h)
    omega
  · rw [countP_eq_zero]
    exact fun entry hentry hsets => h (any_eq_true.2 ⟨entry, hentry, hsets⟩)

theorem locFillConfItem_eq (buf : List Char) :
    locFillConfItem lib buf table = (table.map (setBy lib buf), if setsOne table buf then 1 else 0) := by
  rw [← countP_sets hnames, locFillConfItem]
  cases ho : confOperands buf with
  | none =>
    have hset : setBy lib buf = id (α := ConfRecord F) := by
      funext entry
      rw [setBy, ho]
      rfl
    rw [hset, countP_sets_none ho, List.map_id]
  | some o =>
    have hset : setBy lib buf = fun entry => (locSetConfigEntry entry (confParam lib o)).1 := by
      funext entry
      rw [setBy, ho]
    simp only [hset, locSetConfigEntry_snd lib ho]

theorem confLoop_eq {n : ℕ} (hn : n < 2 ^ 32) (bufs : List (List Char)) :
    confLoop lib n bufs table = (table.map (applyBufs lib (takeHits (setsOne table) n bufs)),
      (takeHits (setsOne table) n bufs).length) := by
  induction bufs generalizing n table with
  | nil =>
    have hnil : takeHits (setsOne table) n [] = [] := by cases n <;> rfl
    have hid : applyBufs lib [] = id (α := ConfRecord F) := rfl
    rw [confLoop, hnil, hid, List.map_id]
    rfl
  | cons buf bufs ih =>
    cases n with
    | zero =>
      have hid : applyBufs lib [] = id (α := ConfRecord F) := rfl
      rw [confLoop, if_pos rfl, takeHits, hid, List.map_id]
      rfl
    | succ n =>
      have hcount : (n + 1 + 2 ^ 32 - if setsOne table buf then 1 else 0) % 2 ^ 32 =
          if setsOne table buf then n else n + 1 := by
        split <;> omega
      have hlt : (if setsOne table buf then n else n + 1) < 2 ^ 32 := by
        split <;> omega
      have happly : ∀ l, (table.map (setBy lib buf)).map (applyBufs lib l) = table.map (applyBufs lib (buf :: l)) :=
        fun l => map_map
      rw [confLoop, if_neg (Nat.succ_ne_zero n), locFillConfItem_eq lib hnames]
      dsimp only
      rw [hcount, ih (by rwa [map_name_setBy]) hlt, setsOne_setBy, happly, takeHits]
      rfl

end

end Loop

/-! ### One record -/

section Entry

variable {F : Type} (lib : CfgLib F) {lines : List (List Char)} {entry start : ConfRecord F}

/-- A record when the lines are applied to it, whatever its flag was. -/
structure Starts (entry start : ConfRecord F) : Prop where
  sets : start.sets = entry.sets
  source : start.source = none
  value : start.value = entry.value
  hasSet : start.hasSet = entry.hasSet
  type : start.param_type = entry.param_type
  name : start.param_name = entry.param_name

theorem starts_clear (entry : ConfRecord F) : Starts entry entry.clear := ⟨rfl, rfl, rfl, rfl, rfl, rfl⟩

theorem starts_fresh (entry : ConfRecord F) : Starts entry entry.fresh := ⟨rfl, rfl, rfl, rfl, rfl, rfl⟩

theorem applyBufs_of_nil (hstart : Starts entry start) {bufs : List (List Char)} (h : bufs.filter entry.sets = []) :
    applyBufs lib bufs start = start := by
  rw [applyBufs_eq, hstart.sets, h]
  rfl

theorem applyBufs_of_last (hstart : Starts entry start) {bufs : List (List Char)} {buf : List Char}
    (h : (bufs.filter entry.sets).getLast? = some buf) :
    ∃ v, confOperands buf = some (entry.param_name, v) ∧ (applyBufs lib bufs start).source = some v ∧
      confValue (confParam lib (entry.param_name, v)) entry.param_type = some (applyBufs lib bufs start).value ∧
      (entry.hasSet → (applyBufs lib bufs start).set) := by
  have hsets : start.sets buf = true := by
    rw [hstart.sets]
    exact (mem_filter.1 (mem_of_getLast? h)).2
  obtain ⟨v, _, ho, hvalue, heq⟩ := setBy_of_sets lib hsets
  rw [applyBufs_eq, hstart.sets, h, elim_some, heq]
  rw [hstart.name] at ho
  rw [hstart.name, hstart.type] at hvalue
  refine ⟨v, ho, rfl, hvalue, ?_⟩
  intro hset
  dsimp only
  rw [hstart.hasSet, if_pos hset]

theorem confSetting_eq_some {buf name v : List Char} :
    confSetting buf = some (name, v) ↔ confOperands buf = some (name, v) ∧ blank v = false := by
  rw [confSetting, filter_eq_some_iff, not_eq_true']

/-- A record is read as it should be when the last line that sets it has a value, and there is one whenever a line
has a value for it. -/
theorem entryRead_iff (hstart : Starts entry start) {bufs : List (List Char)}
    (hbufs : ∀ buf ∈ bufs, ∀ o, confSetting buf = some o → ∃ line ∈ lines, confSetting line = some o) :
    EntryRead lib lines entry (applyBufs lib bufs start) ↔
      ((Named lines entry ∨ ∃ buf ∈ bufs, entry.sets buf) →
        (bufs.filter entry.sets).getLast?.any hasValue) ∧
      (entry.hasSet → ¬ Named lines entry → start.set = false) := by
  -- The last line that sets the record, if it has a value, is a line of the text.
  have hlast : ∀ {buf}, (bufs.filter entry.sets).getLast? = some buf → ∀ {v}, confOperands buf = some (entry.param_name, v) →
      blank v = false → ∃ line ∈ lines, confSetting line = some (entry.param_name, v) := by
    intro buf hbuf v ho hv
    exact hbufs buf (mem_of_mem_filter (mem_of_getLast? hbuf)) _ (confSetting_eq_some.2 ⟨ho, hv⟩)
  have hnone : (bufs.filter entry.sets).getLast? = none → ¬ ∃ buf ∈ bufs, entry.sets buf = true := by
    rintro hnil ⟨buf, hbuf, hsets⟩
    rw [getLast?_eq_none_iff] at hnil
    exact absurd (mem_filter.2 ⟨hbuf, hsets⟩) (by rw [hnil]; exact not_mem_nil)
  cases hmine : (bufs.filter entry.sets).getLast? with
  | none =>
    have hkeep := applyBufs_of_nil lib hstart (getLast?_eq_none_iff.1 hmine)
    rw [hkeep]
    constructor
    · intro h
      have hnot : ¬ Named lines entry := by
        intro hnamed
        obtain ⟨line, -, v, -, hsource, -⟩ := h.named hnamed
        rw [hstart.source] at hsource
        cases hsource
      exact ⟨fun hor => absurd hor (not_or.2 ⟨hnot, hnone hmine⟩), fun hset _ => (h.other hnot).2.2 hset⟩
    · rintro ⟨hany, hset⟩
      have hnot : ¬ Named lines entry := fun hnamed => false_ne_true (hany (.inl hnamed))
      exact ⟨fun hnamed => absurd hnamed hnot, fun _ => ⟨hstart.source, hstart.value, fun h => hset h hnot⟩⟩
  | some buf =>
    obtain ⟨v, ho, hsource, hvalue, hflag⟩ := applyBufs_of_last lib hstart hmine
    have hvalued : (some buf).any hasValue = !blank v := by
      rw [any_some, hasValue, confSetting, ho, filter_some]
      cases blank v <;> rfl
    rw [hvalued, not_eq_true']
    constructor
    · intro h
      by_cases hnamed : Named lines entry
      · obtain ⟨line, -, w, hsetting, hsource', -⟩ := h.named hnamed
        rw [hsource, some.injEq] at hsource'
        rw [hsource']
        exact ⟨fun _ => (confSetting_eq_some.1 hsetting).2, fun _ hnot => absurd hnamed hnot⟩
      · rw [(h.other hnamed).1] at hsource
        cases hsource
    rintro ⟨hany, -⟩
    have hbuf := mem_filter.1 (mem_of_getLast? hmine)
    have hv := hany (.inr ⟨buf, hbuf.1, hbuf.2⟩)
    obtain ⟨line, hline, hsetting⟩ := hlast hmine ho hv
    exact ⟨fun _ => ⟨line, hline, v, hsetting, hsource, hvalue, hflag⟩,
      fun hnot => absurd ⟨line, hline, v, hsetting⟩ hnot⟩

end Entry

/-! ### `loc_read_conf()` -/

section Read

variable {F : Type} (lib : CfgLib F) {text : List Char} {table : List (ConfRecord F)}

theorem forall₂_map_iff {R : ConfRecord F → ConfRecord F → Prop} {f : ConfRecord F → ConfRecord F} :
    List.Forall₂ R table (table.map f) ↔ ∀ entry ∈ table, R entry (f entry) := by
  rw [forall₂_map_right_iff, forall₂_same]

theorem confLoop_start (hnames : (table.map ConfRecord.param_name).Nodup) {n : ℕ} (hn : n < 2 ^ 32)
    {f : ConfRecord F → ConfRecord F} (hf : ∀ entry, Starts entry (f entry)) (bufs : List (List Char)) :
    confLoop lib n bufs (table.map f) =
      (table.map fun entry => applyBufs lib (takeHits (setsOne table) n bufs) (f entry),
        (takeHits (setsOne table) n bufs).length) := by
  have hmap : (table.map f).map ConfRecord.param_name = table.map ConfRecord.param_name := by
    rw [List.map_map]
    exact map_congr_left fun entry _ => (hf entry).name
  have hone : setsOne (table.map f) = setsOne table := by
    funext buf
    rw [setsOne, setsOne, List.any_map]
    congr 1
    funext entry
    exact congrFun (hf entry).sets buf
  rw [confLoop_eq lib (by rwa [hmap]) hn, hone, List.map_map]
  rfl

theorem setsOne_of_sets {entry : ConfRecord F} (hentry : entry ∈ table) {buf : List Char} (h : entry.sets buf) :
    setsOne table buf = true := any_eq_true.2 ⟨entry, hentry, h⟩

theorem filter_sets_filter {entry : ConfRecord F} (hentry : entry ∈ table) (bufs : List (List Char)) :
    (bufs.filter (setsOne table)).filter entry.sets = bufs.filter entry.sets := by
  rw [List.filter_filter]
  refine filter_congr ?_
  intro buf _
  cases h : entry.sets buf with
  | true => rw [setsOne_of_sets hentry h]; rfl
  | false => rfl

theorem read_iff (hnames : (table.map ConfRecord.param_name).Nodup) (hlen : table.length < 2 ^ 32)
    (hlines : ∀ line ∈ confLines text, line.length < LOC_MAX_PARAM_LINE) (params : List (ConfRecord F)) :
    List.Forall₂ (EntryRead lib (confLines text)) table (locReadConf lib (some text) table params).1 ↔
      ReadMeets text table := by
  let bufs := takeHits (setsOne table) table.length (fgetsBufs LOC_MAX_PARAM_LINE [] text)
  have hread : (locReadConf lib (some text) table params).1 =
      table.map fun entry => applyBufs lib bufs entry.clear := by
    rw [locReadConf]
    split_ifs with hnil
    · rw [hnil]
      rfl
    · rw [locReadConfR, confLoop_start lib hnames hlen starts_clear]
  have hfirst : firstSettings text table = bufs.filter (setsOne table) := (filter_takeHits _ _ _).symm
  have hbufs : ∀ buf ∈ bufs, ∀ o, confSetting buf = some o → ∃ line ∈ confLines text, confSetting line = some o := by
    intro buf hbuf o ho
    have hmem : o ∈ (fgetsBufs LOC_MAX_PARAM_LINE [] text).filterMap confSetting :=
      mem_filterMap.2 ⟨buf, mem_of_mem_takeHits _ hbuf, ho⟩
    rw [filterMap_confSetting hlines] at hmem
    exact mem_filterMap.1 hmem
  rw [hread, forall₂_map_iff]
  refine forall₂_congr ?_
  intro entry hentry
  have hexists : (∃ buf ∈ firstSettings text table, entry.sets buf = true) ↔ ∃ buf ∈ bufs, entry.sets buf = true := by
    rw [hfirst]
    constructor
    · rintro ⟨buf, hbuf, h⟩
      exact ⟨buf, mem_of_mem_filter hbuf, h⟩
    · rintro ⟨buf, hbuf, h⟩
      exact ⟨buf, mem_filter.2 ⟨hbuf, setsOne_of_sets hentry h⟩, h⟩
  have hclear : entry.hasSet = true → ¬ Named (confLines text) entry → entry.clear.set = false :=
    fun hset _ => if_pos hset
  rw [entryRead_iff lib (starts_clear entry) hbufs, and_iff_left hclear, hexists, hfirst, filter_sets_filter hentry]

end Read

/-! ### `loc_update_conf()` -/

section Update

variable {F : Type} (lib : CfgLib F) {text : List Char} {table : List (ConfRecord F)}

theorem countP_eq_sum_iff {α : Type} (f : α → ℕ) (l : List α) :
    (l.countP fun x => 0 < f x) ≤ (l.map f).sum ∧
      ((l.countP fun x => 0 < f x) = (l.map f).sum ↔ ∀ x ∈ l, f x ≤ 1) := by
  induction l with
  | nil => exact ⟨Nat.le_refl _, iff_of_true rfl nofun⟩
  | cons x l ih =>
    rw [countP_cons, map_cons, sum_cons, forall_mem_cons, ← ih.2]
    have hle := ih.1
    by_cases hx : 0 < f x
    · rw [if_pos (decide_eq_true hx)]
      omega
    · rw [if_neg (by rwa [decide_eq_true_eq])]
      omega

theorem sum_length_filter (hnames : (table.map ConfRecord.param_name).Nodup) (bufs : List (List Char)) :
    (table.map fun entry => (bufs.filter entry.sets).length).sum = (bufs.filter (setsOne table)).length := by
  induction bufs with
  | nil => exact sum_eq_zero fun n hn => by obtain ⟨entry, -, rfl⟩ := mem_map.1 hn; rfl
  | cons buf bufs ih =>
    have hlength : ∀ p : List Char → Bool, ((buf :: bufs).filter p).length =
        (bufs.filter p).length + if p buf then 1 else 0 := by
      intro p
      rw [filter_cons]
      split <;> rfl
    have hcount : ∀ l : List (ConfRecord F),
        (l.map fun entry => (bufs.filter entry.sets).length + if entry.sets buf then 1 else 0).sum =
          (l.map fun entry => (bufs.filter entry.sets).length).sum + l.countP fun entry => entry.sets buf := by
      intro l
      induction l with
      | nil => rfl
      | cons entry l ihl =>
        rw [map_cons, sum_cons, map_cons, sum_cons, countP_cons, ihl]
        omega
    simp only [hlength]
    rw [hcount, ih, countP_sets hnames]

theorem length_eq_countP_iff (hnames : (table.map ConfRecord.param_name).Nodup) (bufs : List (List Char)) :
    bufs.length = (table.countP fun entry => 0 < (bufs.filter entry.sets).length) ↔
      (∀ buf ∈ bufs, setsOne table buf) ∧ ∀ entry ∈ table, (bufs.filter entry.sets).length ≤ 1 := by
  obtain ⟨_, heq⟩ := countP_eq_sum_iff (fun entry : ConfRecord F => (bufs.filter entry.sets).length) table
  have hfilter : (bufs.filter (setsOne table)).length ≤ bufs.length := length_filter_le _ _
  rw [← heq, ← length_filter_eq_length_iff, ← sum_length_filter hnames]
  rw [← sum_length_filter hnames] at hfilter
  omega

theorem isSome_source_applyBufs (entry : ConfRecord F) (bufs : List (List Char)) :
    (applyBufs lib bufs entry.fresh).source.isSome = decide (0 < (bufs.filter entry.sets).length) := by
  cases hmine : (bufs.filter entry.sets).getLast? with
  | none =>
    have hnil := getLast?_eq_none_iff.1 hmine
    rw [applyBufs_of_nil lib (starts_fresh entry) hnil, hnil]
    rfl
  | some =>
    obtain ⟨v, -, hsource, -⟩ := applyBufs_of_last lib (starts_fresh entry) hmine
    rw [hsource, isSome_some, eq_comm, decide_eq_true_iff]
    exact length_pos_of_mem (mem_of_getLast? hmine)

theorem update_iff (hnames : (table.map ConfRecord.param_name).Nodup) (hlen : table.length < 2 ^ 32) (malloc : Bool) :
    (List.Forall₂ (EntryRead lib (confLines text)) table (locUpdateConf lib malloc text table).1 ∧
      (locUpdateConf lib malloc text table).2 =
        ((locUpdateConf lib malloc text table).1.countP fun entry => entry.source.isSome : ℕ)) ↔
      UpdateMeets malloc text table := by
  by_cases hstart : text ≠ [] ∧ table ≠ [] ∧ malloc = true
  · let bufs := takeHits (setsOne table) (table.length - 1) (tokens '\n' text)
    have hupdate : locUpdateConf lib malloc text table =
        (table.map fun entry => applyBufs lib bufs entry.fresh, ((bufs.length : ℕ) : ℤ)) := by
      rw [locUpdateConf, if_pos hstart, confLoop_start lib hnames (by omega) starts_fresh]
    have hbufs : ∀ buf ∈ bufs, ∀ o, confSetting buf = some o → ∃ line ∈ confLines text, confSetting line = some o :=
      fun buf hbuf o ho => ⟨buf, mem_of_mem_filter (mem_of_mem_takeHits _ hbuf), ho⟩
    have hcount : ((table.map fun entry => applyBufs lib bufs entry.fresh).countP fun entry => entry.source.isSome) =
        table.countP fun entry => 0 < (bufs.filter entry.sets).length := by
      rw [countP_map]
      refine countP_congr ?_
      intro entry _
      rw [Function.comp_apply, isSome_source_applyBufs]
    rw [hupdate, forall₂_map_iff, hcount, Int.natCast_inj, length_eq_countP_iff hnames]
    constructor
    · rintro ⟨hread, hsets, honce⟩
      have hfirst : bufs = firstLines text table := takeHits_eq_take _ (.inl hsets)
      have hiff := fun entry hentry => (entryRead_iff lib (starts_fresh entry) hbufs).1 (hread entry hentry)
      rw [hfirst] at hsets honce hiff
      refine ⟨hstart, ?_, honce, ?_, fun entry hentry => (hiff entry hentry).2⟩
      · intro line hline
        refine ⟨?_, hsets line hline⟩
        obtain ⟨entry, hentry, h⟩ := any_eq_true.1 (hsets line hline)
        -- The line is the only one that sets the record.
        have hmem := mem_filter.2 ⟨hline, h⟩
        have hone := honce entry hentry
        have hlast := (hiff entry hentry).1 (.inr ⟨line, hline, h⟩)
        obtain ⟨x, hx⟩ := length_eq_one_iff.1 (Nat.le_antisymm hone (length_pos_of_mem hmem))
        rw [hx] at hmem hlast
        rw [mem_singleton.1 hmem]
        exact hlast
      intro entry hentry hnamed
      have hlast := (hiff entry hentry).1 (.inl hnamed)
      obtain ⟨line, hline, -⟩ := (any_eq_true _ _).1 hlast
      have hmem := mem_filter.1 (mem_of_getLast? hline)
      exact ⟨line, hmem.1, hmem.2⟩
    intro h
    have hfirst : bufs = firstLines text table := takeHits_eq_take _ (.inr fun line hline => (h.values line hline).2)
    rw [hfirst] at hbufs ⊢
    refine ⟨?_, fun line hline => (h.values line hline).2, h.once⟩
    intro entry hentry
    rw [entryRead_iff lib (starts_fresh entry) hbufs]
    refine ⟨?_, h.clear entry hentry⟩
    intro hor
    obtain ⟨_, hline, hsets⟩ := hor.elim (h.all entry hentry) id
    have hmem := mem_filter.2 ⟨hline, hsets⟩
    obtain ⟨last, hlast⟩ := ne_none_iff_exists'.1 fun hnone =>
      ne_nil_of_mem hmem (getLast?_eq_none_iff.1 hnone)
    rw [hlast, any_some]
    exact (h.values last (mem_of_mem_filter (mem_of_getLast? hlast))).1
  constructor
  · rintro ⟨-, hreturned⟩
    rw [locUpdateConf, if_neg hstart] at hreturned
    exact absurd hreturned (by omega)
  · exact fun h => absurd h.started hstart

end Update

section Complete

variable {F : Type} (lib : CfgLib F) {text : List Char} {table : List (ConfRecord F)}

/-- A configuration is read completely when the lines that are read first name all records. -/
theorem loc_conf_complete_iff (hnames : (table.map ConfRecord.param_name).Nodup) (hlen : table.length < 2 ^ 32)
    (hlines : ∀ line ∈ confLines text, line.length < LOC_MAX_PARAM_LINE) (malloc : Bool)
    (params : List (ConfRecord F)) :
    ConfComplete lib malloc text table params ↔ ReadMeets text table ∧ UpdateMeets malloc text table := by
  rw [← read_iff lib hnames hlen hlines params, ← update_iff lib hnames hlen malloc]
  exact ⟨fun h => ⟨h.read, h.update, h.returned⟩, fun h => ⟨h.1, h.2.1, h.2.2⟩⟩

end Complete

/-! ### Texts -/

section Decide

variable {F : Type}

instance (lines : List (List Char)) (entry : ConfRecord F) : Decidable (Named lines entry) :=
  decidable_of_iff (∃ line ∈ lines, ((confSetting line).any fun o => o.1 = entry.param_name) = true) <| by
    refine exists_congr fun line => and_congr_right fun _ => ?_
    rw [Option.any_eq_true]
    constructor
    · rintro ⟨o, ho, hname⟩
      exact ⟨o.2, by rw [ho, ← of_decide_eq_true hname]⟩
    · rintro ⟨v, hv⟩
      exact ⟨_, hv, decide_eq_true rfl⟩

instance (text : List Char) (table : List (ConfRecord F)) : Decidable (ReadMeets text table) :=
  inferInstanceAs (Decidable (∀ entry ∈ table,
    (Named (confLines text) entry ∨ ∃ buf ∈ firstSettings text table, entry.sets buf = true) →
      ((firstSettings text table).filter entry.sets).getLast?.any hasValue = true))

end Decide

def wholeAtof : CfgLib ℕ := ⟨fun s => digitsVal 10 (skipSpace s), 0⟩

def numberRecord (name : String) : ConfRecord ℕ := ⟨name.toList, true, true, .number, .num 0, false, none⟩

def suplTable : List (ConfRecord ℕ) := [numberRecord "SUPL_VER", numberRecord "SUPL_MODE", numberRecord "LPP_PROFILE"]

/-- Two of three records, each on one line. -/
theorem loc_conf_complete_two :
    ConfComplete wholeAtof true "SUPL_VER = 0x20000\nSUPL_MODE=1\n".toList suplTable [] ∧
    (locUpdateConf wholeAtof true "SUPL_VER = 0x20000\nSUPL_MODE=1\n".toList suplTable).2 = 2 := by
  refine ⟨(loc_conf_complete_iff wholeAtof (by decide) (by decide) (by decide) true []).2 ⟨by decide, ?_⟩, by decide⟩
  exact ⟨by decide, by decide, by decide, by decide, by decide⟩

/-- A name that is repeated: the third line that sets a record of three is the last that is read. -/
def repeatedText : List Char := "SUPL_VER = 1\nSUPL_VER = 2\nSUPL_MODE = 1\nLPP_PROFILE = 3\n".toList

/-- `loc_read_conf()` does not read `LPP_PROFILE`, and `loc_update_conf()` returns 2 lines for 1 record. -/
theorem loc_conf_incomplete : ¬ ConfComplete wholeAtof true repeatedText suplTable [] ∧
    Named (confLines repeatedText) (numberRecord "LPP_PROFILE") ∧
    (locReadConf wholeAtof (some repeatedText) suplTable []).1.map ConfRecord.set = [true, true, false] ∧
    (locUpdateConf wholeAtof true repeatedText suplTable).1.map ConfRecord.set = [true, false, false] ∧
    (locUpdateConf wholeAtof true repeatedText suplTable).2 = 2 := by
  have hupdate : (locUpdateConf wholeAtof true repeatedText suplTable).2 = 2 := by decide
  refine ⟨?_, by decide, by decide, by decide, hupdate⟩
  intro h
  have hone : ((locUpdateConf wholeAtof true repeatedText suplTable).1.countP fun entry => entry.source.isSome) = 1 := by
    decide
  have hreturned := h.returned
  rw [hupdate, hone] at hreturned
  exact nomatch hreturned

end G4Common.Gps
