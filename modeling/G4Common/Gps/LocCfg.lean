/-
Configuration files (`gps/utils/loc_cfg.cpp`): a table of parameters is filled from lines `name = value`, either lines
of a file (`loc_read_conf()`) or lines of a string (`loc_update_conf()`).

A record of the table is kept together with what its pointers point to, so two records have no storage in common.
Both functions count the records that are still to be filled, line by line, and stop when none is left; the counter is
a `uint32_t`.  `source` is not in the program: it is the value, as text, that a record was last set from in a call.
-/
import G4Common.Lib.CString

namespace G4Common.Gps

open Scanf CString

def LOC_MAX_PARAM_STRING : ℕ := 80

def LOC_MAX_PARAM_LINE : ℕ := 160

/-! ### `loc_util_trim_space()` -/

/-- The pointers of `loc_util_trim_space()`: `first_nonspace` is set, what is written, and `last_nonspace`. -/
structure TrimState where
  started : Bool
  written : List Char
  last : Option ℕ

def trimStep (st : TrimState) (c : Char) : TrimState :=
  if st.started || !isSpace c then
    { started := true
      written := st.written ++ [c]
      last := if isSpace c then st.last else some (st.written.length + 1) }
  else st

/-- A string without any other character than spaces is left as it is. -/
def locUtilTrimSpace (s : List Char) : List Char :=
  let st := s.foldl trimStep ⟨false, [], none⟩
  match st.last with
  | some n => st.written.take n
  | none => s

/-! ### Records -/

/-- `param_type`; `other` is any other character than `s`, `n` and `f`. -/
inductive ParamType
  | string
  | number
  | float
  | other
deriving DecidableEq

inductive ConfValue (F : Type)
  | str (s : List Char)
  | num (n : ℤ)
  | flt (x : F)
deriving DecidableEq

/-- A `loc_param_s_type`, with the values it points to. -/
structure ConfRecord (F : Type) where
  param_name : List Char
  /-- `param_ptr` is not `NULL`. -/
  hasPtr : Bool
  /-- `param_set` is not `NULL`. -/
  hasSet : Bool
  param_type : ParamType
  value : ConfValue F
  set : Bool
  source : Option (List Char)
deriving DecidableEq

/-- A `loc_param_v_type`. -/
structure ConfParam (F : Type) where
  param_name : List Char
  param_str_value : List Char
  param_int_value : ℤ
  param_double_value : F

/-- Functions of the C library that give `double` values. -/
structure CfgLib (F : Type) where
  atof : List Char → F
  zero : F

/-- The name and the value of a line, separated by `=`. -/
def confOperands (buf : List Char) : Option (List Char × List Char) :=
  match tokens '=' buf with
  | name :: value :: _ => some (locUtilTrimSpace name, locUtilTrimSpace value)
  | [_] => none
  | [] => none

section Conf

variable {F : Type} (lib : CfgLib F)

def confParam (o : List Char × List Char) : ConfParam F :=
  if 3 ≤ o.2.length ∧ o.2.head? = some '0' ∧ (o.2.drop 1).head?.map Char.toLower = some 'x' then
    ⟨o.1, o.2, strtolInt 16 (o.2.drop 2), lib.zero⟩
  else ⟨o.1, o.2, strtolInt 10 o.2, lib.atof o.2⟩

/-- What is stored, if the type is known. -/
def confValue (v : ConfParam F) : ParamType → Option (ConfValue F)
  | .string => some (.str (if v.param_str_value = "NULL".toList then [] else v.param_str_value.take LOC_MAX_PARAM_STRING))
  | .number => some (.num v.param_int_value)
  | .float => some (.flt v.param_double_value)
  | .other => none

/-- `loc_set_config_entry()`; `true` for 0. -/
def locSetConfigEntry (entry : ConfRecord F) (v : ConfParam F) : ConfRecord F × Bool :=
  if entry.param_name = v.param_name ∧ entry.hasPtr then
    match confValue v entry.param_type with
    | some value =>
      ({ entry with
          value := value
          set := if entry.hasSet then true else entry.set
          source := some v.param_str_value }, true)
    | none => (entry, false)
  else (entry, false)

def locFillConfItem (buf : List Char) (table : List (ConfRecord F)) : List (ConfRecord F) × ℕ :=
  match confOperands buf with
  | none => (table, 0)
  | some o =>
    (table.map fun entry => (locSetConfigEntry entry (confParam lib o)).1,
      table.countP fun entry => (locSetConfigEntry entry (confParam lib o)).2)

/-- The loops of `loc_read_conf_r()` and `loc_update_conf()`, with the number of lines that were read. -/
def confLoop : ℕ → List (List Char) → List (ConfRecord F) → List (ConfRecord F) × ℕ
  | _, [], table => (table, 0)
  | num_params, buf :: bufs, table =>
    if num_params = 0 then (table, 0)
    else
      let filled := locFillConfItem lib buf table
      let rest := confLoop ((num_params + 2 ^ 32 - filled.2) % 2 ^ 32) bufs filled.1
      (rest.1, rest.2 + 1)

/-- A record when a call starts. -/
def ConfRecord.fresh (entry : ConfRecord F) : ConfRecord F := { entry with source := none }

/-- The validity bit is cleared. -/
def ConfRecord.clear (entry : ConfRecord F) : ConfRecord F :=
  { entry.fresh with set := if entry.hasSet then false else entry.set }

/-- `loc_read_conf_r()` at the start of a file, with the number of lines that were read. -/
def locReadConfR (text : List Char) (table : List (ConfRecord F)) : List (ConfRecord F) × ℕ :=
  confLoop lib table.length (fgetsBufs LOC_MAX_PARAM_LINE [] text) (table.map ConfRecord.clear)

/-- `loc_read_conf()`, with `loc_param_table`. -/
def locReadConf (file : Option (List Char)) (table params : List (ConfRecord F)) :
    List (ConfRecord F) × List (ConfRecord F) :=
  match file with
  | none => (table, params)
  | some text =>
    (if table = [] then table else (locReadConfR lib text table).1, (locReadConfR lib text params).1)

/-- `loc_update_conf()`; `malloc` is the success of `malloc()`. -/
def locUpdateConf (malloc : Bool) (text : List Char) (table : List (ConfRecord F)) : List (ConfRecord F) × ℤ :=
  if text ≠ [] ∧ table ≠ [] ∧ malloc then
    let filled := confLoop lib (table.length - 1) (tokens '\n' text) (table.map ConfRecord.fresh)
    (filled.1, filled.2)
  else (table.map ConfRecord.fresh, -1)

end Conf

end G4Common.Gps
