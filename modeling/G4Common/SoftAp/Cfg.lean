/-
The configuration files of the access point: reading, writing and enabling a parameter.

A parameter is a line `name=value`, or that line behind one `#`, which disables it.  Each function goes through the file
with `fgets()` and finds the line of its parameter by itself; writing and enabling make a new file from the old one.  The
file of the driver is an ini file: what is behind its `END` line is copied.

A file is a text without NUL characters, and all file operations succeed.
-/
import G4Common.Lib.TextLines

namespace G4Common.SoftAp

open CString

def MAX_CONF_LINE_LEN : ℕ := 156

def SUCCESS : List Char := "success".toList
def ERR_FEATURE_NOT_ENABLED : List Char := "failure feature not enabled".toList

/-- The codes that the functions return when files can be opened. -/
inductive Err
  | eSUCCESS
  | eERR_CONFIG_PARAM_MISSING
deriving DecidableEq

structure Command where
  name : List Char
  default_value : Option (List Char)

/-! ### The C library -/

/-- What `qsap_scnprintf()` leaves of a string in a buffer of `size` characters. -/
def scnprintf (size : ℕ) (s : List Char) : List Char := s.take (size - 1)

/-- `strncmp(s, t, strlen(t)) == 0`. -/
def strncmpEq (s t : List Char) : Bool := t.isPrefixOf s

/-- The line without the `#` in front of it. -/
def pline : List Char → List Char
  | '#' :: s => s
  | s => s

/-- The line is the one of the parameter: `!strncmp(p, name, len)` and `p[len] == '='`. -/
def isLineOf (name p : List Char) : Bool := strncmpEq p name && p[name.length]? == some '='

/-- The string without the `\r` and `\n` at its end. -/
def trimEnd (s : List Char) : List Char := s.rdropWhile (fun c => c = '\r' ∨ c = '\n')

/-! ### Reading -/

/-- The line that is found, from its name on. -/
def readLoop (pcmd : Command) (ignore_comment : Bool) : List (List Char) → Option (List Char)
  | [] => none
  | buf :: rest =>
    if buf.head? = some '#' ∧ ignore_comment = false then readLoop pcmd ignore_comment rest
    else if isLineOf pcmd.name (pline buf) then some (trimEnd (pline buf))
    else readLoop pcmd ignore_comment rest

/-- The response and the code; `var` is the name that the response has for the parameter, if not its own. -/
def qsap_read_cfg (file : List Char) (pcmd : Command) (plen : ℕ) (var : Option (List Char)) (ignore_comment : Bool) :
    List Char × Err :=
  match readLoop pcmd ignore_comment (fgetsBufs MAX_CONF_LINE_LEN [] file) with
  | some p =>
    match var with
    | some v => (scnprintf plen (SUCCESS ++ ' ' :: v ++ p.dropWhile (fun c => c ≠ '=')), .eSUCCESS)
    | none => (scnprintf plen (SUCCESS ++ ' ' :: p), .eSUCCESS)
  | none =>
    match pcmd.default_value with
    | some d => (scnprintf plen (SUCCESS ++ ' ' :: var.getD pcmd.name ++ '=' :: d), .eSUCCESS)
    | none => (scnprintf plen ERR_FEATURE_NOT_ENABLED, .eERR_CONFIG_PARAM_MISSING)

/-! ### Writing -/

/-- The line that is written. -/
def newLine (pcmd : Command) (pVal : List Char) : List Char :=
  scnprintf (MAX_CONF_LINE_LEN + 1) (pcmd.name ++ '=' :: pVal ++ ['\n'])

/-- The loop over the file, from the value of `result` on: what it prints, `result` at its end, and the buffers that are
left after the `END` line.  `pline` points into `buf`, also when that has been written over. -/
def writeLoop (pcmd : Command) (pVal : List Char) (inifile : Bool) : Bool → List (List Char) →
    List Char × Bool × List (List Char)
  | result, [] => ([], result, [])
  | result, buf :: rest =>
    let found := isLineOf pcmd.name (pline buf) && !result
    let buf' := if found then newLine pcmd pVal else buf
    let pline' := if buf.head? = some '#' then buf'.tail else buf'
    if inifile && strncmpEq pline' "END".toList then ([], result || found, rest)
    else
      let (out, result', left) := writeLoop pcmd pVal inifile (result || found) rest
      (buf' ++ out, result', left)

def qsap_write_cfg (file : List Char) (pcmd : Command) (pVal : List Char) (inifile : Bool) : List Char :=
  let (out, result, left) := writeLoop pcmd pVal inifile false (fgetsBufs MAX_CONF_LINE_LEN [] file)
  out ++ (if result then [] else newLine pcmd pVal)
    ++ (if inifile then "END\n".toList ++ left.flatten else [])

/-! ### Enabling and disabling -/

/-- What is printed for a buffer. -/
def changeLine (pcmd : Command) (enable : Bool) (buf : List Char) : List Char :=
  if isLineOf pcmd.name (pline buf) then
    if enable then pline buf else '#' :: pline buf
  else buf

def qsap_change_cfg (file : List Char) (pcmd : Command) (status : Bool) : List Char :=
  (fgetsBufs MAX_CONF_LINE_LEN [] file).flatMap (changeLine pcmd status)

/-! ### The commands -/

/-- A name can stand in front of `=` on a line of its own and is not taken for the `END` line, also when `pline` points to
its second character. -/
def IsName (name : List Char) : Prop :=
  name ≠ [] ∧ name.head? ≠ some '#' ∧ '=' ∉ name ∧ '\n' ∉ name ∧ '\r' ∉ name ∧ strncmpEq name "END".toList = false
    ∧ strncmpEq name.tail "END".toList = false

instance (name : List Char) : Decidable (IsName name) := inferInstanceAs (Decidable (_ ∧ _))

end G4Common.SoftAp
