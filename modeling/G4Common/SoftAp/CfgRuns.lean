/-
Sequences of calls on a configuration file.

A file whose parameters have one line each is a map, and every sequence of calls does to it what the calls do to the map,
when each write is as `CanWrite` says (`cfg_map`).  A write behind a last line without a line end breaks this: the new
line is put at the end of that line (`cfg_map_fails`).
-/
import G4Common.SoftAp.CfgWrite

namespace G4Common.SoftAp

open CString AssocList

inductive Op
  | read (pcmd : Command) (plen : ℕ) (var : Option (List Char)) (ignore_comment : Bool)
  | write (pcmd : Command) (pVal : List Char) (inifile : Bool)
  | change (pcmd : Command) (status : Bool)

namespace Op

def run (file : List Char) : Op → List Char
  | read _ _ _ _ => file
  | write pcmd pVal inifile => qsap_write_cfg file pcmd pVal inifile
  | change pcmd status => qsap_change_cfg file pcmd status

def response (file : List Char) : Op → Option (List Char × Err)
  | read pcmd plen var ignore_comment => some (qsap_read_cfg file pcmd plen var ignore_comment)
  | _ => none

def runMap (M : CfgMap) : Op → CfgMap
  | read _ _ _ _ => M
  | write pcmd pVal _ => M.write pcmd.name pVal
  | change pcmd status => M.change pcmd.name status

def responseMap (M : CfgMap) : Op → Option (List Char × Err)
  | read pcmd _ var ignore_comment => some (M.read pcmd var ignore_comment)
  | _ => none

/-- The calls: the response buffer is large enough, and the value can be written. -/
def Admissible (file : List Char) : Op → Prop
  | read pcmd plen var ignore_comment => IsName pcmd.name ∧ ((view file).read pcmd var ignore_comment).1.length < plen
  | write pcmd pVal _ => IsName pcmd.name ∧ Fits pcmd.name pVal
  | change pcmd _ => IsName pcmd.name

/-- The file has line ends where a write needs them. -/
def Safe (file : List Char) : Op → Prop
  | write pcmd _ inifile => CanWrite file pcmd.name inifile
  | _ => True

/-- The call keeps the text behind the `END` line, when it is in ini mode. -/
def KeepsEnd (file : List Char) : Op → Prop
  | write pcmd pVal true => afterEnd (qsap_write_cfg file pcmd pVal true) = afterEnd file
  | _ => True

end Op

/-- Each call of a sequence has the property in its state. -/
def Along (P : List Char → Op → Prop) : List Char → List Op → Prop
  | _, [] => True
  | file, op :: ops => P file op ∧ Along P (op.run file) ops

/-- The calls on the file do what the calls on the map do. -/
def Refines : List Char → CfgMap → List Op → Prop
  | file, M, [] => view file = M
  | file, M, op :: ops =>
    view file = M ∧ op.response file = op.responseMap M ∧ op.KeepsEnd file ∧ Refines (op.run file) (op.runMap M) ops

variable {file : List Char} {op : Op} {ops : List Op}

theorem step_refines (h : Inv file) (hadm : op.Admissible file) (hsafe : op.Safe file) :
    view (op.run file) = op.runMap (view file) ∧ op.response file = op.responseMap (view file) ∧ op.KeepsEnd file
      ∧ Inv (op.run file) := by
  cases op with
  | read =>
    exact ⟨rfl, congrArg some (qsap_read_cfg_eq h hadm.1 hadm.2), trivial, h⟩
  | write _ _ inifile =>
    obtain ⟨hview, hinv, hend⟩ := qsap_write_cfg_eq h hadm.1 hadm.2 hsafe
    refine ⟨hview, rfl, ?_, hinv⟩
    cases inifile with
    | false => trivial
    | true => exact hend rfl
  | change _ status =>
    obtain ⟨hview, hinv⟩ := qsap_change_cfg_eq h hadm status
    exact ⟨hview, rfl, trivial, hinv⟩

theorem runs_refine (h : Inv file) (hadm : Along Op.Admissible file ops) (hsafe : Along Op.Safe file ops) :
    Refines file (view file) ops := by
  induction ops generalizing file with
  | nil => rfl
  | cons _ _ ih =>
    obtain ⟨hview, hresp, hend, hinv⟩ := step_refines h hadm.1 hsafe.1
    refine ⟨rfl, hresp, hend, ?_⟩
    rw [← hview]
    exact ih hinv hadm.2 hsafe.2

/-- The calls on a well-formed file do what the calls on its map do, when the file has line ends where writes need them. -/
theorem cfg_map (file : List Char) (ops : List Op) (hfile : WellFormed file) (hadm : Along Op.Admissible file ops)
    (hsafe : Along Op.Safe file ops) : Refines file (view file) ops :=
  runs_refine hfile.inv hadm hsafe

theorem unique_of_nodup {ls : List (List Char)} (h : ((entries ls).map Prod.fst).Nodup) (name : List Char) :
    ((entries ls).filter (fun e => e.1 = name)).length ≤ 1 := by
  have hcount := List.nodup_iff_count_le_one.mp h name
  rw [List.count, List.countP_map, List.countP_eq_length_filter] at hcount
  refine le_trans (le_of_eq ?_) hcount
  congr 2
  funext e
  exact (beq_eq_decide _ _).symm

theorem cfg_map_ini : Refines "ssid=a\n#channel=6\nEND\nx\n".toList (view "ssid=a\n#channel=6\nEND\nx\n".toList)
      [.write ⟨"country_code".toList, none⟩ "US".toList true, .change ⟨"channel".toList, none⟩ true,
        .read ⟨"channel".toList, none⟩ 100 none false] := by
  apply cfg_map
  · exact ⟨by decide, fun name _ => unique_of_nodup (by decide) name⟩
  · have hchannel : IsName "channel".toList := by decide
    exact ⟨⟨by decide, ⟨by decide, by decide, by decide⟩⟩, hchannel,
      ⟨hchannel, by decide⟩, trivial⟩
  have hfind : (fileLines "ssid=a\n#channel=6\nEND\nx\n".toList).find? startsWithEnd = some "END".toList := by
    decide
  have hcan : CanWrite "ssid=a\n#channel=6\nEND\nx\n".toList "country_code".toList true := by
    rw [CanWrite, if_pos rfl, hfind]
    exact isEndLine_end
  exact ⟨hcan, trivial, trivial, trivial⟩

/-- The name of the new line becomes a part of the line before it. -/
theorem cfg_map_fails : ¬ ∀ file ops, WellFormed file → Along Op.Admissible file ops → Refines file (view file) ops := by
  intro h
  have hrun := h "channel=6".toList [.write ⟨"ssid".toList, none⟩ "a".toList false]
    ⟨by decide, fun name _ => unique_of_nodup (by decide) name⟩
    ⟨⟨by decide, ⟨by decide, by decide, by decide⟩⟩, trivial⟩
  have hssid := congrFun hrun.2.2.2 "ssid".toList
  revert hssid
  decide

end G4Common.SoftAp
