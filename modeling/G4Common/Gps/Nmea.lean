/-
NMEA sentences of the satellites (`gps/loc_api/libloc_api_50001/loc_eng_nmea.cpp`).  A satellite report is printed as
`$GPGSV` and `$GLGSV` sentences and leaves two masks, one bit for each satellite that is used; the next position
report prints the masks as `$GPGSA` and `$GNGSA` and clears them.

A sentence is built in a buffer of `NMEA_SENTENCE_MAX_LENGTH`.  A piece that does not fit ends the function, the last
piece of a sentence is cut off instead.  What is done with a `float` is a parameter.  The sentences of a position
report that follow `$GNGSA` are not modelled.
-/
import G4Common.Lib.Printf
import Mathlib.Data.BitVec

namespace G4Common.Gps

open Printf

/-! ### Sentences -/

def NMEA_SENTENCE_MAX_LENGTH : ℕ := 200

/-- What `loc_eng_nmea_send()` gets. -/
structure NmeaSentence where
  text : List Char
  length : ℕ
deriving DecidableEq

/-- The exclusive or of the characters. -/
def nmeaChecksum (text : List Char) : UInt8 := text.foldl (fun sum c => sum ^^^ UInt8.ofNat c.toNat) 0

/-- `*`, the checksum of what follows the `$`, and the end of the line. -/
def checksumText (text : List Char) : List Char :=
  '*' :: printHexByte (nmeaChecksum (text.drop 1)) ++ ['\r', '\n']

/-- The last piece of a sentence, as far as it fits. -/
def putLast (text piece : List Char) : List Char :=
  text ++ piece.take (NMEA_SENTENCE_MAX_LENGTH - text.length - 1)

def nmeaPutChecksum (text : List Char) : NmeaSentence where
  text := putLast text (checksumText text)
  length := text.length + (checksumText text).length

def putText (text piece : List Char) : Option (List Char) :=
  if piece.length ≥ NMEA_SENTENCE_MAX_LENGTH - text.length then none else some (text ++ piece)

/-! ### Reports -/

inductive Constellation
  | gps
  | glonass
  | other
deriving DecidableEq

/-- What is done with a `float`. -/
structure NmeaFloat (F : Type) where
  /-- `(int)(0.5 + x)`. -/
  round : F → Int32
  /-- `x > 0`. -/
  pos : F → Bool
  /-- `%.1f`. -/
  print : F → List Char
  zero : F

structure GnssSvInfo (F : Type) where
  svid : Int16
  constellation : Constellation
  c_n0_dbhz : F
  elevation : F
  azimuth : F
  /-- `GNSS_SV_FLAGS_USED_IN_FIX` is set. -/
  usedInFix : Bool

/-- A `GnssSvStatus`; `num_svs` is an `int` in the loops. -/
structure GnssSvStatus (F : Type) where
  gnss_sv_list : List (GnssSvInfo F)
  num_svs_lt : gnss_sv_list.length < 2 ^ 31

/-- A `GpsLocationExtended`. -/
structure LocationExtended (F : Type) where
  /-- `GPS_LOCATION_EXTENDED_HAS_DOP` is set. -/
  hasDop : Bool
  pdop : F
  hdop : F
  vdop : F

/-- What `loc_eng_data_s_type` keeps for the sentences. -/
structure LocEngNmea (F : Type) where
  gps_used_mask : BitVec 32
  glo_used_mask : BitVec 32
  pdop : F
  hdop : F
  vdop : F

section Generate

variable {F : Type} (fl : NmeaFloat F)

/-! ### Satellite reports -/

def GnssSvInfo.bit (sv : GnssSvInfo F) : BitVec 32 := 1#32 <<< (sv.svid.toInt - 1).toNat

/-- The mask of the satellites of a constellation that are used. -/
def usedMask (c : Constellation) (svs : List (GnssSvInfo F)) : BitVec 32 :=
  svs.foldl (fun mask sv => if sv.constellation = c ∧ sv.usedInFix then mask ||| sv.bit else mask) 0

/-- The number of satellites of a constellation. -/
def svCount (c : Constellation) (svs : List (GnssSvInfo F)) : ℕ :=
  svs.foldl (fun n sv => if sv.constellation = c then n + 1 else n) 0

/-- The fields of one satellite. -/
def putSv (sv : GnssSvInfo F) (text : List Char) : Option (List Char) := do
  let text ← putText text (',' :: printInt 2 sv.svid.toInt ++ ',' :: printInt 2 (fl.round sv.elevation).toInt ++
    ',' :: printInt 3 (fl.round sv.azimuth).toInt ++ [','])
  if fl.pos sv.c_n0_dbhz then putText text (printInt 2 (fl.round sv.c_n0_dbhz).toInt) else some text

/-- The satellites of a sentence, `n` at most, and the satellites that follow. -/
def putSvs (c : Constellation) : ℕ → List (GnssSvInfo F) → List Char → Option (List Char × List (GnssSvInfo F))
  | 0, svs, text => some (text, svs)
  | _, [], text => some (text, [])
  | n + 1, sv :: svs, text =>
    if sv.constellation = c then do putSvs c n svs (← putSv fl sv text)
    else putSvs c (n + 1) svs text

/-- The sentences from `sentenceNumber` on, `n` of them; `false` when a piece did not fit. -/
def gsvSentences (name : List Char) (c : Constellation) (sentenceCount count : ℕ) :
    ℕ → ℕ → List (GnssSvInfo F) → List NmeaSentence × Bool
  | 0, _, _ => ([], true)
  | n + 1, sentenceNumber, svs =>
    let sentence := do
      let text ← putText [] (name ++ ',' :: printInt 0 sentenceCount ++ ',' :: printInt 0 sentenceNumber ++
        ',' :: printInt 2 count)
      putSvs fl c 4 svs text
    match sentence with
    | none => ([], false)
    | some (text, svs) =>
      let rest := gsvSentences name c sentenceCount count n (sentenceNumber + 1) svs
      (nmeaPutChecksum text :: rest.1, rest.2)

/-- The sentences of a constellation. -/
def gsvReport (name : List Char) (c : Constellation) (svs : List (GnssSvInfo F)) : List NmeaSentence × Bool :=
  let count := svCount c svs
  if count = 0 then ([nmeaPutChecksum (name ++ ",1,1,0,".toList)], true)
  else
    let sentenceCount := count / 4 + if count % 4 ≠ 0 then 1 else 0
    gsvSentences fl name c sentenceCount count sentenceCount 1 svs

/-- `loc_eng_nmea_generate_sv()`. -/
def nmeaGenerateSv (e : LocEngNmea F) (svStatus : GnssSvStatus F) (ext : LocationExtended F) :
    LocEngNmea F × List NmeaSentence :=
  let svs := svStatus.gnss_sv_list
  let e := { e with gps_used_mask := usedMask .gps svs, glo_used_mask := usedMask .glonass svs }
  let gpgsv := gsvReport fl "$GPGSV".toList .gps svs
  if gpgsv.2 = false then (e, gpgsv.1)
  else
    let glgsv := gsvReport fl "$GLGSV".toList .glonass svs
    if glgsv.2 = false then (e, gpgsv.1 ++ glgsv.1)
    else if ext.hasDop then
      ({ e with pdop := ext.pdop, hdop := ext.hdop, vdop := ext.vdop }, gpgsv.1 ++ glgsv.1)
    else ({ e with pdop := fl.zero, hdop := fl.zero, vdop := fl.zero }, gpgsv.1 ++ glgsv.1)

/-! ### Position reports -/

/-- The list of the bits of a mask; 32 shifts clear the mask. -/
def usedList (offset : ℕ) : ℕ → BitVec 32 → ℕ → ℕ → List ℕ
  | 0, _, _, _ => []
  | n + 1, mask, i, count =>
    if 0 < mask ∧ count < 32 then
      if mask &&& 1 ≠ 0 then (i + offset) :: usedList offset n (mask >>> 1) (i + 1) (count + 1)
      else usedList offset n (mask >>> 1) (i + 1) count
    else []

def fixType (usedCount : ℕ) : Char := if usedCount = 0 then '1' else if usedCount ≤ 3 then '2' else '3'

/-- `n` fields for satellites. -/
def putIds : ℕ → List ℕ → List Char → Option (List Char)
  | 0, _, text => some text
  | n + 1, [], text => do putIds n [] (← putText text [','])
  | n + 1, id :: ids, text => do putIds n ids (← putText text (printInt 2 id ++ [',']))

def dopText (e : LocEngNmea F) (ext : LocationExtended F) : List Char :=
  if ext.hasDop then fl.print ext.pdop ++ ',' :: fl.print ext.hdop ++ ',' :: fl.print ext.vdop
  else if fl.pos e.pdop && fl.pos e.hdop && fl.pos e.vdop then
    fl.print e.pdop ++ ',' :: fl.print e.hdop ++ ',' :: fl.print e.vdop
  else [',', ',']

def gsaSentence (name : List Char) (used : List ℕ) (e : LocEngNmea F) (ext : LocationExtended F) :
    Option NmeaSentence := do
  let text ← putText [] (name ++ ",A,".toList ++ [fixType used.length, ','])
  let text ← putIds 12 used text
  some (nmeaPutChecksum (putLast text (dopText fl e ext)))

def GLONASS_SV_ID_OFFSET : ℕ := 64

/-- The year of a time in seconds. -/
def civilYear (time : ℤ) : ℤ :=
  let z := time / 86400 + 719468
  let doe := z % 146097
  let yoe := (doe - doe / 1460 + doe / 36524 - doe / 146096) / 365
  let doy := doe - (365 * yoe + yoe / 4 - yoe / 100)
  yoe + z / 146097 * 400 + if 10 ≤ (5 * doy + 2) / 153 then 1 else 0

/-- `tm_year` of `gmtime()`, which is `NULL` when the year is no `int`. -/
def gmtime (time : ℤ) : Option ℤ :=
  let year := civilYear time - 1900
  if -2 ^ 31 ≤ year ∧ year < 2 ^ 31 then some year else none

/-- `loc_eng_nmea_generate_pos()` up to `$GNGSA`. -/
def nmeaGeneratePos (e : LocEngNmea F) (timestamp : Int64) (ext : LocationExtended F) (generate_nmea : Bool) :
    LocEngNmea F × List NmeaSentence :=
  match gmtime (timestamp.toInt.tdiv 1000) with
  | none => (e, [])
  | some _ =>
    if generate_nmea then
      let svUsed := usedList 0 32 e.gps_used_mask 1 0
      let e := { e with gps_used_mask := 0 }
      match gsaSentence fl "$GPGSA".toList svUsed e ext with
      | none => (e, [])
      | some gpgsa =>
        let gloUsed := usedList GLONASS_SV_ID_OFFSET 32 e.glo_used_mask 1 0
        let e := { e with glo_used_mask := 0 }
        match gsaSentence fl "$GNGSA".toList gloUsed e ext with
        | none => (e, [gpgsa])
        | some gngsa => (e, [gpgsa, gngsa])
    else
      (e, [nmeaPutChecksum "$GPGSA,A,1,,,,,,,,,,,,,,,".toList, nmeaPutChecksum "$GNGSA,A,1,,,,,,,,,,,,,,,".toList])

end Generate

/-! ### The printed numbers -/

def sentencesOf (name : List Char) (sent : List NmeaSentence) : List NmeaSentence :=
  sent.filter fun s => (s.text.splitOn ',').head? = some name

/-- The satellite numbers of `GSV` sentences: the first of each group of four fields. -/
def gsvIds (name : List Char) (sent : List NmeaSentence) : List (List Char) :=
  (sentencesOf name sent).flatMap fun s => everyFourth ((s.text.splitOn ',').drop 4)

/-- The satellite numbers of a `GSA` sentence: those of its twelve fields that are not empty. -/
def gsaIds (name : List Char) (sent : List NmeaSentence) : List (List Char) :=
  (sentencesOf name sent).flatMap fun s => (((s.text.splitOn ',').drop 3).take 12).filter fun f => f ≠ []

end G4Common.Gps
