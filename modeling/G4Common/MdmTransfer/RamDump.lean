/-
`collect_ram_dumps()` of `mdm-helper/mdmfiletransfer/dload_protocol.c`, with the functions that it calls.

The target sends a table of regions.  Each region is read in pieces, and the pieces are written to the
region's file.  Nothing that the target says about sizes is checked: the size of the table, the ends of the
records in it, and the length of each piece are taken as they come.

The function is a machine that takes one step for each exchange with the target.  Its inputs say what the
outside does.  Where the source reads outside of an array, the machine stops with the access that was wrong.
-/
import G4Common.Lib.Broadcast
import G4Common.Lib.WordBytes
import G4Common.MdmTransfer.Responses

namespace G4Common.MdmTransfer

/-! ### Commands and constants -/

def dloadCmdNop : Byte := 0x06#8

def dloadCmdParamReq : Byte := 0x07#8

def dloadCmdParamResp : Byte := 0x08#8

def dloadCmdMemDbgQuery : Byte := 0x10#8

def dloadCmdMemDbgInfoResp : Byte := 0x11#8

def dloadCmdMemReadReq : Byte := 0x12#8

def dloadCmdMemUnframedReadReq : Byte := 0x14#8

def dloadCmdMemUnframedReadResp : Byte := 0x15#8

def protocolVersionUnframedMemoryRead : ℕ := 7

def maxFramedReadLength : BitVec 32 := 2040#32

def maxUnframedReadLength : BitVec 32 := 4080#32

def numPingRetries : ℕ := 10

def dloadRxBufferLength : ℕ := 4096

def dloadMiscBufferLength : ℕ := 4096 * 2 + 4

def maxFileNameLength : ℕ := 256

/-! ### Requests and responses -/

def minInt (x y : BitVec 32) : BitVec 32 := if x.slt y then x else y

/-- The packet of `send_pkt_mem_read_req()`. -/
def memReadReq (address length : BitVec 32) : List Byte :=
  [dloadCmdMemReadReq, byteAt address 3, byteAt address 2, byteAt address 1, byteAt address 0,
    byteAt length 1, byteAt length 0]

/-- The packet of `send_pkt_unframed_mem_read_req()`. -/
def unframedMemReadReq (address length : BitVec 32) : List Byte :=
  [dloadCmdMemUnframedReadReq, 0, 0, 0, byteAt address 3, byteAt address 2, byteAt address 1, byteAt address 0,
    byteAt length 3, byteAt length 2, byteAt length 1, byteAt length 0]

/-- The readers of one framed response: `skip` says that there is no opening flag. -/
def readPkt (skip : Bool) (cmd : Byte) (rxBuffer : CArray Byte) (r : RxAnswer) : Option (CArray Byte × Bool) :=
  (rxData rxBuffer 0 rxBuffer.size r).bind fun
  | none => some (rxBuffer, false)
  | some (a, _) => (hdlcDecodeSkipOpening a 0 a.size skip).bind (checkFirst cmd)

def readPktMemDbgInfoResp : CArray Byte → RxAnswer → Option (CArray Byte × Bool) :=
  readPkt true dloadCmdMemDbgInfoResp

def readPktParamResp (skipOpeningByteCheck : Bool) : CArray Byte → RxAnswer → Option (CArray Byte × Bool) :=
  readPkt skipOpeningByteCheck dloadCmdParamResp

def readUnframedMemReadResp (rxBuffer : CArray Byte) (r : RxAnswer) : Option (CArray Byte × Bool) :=
  (rxData rxBuffer 0 rxBuffer.size r).bind fun
  | none => some (rxBuffer, false)
  | some (a, _) => (a.read 0).map fun b => (a, b = dloadCmdMemUnframedReadResp)

/-- `dload_ping_target()`, with the tries that are left.  For each try it is given whether the packet can be sent and
what comes back. -/
def dloadPingTarget : ℕ → List (Bool × RxAnswer) → CArray Byte → CArray Byte →
    Option ((CArray Byte × CArray Byte) × Bool)
  | 0, _, misc, rx => some ((misc, rx), false)
  | _ + 1, [], misc, rx => some ((misc, rx), false)
  | n + 1, (tx, r) :: tries, misc, rx => (encodeAndSend [dloadCmdNop] misc tx).bind fun
    | (misc, false) => some ((misc, rx), false)
    | (misc, true) => (readPktAck rx r).bind fun
      | (rx, false) => dloadPingTarget n tries misc rx
      | (rx, true) => some ((misc, rx), true)

/-! ### The table of regions -/

/-- A record of the table, without what is only logged. -/
structure Region where
  base : BitVec 32
  length : BitVec 32
  filename : List Byte
deriving DecidableEq

/-- `strlen()` of the string at `i`. -/
def strlen (t : CArray Byte) (i : ℕ) : Option ℕ :=
  ((findCell (fun j => (t.read j).map (· == 0#8)) (t.size + 1 - i) i).bind id).map (· - i)

/-- A number of four bytes, the most significant first. -/
def readWord (t : CArray Byte) (i : ℕ) : Option (BitVec 32) := do
  let b3 ← t.read i
  let b2 ← t.read (i + 1)
  let b1 ← t.read (i + 2)
  let b0 ← t.read (i + 3)
  return wordOf b3 b2 b1 b0

/-- The record at `i`, and where the next one is. -/
def readRecord (t : CArray Byte) (i : ℕ) : Option (Region × ℕ) := do
  let _savePreference ← t.read i
  let base ← readWord t (i + 1)
  let length ← readWord t (i + 5)
  let d ← strlen t (i + 9)
  let n ← strlen t (i + 9 + (1 + d))
  return (⟨base, length, t.slice (i + 9 + (1 + d)) n⟩, i + 9 + (1 + d) + (1 + n))

/-- All records from `i` on; `none` if one of them is not inside the table.  A record has more than one
byte. -/
def regions (t : CArray Byte) : ℕ → ℕ → Option (List Region)
  | 0, i => if i < t.size then none else some []
  | fuel + 1, i =>
    if i < t.size then (readRecord t i).bind fun res => (regions t fuel res.2).map (res.1 :: ·) else some []

/-! ### The state -/

/-- An access outside of an array: of a buffer while a packet is sent or received, of `rx_buffer` when the table is
copied, of the table, or of `rx_buffer` when data are written to a file. -/
inductive Fault
  | buffer
  | copy
  | table
  | write
deriving DecidableEq

/-- Where the function is: before the two responses at its beginning, in its inner loop, or at its end. -/
inductive DumpPhase
  | param
  | info
  | reading
  | returned (result : Bool)
  | fault (f : Fault)
deriving DecidableEq

/-- A region that was read: the file, and the response packets that were taken for it. -/
structure RegionDump where
  region : Region
  file : ℕ
  packets : List (List Byte)

/-- The variables of the function, the buffers and the files; and, for what is stated about it, the text in which
the table was received, the regions that are done, and everything that was written with the packet that it was
taken from. -/
structure DumpState where
  phase : DumpPhase
  misc : CArray Byte
  rx : CArray Byte
  files : ℕ → List Byte
  protocolVersion : ℕ
  table : CArray Byte
  i : ℕ
  cur : RegionDump
  currentBaseAddress : BitVec 32
  currentLength : BitVec 32
  infoPacket : List Byte
  done : List RegionDump
  writes : List (List Byte × List Byte)

/-- What the outside does in one round: whether the request can be sent, what comes from the port, what comes while
the target is pinged, whether there is memory for the table, and how many bytes can be written to the file. -/
structure DumpRound where
  tx : Bool
  answers : List RxAnswer
  ping : List (Bool × RxAnswer)
  malloc : Bool
  room : ℕ

/-- The answer that a function with one read gets. -/
def DumpRound.answer (x : DumpRound) : RxAnswer := x.answers.head?.join

variable (fopen : List Byte → Option ℕ)

/-- `open_file()` for writing; `fopen()` gives the file that a path leads to. -/
def openFile (filename : List Byte) : Option ℕ :=
  if maxFileNameLength ≤ filename.length + 2 then none else fopen (0x2e#8 :: 0x2f#8 :: filename)

/-- The outer loop from its test on, until a region has something to be read. -/
def nextRegion : ℕ → DumpState → DumpState
  | 0, st => { st with phase := .fault .table }
  | fuel + 1, st =>
    if st.i < st.table.size then
      match readRecord st.table st.i with
      | none => { st with phase := .fault .table }
      | some (r, j) =>
        match openFile fopen r.filename with
        | none => { st with i := j, phase := .returned false }
        | some f =>
          let st := { st with i := j, files := Function.update st.files f [] }
          if r.length ≠ 0 then
            { st with phase := .reading, cur := ⟨r, f, []⟩, currentBaseAddress := r.base, currentLength := r.length }
          else nextRegion fuel { st with done := st.done ++ [⟨r, f, []⟩] }
    else { st with phase := .returned true }

def paramStep (st : DumpState) (x : DumpRound) : DumpState :=
  match encodeAndSend [dloadCmdParamReq] st.misc x.tx with
  | none => { st with phase := .fault .buffer }
  | some (misc, false) => { st with misc := misc, phase := .returned false }
  | some (misc, true) =>
    match readPktParamResp true st.rx x.answer with
    | none => { st with phase := .fault .buffer }
    | some (rx, false) => { st with misc := misc, rx := rx, phase := .returned false }
    | some (rx, true) =>
      { st with misc := misc, rx := rx, protocolVersion := (rx.get 1).toNat, phase := .info }

def regionsListDataSize (g : ℕ → Byte) : ℕ := (g 1).toNat <<< 8 ||| (g 2).toNat

/-- The table of regions is received and copied. -/
def infoStep (st : DumpState) (x : DumpRound) : DumpState :=
  match encodeAndSend [dloadCmdMemDbgQuery] st.misc x.tx with
  | none => { st with phase := .fault .buffer }
  | some (misc, false) => { st with misc := misc, phase := .returned false }
  | some (misc, true) =>
    match readPktMemDbgInfoResp st.rx x.answer with
    | none => { st with phase := .fault .buffer }
    | some (rx, false) => { st with misc := misc, rx := rx, phase := .returned false }
    | some (rx, true) =>
      let size := regionsListDataSize rx.get
      let st := { st with misc := misc, rx := rx, infoPacket := (ahdlc.unstuff (x.answer.bytes st.rx.size)).getD [] }
      if x.malloc then
        if rx.size < 3 + size then { st with phase := .fault .copy }
        else
          let table := CArray.ofList (rx.slice 3 size)
          nextRegion fopen (table.size + 1) { st with table := table, i := 0 }
      else { st with phase := .returned false }

/-! ### Responses to a memory read -/

/-- The two variants of the protocol. -/
def unframed (version : ℕ) : Bool := protocolVersionUnframedMemoryRead ≤ version

/-- The number of a response. -/
def respCmd (u : Bool) : Byte := if u then dloadCmdMemUnframedReadResp else dloadCmdMemReadResp

/-- Where the data of a response are. -/
def respHeader (u : Bool) : ℕ := if u then 12 else 7

def respAddress (u : Bool) (g : ℕ → Byte) : BitVec 32 :=
  if u then wordOf (g 4) (g 5) (g 6) (g 7) else wordOf (g 1) (g 2) (g 3) (g 4)

def respLength (u : Bool) (g : ℕ → Byte) : BitVec 32 :=
  if u then wordOf (g 8) (g 9) (g 10) (g 11) else wordOf 0 0 (g 5) (g 6)

/-- `send_pkt_unframed_mem_read_req()` or `send_pkt_mem_read_req()`. -/
def sendReadReq (u : Bool) (st : DumpState) (tx : Bool) : Option (CArray Byte × Bool) :=
  if u then
    encodeAndSend (unframedMemReadReq st.currentBaseAddress (minInt maxUnframedReadLength st.currentLength)) st.misc tx
  else encodeAndSend (memReadReq st.currentBaseAddress (minInt maxFramedReadLength st.currentLength)) st.misc tx

/-- `read_unframed_mem_read_resp()` or `read_mem_read_resp()`. -/
def readResp (u : Bool) (rx : CArray Byte) (x : DumpRound) : Option (CArray Byte × Bool) :=
  if u then readUnframedMemReadResp rx x.answer else readMemReadResp rx x.answers

/-- The packet of a response as it was received: the bytes of one read, or the text up to the closing flag. -/
def respPacket (u : Bool) (rx : CArray Byte) (x : DumpRound) : List Byte :=
  if u then x.answer.bytes rx.size
  else match dloadRxData rx.size x.answers rx 0 with
    | some (a, some m) => (ahdlc.unstuff (a.slice 0 m)).getD []
    | _ => []

/-- What the function does with a response in `rx`.  It writes as many bytes as the response says that it has. -/
def takeResp (u : Bool) (packet : List Byte) (room : ℕ) (st : DumpState) : DumpState :=
  let len := respLength u st.rx.get
  if respAddress u st.rx.get ≠ st.currentBaseAddress then st
  else if st.rx.size < respHeader u + len.toNat then { st with phase := .fault .write }
  else
    let bytes := (st.rx.slice (respHeader u) len.toNat).take room
    let st := { st with files := Function.update st.files st.cur.file (st.files st.cur.file ++ bytes),
                        writes := st.writes ++ [(packet, bytes)],
                        cur := { st.cur with packets := st.cur.packets ++ [packet] },
                        currentBaseAddress := st.currentBaseAddress + len,
                        currentLength := st.currentLength - len }
    if st.currentLength ≠ 0 then st
    else nextRegion fopen (st.table.size + 1) { st with done := st.done ++ [st.cur] }

/-- One round of the inner loop. -/
def readStep (st : DumpState) (x : DumpRound) : DumpState :=
  let u := unframed st.protocolVersion
  match sendReadReq u st x.tx with
  | none => { st with phase := .fault .buffer }
  | some (misc, false) => { st with misc := misc, phase := .returned false }
  | some (misc, true) =>
    match readResp u st.rx x with
    | none => { st with phase := .fault .buffer }
    | some (rx, false) =>
      match dloadPingTarget numPingRetries x.ping misc rx with
      | none => { st with phase := .fault .buffer }
      | some ((misc, rx), false) => { st with misc := misc, rx := rx, phase := .returned false }
      | some ((misc, rx), true) => { st with misc := misc, rx := rx }
    | some (rx, true) => takeResp fopen u (respPacket u st.rx x) x.room { st with misc := misc, rx := rx }

/-- One step of `collect_ram_dumps()`. -/
def dumpStep (st : DumpState) (x : DumpRound) : DumpState :=
  match st.phase with
  | .param => paramStep st x
  | .info => infoStep fopen st x
  | .reading => readStep fopen st x
  | .returned _ => st
  | .fault _ => st

/-- The beginning of `collect_ram_dumps()`.  The buffers have been allocated; they hold anything. -/
def dumpStart (misc rx : ℕ → Byte) (files : ℕ → List Byte) : DumpState where
  phase := .param
  misc := ⟨dloadMiscBufferLength, misc⟩
  rx := ⟨dloadRxBufferLength, rx⟩
  files := files
  protocolVersion := 0
  table := CArray.null
  i := 0
  cur := ⟨⟨0, 0, []⟩, 0, []⟩
  currentBaseAddress := 0
  currentLength := 0
  infoPacket := []
  done := []
  writes := []

/-- `collect_ram_dumps()` after the given rounds. -/
def collectRamDumps (misc rx : ℕ → Byte) (files : ℕ → List Byte) (xs : List DumpRound) : DumpState :=
  xs.foldl (dumpStep fopen) (dumpStart misc rx files)

end G4Common.MdmTransfer
