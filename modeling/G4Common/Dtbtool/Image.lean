/-
The image that `dtbtool` writes (`main()` of `dtbtool/dtbtool.c`, after the search).

The table loop gives a master its place in the image when it is met first and remembers it in `master_offset`, where
`0` says that it has none yet; the second loop writes the file of a master when it is met first (`wroteDtb`).  Each
`write()` adds to `wrote`, which is compared with `expected` at the end.  An `int` that overflows, or a filler that is
read past its end, is a run without a meaning, `none`.  What `fopen()` and `fread()` give is a function of the name;
reading does not fail.
-/
import G4Common.Dtbtool.FindDtb
import G4Common.Lib.OutFile
import G4Common.Lib.WordBytes

namespace G4Common.Dtbtool

def RC_SUCCESS : ℤ := 0

def RC_ERROR : ℤ := -1

def PAGE_SIZE_MAX : ℕ := 1024 * 1024

def COPY_BLK : ℕ := 1024

abbrev Bytes := List (BitVec 8)

def QCDT_MAGIC : Bytes := [0x51, 0x43, 0x44, 0x54]

/-- A `uint32_t` as it is in memory. -/
def le32 (x : BitVec 32) : Bytes := [byteAt x 0, byteAt x 1, byteAt x 2, byteAt x 3]

def filler (n : ℕ) : Bytes := List.replicate n 0

/-- What `main()` depends on besides `chip_list`. -/
structure ImageEnv where
  page_size : ℕ
  /-- The check of `parse_commandline()`. -/
  page_size_ok : 0 < page_size ∧ page_size ≤ PAGE_SIZE_MAX
  version_override : ℕ
  /-- `open()` of the output file succeeds. -/
  opens : Bool
  /-- The content of a file, if `fopen()` succeeds. -/
  fopen : List Char → Option Bytes
  /-- The answers of `write()`. -/
  write : ℕ → Option ℕ

/-- The output file at the end. -/
inductive Output
  | untouched
  | removed
  | written (bytes : Bytes)
deriving DecidableEq

structure DtbResult where
  rc : ℤ
  output : Output
  /-- What the calls of `write()` were to write. -/
  calls : List Bytes
deriving DecidableEq

/-- The node that a number stands for. -/
def FindState.master (st : FindState) (m : ℕ) : DtbMaster := st.masters.getD m ⟨[], 0⟩

/-! ### The table -/

/-- The numbers of a row, without its offset and size. -/
def idWords (version : ℕ) (id : ChipId) : List (BitVec 32) :=
  [id.chipset.toBitVec, id.platform.toBitVec] ++
    (if 2 ≤ version then [id.subtype.toBitVec] else []) ++
    [id.revNum.toBitVec] ++
    (if 3 ≤ version then [id.pmic_model.1.toBitVec, id.pmic_model.2.1.toBitVec, id.pmic_model.2.2.1.toBitVec,
      id.pmic_model.2.2.2.toBitVec] else [])

structure TableState where
  out : OutFile (BitVec 8)
  expected : BitVec 64
  master_offset : ℕ → BitVec 32

section Main

variable (env : ImageEnv) (st : FindState)

/-- A turn of the table loop. -/
def tableTurn (version : ℕ) (t : TableState) (chip : ChipNode) : TableState :=
  let out := t.out.writeAll env.write ((idWords version chip.id).map le32)
  let dtb_size := (st.master chip.master).dtb_size
  if t.master_offset chip.master ≠ 0 then
    { t with
      out := (out.write env.write (le32 (t.master_offset chip.master))).write env.write
        (le32 (BitVec.ofNat 32 dtb_size)) }
  else
    { out := (out.write env.write (le32 (t.expected.setWidth 32))).write env.write (le32 (BitVec.ofNat 32 dtb_size))
      expected := t.expected + BitVec.ofNat 64 dtb_size
      master_offset := fun m => if m = chip.master then t.expected.setWidth 32 else t.master_offset m }

/-! ### The files -/

/-- What `fread()` gives, block by block; a file has no more blocks than bytes. -/
def copyBlocks : ℕ → Bytes → List Bytes
  | 0, _ => []
  | _ + 1, [] => []
  | n + 1, b :: bytes => (b :: bytes).take COPY_BLK :: copyBlocks n ((b :: bytes).drop COPY_BLK)

/-- The second loop, from a node on: the file and whether `rc` is still `RC_SUCCESS`. -/
def blobLoop : List ChipNode → OutFile (BitVec 8) → (ℕ → Bool) → Option (OutFile (BitVec 8) × Bool)
  | [], out, _ => some (out, true)
  | chip :: rest, out, wroteDtb =>
    if wroteDtb chip.master then blobLoop rest out wroteDtb
    else
      match env.fopen (st.master chip.master).dtb_file with
      | none => some (out, false)
      | some bytes =>
        let out := out.writeAll env.write (copyBlocks bytes.length bytes)
        let padding := env.page_size - bytes.length % env.page_size
        if 2 ^ 31 ≤ bytes.length + padding then none
        else if (bytes.length + padding) % 2 ^ 32 ≠ (st.master chip.master).dtb_size then some (out, false)
        else
          blobLoop rest (if 0 < padding then out.write env.write (filler padding) else out)
            fun m => if m = chip.master then true else wroteDtb m

/-! ### The image -/

/-- The version that is written. -/
def imageVersion : ℕ := if env.version_override ≠ 0 then env.version_override else st.version

def entrySize (version : ℕ) : ℕ := if version = 1 then 20 else if version = 2 then 24 else 40

/-- `dtb_offset` before it is rounded up. -/
def tableEnd : ℤ := 12 + entrySize (imageVersion env st) * st.dtb_count + 4

def tablePadding : ℤ := env.page_size - (tableEnd env st).tmod env.page_size

def writeRows : TableState :=
  let version := imageVersion env st
  let out := OutFile.opened.writeAll env.write
    [QCDT_MAGIC, le32 (BitVec.ofNat 32 version), le32 (BitVec.ofInt 32 st.dtb_count)]
  st.chips.foldl (tableTurn env st version)
    ⟨out, BitVec.ofInt 64 (tableEnd env st + tablePadding env st), fun _ => 0⟩

/-- The table and what is behind it up to the next page. -/
def writeTable : TableState :=
  let t := writeRows env st
  let out := t.out.write env.write (le32 (BitVec.ofInt 32 RC_SUCCESS))
  { t with
    out := if 0 < tablePadding env st then out.write env.write (filler (tablePadding env st).toNat) else out }

/-- An `int` of the table overflows, or the filler is too short. -/
def TableFault : Prop :=
  2 ^ 31 ≤ tableEnd env st + tablePadding env st ∨ entrySize (imageVersion env st) * st.dtb_count < -2 ^ 31 ∨
    (env.page_size : ℤ) < tablePadding env st

instance : Decidable (TableFault env st) := inferInstanceAs (Decidable (_ ∨ _ ∨ _))

/-- `main()`, after `find_dtb()`. -/
def dtbMain : Option DtbResult :=
  if st.dtb_count = 0 then some ⟨RC_SUCCESS, .untouched, []⟩
  else if ¬ env.opens then some ⟨RC_ERROR, .untouched, []⟩
  else if TableFault env st then none
  else
    let t := writeTable env st
    match blobLoop env st st.chips t.out fun _ => false with
    | none => none
    | some (out, ok) =>
      let rc := if ok ∧ t.expected = out.wrote then RC_SUCCESS else RC_ERROR
      some ⟨rc, if rc ≠ RC_SUCCESS then .removed else .written out.bytes, out.calls⟩

end Main

end G4Common.Dtbtool
