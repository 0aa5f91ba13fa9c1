/-
Creating and deleting NAT tables: `ipa_nati_add_ipv4_tbl()`,
`ipa_nati_del_ipv4_table()`, the functions they call, and the entry points
`ipa_nat_add_ipv4_tbl()` and `ipa_nat_del_ipv4_tbl()` above them.

What the kernel and the C library answer during a call is an argument of the
call (`AddTblEnv`, `DelTblEnv`).  A failed `mmap()` is `MAP_FAILED`, which is
not the null pointer that the source tests for; the memory at that address
cannot be accessed.  A fault (`none`) is an access to the array `ip4_tbl`
behind its end, or to memory that is not mapped.
-/
import G4Common.IpaNat.DelRule

namespace G4Common.IpaNat

/-! ### Sizes -/

/-- The loop of `GetNearest2Power()`, for at most `fuel` turns. -/
def nearest2Loop (number : ℕ) : ℕ → ℕ → ℕ → Option ℕ
  | 0, _, _ => none
  | fuel + 1, num, tmp =>
    if num = 1 then some (if number ≠ tmp then u16 (tmp * 2) else tmp)
    else nearest2Loop number fuel (num / 2) (u16 (tmp * 2))

/-- `GetNearest2Power()`; the inner `none` is the return value `-EINVAL`.  A
16-bit number is 1 after at most 15 halvings. -/
def getNearest2Power (num : ℕ) : Option (Option ℕ) :=
  if num = 0 then some none
  else if num = 1 then some (some 2)
  else (nearest2Loop num 16 num 1).map some

/-- `GetNearestEven()`.  The loop of the source runs at most once. -/
def getNearestEven (num : ℕ) : ℕ :=
  if num < 2 then 2
  else if num % 2 ≠ 0 then u16 (num + 1)
  else num

/-- `(uint16_t)(number_of_entries * IPA_NAT_BASE_TABLE_PERCENTAGE)`, at least
one.  The product is rounded towards zero; for 16-bit numbers the error of the
floating point constant does not reach the next integer. -/
def baseTableEntries (numberOfEntries : ℕ) : ℕ :=
  if numberOfEntries * 4 / 5 = 0 then 1 else numberOfEntries * 4 / 5

/-- `(uint16_t)(number_of_entries * IPA_NAT_EXPANSION_TABLE_PERCENTAGE)`, made
even. -/
def expnTableEntriesOf (numberOfEntries : ℕ) : ℕ := getNearestEven (numberOfEntries / 5)

/-! ### Answers of the system -/

/-- What `mmap()` returns.  Mapped memory has arbitrary contents. -/
inductive MmapResult
  | mapped (rules : ℕ → IpaNatRule) (indx : ℕ → IpaNatIndxTblRule)
  | mapFailed
  | null

/-- The answers during `ipa_nati_add_ipv4_tbl()`. -/
structure AddTblEnv where
  /-- `open()` of the IPA device. -/
  openIpa : ℤ
  /-- `IPA_IOC_ALLOC_NAT_MEM`: the offset the kernel fills in, if it
  succeeds. -/
  allocNatMem : Option ℕ
  mallocMeta : Bool
  mallocRuleId : Bool
  /-- `open()` of the NAT device. -/
  openNat : ℤ
  mmap : MmapResult
  /-- `IPA_IOC_V4_INIT_NAT` succeeds. -/
  initNat : Bool

/-- The answers during `ipa_nati_del_ipv4_table()`. -/
structure DelTblEnv where
  close : Bool
  /-- `IPA_IOC_V4_DEL_NAT` succeeds. -/
  delNat : Bool
  deriving DecidableEq, Repr

/-! ### The cache -/

def maxIp4Tbls : ℕ := 1

structure IpaNatCache where
  ip4Tbl : CArray IpaNatIp4TableCache
  ipaFd : ℤ
  tableCnt : ℕ

/-- `ipv4_nat_cache` when the program starts. -/
def IpaNatCache.init : IpaNatCache := ⟨CArray.zeros maxIp4Tbls, 0, 0⟩

instance : Inhabited IpaNatCache := ⟨IpaNatCache.init⟩

structure IpaIocNatAllocMem where
  size : ℕ
  offset : ℕ

/-! ### Adding a table -/

/-- `ipa_nati_alloc_table()`: its return value, the memory description, the two
table sizes and the file descriptor of the IPA device. -/
def ipaNatiAllocTable (env : AddTblEnv) (ipaFd : ℤ) (numberOfEntries : ℕ) :
    Option ((ℤ × ℤ) × Option (IpaIocNatAllocMem × ℕ × ℕ)) := do
  match ← getNearest2Power (baseTableEntries numberOfEntries) with
  | none => return ((-eINVAL, ipaFd), none)
  | some tableEntries =>
    let expnTableEntries := expnTableEntriesOf numberOfEntries
    let totalEntries := u16 (tableEntries + expnTableEntries)
    let size := tableEntrySize * totalEntries + indexTableEntrySize * totalEntries
    if ipaFd = 0 ∧ env.openIpa < 0 then
      return ((-eIo, ipaFd), none)
    let ipaFd := if ipaFd = 0 then env.openIpa else ipaFd
    match env.allocNatMem with
    | none => return ((-eINVAL, ipaFd), none)
    | some offset => return ((0, ipaFd), some (⟨size, offset⟩, tableEntries, expnTableEntries))

/-- `if (NULL == p) { p = malloc(n * size); memset(p, 0, n * size); }`; fails
when `malloc()` does. -/
def allocArray (ok : Bool) (p : CArray ℕ) (n : ℕ) : Option (CArray ℕ) :=
  if p.size = 0 then (if ok then some (CArray.zeros n) else none) else some p

/-- `ipa_nati_update_cache()`: the return value and the slot.  When a `malloc()`
fails the function returns 0. -/
def ipaNatiUpdateCache (env : AddTblEnv) (mem : IpaIocNatAllocMem) (publicAddr : UInt32)
    (tblEntries expnTblEntries : ℕ) (c : IpaNatIp4TableCache) : ℤ × IpaNatIp4TableCache :=
  let c := { c with
    valid := true
    publicAddr := publicAddr
    size := mem.size
    tblAddrOffset := mem.offset
    tableEntries := tblEntries
    expnTableEntries := expnTblEntries }
  match allocArray env.mallocMeta c.indexExpnTableMeta expnTblEntries with
  | none => (0, c)
  | some indexExpnTableMeta =>
    let c := { c with indexExpnTableMeta := indexExpnTableMeta }
    match allocArray env.mallocRuleId c.ruleIdArray (tblEntries + expnTblEntries) with
    | none => (0, c)
    | some ruleIdArray =>
      let c := { c with ruleIdArray := ruleIdArray }
      if env.openNat < 0 then (-eIo, c)
      else
        let c := { c with natFd := env.openNat }
        match env.mmap with
        | .null => (-eINVAL, c)
        | .mapFailed => (0, { c with rules := CArray.null, indx := CArray.null })
        | .mapped rules indx =>
          (0, { c with
            rules := CArray.ofFn (tblEntries + expnTblEntries) rules
            indx := CArray.ofFn (tblEntries + expnTblEntries) indx })

def ipaNatiResetTbl (c : IpaNatIp4TableCache) : Option IpaNatIp4TableCache := do
  let rules ← c.rules.clear c.totalEntries
  let indx ← c.indx.clear c.totalEntries
  return { c with rules := rules, indx := indx }

/-- `ipa_nati_add_ipv4_tbl()`: return value, table handle and cache. -/
def ipaNatiAddIpv4Tbl (env : AddTblEnv) (s : IpaNatCache) (publicIpAddr : UInt32)
    (numberOfEntries : ℕ) : Option (ℤ × ℕ × IpaNatCache) := do
  let tblIndx := s.tableCnt
  match ← ipaNatiAllocTable env s.ipaFd numberOfEntries with
  | ((_, ipaFd), none) => return (-eNOMEM, 0, { s with ipaFd := ipaFd })
  | ((_, ipaFd), some (mem, tableEntries, expnTableEntries)) =>
    let s := { s with ipaFd := ipaFd }
    let slot ← s.ip4Tbl.read tblIndx
    let (ret, slot) :=
      ipaNatiUpdateCache env mem publicIpAddr tableEntries expnTableEntries slot
    let s := { s with ip4Tbl := s.ip4Tbl.set tblIndx slot }
    if ret ≠ 0 then
      return (-eINVAL, 0, s)
    let slot ← ipaNatiResetTbl slot
    let s := { s with ip4Tbl := s.ip4Tbl.set tblIndx slot }
    -- `ipa_nati_post_ipv4_init_cmd()`
    if !env.initNat then
      return (-eINVAL, 0, s)
    let s := { s with tableCnt := (s.tableCnt + 1) % 256 }
    return (0, s.tableCnt, s)

def ipaNatAddIpv4Tbl (env : AddTblEnv) (s : IpaNatCache) (publicIpAddr : UInt32)
    (numberOfEntries : ℕ) : Option (ℤ × ℕ × IpaNatCache) := do
  if numberOfEntries = 0 then
    return (-eINVAL, 0, s)
  let (ret, tblHdl, s) ← ipaNatiAddIpv4Tbl env s publicIpAddr numberOfEntries
  if ret ≠ 0 then
    return (-eINVAL, tblHdl, s)
  return (ret, tblHdl, s)

/-! ### Deleting a table -/

def ipaNatiDelIpv4Table (env : DelTblEnv) (s : IpaNatCache) (tblHdl : ℕ) :
    Option (ℤ × IpaNatCache) := do
  let index := (tblHdl + 2 ^ 32 - 1) % 256
  let slot ← s.ip4Tbl.read index
  if !slot.valid then
    return (-eINVAL, s)
  -- `munmap()`
  let unmapped := { slot with rules := CArray.null, indx := CArray.null }
  let s := { s with ip4Tbl := s.ip4Tbl.set index unmapped }
  if !env.close then
    return (-eINVAL, s)
  if !env.delNat then
    return (-eINVAL, s)
  let s := { s with ip4Tbl := s.ip4Tbl.set index default }
  return (0, { s with tableCnt := (s.tableCnt + 255) % 256 })

def ipaNatDelIpv4Tbl (env : DelTblEnv) (s : IpaNatCache) (tblHdl : ℕ) :
    Option (ℤ × IpaNatCache) :=
  if tblHdl = invalidNatEntry ∨ tblHdl > maxIp4Tbls then some (-eINVAL, s)
  else ipaNatiDelIpv4Table env s tblHdl

end G4Common.IpaNat
