/-
When the entry of a `Firewall` element denotes the packets that the element describes.

A field of the entry is written by the elements for this field only: once, or by two elements in one of two orders
(`view_writes`, `view_writes_pair`).  So every field has its own condition, and the entry is right under all of them
(`faithful_made_iff`).
-/
import G4Common.Ipacm.FirewallRule

namespace G4Common.Ipacm

open Fields List Option

/-! ### Entries match field by field -/

section

variable {ip : IpType} {e : FirewallEntry} {a : RuleAttrib} {p : DlPacket}

theorem forall_fltFlag {P : FltFlag → Prop} : (∀ f, P f) ↔ ∀ f ∈ FltFlag.all, P f :=
  ⟨fun h f _ => h f, fun h f => h f f.mem_all⟩

theorem forall_fwField {P : FwField → Prop} : (∀ f, P f) ↔ P .tos ∧ (∀ f, P (.num f)) ∧ (∀ d, P (.addr d)) ∧ ∀ d, P (.port d) :=
  ⟨fun h => ⟨h _, fun _ => h _, fun _ => h _, fun _ => h _⟩, fun h f => by cases f; exacts [h.1, h.2.1 _, h.2.2.1 _, h.2.2.2 _]⟩

theorem forall_numField {P : NumField → Prop} : (∀ f, P f) ↔ P .proto ∧ P .type ∧ P .code ∧ P .spi :=
  ⟨fun h => ⟨h _, h _, h _, h _⟩, fun h f => by cases f; exacts [h.1, h.2.1, h.2.2.1, h.2.2.2]⟩

theorem forall_dir {P : Dir → Prop} : (∀ d, P d) ↔ P .src ∧ P .dst :=
  ⟨fun h => ⟨h _, h _⟩, fun h d => by cases d; exacts [h.1, h.2]⟩

/-- All tests but the one of the protocol, which is for the number `x`. -/
theorem headerMatches_fields : headerMatches ip a p ↔ (∀ f, f ≠ .num .proto → a.Ok ip f (p.val ip f)) ∧
    ((a.nums ip .proto).isNum = true → a.proto ip = p.proto) := by
  have h8 : ∀ x y : UInt8, (x.toNat : ℤ) = y.toNat ↔ x = y := fun x y => by rw [Nat.cast_inj, UInt8.toNat_inj]
  have h32 : ∀ x y : UInt32, (x.toNat : ℤ) = y.toNat ↔ x = y := fun x y => by rw [Nat.cast_inj, UInt32.toNat_inj]
  rw [headerMatches_iff]
  refine forall_fltFlag.trans ?_
  cases ip <;>
    simp only [FltFlag.all, forall_fwField, forall_numField, forall_dir, RuleAttrib.Ok, RuleAttrib.isTos,
      RuleAttrib.tosOf, RuleAttrib.nums, RuleAttrib.addrs, RuleAttrib.ports, DlPacket.val, flagOk, NumHolds, Agree,
      PortAttrib.Ok, maskEq, h8, h32, RuleAttrib.proto, forall_mem_cons, ne_eq, reduceCtorEq, not_false_eq_true,
      forall_const, false_and, if_false, decide_eq_true_eq, FwField.num.injEq, not_mem_nil, false_imp_iff,
      implies_true, not_true_eq_false, and_true, true_and]
  · grind
  · grind

theorem headerMatches_setProto (x : UInt8) : headerMatches ip (a.setProto x ip) p ↔
    (∀ f, f ≠ .num .proto → a.Ok ip f (p.val ip f)) ∧ ((a.nums ip .proto).isNum = true → x = p.proto) := by
  rw [headerMatches_fields]
  refine and_congr (forall_congr' fun f => imp_congr_right fun hf => ?_) ?_
  · rcases f with - | f | - | -
    case num => cases ip <;> cases f <;> first | exact absurd rfl hf | exact Iff.rfl
    all_goals cases ip <;> exact Iff.rfl
  · cases ip <;> exact Iff.rfl

/-- **An entry matches** if all its fields do. -/
theorem entryMatches_iff : entryMatches ip e p ↔ ∀ f, e.attrib.Ok ip f (p.val ip f) := by
  have hproto : e.attrib.Ok ip (.num .proto) (p.val ip (.num .proto)) ↔ ((e.attrib.nums ip .proto).isNum = true →
      if e.attrib.proto ip = ipprotoTcpUdp then p.proto = 6 ∨ p.proto = 17 else e.attrib.proto ip = p.proto) := by
    have hnum : (e.attrib.nums ip .proto).num = (e.attrib.proto ip).toNat := by cases ip <;> rfl
    rw [RuleAttrib.Ok, NumHolds, hnum]
    show (_ → if _ ∧ (_ : ℤ) = _ then p.proto.toNat = (6 : UInt8).toNat ∨ p.proto.toNat = (17 : UInt8).toNat
      else ((e.attrib.proto ip).toNat : ℤ) = p.proto.toNat) ↔ _
    simp only [Nat.cast_inj, UInt8.toNat_inj, true_and]
  have hall : (∀ f, e.attrib.Ok ip f (p.val ip f)) ↔
      (∀ f, f ≠ .num .proto → e.attrib.Ok ip f (p.val ip f)) ∧ e.attrib.Ok ip (.num .proto) (p.val ip (.num .proto)) := by
    constructor
    · exact fun h => ⟨fun f _ => h f, h _⟩
    · rintro ⟨h, hp⟩ f
      by_cases hf : f = .num .proto
      · rw [hf]
        exact hp
      · exact h f hf
  rw [hall, hproto, entryMatches]
  split_ifs
  · rw [Bool.or_eq_true, headerMatches_setProto, headerMatches_setProto]
    grind
  · exact headerMatches_fields

end

/-- A packet with given fields. -/
def packetOf : (ip : IpType) → ((f : FwField) → f.Val ip) → DlPacket
  | .v4, x => ⟨x .tos, .ofNat (x (.num .proto)), x (.addr .src) 0, x (.addr .dst) 0, fun _ => 0, fun _ => 0,
      x (.port .src), x (.port .dst), .ofNat (x (.num .type)), .ofNat (x (.num .code)), .ofNat (x (.num .spi)), 0⟩
  | .v6, x => ⟨x .tos, .ofNat (x (.num .proto)), 0, 0, x (.addr .src), x (.addr .dst),
      x (.port .src), x (.port .dst), .ofNat (x (.num .type)), .ofNat (x (.num .code)), .ofNat (x (.num .spi)), 0⟩

theorem val_packetOf (ip : IpType) (x : (f : FwField) → f.Val ip) (f : FwField) : (packetOf ip x).val ip f = x f := by
  have h8 : ∀ y : Fin (2 ^ 8), (UInt8.ofNat y).toNat = y := fun y => Nat.mod_eq_of_lt y.isLt
  have h32 : ∀ y : Fin (2 ^ 32), (UInt32.ofNat y).toNat = y := fun y => Nat.mod_eq_of_lt y.isLt
  have hone : ∀ w : Fin 1 → UInt32, (fun _ => w 0) = w := fun w => funext fun i => congrArg w (Subsingleton.elim 0 i)
  cases ip with
  | v4 => 
    cases f with
    | num f => cases f <;> first | exact Fin.ext (h8 _) | exact Fin.ext (h32 _)
    | addr dir => cases dir <;> exact hone _
    | tos => rfl
    | port dir => cases dir <;> rfl
  | v6 =>
    cases f with
    | num f => cases f <;> first | exact Fin.ext (h8 _) | exact Fin.ext (h32 _)
    | addr dir | port dir => cases dir <;> rfl
    | tos => rfl

/-! ### Values with masks -/

theorem ofInt_toUInt8 (z : ℤ) : (UInt32.ofInt z).toUInt8 = UInt8.ofInt z := by
  rw [← UInt8.toNat_inj, UInt32.toNat_toUInt8, UInt32.ofInt, UInt8.ofInt, UInt32.toNat_ofNat', UInt8.toNat_ofNat']
  omega

theorem toUInt32_eq_iff (x : UInt8) (w : UInt32) : x.toUInt32 = w ↔ w < 256 ∧ x = w.toUInt8 := by
  rw [← UInt32.toNat_inj, ← UInt8.toNat_inj, UInt8.toNat_toUInt32, UInt32.toNat_toUInt8, UInt32.lt_iff_toNat_lt]
  have hx := x.toNat_lt
  have h256 : (256 : UInt32).toNat = 256 := rfl
  omega

theorem toUInt32_and (x : UInt8) (m : UInt32) : x.toUInt32 &&& m = (x &&& m.toUInt8).toUInt32 := by
  have hmod := Nat.and_mod_two_pow (a := x.toNat) (b := m.toNat) (n := 8)
  rw [Nat.mod_eq_of_lt x.toNat_lt, Nat.mod_eq_of_lt (Nat.and_le_left.trans_lt x.toNat_lt)] at hmod
  rw [← UInt32.toNat_inj, UInt32.toNat_and, UInt8.toNat_toUInt32, UInt8.toNat_toUInt32, UInt8.toNat_and,
    UInt32.toNat_toUInt8, hmod]

theorem and_255 (x : UInt8) : x &&& 255 = x := UInt8.and_neg_one

theorem byte_eq_iff (v m : UInt8) : (∀ x, x = v ↔ x &&& m = v &&& m) ↔ m = 0xff := by
  constructor
  · intro hall
    have hwords := (masks_eq_iff (fun _ : Unit => v.toBitVec) (fun _ => BitVec.allOnes 8) fun _ => m.toBitVec).1 ?_
    · exact UInt8.toBitVec_inj.1 (congrFun hwords ()).symm
    intro x
    have hx := hall ⟨x ()⟩
    rw [← UInt8.toBitVec_inj, ← UInt8.toBitVec_inj] at hx
    simp only [BitVec.and_allOnes]
    exact ⟨fun h _ => hx.1 (h ()), fun h _ => hx.2 (h ())⟩
  · rintro rfl x
    rw [and_255, and_255]

/-- **What is left of a value is right** under the condition. -/
theorem tos_right (reading : TosReading) (v : ℤ) (mask : Option ℤ) (inOrder : Prop) [Decidable inOrder] :
    (∀ x, (if inOrder then UInt8.ofInt v &&& mask.elim 0xff UInt8.ofInt else UInt8.ofInt v) = x ↔
      TosHolds reading v mask x) ↔ TosCond reading v mask inOrder := by
  have hmask : mask.elim 0xff UInt8.ofInt = (mask.elim 0xffffffff UInt32.ofInt).toUInt8 := by
    rcases mask with - | m
    · rfl
    · exact (ofInt_toUInt8 m).symm
  rw [hmask, ← ofInt_toUInt8, ← UInt32.toUInt8_and]
  unfold TosHolds TosCond
  rw [← ofInt_toUInt8]
  generalize mask.elim 0xffffffff UInt32.ofInt = m
  generalize UInt32.ofInt v = v
  have hbyte : (v &&& m).toUInt8 = v.toUInt8 &&& m.toUInt8 := UInt32.toUInt8_and v m
  cases reading with
  | whole =>
    simp only [toUInt32_eq_iff]
    constructor
    · intro hall
      obtain ⟨hlt, heq⟩ := (hall _).1 rfl
      refine ⟨hlt, ?_⟩
      by_cases ho : inOrder
      · exact .inl ho
      · rw [if_neg ho] at heq
        exact .inr heq.symm
    · rintro ⟨hlt, ho⟩ x
      have heq : (if inOrder then (v &&& m).toUInt8 else v.toUInt8) = (v &&& m).toUInt8 := by
        split_ifs with hno
        · rfl
        · exact (ho.resolve_left hno).symm
      rw [heq, and_iff_right hlt, eq_comm]
  | masked =>
    simp only [toUInt32_and, toUInt32_eq_iff, hbyte]
    constructor
    · intro hall
      obtain ⟨hlt, heq⟩ := (hall _).1 rfl
      refine ⟨hlt, (byte_eq_iff _ _).1 fun x => eq_comm.trans ((hall x).trans ?_)⟩
      rw [heq, and_iff_right hlt]
    · rintro ⟨hlt, hm⟩ x
      rw [hm, and_255, and_255, ite_self, and_iff_right hlt, eq_comm]

/-! ### Numbers -/

/-- A number, cut to the width of its field. -/
def cut (z : ℤ) : NumField → ℕ
  | .spi => (UInt32.ofInt z).toNat
  | .proto | .type | .code => (UInt8.ofInt z).toNat

theorem cut_eq (z : ℤ) (f : NumField) : (cut z f : ℤ) = z % 2 ^ f.width := by
  have h8 : ((UInt8.ofInt z).toNat : ℤ) = z % 2 ^ 8 := by
    rw [UInt8.ofInt, UInt8.toNat_ofNat']
    omega
  have h32 : ((UInt32.ofInt z).toNat : ℤ) = z % 2 ^ 32 := by
    rw [UInt32.ofInt, UInt32.toNat_ofNat']
    omega
  cases f <;> first | exact h8 | exact h32

/-- **A number is right** if it fits. -/
theorem num_right (f : NumField) (v : ℤ) :
    (∀ x : Fin (2 ^ f.width), NumHolds f (cut v f) x ↔ NumHolds f v x) ↔ 0 ≤ v ∧ v < 2 ^ f.width := by
  have hpos : (0 : ℤ) < 2 ^ f.width := by positivity
  have hlt : (cut v f : ℤ) < 2 ^ f.width := (cut_eq v f).symm ▸ Int.emod_lt_of_pos v hpos
  constructor
  · intro hall
    by_contra hout
    have hne : ¬(f = .proto ∧ v = ipprotoTcpUdp.toNat) := by
      rintro ⟨rfl, rfl⟩
      exact hout ⟨by decide, by decide⟩
    have hno : ∀ x : Fin (2 ^ f.width), ¬NumHolds f v x := by
      intro x
      rw [NumHolds, if_neg hne]
      rintro rfl
      exact hout ⟨by omega, by exact_mod_cast x.isLt⟩
    by_cases hsplit : f = .proto ∧ (cut v f : ℤ) = ipprotoTcpUdp.toNat
    · obtain ⟨rfl, hcut⟩ := hsplit
      refine hno ⟨6, by decide⟩ ((hall _).1 ?_)
      rw [NumHolds, if_pos ⟨rfl, hcut⟩]
      exact .inl rfl
    · refine hno ⟨cut v f, by exact_mod_cast hlt⟩ ((hall _).1 ?_)
      rw [NumHolds, if_neg hsplit]
  · rintro ⟨hle, hfit⟩ x
    rw [cut_eq, Int.emod_eq_of_lt hle hfit]

/-! ### Ports -/

namespace PortAttrib

/-- What the element for a port does. -/
def setPort (a : PortAttrib) (z : ℤ) : PortAttrib := { a with port := UInt16.ofInt z }

/-- What the element for a range does. -/
def setRange (a : PortAttrib) (z : ℤ) : PortAttrib :=
  if z ≠ 0 then ⟨a.isPort, true, 0, a.port, UInt16.ofInt (a.port.toNat + z)⟩ else { a with isPort := true }

def zero : PortAttrib := ⟨false, false, 0, 0, 0⟩

end PortAttrib

theorem toNat_ofInt16 (z : ℤ) : ((UInt16.ofInt z).toNat : ℤ) = z % 65536 := by
  rw [UInt16.ofInt, UInt16.toNat_ofNat']
  omega

section

variable {a : PortAttrib} {p : ℤ} {range : Option ℤ} {inOrder : Prop} [Decidable inOrder]
  (ha : a = if inOrder then range.elim (PortAttrib.zero.setPort p) (PortAttrib.zero.setPort p).setRange
    else (range.elim PortAttrib.zero PortAttrib.zero.setRange).setPort p)
include ha

/-- A port alone is not compared. -/
theorem port_ok (x : UInt16) : a.Ok x ↔ ∀ r ∈ range, if r = 0 then UInt16.ofInt p = x else a.lo ≤ x ∧ x ≤ a.hi := by
  rw [ha]
  rcases range with - | r
  · simp [PortAttrib.Ok, PortAttrib.setPort, PortAttrib.zero]
  by_cases hr : r = 0 <;> by_cases ho : inOrder <;>
    simp [hr, ho, PortAttrib.Ok, PortAttrib.setPort, PortAttrib.setRange, PortAttrib.zero]

theorem exists_port (hright : RangeRight a p range) : ∃ x, a.Ok x := by
  by_cases hr : range = some 0
  · refine ⟨UInt16.ofInt p, (port_ok ha _).2 fun r hmem => ?_⟩
    rw [hr] at hmem
    cases hmem
    rw [if_pos rfl]
  · refine ⟨a.lo, (port_ok ha _).2 fun r hmem => ?_⟩
    have hne : r ≠ 0 := fun h => hr (h ▸ hmem)
    rw [if_neg hne]
    exact ⟨UInt16.le_refl _, (hright r hmem hne).1⟩

/-- **The ports of a direction are right** under the condition. -/
theorem port_right : ((∀ x, a.Ok x ↔ PortHolds p range x) ∧ RangeRight a p range) ↔ PortCond p range inOrder := by
  simp only [port_ok ha]
  rcases range with - | r
  · refine iff_of_false ?_ ?_
    · rintro ⟨hall, -⟩
      have h0 : p ≤ (0 : ℤ) ∧ (0 : ℤ) ≤ p + 0 := (hall 0).1 fun r hr => by cases hr
      have h1 : p ≤ (1 : ℤ) ∧ (1 : ℤ) ≤ p + 0 := (hall 1).1 fun r hr => by cases hr
      omega
    · rintro ⟨_, ⟨⟩, -⟩
  simp only [PortCond, mem_def, some.injEq, exists_eq_left', RangeRight, forall_eq', PortHolds,
    getD_some]
  rcases eq_or_ne r 0 with rfl | hr
  · simp only [if_true, true_or, and_true]
    have hp := toNat_ofInt16 p
    constructor
    · rintro ⟨hall, -⟩
      have hself := (hall (UInt16.ofInt p)).1 rfl
      have hlt := (UInt16.ofInt p).toNat_lt
      omega
    · rintro ⟨_, -, _⟩
      refine ⟨fun x => ?_, fun h => absurd rfl h⟩
      rw [← UInt16.toNat_inj]
      omega
  -- the range begins at the port that was read before it
  have hset : ∀ b : PortAttrib, b.setRange r = ⟨b.isPort, true, 0, b.port, UInt16.ofInt (b.port.toNat + r)⟩ :=
    fun b => if_pos hr
  have hlo : a.lo = UInt16.ofInt (if inOrder then p else 0) := by
    rw [ha]
    split_ifs <;> rw [elim_some, hset] <;> rfl
  have hhi : a.hi = UInt16.ofInt (a.lo.toNat + r) := by
    rw [hlo, ha]
    split_ifs <;> rw [elim_some, hset] <;> rfl
  have h1 := toNat_ofInt16 (if inOrder then p else 0)
  have h2 := toNat_ofInt16 (a.lo.toNat + r)
  rw [← hlo] at h1
  rw [← hhi] at h2
  simp only [if_neg hr, UInt16.le_iff_toNat_le]
  constructor
  · rintro ⟨-, hright⟩
    obtain ⟨_, _, _⟩ := hright hr
    split_ifs at h1 with ho <;> simp only [ho, or_true, or_false, and_true] <;> omega
  · rintro ⟨_, _, _, hq⟩
    have hq : (if inOrder then p else 0) = p := by
      split_ifs with ho
      · rfl
      · exact ((hq.resolve_left hr).resolve_right ho).symm
    rw [hq] at h1
    refine ⟨fun x => ?_, fun _ => ?_⟩
    · omega
    · omega

end

/-! ### Addresses -/

theorem agree_right (ip : IpType) (a m m' : Words ip) : (∀ x, Agree ip m x a ↔ Agree ip m' x a) ↔ m = m' := by
  have hwords : ∀ (ι : Type) (a m m' : ι → UInt32),
      (∀ x : ι → UInt32, (∀ i, x i &&& m i = a i &&& m i) ↔ ∀ i, x i &&& m' i = a i &&& m' i) ↔ m = m' := by
    intro ι a m m'
    have hbits : m = m' ↔ (fun i => (m i).toBitVec) = fun i => (m' i).toBitVec := by
      simp only [funext_iff, UInt32.toBitVec_inj]
    rw [hbits, ← masks_eq_iff fun i => (a i).toBitVec]
    simp only [← UInt32.toBitVec_inj, UInt32.toBitVec_and]
    exact ⟨fun h x => h fun i => ⟨x i⟩, fun h x => h fun i => (x i).toBitVec⟩
  cases ip <;> exact hwords _ a m m'

theorem maskV6_iff : ∀ n < 32, (maskV6 n).getD 0 = topBits n ↔ n % 4 = 0 := by
  decide

/-- **The mask of a prefix.** -/
theorem prefixMask_iff {z : ℤ} (hz : 0 ≤ z ∧ z ≤ 128) : prefixMask z (fun _ => 0) = routeMask z.toNat ↔ z % 4 = 0 := by
  obtain ⟨n, rfl⟩ := Int.eq_ofNat_of_zero_le hz.1
  have hword : ∀ k : Fin 4, prefixMask n (fun _ => 0) k =
      if 32 ≤ n - 32 * k.val then 0xffffffff else (maskV6 (n - 32 * k.val)).getD 0 := by
    intro k
    rw [prefixMask, if_neg (by omega), Int.toNat_natCast, maskWords_word]
  have hfull : ∀ m, 32 ≤ m → topBits m = 0xffffffff := by
    intro m hm
    rw [topBits, Nat.sub_eq_zero_of_le hm]
    rfl
  rw [Int.toNat_natCast]
  constructor
  · intro heq
    by_contra hrest
    have hk := congrFun heq ⟨n / 32, by omega⟩
    rw [hword, routeMask] at hk
    dsimp only at hk
    rw [if_neg (by omega), maskV6_iff _ (by omega)] at hk
    omega
  · intro _
    funext k
    rw [hword, routeMask]
    by_cases hm : 32 ≤ n - 32 * k.val
    · rw [if_pos hm, hfull _ hm]
    · rw [if_neg hm, maskV6_iff _ (by omega)]
      omega

/-! ### What the elements write -/

/-- What the element for a mask writes. -/
def XmlLib.maskWritten (lib : XmlLib) : (ip : IpType) → List Char → Words ip → Words ip
  | .v4, text, _ => fun _ => lib.inetAddr (terminated text)
  | .v6, text, m => prefixMask (lib.atoi text) m

/-- Each part of an entry is written by its own elements. -/
structure Parts (lib : XmlLib) (ip : IpType) (tag : FwTag) (text : List Char) (e e' : FirewallEntry) : Prop where
  ipVsn : e'.ipVsn = if tag = .ipFamily then lib.atoi text else e.ipVsn
  isTos : e'.attrib.isTos ip = if tag = tosFlagTag ip then true else e.attrib.isTos ip
  tosOf : e'.attrib.tosOf ip = if tag = tosTag ip then UInt8.ofInt (lib.atoi text)
    else if tag = tosMaskTag ip then e.attrib.tosOf ip &&& UInt8.ofInt (lib.atoi text) else e.attrib.tosOf ip
  nums : ∀ f, e'.attrib.nums ip f = if tag = numTag ip f then ⟨true, cut (lib.atoi text) f⟩ else e.attrib.nums ip f
  isAddr : ∀ dir, (e'.attrib.addrs ip dir).isAddr =
    if tag = addrFlagTag ip dir then true else (e.attrib.addrs ip dir).isAddr
  addr : ∀ dir, (e'.attrib.addrs ip dir).addr =
    if tag = addrTag ip dir then lib.addr ip text else (e.attrib.addrs ip dir).addr
  mask : ∀ dir, (e'.attrib.addrs ip dir).mask =
    if tag = addrMaskTag ip dir then lib.maskWritten ip text (e.attrib.addrs ip dir).mask
    else (e.attrib.addrs ip dir).mask
  ports : ∀ dir, e'.attrib.ports dir = if tag = portTag dir then (e.attrib.ports dir).setPort (lib.atoi text)
      else if tag = rangeTag dir then (e.attrib.ports dir).setRange (lib.atoi text) else e.attrib.ports dir

section

variable {lib : XmlLib} {tag : FwTag} (ip : IpType) (text : List Char) (e : FirewallEntry)

def setAddr6 (e : FirewallEntry) (w : Ipv6Addr) : Dir → FirewallEntry
  | .src => { e with attrib := { e.attrib with v6 := { e.attrib.v6 with srcAddr := w } } }
  | .dst => { e with attrib := { e.attrib with v6 := { e.attrib.v6 with dstAddr := w } } }

theorem parts_addr6 (dir : Dir) {w : Ipv6Addr} (hw : w = lib.addr .v6 text) :
    Parts lib ip (addrTag .v6 dir) text e (setAddr6 e w dir) := by
  cases dir <;> cases ip <;> constructor <;> first | rfl | (intro x; cases x <;> first | exact hw | rfl)

theorem parts_range (dir : Dir) : Parts lib ip (rangeTag dir) text e ((rangeTag dir).write lib text e) := by
  have hsrc : FwTag.write lib .tcpSourceRange text e = { e with attrib := e.attrib.srcRange (lib.atoi text) } := rfl
  have hdst : FwTag.write lib .tcpDestinationRange text e = { e with attrib := e.attrib.dstRange (lib.atoi text) } := rfl
  cases dir <;> simp only [rangeTag, hsrc, hdst, RuleAttrib.srcRange, RuleAttrib.dstRange] <;>
    split <;> rename_i hz <;> cases ip <;> constructor <;>
    first | rfl | (intro x; cases x <;> first | rfl | exact (if_pos hz).symm | exact (if_neg hz).symm)

/-- **What an element writes.** -/
theorem parts_write (hkey : tag.key = tag) (hown : tag ∉ familyTags ip.other) :
    Parts lib ip tag text e (tag.write lib text e) := by
  cases tag
  case ipv6SourceIPAddress => exact parts_addr6 ip text e .src rfl
  case ipv6DestinationIPAddress => exact parts_addr6 ip text e .dst rfl
  case tcpSourceRange => exact parts_range ip text e .src
  case tcpDestinationRange => exact parts_range ip text e .dst
  all_goals first
    | (cases hkey; done)
    | (cases ip <;> first
        | exact (hown (by decide)).elim
        | (constructor <;> first | rfl | (intro x; cases x <;> rfl)))

end

/-! ### The entry of an element -/

/-- The entries of a table that was cleared. -/
def zeroEntry : FirewallEntry := ⟨zeroAttrib, 0⟩

/-- The entry that some elements make. -/
def made (lib : XmlLib) (l : List (FwTag × List Char)) : FirewallEntry := writes (FwTag.write lib) l zeroEntry

def noBits : (ip : IpType) → Words ip
  | .v4 | .v6 => fun _ => 0

theorem num_lt (a : RuleAttrib) (ip : IpType) (f : NumField) : (a.nums ip f).num < 2 ^ f.width := by
  cases ip <;> cases f <;> first | exact UInt8.toNat_lt _ | exact UInt32.toNat_lt _

theorem agree_noBits (ip : IpType) (x a : Words ip) : Agree ip (noBits ip) x a := by
  cases ip <;> intro i <;> exact UInt32.and_zero.trans UInt32.and_zero.symm

section

variable {lib : XmlLib} {ip : IpType} {l : List (FwTag × List Char)} {reading : TosReading}
  (hkey : ∀ i ∈ l, i.1.key = i.1) (hw : WellFormed lib ip l)

include hw in
theorem lookup_none_of_belongs {t u : FwTag} (h : (t, u) ∈ belongs ip) (hu : l.lookup u = none) : l.lookup t = none := by
  apply lookup_eq_none
  intro ht
  have hsome := lookup_isSome.2 (hw.belongs _ h ht)
  rw [hu] at hsome
  cases hsome

include hkey hw

theorem parts_of_mem {i : FwTag × List Char} (hi : i ∈ l) (e : FirewallEntry) :
    Parts lib ip i.1 i.2 e (i.1.write lib i.2 e) :=
  parts_write ip i.2 e (hkey i hi) fun hmem => hw.own _ hmem (mem_map_of_mem hi)

theorem right_tos : (∀ x, (made lib l).attrib.Ok ip .tos x ↔ Says lib ip l reading .tos x) ↔
    FwCond lib ip l reading .tos := by
  classical
  have hflag := view_writes (fun e : FirewallEntry => e.attrib.isTos ip) (g := fun _ _ => true)
    (fun i hi e => (parts_of_mem hkey hw hi e).isTos) hw.nodup zeroEntry
  have hval := view_writes_pair (fun e : FirewallEntry => e.attrib.tosOf ip) (g := fun text _ => UInt8.ofInt (lib.atoi text))
    (h := fun text t => t &&& UInt8.ofInt (lib.atoi text)) (fun i hi e => (parts_of_mem hkey hw hi e).tosOf)
    (by cases ip <;> decide) hw.nodup zeroEntry
  have hzero : zeroEntry.attrib.isTos ip = false ∧ zeroEntry.attrib.tosOf ip = 0 := by cases ip <;> exact ⟨rfl, rfl⟩
  have hnone := lookup_none_of_belongs hw (t := tosTag ip) (u := tosFlagTag ip) (by simp [belongs])
  have hmask := lookup_none_of_belongs hw (t := tosMaskTag ip) (u := tosTag ip) (by simp [belongs])
  rw [hzero.1] at hflag
  rw [hzero.2] at hval
  simp only [RuleAttrib.Ok, Says, FwCond, intOf, made, hflag, hval, ← lookup_isSome]
  rcases hf : l.lookup (tosFlagTag ip) with - | f
  · simp [hnone hf]
  rcases hv : l.lookup (tosTag ip) with - | v
  · rw [hmask hv]
    refine iff_of_false (fun hall => ?_) ?_
    · simpa using (hall 1).2
    · simp
  simp only [map_some, mem_def, some.injEq, forall_eq', isSome_some, true_imp_iff,
    exists_eq_left', elim_some]
  rw [← tos_right]
  rcases l.lookup (tosMaskTag ip) with - | m
  · simp only [elim_none, map_none, id, and_255]
  · rfl

theorem right_num (f : NumField) :
    (∀ x, (made lib l).attrib.Ok ip (.num f) x ↔ Says lib ip l reading (.num f) x) ↔
      FwCond lib ip l reading (.num f) := by
  have hnum := view_writes (fun e : FirewallEntry => e.attrib.nums ip f)
    (g := fun text _ => ⟨true, cut (lib.atoi text) f⟩) (fun i hi e => (parts_of_mem hkey hw hi e).nums f) hw.nodup zeroEntry
  have hzero : (zeroEntry.attrib.nums ip f).isNum = false := by cases ip <;> cases f <;> rfl
  simp only [RuleAttrib.Ok, Says, FwCond, intOf, made, hnum]
  rcases l.lookup (numTag ip f) with - | text
  · simp [hzero]
  · simp only [map_some, mem_def, some.injEq, forall_eq', elim_some, true_imp_iff]
    exact num_right f _

/-- What is left of the ports of a direction, if they are given. -/
theorem ports_made (dir : Dir) [Decidable (Before (portTag dir) (rangeTag dir) l)] :
    (intOf lib l (portTag dir)).elim ((made lib l).attrib.ports dir = .zero) fun p =>
      (made lib l).attrib.ports dir = if Before (portTag dir) (rangeTag dir) l then
        (intOf lib l (rangeTag dir)).elim (PortAttrib.zero.setPort p) (PortAttrib.zero.setPort p).setRange
      else ((intOf lib l (rangeTag dir)).elim PortAttrib.zero PortAttrib.zero.setRange).setPort p := by
  have hval := view_writes_pair (fun e : FirewallEntry => e.attrib.ports dir)
    (g := fun text a => a.setPort (lib.atoi text)) (h := fun text a => a.setRange (lib.atoi text))
    (fun i hi e => (parts_of_mem hkey hw hi e).ports dir) (by cases dir <;> decide) hw.nodup zeroEntry
  have hzero : zeroEntry.attrib.ports dir = .zero := by cases dir <;> rfl
  have hrange := lookup_none_of_belongs hw (t := rangeTag dir) (u := portTag dir) (by cases dir <;> simp [belongs])
  rw [hzero] at hval
  rw [made, hval, intOf, intOf]
  rcases hp : l.lookup (portTag dir) with - | p
  · rw [hrange hp]
    simp
  · rcases l.lookup (rangeTag dir) with - | r
    · simp
    · simp

theorem right_port (dir : Dir) :
    (∀ x, (made lib l).attrib.Ok ip (.port dir) x ↔ Says lib ip l reading (.port dir) x) ∧
      (∀ p ∈ intOf lib l (portTag dir),
        RangeRight ((made lib l).attrib.ports dir) p (intOf lib l (rangeTag dir))) ↔
      FwCond lib ip l reading (.port dir) := by
  classical
  have hports := ports_made hkey hw dir
  simp only [RuleAttrib.Ok, Says, FwCond]
  rcases hp : intOf lib l (portTag dir) with - | p <;> rw [hp] at hports
  · rw [elim_none] at hports
    rw [hports]
    simp [PortAttrib.Ok, PortAttrib.zero]
  · simp only [mem_def, some.injEq, forall_eq']
    exact port_right hports

theorem right_addr (dir : Dir) :
    (∀ x, (made lib l).attrib.Ok ip (.addr dir) x ↔ Says lib ip l reading (.addr dir) x) ↔
      FwCond lib ip l reading (.addr dir) := by
  have hflag := view_writes (fun e : FirewallEntry => (e.attrib.addrs ip dir).isAddr) (g := fun _ _ => true)
    (fun i hi e => (parts_of_mem hkey hw hi e).isAddr dir) hw.nodup zeroEntry
  have haddr := view_writes (fun e : FirewallEntry => (e.attrib.addrs ip dir).addr) (g := fun text _ => lib.addr ip text)
    (fun i hi e => (parts_of_mem hkey hw hi e).addr dir) hw.nodup zeroEntry
  have hmask := view_writes (fun e : FirewallEntry => (e.attrib.addrs ip dir).mask) (g := fun text m => lib.maskWritten ip text m)
    (fun i hi e => (parts_of_mem hkey hw hi e).mask dir) hw.nodup zeroEntry
  have hzero : (zeroEntry.attrib.addrs ip dir).isAddr = false ∧ (zeroEntry.attrib.addrs ip dir).mask = noBits ip := by
    cases ip <;> cases dir <;> exact ⟨rfl, rfl⟩
  have hall := lookup_none_of_belongs hw (t := addrTag ip dir) (u := addrFlagTag ip dir) (by cases dir <;> simp [belongs])
  have hno := lookup_none_of_belongs hw (t := addrMaskTag ip dir) (u := addrTag ip dir) (by cases dir <;> simp [belongs])
  rw [hzero.1] at hflag
  rw [hzero.2] at hmask
  simp only [RuleAttrib.Ok, Says, FwCond, made, hflag, haddr, hmask, ← lookup_isSome]
  rcases ha : l.lookup (addrTag ip dir) with - | a
  · rw [hno ha]
    simp only [elim_none, id, agree_noBits]
    simp
  rcases hf : l.lookup (addrFlagTag ip dir) with - | f
  · rw [hall hf] at ha
    cases ha
  simp only [mem_def, some.injEq, forall_eq', elim_some, isSome_some, true_imp_iff]
  rw [agree_right]
  rcases hm : l.lookup (addrMaskTag ip dir) with - | m
  · refine iff_of_false (fun heq => ?_) (by rintro ⟨_, ⟨⟩, -⟩)
    have hword : (0 : UInt32) = 0xffffffff := by cases ip <;> exact congrFun heq 0
    exact absurd hword (by decide)
  cases ip with
  | v4 => exact iff_of_true rfl ⟨m, rfl, fun h => by cases h⟩
  | v6 =>
    simp only [some.injEq, exists_eq_left', true_imp_iff]
    exact prefixMask_iff (hw.len rfl dir _ (by rw [intOf, hm]; rfl))

/-- **A field of the entry is right** under its condition. -/
theorem right_iff (f : FwField) : ((∀ x, (made lib l).attrib.Ok ip f x ↔ Says lib ip l reading f x) ∧
      ∀ dir, f = .port dir → ∀ p ∈ intOf lib l (portTag dir),
        RangeRight ((made lib l).attrib.ports dir) p (intOf lib l (rangeTag dir))) ↔ FwCond lib ip l reading f := by
  rcases f with - | f | dir | dir
  · exact (and_iff_left fun _ h => by cases h).trans (right_tos hkey hw)
  · exact (and_iff_left fun _ h => by cases h).trans (right_num hkey hw f)
  · exact (and_iff_left fun _ h => by cases h).trans (right_addr hkey hw dir)
  · refine Iff.trans (and_congr_right' ?_) (right_port hkey hw dir)
    exact ⟨fun h => h dir rfl, fun h dir' heq => by cases heq; exact h⟩

/-- Every field of the entry has a value that passes. -/
theorem exists_ok (hranges : ∀ dir, ∀ p ∈ intOf lib l (portTag dir),
      RangeRight ((made lib l).attrib.ports dir) p (intOf lib l (rangeTag dir))) (f : FwField) :
    ∃ x, (made lib l).attrib.Ok ip f x := by
  classical
  rcases f with - | f | dir | dir
  · exact ⟨(made lib l).attrib.tosOf ip, fun _ => rfl⟩
  · by_cases hsplit : f = .proto ∧ (((made lib l).attrib.nums ip f).num : ℤ) = ipprotoTcpUdp.toNat
    · obtain ⟨rfl, hnum⟩ := hsplit
      refine ⟨⟨6, by decide⟩, fun _ => ?_⟩
      rw [NumHolds, if_pos ⟨rfl, hnum⟩]
      exact .inl rfl
    · refine ⟨⟨_, num_lt (made lib l).attrib ip f⟩, fun _ => ?_⟩
      rw [NumHolds, if_neg hsplit]
  · exact ⟨((made lib l).attrib.addrs ip dir).addr, fun _ => by cases ip <;> exact fun _ => rfl⟩
  · have hports := ports_made hkey hw dir
    have hright := hranges dir
    rcases hp : intOf lib l (portTag dir) with - | p
    · rw [hp, elim_none] at hports
      refine ⟨0, ?_⟩
      rw [RuleAttrib.Ok, hports]
      simp [PortAttrib.Ok, PortAttrib.zero]
    · rw [hp] at hports
      exact exists_port hports (hright p hp)

theorem faithful_made_iff : Faithful lib ip l reading (made lib l) ↔ ∀ f, FwCond lib ip l reading f := by
  have hvsn := view_writes (fun e : FirewallEntry => e.ipVsn) (g := fun text _ => lib.atoi text)
    (fun i hi e => (parts_of_mem hkey hw hi e).ipVsn) hw.nodup zeroEntry
  have hfamily : (made lib l).ipVsn = ipVersion ip := by
    have h := hw.family
    rw [intOf] at h
    obtain ⟨text, htext, hval⟩ := map_eq_some_iff.1 h
    rw [made, hvsn, htext]
    exact hval
  have hdenotes : (∀ p, entryMatches ip (made lib l) p = true ↔ Describes lib ip l reading p) ↔
      ∀ x : (f : FwField) → f.Val ip, (∀ f, (made lib l).attrib.Ok ip f (x f)) ↔ ∀ f, Says lib ip l reading f (x f) := by
    simp only [entryMatches_iff, Describes]
    constructor
    · intro h x
      have hx := h (packetOf ip x)
      simp only [val_packetOf] at hx
      exact hx
    · exact fun h p => h (p.val ip)
  simp only [← right_iff hkey hw]
  constructor
  · intro h f
    have hfields := (pi_iff (exists_ok hkey hw h.ranges)).1 (hdenotes.1 h.denotes)
    exact ⟨hfields f, fun dir _ => h.ranges dir⟩
  · intro h
    have hranges := fun dir => (h (.port dir)).2 dir rfl
    exact ⟨hfamily, hdenotes.2 ((pi_iff (exists_ok hkey hw hranges)).2 fun f => (h f).1), hranges⟩

end

/-! ### Documents -/

section

variable {lib : XmlLib} {t : XmlTree} {c c' : FirewallXml} {k : ℕ} {l : List (FwTag × List Char)}
  (hrun : ipacmFirewallXmlParseTree lib t c = some c')
  (hroom : c.num.toNat + (fwVisits t).countP beginsEntry ≤ maxFirewallEntries)
  (hzero : c.extdFirewall.entries[k]? = some zeroEntry) (hl : entryItems lib k c.num.toNat (fwVisits t) = l)
include hrun hroom hzero hl

theorem entry_made : c'.extdFirewall.entries[k]? = some (made lib l) := by
  rw [fwParse_eq_foldlM] at hrun
  rw [entry_foldlM hrun k hroom, hzero, hl]
  rfl

/-- **Firewall rule fidelity.**  The entry of a `Firewall` element denotes exactly the packets that the element
describes if and only if its elements meet the condition. -/
theorem firewall_fidelity {ip : IpType} (hw : WellFormed lib ip l) (reading : TosReading) :
    ∃ e, c'.extdFirewall.entries[k]? = some e ∧
      (Faithful lib ip l reading e ↔ ∀ f, FwCond lib ip l reading f) :=
  ⟨_, entry_made hrun hroom hzero hl, faithful_made_iff (fun _ hi => key_of_mem_entryItems (hl.symm ▸ hi)) hw⟩

end

/-- An element with its children, and what comes after it. -/
def elementNode (tag : FwTag) (children next : XmlTree) : XmlTree := .node (.element tag.text.toList) children next

/-- A `Firewall` element for IPv4. -/
def firewallDoc (t : XmlTree) : XmlTree :=
  elementNode .firewall (elementNode .ipFamily (.node (.text ['4']) .nil .nil) t) .nil

/-- The port 80, and what comes after it. -/
def portDoc (range : XmlTree) : XmlTree :=
  firewallDoc (elementNode .tcpDestination
    (elementNode .tcpDestinationPort (.node (.text ['8', '0']) .nil .nil) range) .nil)

/-- An address without a mask. -/
def addressDoc : XmlTree :=
  firewallDoc (elementNode .ipv4SourceAddress
    (elementNode .ipv4SourceIPAddress (.node (.text "10.0.0.1".toList) .nil .nil) .nil) .nil)

/-- Texts with decimal digits only, and one address. -/
def decimalLib : XmlLib where
  atoi buf := buf.foldl (fun n c => 10 * n + (c.toNat - 48 : ℕ)) 0
  inetAddr _ := 0x0a000001
  inetPton _ _ := 0

/-- The ports from 80 to 89. -/
def rangeDoc : XmlTree := portDoc (elementNode .tcpDestinationRange (.node (.text ['9']) .nil .nil) .nil)

theorem firewall_fidelity_range : ∃ c' e, ipacmFirewallXmlParseTree decimalLib rangeDoc zeroFirewall = some c' ∧
    c'.extdFirewall.entries[0]? = some e ∧ Faithful decimalLib .v4
      [(.ipFamily, ['4']), (.tcpDestinationPort, ['8', '0']), (.tcpDestinationRange, ['9'])] .whole e := by
  have hsome : (ipacmFirewallXmlParseTree decimalLib rangeDoc zeroFirewall).isSome = true := by decide
  obtain ⟨c', hrun⟩ := isSome_iff_exists.1 hsome
  have hwell : WellFormed decimalLib .v4
      [(.ipFamily, ['4']), (.tcpDestinationPort, ['8', '0']), (.tcpDestinationRange, ['9'])] :=
    ⟨by decide, by decide, by decide, by decide, fun h => by cases h⟩
  obtain ⟨e, he, hiff⟩ := firewall_fidelity (k := 0) hrun (by decide) rfl (by decide) hwell .whole
  refine ⟨c', e, hrun, he, hiff.2 ?_⟩
  rintro (- | f | dir | dir)
  · exact fun h => absurd h (by decide)
  · cases f <;> rintro _ ⟨⟩
  · cases dir <;> exact fun h => absurd h (by decide)
  · cases dir
    · rintro _ ⟨⟩
    · rintro _ ⟨⟩
      exact ⟨9, rfl, by decide, by decide, by decide, .inr (.inr ((List.Sublist.refl _).cons _))⟩

/-- A port alone, or an address without a mask: the entry says nothing about the field. -/
theorem firewall_fidelity_fails : ∃ c1 c2 e1 e2,
    ipacmFirewallXmlParseTree decimalLib (portDoc .nil) zeroFirewall = some c1 ∧
    ipacmFirewallXmlParseTree decimalLib addressDoc zeroFirewall = some c2 ∧
    c1.extdFirewall.entries[0]? = some e1 ∧ c2.extdFirewall.entries[0]? = some e2 ∧ ∀ reading,
      ¬Faithful decimalLib .v4 [(.ipFamily, ['4']), (.tcpDestinationPort, ['8', '0'])] reading e1 ∧
      ¬Faithful decimalLib .v4
        [(.ipFamily, ['4']), (.ipv4SourceAddress, []), (.ipv4SourceIPAddress, "10.0.0.1".toList)] reading e2 := by
  have hsome1 : (ipacmFirewallXmlParseTree decimalLib (portDoc .nil) zeroFirewall).isSome = true := by decide
  have hsome2 : (ipacmFirewallXmlParseTree decimalLib addressDoc zeroFirewall).isSome = true := by decide
  obtain ⟨c1, hrun1⟩ := isSome_iff_exists.1 hsome1
  obtain ⟨c2, hrun2⟩ := isSome_iff_exists.1 hsome2
  refine ⟨c1, c2, made _ [(.ipFamily, ['4']), (.tcpDestinationPort, ['8', '0'])],
    made _ [(.ipFamily, ['4']), (.ipv4SourceAddress, []), (.ipv4SourceIPAddress, "10.0.0.1".toList)], hrun1, hrun2,
    entry_made hrun1 (by decide) rfl (by decide), entry_made hrun2 (by decide) rfl (by decide), fun reading => ⟨?_, ?_⟩⟩
  · rw [faithful_made_iff (by decide) ⟨by decide, by decide, by decide, by decide, fun h => by cases h⟩]
    intro h
    obtain ⟨_, ⟨⟩, -⟩ := h (.port .dst) 80 rfl
  · rw [faithful_made_iff (by decide) ⟨by decide, by decide, by decide, by decide, fun h => by cases h⟩]
    intro h
    obtain ⟨_, ⟨⟩, -⟩ := h (.addr .src) (by decide)

end G4Common.Ipacm
