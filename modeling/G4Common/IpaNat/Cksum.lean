/-
What the checksum differences of a rule are for.

A rule stores two differences, of the public and the private address, and of both with their ports.  The sum of a packet
with the private words and the difference together are the sum of the packet with the public words
(`cksum_deltas`).  The functions add in 32 bits and fold the carry after each sum; the sums are below `2 ^ 17`
(`calcIpCksumChecked_eq`, `calcTcpUdpCksumChecked_eq`).
-/
import G4Common.IpaNat.Types
import G4Common.Lib.OnesComplement

namespace G4Common.IpaNat

open OnesComplement Option

variable {c w : UInt32}

/-! ### Sums that are checked -/

/-- `a + b` in 32 bits; fails on overflow. -/
def addChecked (a b : UInt32) : Option UInt32 := if a.toNat + b.toNat < 2 ^ 32 then some (a + b) else none

def foldCarryChecked (cksum : UInt32) : Option UInt32 :=
  if cksum >>> 16 ≠ 0 then addChecked (cksum &&& 0xFFFF) 1 else some cksum

/-- `ipa_nati_calc_ip_cksum()` with checked sums. -/
def ipaNatiCalcIpCksumChecked (pubIpAddr privIpAddr : UInt32) : Option UInt16 := do
  let cksum ← addChecked 0 (pubIpAddr &&& 0xFFFF)
  let cksum ← foldCarryChecked (← addChecked cksum (pubIpAddr >>> 16))
  let privIpAddr := ~~~privIpAddr
  let cksum ← foldCarryChecked (← addChecked cksum (privIpAddr &&& 0xFFFF))
  let cksum ← foldCarryChecked (← addChecked cksum (privIpAddr >>> 16))
  return cksum.toUInt16

/-- `ipa_nati_calc_tcp_udp_cksum()` with checked sums. -/
def ipaNatiCalcTcpUdpCksumChecked (pubIpAddr : UInt32) (pubPort : UInt16) (privIpAddr : UInt32) (privPort : UInt16) :
    Option UInt16 := do
  let cksum ← addChecked 0 (pubIpAddr &&& 0xFFFF)
  let cksum ← foldCarryChecked (← addChecked cksum (pubIpAddr >>> 16))
  let cksum ← foldCarryChecked (← addChecked cksum pubPort.toUInt32)
  let privIpAddr := ~~~privIpAddr
  let cksum ← foldCarryChecked (← addChecked cksum (privIpAddr &&& 0xFFFF))
  let cksum ← foldCarryChecked (← addChecked cksum (privIpAddr >>> 16))
  let privPort := ~~~privPort
  let cksum ← foldCarryChecked (← addChecked cksum privPort.toUInt32)
  return cksum.toUInt16

/-! ### Words -/

def ipWords (ip : UInt32) : List ℕ := [ip.toNat % 65536, ip.toNat / 65536]

theorem toNat_low (ip : UInt32) : (ip &&& 0xFFFF).toNat = ip.toNat % 65536 := by
  rw [UInt32.toNat_and]
  exact Nat.and_two_pow_sub_one_eq_mod _ 16

theorem toNat_high (ip : UInt32) : (ip >>> 16).toNat = ip.toNat / 65536 := by
  rw [UInt32.toNat_shiftRight]
  exact Nat.shiftRight_eq_div_pow _ 16

theorem toNat_not (ip : UInt32) : (~~~ip).toNat = 4294967295 - ip.toNat := UInt32.toNat_not ip

theorem toNat_not16 (port : UInt16) : (~~~port).toNat = 65535 - port.toNat := UInt16.toNat_not port

theorem low_not (ip : UInt32) : (~~~ip &&& 0xFFFF).toNat = 65535 - ip.toNat % 65536 := by
  have hip := ip.toNat_lt
  rw [toNat_low, toNat_not]
  omega

theorem high_not (ip : UInt32) : (~~~ip >>> 16).toNat = 65535 - ip.toNat / 65536 := by
  have hip := ip.toNat_lt
  rw [toNat_high, toNat_not]
  omega

/-! ### One sum -/

theorem addChecked_eq (h : c.toNat + w.toNat < 2 ^ 32) :
    addChecked c w = some (c + w) ∧ (c + w).toNat = c.toNat + w.toNat := by
  refine ⟨if_pos h, ?_⟩
  rw [UInt32.toNat_add]
  exact Nat.mod_eq_of_lt h

theorem foldCarry_eq (hc : c.toNat ≤ 131070) : foldCarryChecked c = some (foldCarry c)
      ∧ (foldCarry c).toNat = if c.toNat ≤ 65535 then c.toNat else c.toNat - 65535 := by
  have hhigh : c >>> 16 ≠ 0 ↔ 65535 < c.toNat := by
    rw [ne_eq, ← UInt32.toNat_inj, toNat_high]
    show ¬ c.toNat / 65536 = 0 ↔ _
    omega
  rw [foldCarryChecked, foldCarry]
  by_cases h : c.toNat ≤ 65535
  · have hz : ¬ c >>> 16 ≠ 0 := fun hne => absurd (hhigh.mp hne) (by omega)
    rw [if_neg hz, if_neg hz, if_pos h]
    exact ⟨rfl, rfl⟩
  rw [if_pos (hhigh.mpr (by omega)), if_pos (hhigh.mpr (by omega)), if_neg h]
  have hlow := toNat_low c
  have hone : (1 : UInt32).toNat = 1 := rfl
  obtain ⟨hadd, _⟩ := addChecked_eq (c := c &&& 0xFFFF) (w := 1) (by omega)
  exact ⟨hadd, by omega⟩

theorem add_foldCarry (hc : c.toNat ≤ 65535) (hw : w.toNat ≤ 65535) :
    addChecked c w = some (c + w) ∧ foldCarryChecked (c + w) = some (foldCarry (c + w))
      ∧ (foldCarry (c + w)).toNat = add 65535 c.toNat w.toNat ∧ (foldCarry (c + w)).toNat ≤ 65535 := by
  obtain ⟨hadd, hval⟩ := addChecked_eq (c := c) (w := w) (by omega)
  obtain ⟨hfold, hfval⟩ := foldCarry_eq (c := c + w) (by omega)
  have hsum : (foldCarry (c + w)).toNat = add 65535 c.toNat w.toNat := by rw [hfval, hval, add]
  exact ⟨hadd, hfold, hsum, hsum ▸ add_le hc hw⟩

/-! ### The differences -/

/-- The difference of the words `new` and `old`: it takes the sum of a packet with `old` to the sum with `new`. -/
def IsDelta (d : UInt16) (new old : List ℕ) : Prop :=
  (d.toNat : ℤ) ≡ new.sum - old.sum [ZMOD 65535] ∧
    ∀ p p' rest : List ℕ, (∀ x ∈ p, x ≤ 65535) → (∀ x ∈ p', x ≤ 65535) → p.Perm (old ++ rest) → p'.Perm (new ++ rest) →
      Same 65535 (add 65535 (sum 65535 p) d.toNat) (sum 65535 p')

theorem isDelta_of_modEq {d : UInt16} {new old : List ℕ} (h : d.toNat + old.sum ≡ new.sum [MOD 65535]) : IsDelta d new old := by
  constructor
  · have hz := Int.natCast_modEq_iff.mpr h
    rw [Nat.cast_add] at hz
    have hsub := hz.sub_right (old.sum : ℤ)
    rwa [add_sub_cancel_right] at hsub
  · intro p _ _ hp hp' hold hnew
    exact sum_update hp hp' (Nat.le_of_lt_succ d.toNat_lt) hold hnew h

theorem add_not_modEq {s x y : ℕ} (hx : x ≤ 65535) (h : s ≡ y [MOD 65535]) : add 65535 s (65535 - x) + x ≡ y [MOD 65535] := by
  calc add 65535 s (65535 - x) + x ≡ s + (65535 - x) + x [MOD 65535] := (add_modEq 65535 _ _).add_right x
    _ = s + 65535 := by omega
    _ ≡ s [MOD 65535] := Nat.add_modEq_right
    _ ≡ y [MOD 65535] := h

theorem toNat_toUInt16 (hc : c.toNat ≤ 65535) : c.toUInt16.toNat = c.toNat := by
  rw [UInt32.toNat_toUInt16]
  exact Nat.mod_eq_of_lt (by omega)

theorem low_le (ip : UInt32) : (ip &&& 0xFFFF).toNat ≤ 65535 := by
  rw [toNat_low]
  omega

theorem high_le (ip : UInt32) : (ip >>> 16).toNat ≤ 65535 := by
  have hip := ip.toNat_lt
  rw [toNat_high]
  omega

theorem addChecked_zero (hc : c.toNat ≤ 65535) : addChecked 0 c = some c := by
  have hz : (0 : UInt32).toNat = 0 := rfl
  obtain ⟨hadd, -⟩ := addChecked_eq (c := 0) (w := c) (by omega)
  rw [hadd, UInt32.zero_add]

theorem ipWords_sum (ip : UInt32) : (ipWords ip).sum = (ip &&& 0xFFFF).toNat + (ip >>> 16).toNat := by
  rw [toNat_low, toNat_high]
  simp [ipWords]

/-- The sum after the words of the public address. -/
def addIp (ip : UInt32) : UInt32 := foldCarry ((ip &&& 0xFFFF : UInt32) + (ip >>> 16))

/-- The sum after the complements of the words of the private address. -/
def subIp (c ip : UInt32) : UInt32 := foldCarry (foldCarry (c + (~~~ip &&& 0xFFFF : UInt32)) + (~~~ip >>> 16))

theorem addIp_spec (ip : UInt32) : (addIp ip).toNat ≡ (ipWords ip).sum [MOD 65535] ∧ (addIp ip).toNat ≤ 65535 := by
  obtain ⟨-, -, hval, hle⟩ := add_foldCarry (low_le ip) (high_le ip)
  refine ⟨?_, hle⟩
  rw [addIp, hval, ipWords_sum]
  exact add_modEq 65535 _ _

theorem subIp_spec (hc : c.toNat ≤ 65535) (ip : UInt32) :
    (subIp c ip).toNat + (ipWords ip).sum ≡ c.toNat [MOD 65535] ∧ (subIp c ip).toNat ≤ 65535 := by
  have hip := ip.toNat_lt
  obtain ⟨-, -, hlow, hle⟩ := add_foldCarry hc (low_le (~~~ip))
  obtain ⟨-, -, hhigh, hle'⟩ := add_foldCarry hle (high_le (~~~ip))
  refine ⟨?_, hle'⟩
  rw [low_not] at hlow
  rw [high_not] at hhigh
  have h1 : (foldCarry (c + (~~~ip &&& 0xFFFF))).toNat + ip.toNat % 65536 ≡ c.toNat [MOD 65535] := by
    rw [hlow]
    exact add_not_modEq (by omega) rfl
  have h2 : (subIp c ip).toNat + ip.toNat / 65536 ≡ (foldCarry (c + (~~~ip &&& 0xFFFF))).toNat [MOD 65535] := by
    rw [subIp, hhigh]
    exact add_not_modEq (by omega) rfl
  calc (subIp c ip).toNat + (ipWords ip).sum
      = ((subIp c ip).toNat + ip.toNat / 65536) + ip.toNat % 65536 := by simp [ipWords]; omega
    _ ≡ (foldCarry (c + (~~~ip &&& 0xFFFF))).toNat + ip.toNat % 65536 [MOD 65535] := h2.add_right _
    _ ≡ c.toNat [MOD 65535] := h1

/-! ### The two functions -/

theorem checkedSum_bind (hc : c.toNat ≤ 65535) (hw : w.toNat ≤ 65535) (f : UInt32 → Option UInt16) :
    ((addChecked c w).bind fun cksum => (foldCarryChecked cksum).bind f) = f (foldCarry (c + w)) := by
  obtain ⟨hadd, hfold, -, -⟩ := add_foldCarry hc hw
  rw [hadd]
  show (foldCarryChecked (c + w)).bind f = _
  rw [hfold]
  rfl

theorem calcIpCksumChecked_eq (pub priv : UInt32) :
    ipaNatiCalcIpCksumChecked pub priv = some (ipaNatiCalcIpCksum pub priv) := by
  obtain ⟨-, -, -, hl1⟩ := add_foldCarry (low_le pub) (high_le pub)
  obtain ⟨-, -, -, hl2⟩ := add_foldCarry hl1 (low_le (~~~priv))
  unfold ipaNatiCalcIpCksumChecked
  rw [addChecked_zero (low_le pub), bind_eq_bind, bind_some]
  rw [checkedSum_bind (low_le pub) (high_le pub)]
  dsimp only
  rw [checkedSum_bind hl1 (low_le (~~~priv)), checkedSum_bind hl2 (high_le (~~~priv))]
  rfl

theorem toNat_port_le (port : UInt16) : port.toUInt32.toNat ≤ 65535 := by
  rw [UInt16.toNat_toUInt32]
  exact Nat.le_of_lt_succ port.toNat_lt

theorem calcTcpUdpCksumChecked_eq (pub : UInt32) (pubPort : UInt16) (priv : UInt32) (privPort : UInt16) :
    ipaNatiCalcTcpUdpCksumChecked pub pubPort priv privPort = some (ipaNatiCalcTcpUdpCksum pub pubPort priv privPort) := by
  obtain ⟨-, -, -, hl1⟩ := add_foldCarry (low_le pub) (high_le pub)
  obtain ⟨-, -, -, hl2⟩ := add_foldCarry hl1 (toNat_port_le pubPort)
  obtain ⟨-, -, -, hl3⟩ := add_foldCarry hl2 (low_le (~~~priv))
  obtain ⟨-, -, -, hl4⟩ := add_foldCarry hl3 (high_le (~~~priv))
  unfold ipaNatiCalcTcpUdpCksumChecked
  rw [addChecked_zero (low_le pub), bind_eq_bind, bind_some]
  rw [checkedSum_bind (low_le pub) (high_le pub), checkedSum_bind hl1 (toNat_port_le pubPort)]
  dsimp only
  rw [checkedSum_bind hl2 (low_le (~~~priv)), checkedSum_bind hl3 (high_le (~~~priv)),
    checkedSum_bind hl4 (toNat_port_le (~~~privPort))]
  rfl

theorem calcIpCksum_isDelta (pub priv : UInt32) : IsDelta (ipaNatiCalcIpCksum pub priv) (ipWords pub) (ipWords priv) := by
  obtain ⟨hpub, hle⟩ := addIp_spec pub
  obtain ⟨hpriv, hle'⟩ := subIp_spec hle priv
  have hret : (ipaNatiCalcIpCksum pub priv).toNat = (subIp (addIp pub) priv).toNat := toNat_toUInt16 hle'
  apply isDelta_of_modEq
  rw [hret]
  exact hpriv.trans hpub

theorem calcTcpUdpCksum_isDelta (pub : UInt32) (pubPort : UInt16) (priv : UInt32) (privPort : UInt16) :
    IsDelta (ipaNatiCalcTcpUdpCksum pub pubPort priv privPort) (pubPort.toNat :: ipWords pub)
      (privPort.toNat :: ipWords priv) := by
  obtain ⟨hpub, hle⟩ := addIp_spec pub
  obtain ⟨-, -, hport, hle1⟩ := add_foldCarry hle (toNat_port_le pubPort)
  obtain ⟨hpriv, hle2⟩ := subIp_spec hle1 priv
  obtain ⟨-, -, hport', hle3⟩ := add_foldCarry hle2 (toNat_port_le (~~~privPort))
  have hret : (ipaNatiCalcTcpUdpCksum pub pubPort priv privPort).toNat
      = (foldCarry (subIp (foldCarry (addIp pub + pubPort.toUInt32)) priv + (~~~privPort).toUInt32)).toNat :=
    toNat_toUInt16 hle3
  rw [UInt16.toNat_toUInt32] at hport
  rw [UInt16.toNat_toUInt32, toNat_not16] at hport'
  apply isDelta_of_modEq
  rw [hret, List.sum_cons, List.sum_cons, ← Nat.add_assoc, hport']
  calc add 65535 (subIp (foldCarry (addIp pub + pubPort.toUInt32)) priv).toNat (65535 - privPort.toNat) + privPort.toNat
        + (ipWords priv).sum
      ≡ (subIp (foldCarry (addIp pub + pubPort.toUInt32)) priv).toNat + (ipWords priv).sum [MOD 65535] :=
        (add_not_modEq (Nat.le_of_lt_succ privPort.toNat_lt) rfl).add_right _
    _ ≡ add 65535 (addIp pub).toNat pubPort.toNat [MOD 65535] := hport ▸ hpriv
    _ ≡ (addIp pub).toNat + pubPort.toNat [MOD 65535] := add_modEq 65535 _ _
    _ ≡ (ipWords pub).sum + pubPort.toNat [MOD 65535] := hpub.add_right _
    _ = pubPort.toNat + (ipWords pub).sum := Nat.add_comm _ _

/-- The differences take the sum of any packet with the private words to the sum with the public words, and no sum of 32
bits overflows. -/
theorem cksum_deltas (pub priv : UInt32) (pubPort privPort : UInt16) :
    (ipaNatiCalcIpCksumChecked pub priv = some (ipaNatiCalcIpCksum pub priv)
      ∧ IsDelta (ipaNatiCalcIpCksum pub priv) (ipWords pub) (ipWords priv))
    ∧ ipaNatiCalcTcpUdpCksumChecked pub pubPort priv privPort = some (ipaNatiCalcTcpUdpCksum pub pubPort priv privPort)
      ∧ IsDelta (ipaNatiCalcTcpUdpCksum pub pubPort priv privPort) (pubPort.toNat :: ipWords pub)
        (privPort.toNat :: ipWords priv) :=
  ⟨⟨calcIpCksumChecked_eq pub priv, calcIpCksum_isDelta pub priv⟩,
    calcTcpUdpCksumChecked_eq pub pubPort priv privPort, calcTcpUdpCksum_isDelta pub pubPort priv privPort⟩

end G4Common.IpaNat
