/-
Temporary entries of a client that has become known.

`ProcessTCPorUDPMsg()` writes the address of the WAN interface into an entry, and
`FlushTempEntries()` hands the entry to `AddEntry()` if that address is still the one of
the table.  The field `public_ip` has 16 bits and the address of the table 32.  An address
that does not fit 16 bits never compares equal, and the entries that were recorded for it
are dropped without a call of `AddEntry()`.

So no connection is lost if and only if the address of the table fits 16 bits, or no entry
of the client was recorded for it (`flushTempEntries_iff`).
-/
import G4Common.Ipacm.CtRuns

namespace G4Common.Ipacm

/-! ### Recorded entries -/

/-- The entry is about a client. -/
def NatTableEntry.Mentions (e : NatTableEntry) (ipAddr : UInt32) : Prop :=
  e.privateIp = ipAddr ∨ e.targetIp = ipAddr

instance (e : NatTableEntry) (ipAddr : UInt32) : Decidable (e.Mentions ipAddr) := by
  unfold NatTableEntry.Mentions
  infer_instance

/-- An entry, with the address of the WAN interface that it was recorded for, if any. -/
structure RecordedEntry where
  entry : NatTableEntry
  wan : Option UInt32
  recorded : entry.publicIp = (wan.map UInt32.toUInt16).getD 0

variable {σ : Type}

/-- The state with these entries in the table of temporary entries. -/
def AppState.withTemp (s : AppState σ) (recs : List RecordedEntry) : AppState σ :=
  { s with app := { s.app with temp := recs.map RecordedEntry.entry } }

/-! ### Flushing -/

section

variable (d : NatDriver σ) (ipAddr : UInt32)

/-- The result of `AddEntry()` in one turn of the loop, if the turn calls it. -/
def flushCall (s : AppState σ) (e : NatTableEntry) : Option ℤ :=
  if e.Mentions ipAddr ∧ e.publicIp.toUInt32 = s.app.pubIpAddr then some (addEntry d e s).1
  else none

/-- The state before turn `i` of the loop. -/
def flushBefore (s : AppState σ) (i : ℕ) : AppState σ :=
  (forSlots (flushTempEntry d ipAddr true) s (s.app.temp.take i)).1

/-- Flushing loses no connection: an entry of the client that was recorded for the address of
the table is handed to `AddEntry()`, and is gone only if that was a success; an entry of
another client stays. -/
structure Lossless (s : AppState σ) (recs : List RecordedEntry) : Prop where
  added : ∀ (i : ℕ) (r : RecordedEntry), recs[i]? = some r → r.entry.Mentions ipAddr → r.wan = some s.app.pubIpAddr →
    ∃ ret, flushCall d ipAddr (flushBefore d ipAddr s i) r.entry = some ret ∧
      ((flushTempEntries d ipAddr true s).app.temp[i]? ≠ some r.entry → ret = 0)
  others : ∀ (i : ℕ) (r : RecordedEntry), recs[i]? = some r → ¬ r.entry.Mentions ipAddr →
    (flushTempEntries d ipAddr true s).app.temp[i]? = some r.entry

end

section

variable {d : NatDriver σ} {ipAddr : UInt32} {s : AppState σ} {e rule : NatTableEntry}
variable {recs : List RecordedEntry} {r : RecordedEntry} {i : ℕ}

theorem flushTempEntry_eq : flushTempEntry d ipAddr true s e
    = (if (flushCall d ipAddr s e).isSome then (addEntry d e s).2 else s,
      if (flushCall d ipAddr s e).any (· ≠ 0) ∨ ¬ e.Mentions ipAddr then e else default) := by
  unfold flushTempEntry flushCall NatTableEntry.Mentions
  by_cases hm : e.privateIp = ipAddr ∨ e.targetIp = ipAddr
  · by_cases hp : e.publicIp.toUInt32 = s.app.pubIpAddr
    · by_cases hret : (addEntry d e s).1 = 0
      · simp [hm, hp, hret]
      · simp [hm, hp, hret]
    · simp [hm, hp]
  · simp [hm]

theorem addEntry_pubIpAddr : (addEntry d rule s).2.app.pubIpAddr = s.app.pubIpAddr := by
  rcases addEntry_cases d rule s with heq | ⟨-, -, -, _, _, _, -, -,
    heq | ⟨_, _, _, -, -, ⟨-, heq⟩ | ⟨-, heq⟩⟩⟩ <;> rw [heq]

theorem flushBefore_pubIpAddr : (flushBefore d ipAddr s i).app.pubIpAddr = s.app.pubIpAddr := by
  unfold flushBefore
  refine forSlots_keep_of (P := fun (s' : AppState σ) _ => s'.app.pubIpAddr = s.app.pubIpAddr)
    (Q := fun _ => True) (fun s' l1 e l2 _ hs => ?_) (fun _ _ => trivial) rfl
  unfold flushTempEntry
  dsimp only
  split
  · split
    · split <;> exact addEntry_pubIpAddr.trans hs
    · exact hs
  · exact hs

theorem flushTempEntries_slot (hr : recs[i]? = some r) :
    (flushTempEntries d ipAddr true (s.withTemp recs)).app.temp[i]?
      = some (flushTempEntry d ipAddr true (flushBefore d ipAddr (s.withTemp recs) i) r.entry).2 := by
  have htemp : (s.withTemp recs).app.temp[i]? = some r.entry := by
    show (recs.map RecordedEntry.entry)[i]? = _
    rw [List.getElem?_map, hr]
    rfl
  show (forSlots (flushTempEntry d ipAddr true) (s.withTemp recs) (s.withTemp recs).app.temp).2[i]?
    = _
  rw [forSlots_getElem?, htemp]
  rfl

theorem toUInt16_toUInt32_eq (a : UInt32) : a.toUInt16.toUInt32 = a ↔ a.toNat < 65536 := by
  rw [← UInt32.toNat_inj, UInt16.toNat_toUInt32, UInt32.toNat_toUInt16]
  omega

/-- An entry recorded for the address of the table is handed to `AddEntry()` if and only if
the address fits 16 bits. -/
theorem flushCall_recorded (hm : r.entry.Mentions ipAddr) (hw : r.wan = some s.app.pubIpAddr) :
    flushCall d ipAddr s r.entry
      = if s.app.pubIpAddr.toNat < 65536 then some (addEntry d r.entry s).1 else none := by
  have hip : r.entry.publicIp = s.app.pubIpAddr.toUInt16 := by
    rw [r.recorded, hw]
    rfl
  have hfit : r.entry.publicIp.toUInt32 = s.app.pubIpAddr ↔ s.app.pubIpAddr.toNat < 65536 := by
    rw [hip]
    exact toUInt16_toUInt32_eq _
  unfold flushCall
  by_cases hlt : s.app.pubIpAddr.toNat < 65536
  · rw [if_pos ⟨hm, hfit.mpr hlt⟩, if_pos hlt]
  · rw [if_neg fun h => hlt (hfit.mp h.2), if_neg hlt]

end

/-- **Flushing temporary entries** loses no connection if and only if the address of the table
fits 16 bits, or no entry of the client was recorded for it. -/
theorem flushTempEntries_iff (d : NatDriver σ) (ipAddr : UInt32) (s : AppState σ) (recs : List RecordedEntry) :
    Lossless d ipAddr (s.withTemp recs) recs ↔ s.app.pubIpAddr.toNat < 65536 ∨
      ∀ r ∈ recs, r.entry.Mentions ipAddr → r.wan ≠ some s.app.pubIpAddr := by
  have hpub : ∀ i, (flushBefore d ipAddr (s.withTemp recs) i).app.pubIpAddr = s.app.pubIpAddr :=
    fun i => flushBefore_pubIpAddr
  constructor
  · intro h
    by_contra hno
    obtain ⟨hbig, hall⟩ := not_or.mp hno
    push Not at hall
    obtain ⟨r, hr, hm, hw⟩ := hall
    obtain ⟨i, hi⟩ := List.mem_iff_getElem?.mp hr
    obtain ⟨_, hcall, -⟩ := h.added i r hi hm hw
    rw [flushCall_recorded hm (by rw [hpub]; exact hw), hpub, if_neg hbig] at hcall
    exact nomatch hcall
  intro h
  refine ⟨fun i r hi hm hw => ?_, fun i r hi hm => ?_⟩
  · have hfit : s.app.pubIpAddr.toNat < 65536 := by
      rcases h with hfit | hnone
      · exact hfit
      · exact absurd hw (hnone r (List.mem_of_getElem? hi) hm)
    have hcall := flushCall_recorded (d := d) hm
      (s := flushBefore d ipAddr (s.withTemp recs) i) (by rw [hpub]; exact hw)
    rw [hpub, if_pos hfit] at hcall
    refine ⟨_, hcall, fun hgone => ?_⟩
    -- an entry that `AddEntry()` refuses stays
    by_contra hret
    apply hgone
    rw [flushTempEntries_slot hi, flushTempEntry_eq, hcall]
    simp [hret]
  · rw [flushTempEntries_slot hi, flushTempEntry_eq, if_pos (Or.inr hm)]

/-- A table with the public address 192.0.2.1, and a temporary entry of the client 192.168.1.2
that was recorded for it. -/
def sampleRecorded : RecordedEntry :=
  ⟨{ sampleConn with publicIp := 0x0201 }, some 0xC0000201, by decide⟩

theorem flushTempEntries_fails : ¬ Lossless mapDriver 0xC0A80102
      ((addTable mapDriver 0xC0000201 sampleApp).2.withTemp [sampleRecorded]) [sampleRecorded] := by
  intro h
  have hm : sampleRecorded.entry.Mentions 0xC0A80102 := Or.inl rfl
  obtain ⟨_, hcall, -⟩ := h.added 0 sampleRecorded rfl hm rfl
  have hwan : sampleRecorded.wan = some (flushBefore mapDriver 0xC0A80102
      ((addTable mapDriver 0xC0000201 sampleApp).2.withTemp [sampleRecorded]) 0).app.pubIpAddr := by
    rw [flushBefore_pubIpAddr]
    rfl
  rw [flushCall_recorded hm hwan, flushBefore_pubIpAddr] at hcall
  have hbig : ¬ (0xC0000201 : UInt32).toNat < 65536 := by decide
  exact absurd (hcall.symm.trans (if_neg hbig)) (by simp)

end G4Common.Ipacm
