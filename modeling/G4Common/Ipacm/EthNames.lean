/-
The names of the headers for ethernet clients (`handle_eth_hdr_init()` of
`ipacm/src/IPACM_Lan.cpp`).

A name is the number of the interface, a text for the IP type, and `header_name_count`.  The
count grows with every client and never comes back, but both numbers are printed into a
buffer of two bytes, so that a name has the first digit of each: client 10 has the names of
client 1, and the interfaces 10 to 14 have the names of interface 1.

The names are right in a run if and only if the first digits do what the numbers were meant
to do (`ethNames_iff`).
-/
import G4Common.Ipacm.EthFaults
import G4Common.Ipacm.WanTether
import G4Common.Lib.Printf
import G4Common.Lib.StepRuns

namespace G4Common.Ipacm

open Printf Function Option List

/-! ### Names -/

def ethIfaceIndexLen : ℕ := 2

/-- `IPA_ETH_HDR_NAME_v4` and `IPA_ETH_HDR_NAME_v6`. -/
def ipaEthHdrName : IpType → List Char
  | .v4 => ['I', 'P', 'A', 'C', 'M', '_', 'E', 'T', 'H', '_', 'v', '4']
  | .v6 => ['I', 'P', 'A', 'C', 'M', '_', 'E', 'T', 'H', '_', 'v', '6']

def ethHdrName (ipaIfNum : ℕ) (ip : IpType) (headerNameCount : ℕ) : List Char :=
  snprintfInt ethIfaceIndexLen ipaIfNum ++ ipaEthHdrName ip ++
    snprintfInt ethIfaceIndexLen headerNameCount

section

variable {i j m n : ℕ} {ip ip' : IpType}

theorem ethHdrName_eq : ethHdrName i ip n
    = (leadDigit i).digitChar :: (ipaEthHdrName ip ++ [(leadDigit n).digitChar]) := by
  unfold ethHdrName ethIfaceIndexLen
  rw [snprintfInt_two, snprintfInt_two]
  rfl

theorem ipaEthHdrName_inj (h : ipaEthHdrName ip = ipaEthHdrName ip') : ip = ip' := by
  cases ip <;> cases ip' <;> first | rfl | exact nomatch h

theorem ethHdrName_eq_iff : ethHdrName i ip m = ethHdrName j ip' n ↔
    leadDigit i = leadDigit j ∧ ip = ip' ∧ leadDigit m = leadDigit n := by
  rw [ethHdrName_eq, ethHdrName_eq]
  constructor
  · intro h
    obtain ⟨hiface, hrest⟩ := cons.inj h
    obtain ⟨htext, hcount⟩ := append_inj' hrest rfl
    exact ⟨digitChar_inj (leadDigit_lt i) (leadDigit_lt j) hiface, ipaEthHdrName_inj htext,
      digitChar_inj (leadDigit_lt m) (leadDigit_lt n) (cons.inj hcount).1⟩
  · rintro ⟨hiface, rfl, hcount⟩
    rw [hiface, hcount]

end

/-! ### How many clients there are -/

section

variable {env : EthEnv} {out : ℕ → Outcome} {s s' : EthTable} {i n : ℕ}

theorem numEthClient_deleteEthRtrules (env : EthEnv) (out : ℕ → Outcome) (ip : IpType) :
    (deleteEthRtrulesFault env out s n i ip).1.numEthClient = s.numEthClient := by
  unfold deleteEthRtrulesFault
  dsimp only
  split <;> rfl

theorem numEthClient_ipaddr (data : EthData) :
    (handleEthClientIpaddrFault env out s data).1.numEthClient = s.numEthClient := by
  unfold handleEthClientIpaddrFault
  cases getEthClientIndex s data.macAddr with
  | none => rfl
  | some =>
    dsimp only
    cases data.iptype with
    | v4 =>
      dsimp only
      split
      · split
        · rfl
        · split
          · rfl
          · exact numEthClient_deleteEthRtrules env out .v4
      · rfl
    | v6 =>
      dsimp only
      split
      · split
        · split <;> rfl
        · rfl
      · rfl

theorem numEthClient_routeRule {mac : MacAddr} {ip : IpType}
    (h : handleEthClientRouteRuleFault env out s mac ip = some s') : s'.numEthClient = s.numEthClient := by
  unfold handleEthClientRouteRuleFault at h
  split at h
  · cases h
    rfl
  cases hidx : getEthClientIndex s mac with
  | none =>
    rw [hidx] at h
    cases h
    rfl
  | some =>
    rw [hidx] at h
    cases ip with
    | v4 | v6 =>
      dsimp only at h
      split at h
      · obtain ⟨r, -, rfl⟩ := map_eq_some_iff.mp h
        rfl
      · cases h
        rfl

theorem numEthClient_downEvt (env : EthEnv) (out : ℕ → Outcome) (mac : MacAddr) :
    (handleEthClientDownEvtFault env out s mac).1.numEthClient = s.numEthClient ∨
      (∃ i, getEthClientIndex s mac = some i) ∧
        (handleEthClientDownEvtFault env out s mac).1.numEthClient = s.numEthClient - 1 := by
  unfold handleEthClientDownEvtFault
  cases hidx : getEthClientIndex s mac with
  | none => exact .inl rfl
  | some i =>
    have h4 := numEthClient_deleteEthRtrules (s := s) (i := i) (n := 0) env out .v4
    dsimp only
    generalize deleteEthRtrulesFault env out s 0 i .v4 = r at h4
    split
    · exact .inl h4
    have h6 := numEthClient_deleteEthRtrules (s := r.1) (i := i) (n := r.2.1) env out .v6
    rw [h4] at h6
    generalize deleteEthRtrulesFault env out r.1 r.2.1 i .v6 = r' at h6
    split
    · exact .inl h6
    -- the headers: each may fail, and behind them the client is gone
    generalize (if (r'.1.ethClient i).ipv4HeaderSet = true then
      deleteHeaderHdlFault (out r'.2.1) r'.1.kernel (r'.1.ethClient i).hdrHdlV4
      else (r'.1.kernel, true)) = d
    split
    · exact .inl h6
    generalize (if (r'.1.ethClient i).ipv6HeaderSet = true then
      deleteHeaderHdlFault (out (r'.2.1 + 1)) d.1 (r'.1.ethClient i).hdrHdlV6
      else (d.1, true)) = d'
    split
    · exact .inl h6
    · exact .inr ⟨⟨i, rfl⟩, congrArg (fun k => k - 1) h6⟩

/-- The client is new, there is room for it, and its headers are made. -/
def EthArrives (env : EthEnv) (out : ℕ → Outcome) (s : EthTable) (mac : MacAddr) : Prop :=
  getEthClientIndex s mac = none ∧ s.numEthClient < maxNumEthClients ∧ env.tx ≠ [] ∧
    (.v4 ∈ env.tx → out 0 = .ok) ∧ (.v6 ∈ env.tx → out 1 = .ok)

instance (mac : MacAddr) : Decidable (EthArrives env out s mac) :=
  inferInstanceAs (Decidable (_ ∧ _ ∧ _ ∧ _ ∧ _))

theorem addEthHdrFault_done {o : Outcome} {k : EthKernel} {c : EthClient} {ip : IpType}
    {r : EthKernel × EthClient × Bool} (h : addEthHdrFault env o k c ip = some r) :
    r.2.2 ↔ (ip ∈ env.tx → o = .ok) := by
  by_cases htx : ip ∈ env.tx
  · by_cases hout : o = .ok
    · refine iff_of_true ?_ fun _ => hout
      have hmade : ∀ r, addHeaderFault env o k ⟨ip, c.mac⟩ = some r → r.2 ≠ none := by
        intro r hr
        rw [addHeaderFault, if_pos hout] at hr
        obtain ⟨q, -, rfl⟩ := map_eq_some_iff.mp hr
        exact some_ne_none _
      cases ip with
      | v4 | v6 =>
        rw [addEthHdrFault, if_pos htx] at h
        obtain ⟨q, hq, rfl⟩ := map_eq_some_iff.mp h
        obtain ⟨_, hhdl⟩ := ne_none_iff_exists'.mp (hmade q hq)
        rw [hhdl]
    refine iff_of_false ?_ fun hok => hout (hok htx)
    cases ip with
    | v4 | v6 =>
      rw [addEthHdrFault, if_pos htx, addHeaderFault, if_neg hout] at h
      cases h
      exact Bool.false_ne_true
  -- nothing is made for an IP type without properties
  refine iff_of_true ?_ fun hmem => absurd hmem htx
  cases ip with
  | v4 | v6 =>
    rw [addEthHdrFault, if_neg htx] at h
    cases h
    rfl

theorem numEthClient_hdrInit {mac : MacAddr} {r : EthTable × Bool} (h : handleEthHdrInitFault env out s mac = some r) :
    r.1.numEthClient = s.numEthClient + (if EthArrives env out s mac then 1 else 0) := by
  unfold handleEthHdrInitFault at h
  cases hidx : getEthClientIndex s mac with
  | some =>
    rw [hidx] at h
    cases h
    rw [if_neg fun ha => by simp [EthArrives, hidx] at ha]
    rfl
  | none =>
    rw [hidx] at h
    dsimp only at h
    split at h
    · rename_i hfull
      cases h
      rw [if_neg fun ha => absurd ha.2.1 (Nat.not_lt.mpr hfull)]
      rfl
    rename_i hroom
    -- the count goes up where both headers are done
    split at h
    · rename_i htx
      cases h
      rw [if_neg fun ha => ha.2.2.1 htx]
      rfl
    rename_i htx
    obtain ⟨_, hr4, h⟩ := bind_eq_some_iff.mp h
    have hdone4 := addEthHdrFault_done hr4
    split at h
    · rename_i hok4
      obtain ⟨_, hr6, h⟩ := bind_eq_some_iff.mp h
      have hdone6 := addEthHdrFault_done hr6
      split at h
      · rename_i hok6
        cases h
        rw [if_pos ⟨hidx, Nat.lt_of_not_ge hroom, htx, hdone4.mp hok4, hdone6.mp hok6⟩]
      rename_i hno6
      cases h
      rw [if_neg fun ha => hno6 (hdone6.mpr ha.2.2.2.2)]
      rfl
    rename_i hno4
    cases h
    rw [if_neg fun ha => hno4 (hdone4.mpr ha.2.2.2.1)]
    rfl

end

/-! ### Runs -/

/-- An interface, with `header_name_count`, the count in the names of the client with each
record, and the names that were built. -/
structure EthNames where
  table : EthTable
  headerNameCount : ℕ
  nameCount : ℕ → ℕ
  built : List (IpType × ℕ)

/-- A call, on one of the interfaces: which partial headers are copied, and how the later calls
into the kernel go. -/
structure EthNameCall where
  ipaIfNum : Fin maxIfaceEntries
  op : EthFaultOp
  copied : IpType → Bool
  out : ℕ → Outcome

/-- How the headers go: one without a partial header is not made. -/
def EthNameCall.outcome (e : EthNameCall) : ℕ → Outcome :=
  match e.op with
  | .hdrInit _ => fun n => if e.copied (if n = 0 then .v4 else .v6) then e.out n else .refused
  | _ => e.out

namespace EthNames

/-- The interface at its start. -/
def init : EthNames := ⟨.init, 0, fun _ => 0, []⟩

/-- The IP types for which `handle_eth_hdr_init()` builds a name. -/
def namesBuilt (env : EthEnv) (s : EthNames) (e : EthNameCall) (mac : MacAddr) : List IpType :=
  if getEthClientIndex s.table mac = none ∧ s.table.numEthClient < maxNumEthClients then
    (if .v4 ∈ env.tx ∧ e.copied .v4 = true then [IpType.v4] else []) ++
      (if .v6 ∈ env.tx ∧ e.copied .v6 = true ∧ (.v4 ∈ env.tx → e.outcome 0 = .ok) then [IpType.v6]
        else [])
  else []

/-- The interface after a call.  `header_name_count` is incremented beside `num_eth_client`. -/
def step (env : EthEnv) (s : EthNames) (e : EthNameCall) : Option EthNames :=
  (s.table.stepFault env e.outcome e.op).map fun table =>
    match e.op with
    | .hdrInit mac =>
      { table := table
        headerNameCount := s.headerNameCount + (table.numEthClient - s.table.numEthClient)
        nameCount := update s.nameCount s.table.numEthClient s.headerNameCount
        built := (namesBuilt env s e mac).map (fun ip => (ip, s.headerNameCount)) ++ s.built }
    | .downEvt mac =>
      { s with
        table := table
        nameCount :=
          match getEthClientIndex s.table mac with
          | some i =>
            if table.numEthClient < s.table.numEthClient then
              fun a => if a < i then s.nameCount a else s.nameCount (a + 1)
            else s.nameCount
          | none => s.nameCount }
    | _ => { s with table := table }

/-- The names of the clients present differ. -/
def PresentApart (env : EthEnv) (ipaIfNum : ℕ) (s : EthNames) : Prop :=
  ∀ a < s.table.numEthClient, ∀ b < s.table.numEthClient, ∀ ip ∈ env.tx, ∀ ip' ∈ env.tx,
    ethHdrName ipaIfNum ip (s.nameCount a) = ethHdrName ipaIfNum ip' (s.nameCount b) →
      a = b ∧ ip = ip'

/-- The counts of the clients present have different first digits. -/
def DigitsApart (s : EthNames) : Prop :=
  ∀ a < s.table.numEthClient, ∀ b < s.table.numEthClient,
    leadDigit (s.nameCount a) = leadDigit (s.nameCount b) → a = b

section

variable {env : EthEnv} {s s' : EthNames} {e : EthNameCall} {i : ℕ} {mac : MacAddr}

theorem presentApart_iff : PresentApart env i s ↔ (env.tx ≠ [] → s.DigitsApart) := by
  constructor
  · intro h htx a ha b hb hdigit
    obtain ⟨ip, hip⟩ := exists_mem_of_ne_nil _ htx
    exact (h a ha b hb ip hip ip hip (ethHdrName_eq_iff.mpr ⟨rfl, rfl, hdigit⟩)).1
  · intro h a ha b hb _ hip _ _ hname
    obtain ⟨-, hsame, hdigit⟩ := ethHdrName_eq_iff.mp hname
    exact ⟨h (ne_nil_of_mem hip) a ha b hb hdigit, hsame⟩

theorem step_hdrInit (h : s.step env e = some s') (hop : e.op = .hdrInit mac) : s'.table.numEthClient
        = s.table.numEthClient + (if EthArrives env e.outcome s.table mac then 1 else 0) ∧
      s'.nameCount = update s.nameCount s.table.numEthClient s.headerNameCount ∧
      s'.built = (namesBuilt env s e mac).map (fun ip => (ip, s.headerNameCount)) ++ s.built := by
  unfold step at h
  rw [hop] at h
  obtain ⟨_, htable, rfl⟩ := map_eq_some_iff.mp h
  obtain ⟨r, hr, rfl⟩ := map_eq_some_iff.mp htable
  exact ⟨numEthClient_hdrInit hr, rfl, rfl⟩

theorem step_other (h : s.step env e = some s') (hop : ∀ mac, e.op ≠ .hdrInit mac) :
    s'.built = s.built ∧ (s.DigitsApart → s'.DigitsApart) := by
  have hsame : ∀ table : EthTable, table.numEthClient = s.table.numEthClient →
      s.DigitsApart → DigitsApart { s with table := table } := by
    intro table hnum hs a ha b hb
    exact hs a (hnum ▸ ha) b (hnum ▸ hb)
  unfold step at h
  cases hcase : e.op with
  | hdrInit mac => exact absurd hcase (hop mac)
  | ipaddr data =>
    rw [hcase] at h
    cases h
    exact ⟨rfl, hsame _ (numEthClient_ipaddr data)⟩
  | routeRule =>
    rw [hcase] at h
    obtain ⟨table, htable, rfl⟩ := map_eq_some_iff.mp h
    exact ⟨rfl, hsame table (numEthClient_routeRule htable)⟩
  | downEvt mac =>
    rw [hcase] at h
    cases h
    refine ⟨rfl, fun hs => ?_⟩
    have hnum := numEthClient_downEvt (s := s.table) env e.outcome mac
    dsimp only
    generalize (handleEthClientDownEvtFault env e.outcome s.table mac).1 = table at hnum
    cases hidx : getEthClientIndex s.table mac with
    | none =>
      -- a client that is not known does not go
      rcases hnum with hnum | ⟨⟨i, hi⟩, -⟩
      · exact hsame table hnum hs
      · exact absurd (hi.symm.trans hidx) (some_ne_none i)
    | some i =>
      by_cases hless : table.numEthClient < s.table.numEthClient
      · -- the records behind the client move up, and take their names with them
        have hdown := hnum.resolve_left (Nat.ne_of_lt hless) |>.2
        have hmove : ∀ a < s.table.numEthClient - 1, (if a < i then a else a + 1) < s.table.numEthClient := by
          intro a ha
          split <;> omega
        intro a ha b hb hdigit
        dsimp only at ha hb hdigit
        rw [if_pos hless] at hdigit
        rw [hdown] at ha hb
        have hread : ∀ c, (if c < i then s.nameCount c else s.nameCount (c + 1))
            = s.nameCount (if c < i then c else c + 1) := fun c => (apply_ite s.nameCount _ _ _).symm
        rw [hread, hread] at hdigit
        have heq := hs _ (hmove a ha) _ (hmove b hb) hdigit
        split at heq <;> split at heq <;> omega
      -- a deletion of the kernel has failed, and the record is still there
      have hkept : table.numEthClient = s.table.numEthClient := by
        rcases hnum with hnum | ⟨-, hnum⟩
        · exact hnum
        · omega
      dsimp only
      rw [if_neg hless]
      exact hsame table hkept hs

theorem digitsApart_hdrInit (h : s.step env e = some s') (hop : e.op = .hdrInit mac) (hs : s.DigitsApart) :
    s'.DigitsApart ↔ (EthArrives env e.outcome s.table mac → ∀ a < s.table.numEthClient,
      leadDigit (s.nameCount a) ≠ leadDigit s.headerNameCount) := by
  obtain ⟨hnum, hcount, -⟩ := step_hdrInit h hop
  have hold : ∀ a < s.table.numEthClient, s'.nameCount a = s.nameCount a := by
    intro a ha
    rw [hcount, update_of_ne (Nat.ne_of_lt ha)]
  have hnew : s'.nameCount s.table.numEthClient = s.headerNameCount := by
    rw [hcount, update_self]
  unfold DigitsApart
  rw [hnum]
  by_cases harrives : EthArrives env e.outcome s.table mac
  · rw [if_pos harrives]
    constructor
    · intro happart _ a ha hdigit
      have heq := happart a (Nat.lt_succ_of_lt ha) s.table.numEthClient (Nat.lt_succ_self _)
        (by rw [hold a ha, hnew]; exact hdigit)
      exact Nat.ne_of_lt ha heq
    intro hfresh a ha b hb hdigit
    have hfresh := hfresh harrives
    rcases Nat.lt_succ_iff_lt_or_eq.mp ha with ha | rfl
    · rcases Nat.lt_succ_iff_lt_or_eq.mp hb with hb | rfl
      · rw [hold a ha, hold b hb] at hdigit
        exact hs a ha b hb hdigit
      · rw [hold a ha, hnew] at hdigit
        exact absurd hdigit (hfresh a ha)
    rcases Nat.lt_succ_iff_lt_or_eq.mp hb with hb | rfl
    · rw [hold b hb, hnew] at hdigit
      exact absurd hdigit.symm (hfresh b hb)
    · rfl
  rw [if_neg harrives, Nat.add_zero]
  refine iff_of_true (fun a ha b hb hdigit => ?_) fun ha => absurd ha harrives
  rw [hold a ha, hold b hb] at hdigit
  exact hs a ha b hb hdigit

end

end EthNames

/-- The interfaces, by `ipa_if_num`. -/
abbrev EthIfaces := Fin maxIfaceEntries → EthNames

namespace EthIfaces

/-- All interfaces after a call on one of them. -/
def step (env : Fin maxIfaceEntries → EthEnv) (σ : EthIfaces) (e : EthNameCall) : Option EthIfaces :=
  ((σ e.ipaIfNum).step (env e.ipaIfNum) e).map fun s => update σ e.ipaIfNum s

/-- The names of the clients present on an interface differ, and so do the names that two
interfaces have built. -/
structure NamesRight (env : Fin maxIfaceEntries → EthEnv) (σ : EthIfaces) : Prop where
  present : ∀ i, (σ i).PresentApart (env i) i
  across : ∀ i j, i ≠ j → ∀ x ∈ (σ i).built, ∀ y ∈ (σ j).built,
    ethHdrName i x.1 x.2 ≠ ethHdrName j y.1 y.2

/-- The call leaves the names right. -/
def Keeps (env : Fin maxIfaceEntries → EthEnv) (σ : EthIfaces) (e : EthNameCall) : Prop :=
  ∀ σ', step env σ e = some σ' → NamesRight env σ'

/-- `header_name_count` at a new client has another first digit than the counts of the clients
present; and of the other interfaces with the same first digit, none has built a name for an IP
type that is built now, with a count of that first digit. -/
def NewDigits (env : Fin maxIfaceEntries → EthEnv) (σ : EthIfaces) (e : EthNameCall) : Prop :=
  step env σ e ≠ none → ∀ mac, e.op = .hdrInit mac →
    (EthArrives (env e.ipaIfNum) e.outcome (σ e.ipaIfNum).table mac → ∀ a < (σ e.ipaIfNum).table.numEthClient,
        leadDigit ((σ e.ipaIfNum).nameCount a) ≠ leadDigit (σ e.ipaIfNum).headerNameCount) ∧
    ∀ ip ∈ (σ e.ipaIfNum).namesBuilt (env e.ipaIfNum) e mac, ∀ j ≠ e.ipaIfNum,
      leadDigit j = leadDigit e.ipaIfNum → ∀ n, (ip, n) ∈ (σ j).built →
        leadDigit n ≠ leadDigit (σ e.ipaIfNum).headerNameCount

section

variable {env : Fin maxIfaceEntries → EthEnv} {σ σ' : EthIfaces} {e : EthNameCall}
  {i : Fin maxIfaceEntries} {s' : EthNames}

theorem NamesRight.init : NamesRight env fun _ => EthNames.init :=
  ⟨fun _ _ ha => absurd ha (Nat.not_lt_zero _), nofun⟩

theorem NamesRight.update_iff (h : NamesRight env σ) :
    NamesRight env (update σ i s') ↔ s'.PresentApart (env i) i ∧
      ∀ j ≠ i, ∀ x ∈ s'.built, ∀ y ∈ (σ j).built, ethHdrName i x.1 x.2 ≠ ethHdrName j y.1 y.2 := by
  constructor
  · rintro ⟨hpresent, hacross⟩
    have hi := hpresent i
    rw [update_self] at hi
    refine ⟨hi, fun j hj x hx y hy => ?_⟩
    have hij := hacross i j (Ne.symm hj)
    rw [update_self, update_of_ne hj] at hij
    exact hij x hx y hy
  rintro ⟨hpresent, hacross⟩
  constructor
  · intro j
    by_cases hj : j = i
    · rw [hj, update_self]
      exact hpresent
    · rw [update_of_ne hj]
      exact h.present j
  intro j k hjk
  by_cases hj : j = i
  · rw [hj, update_self, update_of_ne (hj ▸ Ne.symm hjk)]
    exact hacross k (hj ▸ Ne.symm hjk)
  rw [update_of_ne hj]
  by_cases hk : k = i
  · rw [hk, update_self]
    exact fun x hx y hy hname => hacross j hj y hy x hx hname.symm
  · rw [update_of_ne hk]
    exact h.across j k hjk

theorem NamesRight.keeps_iff (h : NamesRight env σ) (e : EthNameCall) : Keeps env σ e ↔ NewDigits env σ e := by
  cases hs : (σ e.ipaIfNum).step (env e.ipaIfNum) e with
  | none =>
    have hnone : step env σ e = none := by
      unfold step
      rw [hs]
      rfl
    exact iff_of_true (fun σ' hσ => absurd (hnone.symm.trans hσ) (by simp)) fun hne =>
      absurd hnone hne
  | some s' =>
    have hstep : step env σ e = some (update σ e.ipaIfNum s') := by
      unfold step
      rw [hs]
      rfl
    have hkeeps : Keeps env σ e ↔ NamesRight env (update σ e.ipaIfNum s') := by
      refine ⟨fun hk => hk _ hstep, fun hr σ' hσ => ?_⟩
      cases hstep.symm.trans hσ
      exact hr
    rw [hkeeps, h.update_iff, EthNames.presentApart_iff]
    have hbefore := EthNames.presentApart_iff.mp (h.present e.ipaIfNum)
    by_cases hop : ∃ mac, e.op = .hdrInit mac
    · obtain ⟨mac, hop⟩ := hop
      obtain ⟨-, -, hbuilt⟩ := EthNames.step_hdrInit hs hop
      constructor
      · rintro ⟨hpresent, hacross⟩ _ _ hop'
        obtain rfl := EthFaultOp.hdrInit.inj (hop.symm.trans hop')
        constructor
        · intro harrives
          have htx := harrives.2.2.1
          exact (EthNames.digitsApart_hdrInit hs hop (hbefore htx)).mp (hpresent htx) harrives
        intro ip hip j hj hiface n hn hdigit
        refine hacross j hj (ip, (σ e.ipaIfNum).headerNameCount) ?_ (ip, n) hn
          (ethHdrName_eq_iff.mpr ⟨hiface.symm, rfl, hdigit.symm⟩)
        rw [hbuilt]
        exact mem_append_left _ (mem_map.mpr ⟨ip, hip, rfl⟩)
      intro hnew
      obtain ⟨hclient, hother⟩ := hnew (by rw [hstep]; simp) mac hop
      refine ⟨fun htx => (EthNames.digitsApart_hdrInit hs hop (hbefore htx)).mpr hclient, ?_⟩
      intro j hj x hx y hy hname
      rw [hbuilt] at hx
      rcases mem_append.mp hx with hx | hx
      · -- a name of this call
        obtain ⟨ip, hip, rfl⟩ := mem_map.mp hx
        obtain ⟨hiface, hsame, hdigit⟩ := ethHdrName_eq_iff.mp hname
        obtain ⟨ip', n⟩ := y
        obtain rfl : ip = ip' := hsame
        exact hother ip hip j hj hiface.symm n hy hdigit.symm
      · exact h.across e.ipaIfNum j (Ne.symm hj) x hx y hy hname
    -- no other call builds a name
    have hother := EthNames.step_other hs fun mac hmac => hop ⟨mac, hmac⟩
    refine iff_of_true ⟨fun htx => hother.2 (hbefore htx), ?_⟩ fun _ mac hmac =>
      absurd ⟨mac, hmac⟩ hop
    rw [hother.1]
    exact fun j hj => h.across e.ipaIfNum j (Ne.symm hj)

theorem NamesRight.step (h : NamesRight env σ) (hnew : NewDigits env σ e)
    (hstep : EthIfaces.step env σ e = some σ') : NamesRight env σ' :=
  (h.keeps_iff e).mpr hnew σ' hstep

end

/-- **The names of the headers** are right after every call of a run if and only if every new
client brings new first digits. -/
theorem ethNames_iff (env : Fin maxIfaceEntries → EthEnv) (es : List EthNameCall) :
    AtSteps (step env) (Keeps env) (fun _ => EthNames.init) es ↔
      AtSteps (step env) (NewDigits env) (fun _ => EthNames.init) es :=
  AtSteps.iff_of_step (fun _ e h => h.keeps_iff e) (fun _ _ _ h hnew hstep => h.step hnew hstep)
    NamesRight.init

/-- A first client, where all goes well. -/
def firstClient (ipaIfNum : Fin maxIfaceEntries) : EthNameCall :=
  ⟨ipaIfNum, .hdrInit 1, fun _ => true, fun _ => .ok⟩

/-- The first clients of the interfaces 1 and 10 get headers of the same names. -/
theorem ethNames_fails : ¬ AtSteps (step fun _ => sampleEthEnv) (Keeps fun _ => sampleEthEnv)
    (fun _ => EthNames.init) [firstClient ⟨1, by decide⟩, firstClient ⟨10, by decide⟩] := by
  rintro ⟨-, hrest⟩
  obtain ⟨hkeeps, -⟩ := hrest _ rfl
  exact (hkeeps _ rfl).across ⟨1, by decide⟩ ⟨10, by decide⟩ (by decide) (.v4, 0) (by decide) (.v4, 0)
    (by decide) (by decide)

end EthIfaces

end G4Common.Ipacm
