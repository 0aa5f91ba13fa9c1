/-
The life cycle of the firewall rules for a STA backhaul (`config_dft_firewall_rules()` and
`del_dft_firewall_rules()` of `ipacm/src/IPACM_Wan.cpp`, `AddFilteringRule()` and
`DeleteFilteringHdls()` of `ipacm/src/IPACM_Filtering.cpp`).

The handles of the rules are kept in arrays of the interface, which the constructor does not
set.  The number of a firewall rule starts at 0 in each call, while `num_firewall_v4` and
`num_firewall_v6` go on from where they are; a second configuration overwrites the handles of
the first one.  `AddFilteringRule()` says yes to a rule that the kernel has refused with a
status of its own, and the handle that is then stored is the -1 from before the call.
Deletions stop at the first failure, and the number of rules is set back at the end only.
The rule for IPv6 fragments is made if the firewall is enabled, but its handle is deleted in
any case.

The rules are right in every run whose calls avoid this (`firewallCycle`).

A call returns `none` if it stores a handle outside of its array, or if the kernel gives a
handle that is 0 or in use.  The accesses that are made for messages are in
`FirewallArrays`.
-/
import G4Common.Ipacm.FirewallArrays
import G4Common.Lib.StepRuns

namespace G4Common.Ipacm

open Function List Option

/-! ### Where handles are kept -/

/-- `dft_wan_fl_hdl` at an index, and `ipv6_frag_firewall_flt_rule_hdl`. -/
inductive DftPlace
  | dftWanFlHdl (i : ℕ)
  | ipv6Frag
  deriving DecidableEq, Repr

/-- A firewall rule has a place in the array of its family. -/
inductive FwPlace
  | firewall (k : ℕ)
  | dft (p : DftPlace)
  deriving DecidableEq, Repr

/-- The place among the accesses behind a call; without one, it is that of the rule for
fragments. -/
def hdlPlace : List FwAccess → FwPlace
  | ⟨.firewallHdl _, k⟩ :: _ => .firewall k
  | ⟨.dftWanFlHdl, i⟩ :: _ => .dft (.dftWanFlHdl i)
  | _ :: l => hdlPlace l
  | [] => .dft .ipv6Frag

/-- The default rules of a family: the last rule, and for IPv6 the one for ICMP. -/
def dftSlots : IpType → List DftPlace
  | .v4 => [.dftWanFlHdl 0]
  | .v6 => [.dftWanFlHdl 1, .dftWanFlHdl 2]

def fragSlots : IpType → List DftPlace
  | .v4 => []
  | .v6 => [.ipv6Frag]

/-- The handles of the interface; the rules that are installed, firewall rules and others; and
how often the kernel was asked to delete a rule that is not installed. -/
structure FwState where
  firewallHdl : IpType → ℕ → UInt32
  numFirewall : IpType → ℕ
  dftHdl : DftPlace → UInt32
  fwRules : IpType → List UInt32
  dftRules : IpType → List UInt32
  wrong : ℕ

/-- What `AddFilteringRule()` meets: the call fails, or it succeeds and the rule has a status of
its own, or the rule is added. -/
inductive FltAnswer
  | failed
  | badStatus
  | added (hdl : UInt32)
  deriving DecidableEq, Repr

namespace FwState

variable (s : FwState) (ip : IpType)

/-- The first `num_firewall` elements of the array. -/
def firewallHdls : List UInt32 := (List.range (s.numFirewall ip)).map (s.firewallHdl ip)

/-- The handles that are deleted beside them. -/
def dftHdls : List UInt32 := (dftSlots ip).map s.dftHdl

def fragHdls : List UInt32 := (fragSlots ip).map s.dftHdl

def Installed (h : UInt32) : Prop := h ∈ s.fwRules ip ∨ h ∈ s.dftRules ip

instance (h : UInt32) : Decidable (s.Installed ip h) := inferInstanceAs (Decidable (_ ∨ _))

/-! ### Additions -/

def storeHdl (h : UInt32) : FwPlace → Option FwState
  | .firewall k =>
    if k < (FwArray.firewallHdl ip).size then
      some { s with
        firewallHdl := Function.update s.firewallHdl ip (Function.update (s.firewallHdl ip) k h)
        numFirewall := Function.update s.numFirewall ip (s.numFirewall ip + 1) }
    else none
  | .dft p => some { s with dftHdl := Function.update s.dftHdl p h }

/-- A rule is installed in the kernel. -/
def install (h : UInt32) : FwPlace → FwState
  | .firewall _ => { s with fwRules := Function.update s.fwRules ip (h :: s.fwRules ip) }
  | .dft _ => { s with dftRules := Function.update s.dftRules ip (h :: s.dftRules ip) }

/-- A step of `config_dft_firewall_rules()`, and whether it goes on.  The handle is -1 before
the call. -/
def runStep {E : Type} (st : FwStep E) (answer : FltAnswer) : Option (FwState × Bool) :=
  match answer with
  | .failed => some (s, false)
  | .badStatus =>
    if st.rule.isNone then some (s, true)
    else (s.storeHdl ip 0xffffffff (hdlPlace st.after)).map fun s => (s, true)
  | .added h =>
    if st.rule.isNone then some (s, true)
    else if h = 0 ∨ s.Installed ip h then none
    else ((s.install ip h (hdlPlace st.after)).storeHdl ip h (hdlPlace st.after)).map fun s =>
      (s, true)

/-- The steps, from call `n` on. -/
def runSteps {E : Type} (answer : ℕ → FltAnswer) :
    List (FwStep E) → ℕ → FwState → Option (FwState × Bool)
  | [], _, s => some (s, true)
  | st :: rest, n, s => do
    let r ← s.runStep ip st (answer n)
    if r.2 then runSteps answer rest (n + 1) r.1 else some (r.1, false)

/-! ### Deletions -/

/-- The rules with the given handles are gone. -/
def removed (l : List UInt32) : FwState :=
  { s with
    fwRules := Function.update s.fwRules ip ((s.fwRules ip).filter fun h => h ∉ l)
    dftRules := Function.update s.dftRules ip ((s.dftRules ip).filter fun h => h ∉ l) }

/-- A handle is given to the kernel. -/
def passed (h : UInt32) : FwState :=
  { s with wrong := if s.Installed ip h then s.wrong else s.wrong + 1 }

/-- `DeleteFilteringHdls()`, from call `n` on, with the number of the next call. -/
def deleteFilteringHdls (ok : ℕ → Bool) : List UInt32 → ℕ → FwState → FwState × ℕ × Bool
  | [], n, s => (s, n, true)
  | h :: rest, n, s =>
    if h = 0 then deleteFilteringHdls ok rest n s
    else if ok n then deleteFilteringHdls ok rest (n + 1) ((s.passed ip h).removed ip [h])
    else (s.passed ip h, n + 1, false)

/-- `del_dft_firewall_rules()`.  A failure with the rule for fragments is only logged. -/
def delDftFirewallRules (rxProp : Option RxAttribs) (active : Bool) (ok : ℕ → Bool) :
    FwState × Bool :=
  if rxProp.isNone then (s, true)
  else if active = false then (s, true)
  else if s.numFirewall ip > (FwArray.firewallHdl ip).size then (s, false)
  else
    let r :=
      if s.numFirewall ip ≠ 0 then deleteFilteringHdls ip ok (s.firewallHdls ip) 0 s
      else (s, 0, true)
    if r.2.2 = false then (r.1, false)
    else
      let r := deleteFilteringHdls ip ok (s.dftHdls ip) r.2.1 r.1
      if r.2.2 = false then (r.1, false)
      else
        let r := deleteFilteringHdls ip ok (s.fragHdls ip) r.2.1 r.1
        ({ r.1 with numFirewall := Function.update r.1.numFirewall ip 0 }, true)

end FwState

/-! ### Runs -/

/-- The calls, with what the kernel answers, and `active_v4` or `active_v6` at a deletion. -/
inductive FwCall
  | config (ip : IpType) (c : FirewallConf) (answer : ℕ → FltAnswer)
  | del (ip : IpType) (active : Bool) (ok : ℕ → Bool)

namespace FwState

/-- A new interface: what the arrays hold is not known. -/
def init (firewallHdl : IpType → ℕ → UInt32) (dftHdl : DftPlace → UInt32) : FwState :=
  ⟨firewallHdl, fun _ => 0, dftHdl, fun _ => [], fun _ => [], 0⟩

def step (rxProp : Option RxAttribs) (s : FwState) : FwCall → Option FwState
  | .config ip c answer =>
    match rxProp with
    | none => some s
    | some rx =>
      (runSteps ip answer (configDftFirewallRules (E := Unit) c rx ip) 0 s).map Prod.fst
  | .del ip active ok => some (s.delDftFirewallRules ip rxProp active ok).1

/-- The arrays hold the firewall rules that are installed, and the kernel was not asked to delete
any other rule. -/
structure Right (s : FwState) : Prop where
  firewall : ∀ ip, (s.firewallHdls ip).Perm (s.fwRules ip)
  wrong : s.wrong = 0

/-- The call leaves the rules right, and a deletion that succeeds leaves none. -/
def Keeps (rxProp : Option RxAttribs) (s : FwState) (call : FwCall) : Prop :=
  (∀ s', s.step rxProp call = some s' → s'.Right) ∧ ∀ ip active ok, call = .del ip active ok →
      (s.delDftFirewallRules ip rxProp active ok).2 = true →
      (s.delDftFirewallRules ip rxProp active ok).1.fwRules ip = [] ∧
        (s.delDftFirewallRules ip rxProp active ok).1.dftRules ip = []

/-- A rule that the kernel does not fail to add: a firewall rule is really added and is stored
behind the others; another handle is not stored over that of an installed rule. -/
def StoreOk (s : FwState) (ip : IpType) (answer : FltAnswer) : FwPlace → Prop
  | .firewall k => answer ≠ .failed → answer ≠ .badStatus ∧ s.numFirewall ip = k
  | .dft p => answer ≠ .failed → s.dftHdl p ∉ s.dftRules ip

/-- All rules that are added in a call. -/
def StoresOk {E : Type} (ip : IpType) (answer : ℕ → FltAnswer) :
    List (FwStep E) → ℕ → FwState → Prop
  | [], _, _ => True
  | st :: rest, n, s =>
    (st.rule.isNone = false → s.StoreOk ip (answer n) (hdlPlace st.after)) ∧
      ∀ s', s.runStep ip st (answer n) = some (s', true) → StoresOk ip answer rest (n + 1) s'

/-- Each handle that is given to the kernel is one of the list, less those deleted before; 0 is
passed over. -/
def PassesOnly (ok : ℕ → Bool) : List UInt32 → List UInt32 → ℕ → Prop
  | _, [], _ => True
  | rules, h :: rest, n =>
    if h = 0 then PassesOnly ok rules rest n
    else h ∈ rules ∧ (ok n = true → PassesOnly ok (rules.filter fun x => x ≠ h) rest (n + 1))

/-- The number of calls for a list of handles. -/
def calls (l : List UInt32) : ℕ := (l.filter fun h => h ≠ 0).length

/-- A deletion with the flag of the family set.  It fails at its first firewall rule.  Or the
other handles are those of installed rules, and nothing fails, except for a default rule if there are
no firewall rules. -/
def DeletesOk (s : FwState) (ip : IpType) (ok : ℕ → Bool) : Prop :=
  (s.numFirewall ip ≠ 0 ∧ ok 0 = false) ∨
    PassesOnly ok (s.dftRules ip) (s.dftHdls ip ++ s.fragHdls ip) (s.numFirewall ip) ∧
      ((∀ n < s.numFirewall ip + calls (s.dftHdls ip ++ s.fragHdls ip), ok n = true) ∨
        s.numFirewall ip = 0 ∧ ∃ n < calls (s.dftHdls ip), ok n = false)

/-- The calls that do no harm.  A deletion with the flag of the family not set finds nothing
installed. -/
def Careful (rxProp : Option RxAttribs) (s : FwState) : FwCall → Prop
  | .config ip c answer => ∀ rx, rxProp = some rx →
      StoresOk ip answer (configDftFirewallRules (E := Unit) c rx ip) 0 s
  | .del ip active ok => rxProp.isNone = false →
      if active then s.DeletesOk ip ok else s.fwRules ip = [] ∧ s.dftRules ip = []

/-! ### Deletions, all at once -/

/-- The handles that are deleted. -/
def deleted (ok : ℕ → Bool) : List UInt32 → ℕ → List UInt32
  | [], _ => []
  | h :: rest, n =>
    if h = 0 then deleted ok rest n
    else if ok n then h :: deleted ok rest (n + 1)
    else []

section

variable {s s' : FwState} {ip : IpType} {ok : ℕ → Bool} {l l1 l2 rules : List UInt32} {h : UInt32}
  {n : ℕ}

theorem calls_cons_zero : calls (0 :: l) = calls l := rfl

theorem calls_cons (hh : h ≠ 0) : calls (h :: l) = calls l + 1 := by
  unfold calls
  rw [filter_cons_of_pos (by simpa using hh), length_cons]

theorem calls_append : calls (l1 ++ l2) = calls l1 + calls l2 := by
  unfold calls
  rw [filter_append, length_append]

theorem calls_of_nonzero (h0 : 0 ∉ l) : calls l = l.length := by
  unfold calls
  rw [filter_eq_self.mpr fun h hh => by
    simpa using fun heq : h = 0 => h0 (heq ▸ hh)]

@[simp] theorem removed_fwRules : (s.removed ip l).fwRules ip = (s.fwRules ip).filter fun h => h ∉ l :=
  update_self ..

@[simp] theorem removed_dftRules : (s.removed ip l).dftRules ip = (s.dftRules ip).filter fun h => h ∉ l :=
  update_self ..

theorem removed_nil : s.removed ip [] = s := by
  unfold removed
  simp

theorem removed_removed : (s.removed ip l1).removed ip l2 = s.removed ip (l1 ++ l2) := by
  unfold removed
  dsimp only
  rw [update_self, update_self, update_idem, update_idem, List.filter_filter, List.filter_filter]
  congr 2
  · exact filter_congr fun h _ => by simp [not_or, Bool.and_comm]
  · exact filter_congr fun h _ => by simp [not_or, Bool.and_comm]

theorem passed_of_installed (hh : s.Installed ip h) : s.passed ip h = s := by
  unfold passed
  rw [if_pos hh]

/-- **A deletion** of handles that are all of installed rules. -/
theorem deleteFilteringHdls_fst (ip : IpType) (ok : ℕ → Bool) (hrules : ∀ h ∈ rules, s.Installed ip h)
    (hp : PassesOnly ok rules l n) : (deleteFilteringHdls ip ok l n s).1 = s.removed ip (deleted ok l n) := by
  induction l generalizing s rules n with
  | nil => exact removed_nil.symm
  | cons h _ ih =>
    unfold deleteFilteringHdls deleted
    unfold PassesOnly at hp
    by_cases hzero : h = 0
    · rw [if_pos hzero, if_pos hzero]
      rw [if_pos hzero] at hp
      exact ih hrules hp
    rw [if_neg hzero, if_neg hzero]
    rw [if_neg hzero] at hp
    obtain ⟨hmem, hnext⟩ := hp
    rw [passed_of_installed (hrules h hmem)]
    cases hok : ok n with
    | false => exact removed_nil.symm
    | true =>
      -- the rules that are left are still installed
      have hleft : ∀ x ∈ rules.filter fun x => x ≠ h, (s.removed ip [h]).Installed ip x := by
        intro x hx
        obtain ⟨hx, hne⟩ := mem_filter.mp hx
        have hne : x ≠ h := of_decide_eq_true hne
        unfold Installed
        rw [removed_fwRules, removed_dftRules]
        exact (hrules x hx).imp (fun hin => mem_filter.mpr ⟨hin, by simpa using hne⟩)
          fun hin => mem_filter.mpr ⟨hin, by simpa using hne⟩
      rw [if_pos rfl, if_pos rfl, ih hleft (hnext hok), removed_removed]
      rfl

theorem deleteFilteringHdls_snd (ip : IpType) (ok : ℕ → Bool) : (deleteFilteringHdls ip ok l n s).2.2 ↔
    ∀ i < calls l, ok (n + i) = true := by
  induction l generalizing s n with
  | nil => exact iff_of_true rfl fun i hi => absurd hi (Nat.not_lt_zero i)
  | cons h _ ih =>
    unfold deleteFilteringHdls
    by_cases hzero : h = 0
    · rw [if_pos hzero, hzero, calls_cons_zero]
      exact ih
    rw [if_neg hzero, calls_cons hzero]
    cases hok : ok n with
    | false =>
      refine iff_of_false Bool.false_ne_true fun hall => ?_
      have hfirst := hall 0 (Nat.succ_pos _)
      rw [Nat.add_zero, hok] at hfirst
      exact Bool.false_ne_true hfirst
    | true =>
      rw [if_pos rfl, ih]
      constructor
      · intro hall i hi
        cases i with
        | zero => exact hok
        | succ i =>
          have hi := hall i (Nat.lt_of_succ_lt_succ hi)
          rwa [Nat.add_right_comm] at hi
      · intro hall i hi
        have hi := hall (i + 1) (Nat.succ_lt_succ hi)
        rwa [← Nat.add_assoc, Nat.add_right_comm] at hi

theorem deleteFilteringHdls_calls (hdone : (deleteFilteringHdls ip ok l n s).2.2) :
    (deleteFilteringHdls ip ok l n s).2.1 = n + calls l := by
  induction l generalizing s n with
  | nil => rfl
  | cons h rest ih =>
    unfold deleteFilteringHdls at hdone ⊢
    by_cases hzero : h = 0
    · rw [if_pos hzero] at hdone ⊢
      rw [hzero, calls_cons_zero]
      exact ih hdone
    rw [if_neg hzero] at hdone ⊢
    rw [calls_cons hzero]
    cases hok : ok n with
    | false =>
      rw [hok] at hdone
      exact nomatch hdone
    | true =>
      rw [hok, if_pos rfl] at hdone
      rw [if_pos rfl, ih hdone]
      omega

theorem deleteFilteringHdls_append (ip : IpType) (ok : ℕ → Bool) (l1 l2 : List UInt32) :
    deleteFilteringHdls ip ok (l1 ++ l2) n s =
    if (deleteFilteringHdls ip ok l1 n s).2.2 = true then
      deleteFilteringHdls ip ok l2 (deleteFilteringHdls ip ok l1 n s).2.1
        (deleteFilteringHdls ip ok l1 n s).1
    else deleteFilteringHdls ip ok l1 n s := by
  induction l1 generalizing s n with
  | nil => exact (if_pos rfl).symm
  | cons h _ ih =>
    have hcons : ∀ l, deleteFilteringHdls ip ok (h :: l) n s =
        if h = 0 then deleteFilteringHdls ip ok l n s
        else if ok n then deleteFilteringHdls ip ok l (n + 1) ((s.passed ip h).removed ip [h])
        else (s.passed ip h, n + 1, false) := fun _ => rfl
    rw [cons_append, hcons, hcons]
    by_cases hzero : h = 0
    · rw [if_pos hzero, if_pos hzero]
      exact ih
    rw [if_neg hzero, if_neg hzero]
    cases hok : ok n with
    | false => exact (if_neg Bool.false_ne_true).symm
    | true =>
      rw [if_pos rfl, if_pos rfl]
      exact ih

theorem deleted_all {ok : ℕ → Bool} (l : List UInt32) (hall : ∀ i < calls l, ok (n + i)) :
    deleted ok l n = l.filter fun h => h ≠ 0 := by
  induction l generalizing n with
  | nil => rfl
  | cons h _ ih =>
    unfold deleted
    by_cases hzero : h = 0
    · rw [if_pos hzero, filter_cons_of_neg (by simpa using hzero)]
      rw [hzero, calls_cons_zero] at hall
      exact ih hall
    rw [if_neg hzero, filter_cons_of_pos (by simpa using hzero)]
    rw [calls_cons hzero] at hall
    have hfirst := hall 0 (Nat.succ_pos _)
    rw [Nat.add_zero] at hfirst
    rw [if_pos hfirst, ih fun i hi => by
      have hnext := hall (i + 1) (Nat.succ_lt_succ hi)
      rwa [← Nat.add_assoc, Nat.add_right_comm] at hnext]

theorem passesOnly_of_nodup (hnodup : l.Nodup) (hsub : ∀ h ∈ l, h ∈ rules) : PassesOnly ok rules l n := by
  induction l generalizing rules n with
  | nil => trivial
  | cons h _ ih =>
    obtain ⟨hnot, hrest⟩ := nodup_cons.mp hnodup
    unfold PassesOnly
    split
    · exact ih hrest fun x hx => hsub x (mem_cons_of_mem h hx)
    · refine ⟨hsub h mem_cons_self, fun _ => ih hrest fun x hx => ?_⟩
      have hne : x ≠ h := fun heq => hnot (heq ▸ hx)
      exact mem_filter.mpr ⟨hsub x (mem_cons_of_mem h hx), by simpa using hne⟩

end

/-! ### What holds in between -/

/-- The rules are right; the handles of a family are different and not 0; and the default rules are
where `del_dft_firewall_rules()` looks for them. -/
structure Ok (rxProp : Option RxAttribs) (s : FwState) : Prop where
  right : s.Right
  apart : ∀ ip, (0 :: (s.fwRules ip ++ s.dftRules ip)).Nodup
  held : ∀ ip, ∀ h ∈ s.dftRules ip, ∃ p ∈ dftSlots ip ++ fragSlots ip, s.dftHdl p = h
  none : rxProp.isNone = true → ∀ ip, s.fwRules ip = [] ∧ s.dftRules ip = []

section

variable {rxProp : Option RxAttribs} {s s' : FwState} {ip : IpType} {p : DftPlace} {x : UInt32}
variable {l : List UInt32} {ok : ℕ → Bool}

theorem Ok.init (firewallHdl : IpType → ℕ → UInt32) (dftHdl : DftPlace → UInt32) :
    Ok rxProp (init firewallHdl dftHdl) where
  right := ⟨fun _ => List.Perm.refl _, rfl⟩
  apart _ := nodup_singleton 0
  held _ _ hh := absurd hh not_mem_nil
  none _ _ := ⟨rfl, rfl⟩

theorem slots_family {ip' : IpType} (h : p ∈ dftSlots ip ++ fragSlots ip)
    (h' : p ∈ dftSlots ip' ++ fragSlots ip') : ip = ip' := by
  cases ip <;> cases ip' <;> simp_all [dftSlots, fragSlots]

theorem nodup_front (h : (0 :: (s.fwRules ip ++ s.dftRules ip)).Nodup) (hx : x ≠ 0)
    (hnew : ¬ s.Installed ip x) : (0 :: (x :: (s.fwRules ip ++ s.dftRules ip))).Nodup := by
  obtain ⟨hzero, hrest⟩ := nodup_cons.mp h
  refine nodup_cons.mpr ⟨fun hmem => ?_, nodup_cons.mpr ⟨fun hmem => ?_, hrest⟩⟩
  · rcases mem_cons.mp hmem with heq | hmem
    · exact hx heq.symm
    · exact hzero hmem
  · exact hnew (mem_append.mp hmem)

theorem Ok.setDft (h : Ok rxProp s) (hp : p ∈ dftSlots ip ++ fragSlots ip) (hold : s.dftHdl p ∉ s.dftRules ip) :
    Ok rxProp { s with dftHdl := update s.dftHdl p x } where
  right := ⟨h.right.firewall, h.right.wrong⟩
  apart := h.apart
  held := by
    intro ip' y hy
    obtain ⟨q, hq, hheld⟩ := h.held ip' y hy
    have hne : q ≠ p := by
      rintro rfl
      obtain rfl := slots_family hq hp
      rw [hheld] at hold
      exact hold hy
    exact ⟨q, hq, (update_of_ne hne ..).trans hheld⟩
  none := h.none

theorem Ok.addDft (h : Ok rxProp s) (hrx : rxProp.isNone = false)
    (hp : p ∈ dftSlots ip ++ fragSlots ip) (hold : s.dftHdl p ∉ s.dftRules ip) (hx : x ≠ 0)
    (hnew : ¬ s.Installed ip x) :
    Ok rxProp { s with
      dftRules := update s.dftRules ip (x :: s.dftRules ip)
      dftHdl := update s.dftHdl p x } where
  right := ⟨h.right.firewall, h.right.wrong⟩
  apart := by
    intro ip'
    dsimp only
    rcases eq_or_ne ip' ip with rfl | hip
    · rw [update_self]
      have hfront := nodup_front (h.apart ip') hx hnew
      exact (List.Perm.cons 0 perm_middle).nodup_iff.mpr hfront
    · rw [update_of_ne hip]
      exact h.apart ip'
  held := by
    have hother := (h.setDft (x := x) hp hold).held
    intro ip' y hy
    dsimp only at hy
    rcases eq_or_ne ip' ip with rfl | hip
    · rw [update_self] at hy
      rcases mem_cons.mp hy with rfl | hy
      · exact ⟨p, hp, update_self ..⟩
      · exact hother ip' y hy
    · rw [update_of_ne hip] at hy
      exact hother ip' y hy
  none := fun hnone => absurd (hrx.symm.trans hnone) Bool.false_ne_true

theorem Ok.addFirewall (h : Ok rxProp s) (hrx : rxProp.isNone = false) (hx : x ≠ 0) (hnew : ¬ s.Installed ip x) :
    Ok rxProp { s with
      fwRules := update s.fwRules ip (x :: s.fwRules ip)
      firewallHdl := update s.firewallHdl ip
        (update (s.firewallHdl ip) (s.numFirewall ip) x)
      numFirewall := update s.numFirewall ip (s.numFirewall ip + 1) } where
  right := by
    refine ⟨fun ip' => ?_, h.right.wrong⟩
    rcases eq_or_ne ip' ip with rfl | hip
    · have hfirst : (range (s.numFirewall ip')).map
          (update (s.firewallHdl ip') (s.numFirewall ip') x) = s.firewallHdls ip' := by
        refine map_congr_left fun k hk => ?_
        exact update_of_ne (Nat.ne_of_lt (mem_range.mp hk)) ..
      unfold firewallHdls
      simp only [update_self]
      rw [range_succ, map_append, hfirst, map_singleton, update_self]
      exact (perm_append_singleton x _).trans (List.Perm.cons x (h.right.firewall ip'))
    · unfold firewallHdls
      simp only [update_of_ne hip]
      exact h.right.firewall ip'
  apart := by
    intro ip'
    dsimp only
    rcases eq_or_ne ip' ip with rfl | hip
    · rw [update_self]
      exact nodup_front (h.apart ip') hx hnew
    · rw [update_of_ne hip]
      exact h.apart ip'
  held := h.held
  none := fun hnone => absurd (hrx.symm.trans hnone) Bool.false_ne_true

theorem Ok.runStep {E : Type} {st : FwStep E} {answer : FltAnswer} {b : Bool} (h : Ok rxProp s)
    (hrx : rxProp.isNone = false)
    (hplace : st.rule.isNone = false → ∀ p, hdlPlace st.after = .dft p → p ∈ dftSlots ip ++ fragSlots ip)
    (hstore : st.rule.isNone = false → s.StoreOk ip answer (hdlPlace st.after))
    (hstep : s.runStep ip st answer = some (s', b)) : Ok rxProp s' := by
  unfold FwState.runStep at hstep
  cases hrule : st.rule.isNone with
  | true =>
    cases answer <;> simp only [hrule, if_true] at hstep <;> obtain ⟨rfl, -⟩ := hstep <;> exact h
  | false =>
    have hplace := hplace hrule
    have hstore := hstore hrule
    generalize hdlPlace st.after = place at hplace hstore hstep
    cases answer with
    | failed =>
      obtain ⟨rfl, -⟩ := Prod.mk.inj (some.inj hstep)
      exact h
    | badStatus =>
      simp only [hrule, Bool.false_eq_true, if_false] at hstep
      obtain ⟨r, hr, heq⟩ := map_eq_some_iff.mp hstep
      obtain ⟨rfl, -⟩ := Prod.mk.inj heq
      cases place with
      | firewall => exact absurd rfl (hstore (by decide)).1
      | dft p =>
        cases hr
        exact h.setDft (hplace p rfl) (hstore (by decide))
    | added x =>
      simp only [hrule, Bool.false_eq_true, if_false] at hstep
      split at hstep
      · exact nomatch hstep
      rename_i hx
      obtain ⟨hzero, hnew⟩ := not_or.mp hx
      obtain ⟨r, hr, heq⟩ := map_eq_some_iff.mp hstep
      obtain ⟨rfl, -⟩ := Prod.mk.inj heq
      cases place with
      | firewall =>
        obtain ⟨-, rfl⟩ := hstore (by simp)
        unfold storeHdl at hr
        dsimp only [install] at hr
        split at hr
        · cases hr
          exact h.addFirewall hrx hzero hnew
        · exact nomatch hr
      | dft p =>
        cases hr
        exact h.addDft hrx (hplace p rfl) (hstore (by simp)) hzero hnew

theorem Ok.runSteps {E : Type} {answer : ℕ → FltAnswer} {l : List (FwStep E)} {n : ℕ} {b : Bool}
    (h : Ok rxProp s) (hrx : rxProp.isNone = false)
    (hplaces : ∀ st ∈ l, st.rule.isNone = false → ∀ p, hdlPlace st.after = .dft p → p ∈ dftSlots ip ++ fragSlots ip)
    (hstores : StoresOk ip answer l n s) (hrun : runSteps ip answer l n s = some (s', b)) : Ok rxProp s' := by
  induction l generalizing s n with
  | nil =>
    obtain ⟨rfl, -⟩ := Prod.mk.inj (some.inj hrun)
    exact h
  | cons st _ ih =>
    obtain ⟨hstore, hrest⟩ := hstores
    obtain ⟨⟨s1, b1⟩, hstep, hrun⟩ := bind_eq_some_iff.mp hrun
    have hok := h.runStep hrx (hplaces st mem_cons_self) hstore hstep
    cases b1 with
    | false =>
      obtain ⟨rfl, -⟩ := Prod.mk.inj (some.inj hrun)
      exact hok
    | true =>
      exact ih hok (fun st hst => hplaces st (mem_cons_of_mem _ hst)) (hrest s1 hstep) hrun

theorem config_places {E : Type} {c : FirewallConf} {rx : RxAttribs} {st : FwStep E}
    (hst : st ∈ configDftFirewallRules c rx ip) (hrule : st.rule.isNone = false)
    (hp : hdlPlace st.after = .dft p) : p ∈ dftSlots ip ++ fragSlots ip := by
  have hquery : st ≠ queryStep := by
    rintro rfl
    exact Bool.false_ne_true hrule.symm
  have hentry : ∀ ip, st ∉ staEntrySteps c rx ip := by
    intro ip hmem
    unfold staEntrySteps at hmem
    split at hmem
    · obtain ⟨k, _, rfl⟩ := mem_mapIdx.mp hmem
      cases ip <;> exact absurd hp (by simp [staStep, staAccesses, hdlPlace])
    · exact not_mem_nil hmem
  have hdft : ∀ ip i, st = staDefaultStep c rx ip i → p = .dftWanFlHdl i := by
    rintro ip i rfl
    exact (FwPlace.dft.inj hp).symm
  have hicmp : st = staIcmpStep rx → p = .dftWanFlHdl 2 := by
    rintro rfl
    exact (FwPlace.dft.inj hp).symm
  have hfrag : st = staFragStep rx → p = .ipv6Frag := by
    rintro rfl
    exact (FwPlace.dft.inj hp).symm
  cases ip with
  | v4 =>
    simp only [configDftFirewallRules] at hst
    have hlast : st = staDefaultStep c rx .v4 0 := by
      split at hst
      · simpa [hquery] using hst
      · simpa [hquery, hentry] using hst
    rw [hdft _ _ hlast]
    decide
  | v6 =>
    simp only [configDftFirewallRules] at hst
    rcases mem_append.mp hst with hst | hst
    · split at hst
      · rw [hfrag (mem_singleton.mp hst)]
        decide
      · cases hst
    have hlast : st = staIcmpStep rx ∨ st = staDefaultStep c rx .v6 1 := by
      split at hst
      · simpa [hquery] using hst
      · simpa [hquery, hentry] using hst
    rcases hlast with hlast | hlast
    · rw [hicmp hlast]
      decide
    · rw [hdft _ _ hlast]
      decide

theorem Ok.removed (h : Ok rxProp s) (num : IpType → ℕ) (hright : Right { s.removed ip l with numFirewall := num }) :
    Ok rxProp { s.removed ip l with numFirewall := num } where
  right := hright
  apart := by
    intro ip'
    dsimp only
    rcases eq_or_ne ip' ip with rfl | hip
    · rw [removed_fwRules, removed_dftRules]
      have hsub := List.Sublist.append (filter_sublist (p := fun h => h ∉ l) (l := s.fwRules ip'))
        (filter_sublist (p := fun h => h ∉ l) (l := s.dftRules ip'))
      exact (List.Sublist.cons_cons 0 hsub).nodup (h.apart ip')
    unfold FwState.removed
    dsimp only
    rw [update_of_ne hip, update_of_ne hip]
    exact h.apart ip'
  held := by
    intro ip' y hy
    dsimp only at hy
    rcases eq_or_ne ip' ip with rfl | hip
    · rw [removed_dftRules] at hy
      exact h.held ip' y (mem_of_mem_filter hy)
    unfold FwState.removed at hy
    dsimp only at hy
    rw [update_of_ne hip] at hy
    exact h.held ip' y hy
  none := by
    intro hnone ip'
    obtain ⟨hfw, hdft⟩ := h.none hnone ip'
    dsimp only
    rcases eq_or_ne ip' ip with rfl | hip
    · rw [removed_fwRules, removed_dftRules, hfw, hdft]
      exact ⟨rfl, rfl⟩
    unfold FwState.removed
    dsimp only
    rw [update_of_ne hip, update_of_ne hip]
    exact ⟨hfw, hdft⟩

theorem Right.removed (h : s.Right) (hfw : s.fwRules ip = []) : (s.removed ip l).Right := by
  refine ⟨fun ip' => ?_, h.wrong⟩
  rcases eq_or_ne ip' ip with rfl | hip
  · rw [removed_fwRules, hfw]
    have hperm := h.firewall ip'
    rw [hfw] at hperm
    exact hperm
  unfold FwState.removed
  dsimp only
  rw [update_of_ne hip]
  exact h.firewall ip'

theorem Right.reset (h : s.Right) (hfw : (s.removed ip l).fwRules ip = []) :
    Right { s.removed ip l with numFirewall := update s.numFirewall ip 0 } := by
  refine ⟨fun ip' => ?_, h.wrong⟩
  rcases eq_or_ne ip' ip with rfl | hip
  · dsimp only
    rw [hfw]
    unfold firewallHdls
    dsimp only
    rw [update_self]
    exact List.Perm.refl _
  have hother := h.firewall ip'
  unfold firewallHdls at hother ⊢
  unfold FwState.removed
  dsimp only
  rw [update_of_ne hip, update_of_ne hip]
  exact hother

theorem deleted_first_fails {n : ℕ} (h0 : 0 ∉ l) (hok : ok n = false) : deleted ok l n = [] := by
  cases l with
  | nil => rfl
  | cons h =>
    unfold deleted
    rw [if_neg fun heq : h = 0 => h0 (heq ▸ mem_cons_self), if_neg (by rw [hok]; exact Bool.false_ne_true)]

section

variable (h : Ok rxProp s)
include h

theorem Ok.firewallHdls (ip : IpType) : (s.firewallHdls ip).Nodup ∧ 0 ∉ s.firewallHdls ip ∧
      (∀ x, x ∈ s.firewallHdls ip ↔ x ∈ s.fwRules ip) ∧
      ∀ x ∈ s.dftRules ip, x ∉ s.firewallHdls ip := by
  have hperm := h.right.firewall ip
  obtain ⟨hzero, hnodup⟩ := nodup_cons.mp (h.apart ip)
  obtain ⟨hfw, -, hdisjoint⟩ := nodup_append'.mp hnodup
  refine ⟨hperm.nodup_iff.mpr hfw, fun hmem => ?_, fun x => hperm.mem_iff, fun x hx hmem => ?_⟩
  · exact hzero (mem_append_left _ (hperm.mem_iff.mp hmem))
  · exact hdisjoint (hperm.mem_iff.mp hmem) hx

theorem Ok.delFirewall (hall : ∀ n < s.numFirewall ip, ok n) :
    (if s.numFirewall ip ≠ 0 then deleteFilteringHdls ip ok (s.firewallHdls ip) 0 s else (s, 0, true))
      = (s.removed ip (s.firewallHdls ip), s.numFirewall ip, true) := by
  obtain ⟨hnodup, hzero, hmem, -⟩ := h.firewallHdls ip
  have hlen : (s.firewallHdls ip).length = s.numFirewall ip := by
    unfold FwState.firewallHdls
    rw [length_map, length_range]
  have hcalls : calls (s.firewallHdls ip) = s.numFirewall ip := by
    rw [calls_of_nonzero hzero, hlen]
  by_cases hnum : s.numFirewall ip = 0
  · have hnil : s.firewallHdls ip = [] := by
      rw [← length_eq_zero_iff, hlen, hnum]
    rw [if_neg (not_not.mpr hnum), hnil, removed_nil, hnum]
  have hall' : ∀ i < calls (s.firewallHdls ip), ok (0 + i) = true := by
    intro i hi
    rw [Nat.zero_add]
    exact hall i (hcalls ▸ hi)
  have hfst := deleteFilteringHdls_fst (n := 0) (l := s.firewallHdls ip) ip ok
    (fun x hx => Or.inl ((hmem x).mp hx)) (passesOnly_of_nodup hnodup fun _ hx => hx)
  rw [deleted_all _ hall', filter_eq_self.mpr fun x hx => by
    simpa using fun heq : x = 0 => hzero (heq ▸ hx)] at hfst
  have hsnd : (deleteFilteringHdls ip ok (s.firewallHdls ip) 0 s).2.2 = true :=
    (deleteFilteringHdls_snd ip ok).mpr hall'
  have hnext := deleteFilteringHdls_calls hsnd
  rw [if_pos hnum]
  refine Prod.ext hfst (Prod.ext ?_ hsnd)
  rw [hnext, hcalls, Nat.zero_add]

theorem Ok.afterFirewall (ip : IpType) : (s.removed ip (s.firewallHdls ip)).fwRules ip = [] ∧
      (s.removed ip (s.firewallHdls ip)).dftRules ip = s.dftRules ip := by
  obtain ⟨-, -, hmem, hother⟩ := h.firewallHdls ip
  rw [removed_fwRules, removed_dftRules]
  constructor
  · exact filter_eq_nil_iff.mpr fun x hx => by simpa using (hmem x).mpr hx
  · exact filter_eq_self.mpr fun x hx => by simpa using hother x hx

theorem Ok.del_first (hrx : rxProp.isNone = false)
    (hsize : ¬ s.numFirewall ip > (FwArray.firewallHdl ip).size) (hnum : s.numFirewall ip ≠ 0)
    (hfirst : ok 0 = false) : s.delDftFirewallRules ip rxProp true ok = (s, false) := by
  obtain ⟨hnodup, hzero, hmem, -⟩ := h.firewallHdls ip
  have hfst := deleteFilteringHdls_fst (n := 0) (l := s.firewallHdls ip) ip ok
    (fun x hx => Or.inl ((hmem x).mp hx)) (passesOnly_of_nodup hnodup fun _ hx => hx)
  rw [deleted_first_fails hzero hfirst, removed_nil] at hfst
  have hcalls : 0 < calls (s.firewallHdls ip) := by
    rw [calls_of_nonzero hzero, FwState.firewallHdls, length_map, length_range]
    exact Nat.pos_of_ne_zero hnum
  have hsnd : (deleteFilteringHdls ip ok (s.firewallHdls ip) 0 s).2.2 = false := by
    refine Bool.eq_false_iff.mpr fun hdone => ?_
    have hok := (deleteFilteringHdls_snd ip ok).mp hdone 0 hcalls
    exact Bool.false_ne_true (hfirst.symm.trans hok)
  unfold delDftFirewallRules
  rw [if_neg (by rw [hrx]; exact Bool.false_ne_true), if_neg (by decide), if_neg hsize, if_pos hnum, if_pos hsnd]
  exact Prod.ext hfst rfl

/-- The firewall rules are deleted, and the others follow as one list; only a default rule makes the
function fail. -/
theorem Ok.del_rest (hrx : rxProp.isNone = false) (hsize : ¬ s.numFirewall ip > (FwArray.firewallHdl ip).size)
    (hall : ∀ n < s.numFirewall ip, ok n)
    (hpass : PassesOnly ok (s.dftRules ip) (s.dftHdls ip ++ s.fragHdls ip) (s.numFirewall ip)) :
    s.delDftFirewallRules ip rxProp true ok =
      let l := s.firewallHdls ip ++
        deleted ok (s.dftHdls ip ++ s.fragHdls ip) (s.numFirewall ip)
      if ∀ i < calls (s.dftHdls ip), ok (s.numFirewall ip + i) = true then
        ({ s.removed ip l with numFirewall := update s.numFirewall ip 0 }, true)
      else (s.removed ip l, false) := by
  obtain ⟨-, hdft⟩ := h.afterFirewall ip
  have happend := deleteFilteringHdls_append (n := s.numFirewall ip)
    (s := s.removed ip (s.firewallHdls ip)) ip ok (s.dftHdls ip) (s.fragHdls ip)
  have hfst := deleteFilteringHdls_fst (s := s.removed ip (s.firewallHdls ip)) ip ok
    (fun x hx => Or.inr (by rw [hdft]; exact hx)) hpass
  rw [removed_removed] at hfst
  have hsnd := deleteFilteringHdls_snd (l := s.dftHdls ip) (n := s.numFirewall ip)
    (s := s.removed ip (s.firewallHdls ip)) ip ok
  unfold delDftFirewallRules
  rw [if_neg (by rw [hrx]; exact Bool.false_ne_true), if_neg (by decide), if_neg hsize, h.delFirewall hall]
  dsimp only
  rw [if_neg (by decide)]
  by_cases hdone : ∀ i < calls (s.dftHdls ip), ok (s.numFirewall ip + i) = true
  · have hgo := hsnd.mpr hdone
    rw [if_pos hgo] at happend
    rw [if_neg (by rw [hgo]; decide), if_pos hdone, ← happend, hfst]
    rfl
  · have hstop := Bool.eq_false_iff.mpr fun hgo => hdone (hsnd.mp hgo)
    rw [if_neg (by rw [hstop]; decide)] at happend
    rw [if_pos hstop, if_neg hdone, ← happend, hfst]

theorem Ok.dft_deleted (hx : x ∈ s.dftRules ip) : x ∈ (s.dftHdls ip ++ s.fragHdls ip).filter fun h => h ≠ 0 := by
  obtain ⟨p, hp, hheld⟩ := h.held ip x hx
  have hzero : x ≠ 0 := fun heq => (nodup_cons.mp (h.apart ip)).1 (mem_append_right _ (heq ▸ hx))
  have hmem : x ∈ s.dftHdls ip ++ s.fragHdls ip := by
    unfold dftHdls fragHdls
    rw [← map_append]
    exact mem_map.mpr ⟨p, hp, hheld⟩
  exact mem_filter.mpr ⟨hmem, by simpa using hzero⟩

theorem Ok.delActive (hrx : rxProp.isNone = false) (hdel : s.DeletesOk ip ok) :
    Ok rxProp (s.delDftFirewallRules ip rxProp true ok).1 ∧
      ((s.delDftFirewallRules ip rxProp true ok).2 →
        (s.delDftFirewallRules ip rxProp true ok).1.fwRules ip = [] ∧
          (s.delDftFirewallRules ip rxProp true ok).1.dftRules ip = []) := by
  by_cases hsize : s.numFirewall ip > (FwArray.firewallHdl ip).size
  · -- nothing is deleted if there are more rules than the array has places
    have heq : s.delDftFirewallRules ip rxProp true ok = (s, false) := by
      unfold delDftFirewallRules
      rw [if_neg (by rw [hrx]; exact Bool.false_ne_true), if_neg (by decide), if_pos hsize]
    rw [heq]
    exact ⟨h, nofun⟩
  rcases hdel with ⟨hnum, hfirst⟩ | ⟨hpass, hend⟩
  · -- the first firewall rule is not deleted, so nothing is
    rw [h.del_first hrx hsize hnum hfirst]
    exact ⟨h, nofun⟩
  have hall : ∀ n < s.numFirewall ip, ok n = true := by
    rcases hend with hend | ⟨hnum, -⟩
    · exact fun n hn => hend n (Nat.lt_add_right _ hn)
    · exact fun n hn => absurd (hnum ▸ hn) (Nat.not_lt_zero n)
  obtain ⟨hfw, _⟩ := h.afterFirewall ip
  have hfw' : ∀ l, (s.removed ip (s.firewallHdls ip ++ l)).fwRules ip = [] := by
    intro l
    rw [← removed_removed, removed_fwRules, hfw]
    rfl
  rw [h.del_rest hrx hsize hall hpass]
  dsimp only
  by_cases hdone : ∀ i < calls (s.dftHdls ip), ok (s.numFirewall ip + i) = true
  · -- nothing has failed: every default rule is in its place and goes
    have hend : ∀ n < s.numFirewall ip + calls (s.dftHdls ip ++ s.fragHdls ip), ok n = true := by
      rcases hend with hend | ⟨hnum, n, hn, hno⟩
      · exact hend
      · have hok := hdone n hn
        rw [hnum, Nat.zero_add, hno] at hok
        exact nomatch hok
    have hdeleted := deleted_all (n := s.numFirewall ip)
      (s.dftHdls ip ++ s.fragHdls ip) fun i hi => hend _ (Nat.add_lt_add_left hi _)
    rw [if_pos hdone]
    refine ⟨h.removed _ (h.right.reset (hfw' _)), fun _ => ⟨hfw' _, ?_⟩⟩
    dsimp only
    rw [removed_dftRules]
    refine filter_eq_nil_iff.mpr fun x hx => ?_
    have hgone : x ∈ s.firewallHdls ip ++ (s.dftHdls ip ++ s.fragHdls ip).filter fun h => h ≠ 0 :=
      mem_append_right _ (h.dft_deleted hx)
    rw [hdeleted]
    exact fun hno => of_decide_eq_true hno hgone
  -- a default rule is not deleted, and there were no firewall rules
  obtain ⟨hnum, -⟩ := hend.resolve_left fun hend => hdone fun i hi =>
    hend _ (Nat.add_lt_add_left (by rw [calls_append]; omega) _)
  have hnone : s.fwRules ip = [] := by
    have hperm := h.right.firewall ip
    unfold FwState.firewallHdls at hperm
    rw [hnum] at hperm
    exact hperm.nil_eq.symm
  rw [if_neg hdone]
  exact ⟨h.removed s.numFirewall (h.right.removed hnone), nofun⟩

end

/-- **One call.** -/
theorem Ok.call {call : FwCall} (h : Ok rxProp s) (hcare : Careful rxProp s call) :
    (∀ s', s.step rxProp call = some s' → Ok rxProp s') ∧ ∀ ip active ok, call = .del ip active ok →
        (s.delDftFirewallRules ip rxProp active ok).2 →
        (s.delDftFirewallRules ip rxProp active ok).1.fwRules ip = [] ∧
          (s.delDftFirewallRules ip rxProp active ok).1.dftRules ip = [] := by
  cases call with
  | config =>
    refine ⟨fun s' hstep => ?_, nofun⟩
    cases rxProp with
    | none =>
      cases hstep
      exact h
    | some rx =>
      obtain ⟨r, hrun, rfl⟩ := map_eq_some_iff.mp hstep
      exact h.runSteps rfl (fun st hst hrule p hp => config_places hst hrule hp) (hcare rx rfl) hrun
  | del ip active ok =>
    have hboth : Ok rxProp (s.delDftFirewallRules ip rxProp active ok).1 ∧
        ((s.delDftFirewallRules ip rxProp active ok).2 = true →
          (s.delDftFirewallRules ip rxProp active ok).1.fwRules ip = [] ∧
            (s.delDftFirewallRules ip rxProp active ok).1.dftRules ip = []) := by
      cases hrx : rxProp.isNone with
      | true =>
        have heq : s.delDftFirewallRules ip rxProp active ok = (s, true) := by
          unfold delDftFirewallRules
          rw [if_pos hrx]
        rw [heq]
        exact ⟨h, fun _ => h.none hrx ip⟩
      | false =>
        have hcare := hcare hrx
        cases active with
        | true => exact h.delActive hrx hcare
        | false =>
          have heq : s.delDftFirewallRules ip rxProp false ok = (s, true) := by
            unfold delDftFirewallRules
            rw [if_neg (by rw [hrx]; exact Bool.false_ne_true), if_pos rfl]
          rw [heq]
          exact ⟨h, fun _ => hcare⟩
    refine ⟨fun s' hstep => ?_, fun ip' active' ok' hcall => ?_⟩
    · cases hstep
      exact hboth.1
    · obtain ⟨rfl, rfl, rfl⟩ := FwCall.del.inj hcall
      exact hboth.2

end

/-- **The life cycle of the firewall rules.**  In every run whose calls do no harm, the arrays hold the
firewall rules that are installed, only installed rules are deleted, and a deletion that succeeds leaves
nothing of its family. -/
theorem firewallCycle (rxProp : Option RxAttribs) (firewallHdl : IpType → ℕ → UInt32)
    (dftHdl : DftPlace → UInt32) (calls : List FwCall)
    (hcare : AtSteps (step rxProp) (Careful rxProp) (init firewallHdl dftHdl) calls) :
    AtSteps (step rxProp) (Keeps rxProp) (init firewallHdl dftHdl) calls :=
  AtSteps.imp
    (fun _ _ h hcare => ⟨fun s' hs => ((h.call hcare).1 s' hs).right, (h.call hcare).2⟩)
    (fun _ _ _ h hcare hs => (h.call hcare).1 _ hs) (Ok.init firewallHdl dftHdl) hcare

/-- A firewall without entries, enabled or not. -/
def emptyConf (enable : Bool) : FirewallConf := ⟨[], false, enable⟩

/-- The kernel adds each rule, with handles from `k` on. -/
def addFrom (k : ℕ) : ℕ → FltAnswer := fun n => .added (UInt32.ofNat (k + n))

/-- A new interface; the array for IPv4 holds something, and the others are 0. -/
def sampleStart : FwState := init (fun _ k => UInt32.ofNat k) fun _ => 0

/-- Port 80 of TCP and UDP, for both families. -/
def bothConf : FirewallConf :=
  { sampleFwConf with
    entries := sampleFwConf.entries ++
      [⟨{ ((zeroAttrib.setFlag .dstPort).setFlag .nextHdr).setProto 253 .v6 with dstPort := 80 }, 6⟩] }

theorem StoresOk.cons {E : Type} {ip : IpType} {answer : ℕ → FltAnswer} {st : FwStep E} {rest : List (FwStep E)} {n : ℕ}
    {s s1 : FwState} (h : st.rule.isNone = false → s.StoreOk ip (answer n) (hdlPlace st.after))
    (hrun : s.runStep ip st (answer n) = some (s1, true)) (hrest : StoresOk ip answer rest (n + 1) s1) :
    StoresOk ip answer (st :: rest) n s := by
  refine ⟨h, fun s' hs => ?_⟩
  rw [hrun, some.injEq, Prod.mk.injEq] at hs
  exact hs.1 ▸ hrest

/-- An entry for TCP and UDP becomes two rules of each family; for IPv6 there is the rule for fragments as well. -/
theorem firewallCycle_sample : AtSteps (step (some sampleRx)) (Keeps (some sampleRx)) sampleStart
      [.config .v4 bothConf (addFrom 1), .config .v6 bothConf (addFrom 5), .del .v6 true fun _ => true,
        .del .v4 true fun _ => true] := by
  have hdft : ∀ {s : FwState} {ip : IpType} {p : DftPlace} {a : FltAnswer}, s.dftHdl p ∉ s.dftRules ip →
      s.StoreOk ip a (.dft p) := fun h _ => h
  have hfw : ∀ {s : FwState} {ip : IpType} {k : ℕ} {h : UInt32}, s.numFirewall ip = k →
      s.StoreOk ip (.added h) (.firewall k) := fun h _ => ⟨nofun, h⟩
  refine firewallCycle (some sampleRx) _ _ _
    ⟨?_, fun s1 h1 => ⟨?_, fun s2 h2 => ⟨?_, fun s3 h3 => ⟨?_, fun _ _ => trivial⟩⟩⟩⟩
  · rintro _ ⟨⟩
    exact .cons nofun rfl (.cons (fun _ => hfw rfl) rfl (.cons (fun _ => hfw rfl) rfl
      (.cons (fun _ => hdft (by decide)) rfl trivial)))
  · cases h1
    rintro _ ⟨⟩
    exact .cons (fun _ => hdft (by decide)) rfl (.cons nofun rfl (.cons (fun _ => hfw rfl) rfl (.cons (fun _ => hfw rfl) rfl
      (.cons (fun _ => hdft (by decide)) rfl (.cons (fun _ => hdft (by decide)) rfl trivial)))))
  · cases h1
    cases h2
    refine fun _ => .inr ⟨?_, .inl fun _ _ => rfl⟩
    exact ⟨by decide, fun _ => ⟨by decide, fun _ => ⟨by decide, fun _ => trivial⟩⟩⟩
  · cases h1
    cases h2
    cases h3
    refine fun _ => .inr ⟨?_, .inl fun _ _ => rfl⟩
    exact ⟨by decide, fun _ => trivial⟩

/-- IPv6 with a firewall, and then without: the second deletion gives the kernel the handle of the
rule for fragments that the first one has deleted. -/
theorem firewallCycle_fails : ¬ AtSteps (step (some sampleRx)) (Keeps (some sampleRx)) sampleStart
      [.config .v6 (emptyConf true) (addFrom 1), .del .v6 true fun _ => true,
        .config .v6 (emptyConf false) (addFrom 5), .del .v6 true fun _ => true] := by
  rintro ⟨-, h⟩
  obtain ⟨-, h⟩ := h _ rfl
  obtain ⟨-, h⟩ := h _ rfl
  obtain ⟨⟨hright, -⟩, -⟩ := h _ rfl
  exact absurd (hright _ rfl).wrong (by decide)

end FwState

end G4Common.Ipacm
