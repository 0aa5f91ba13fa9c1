/-
The dependencies of the resource manager (`AddRmDepend()`, `DelRmDepend()` of
`ipacm/src/IPACM_Config.cpp`).

An entry of the table is a producer and a consumer, and another pair for the other
direction.  When both are up, the kernel gets a dependency for each pair, but for the
first one only if the producer does not bypass IPA.  When one of them goes down, the
dependencies are deleted again.

The consumer `IPA_RM_RESOURCE_Q6_CONS` is counted.  After a deletion the count is compared
with 1, so the third of three is already taken for the last one.  And the flag for the
bypass is overwritten when a producer is added again, also when the entry is set up.
Otherwise the table and the kernel follow what is up (`rmDepend_exact`).

Only the first three entries of the table are used, and the loops look at no others.  The
`ioctl()` calls succeed.
-/
import G4Common.Lib.Slots

namespace G4Common.Ipacm

open List

/-! ### Data -/

/-- `ipa_rm_resource_name`. -/
inductive RmResource
  | q6Prod | usbProd | hsicProd | wlanProd
  | q6Cons | usbCons | wlanCons
  | other (n : ℕ)
  deriving DecidableEq, Repr

/-- `ipa_rm_client`. -/
structure RmClient where
  producerRm1 : RmResource
  consumerRm1 : RmResource
  producerRm2 : RmResource
  consumerRm2 : RmResource
  producer1Up : Bool
  consumer1Up : Bool
  rmSet : Bool
  rxBypassIpa : Bool
  /-- Not in the source: the value of `rxBypassIpa` when the entry was last set up. -/
  setBypass : Bool
  deriving DecidableEq, Repr

/-- The dependencies in the kernel, and how often one was deleted that did not exist. -/
structure RmKernel where
  deps : RmResource × RmResource → Bool
  wrong : ℕ

/-- The first entries of `ipa_rm_tbl`, and `ipa_rm_a2_check`. -/
structure RmState where
  tbl : List RmClient
  a2Check : ℤ
  kernel : RmKernel

/-- The first pair of an entry. -/
def RmClient.dep1 (e : RmClient) : RmResource × RmResource := (e.producerRm1, e.consumerRm1)

/-- The second pair of an entry. -/
def RmClient.dep2 (e : RmClient) : RmResource × RmResource := (e.producerRm2, e.consumerRm2)

/-- An entry as `Init()` makes it. -/
def rmClientInit (producerRm1 consumerRm1 producerRm2 consumerRm2 : RmResource) : RmClient :=
  ⟨producerRm1, consumerRm1, producerRm2, consumerRm2, false, false, false, false, false⟩

/-- The state after `Init()`. -/
def RmState.init : RmState where
  tbl :=
    [rmClientInit .wlanProd .q6Cons .q6Prod .wlanCons,
      rmClientInit .usbProd .q6Cons .q6Prod .usbCons,
      rmClientInit .wlanProd .usbCons .usbProd .wlanCons]
  a2Check := 0
  kernel := ⟨fun _ => false, 0⟩

/-! ### Functions -/

/-- `IPA_IOC_RM_ADD_DEPENDENCY`. -/
def RmKernel.add (k : RmKernel) (d : RmResource × RmResource) : RmKernel :=
  { k with deps := Function.update k.deps d true }

/-- `IPA_IOC_RM_DEL_DEPENDENCY`. -/
def RmKernel.del (k : RmKernel) (d : RmResource × RmResource) : RmKernel :=
  ⟨Function.update k.deps d false, if k.deps d then k.wrong else k.wrong + 1⟩

def setupRm (k : RmKernel) (e : RmClient) : RmKernel × RmClient :=
  ((if e.rxBypassIpa then k else k.add e.dep1).add e.dep2,
    { e with rmSet := true, setBypass := e.rxBypassIpa })

def takeDownRm (k : RmKernel) (e : RmClient) : RmKernel × RmClient :=
  ((if e.rxBypassIpa then k else k.del e.dep1).del e.dep2, { e with rmSet := false })

/-- The body of the loop of `AddRmDepend()`. -/
def addRmEntry (rm1 : RmResource) (bypass : Bool) (k : RmKernel) (e : RmClient) : RmKernel × RmClient :=
  let r : RmKernel × RmClient :=
    if rm1 = e.producerRm1 then
      let e : RmClient := { e with producer1Up := true, rxBypassIpa := bypass }
      if e.consumer1Up = true ∧ e.rmSet = false then setupRm k e else (k, e)
    else (k, e)
  if rm1 = r.2.consumerRm1 then
    let e : RmClient := { r.2 with consumer1Up := true }
    if e.producer1Up = true ∧ e.rmSet = false then setupRm r.1 e else (r.1, e)
  else r

def addRmDepend (s : RmState) (rm1 : RmResource) (bypass : Bool) : RmState :=
  let a2Check := if rm1 = .q6Cons then s.a2Check + 1 else s.a2Check
  let r := forSlots (addRmEntry rm1 bypass) s.kernel s.tbl
  ⟨r.2, a2Check, r.1⟩

/-- The body of the loop of `DelRmDepend()`. -/
def delRmEntry (rm1 : RmResource) (a2Check : ℤ) (k : RmKernel) (e : RmClient) : RmKernel × RmClient :=
  let r : RmKernel × RmClient :=
    if rm1 = e.producerRm1 then
      let r := if e.rmSet then takeDownRm k e else (k, e)
      (r.1, { r.2 with producer1Up := false, rxBypassIpa := false })
    else (k, e)
  if rm1 = r.2.consumerRm1 then
    -- "still have default RT routing from A2"
    if r.2.consumerRm1 = .q6Cons ∧ a2Check = 1 then r
    else
      let r := if r.2.rmSet then takeDownRm r.1 r.2 else r
      (r.1, { r.2 with consumer1Up := false })
  else r

def delRmDepend (s : RmState) (rm1 : RmResource) : RmState :=
  let a2Check := if rm1 = .q6Cons then s.a2Check - 1 else s.a2Check
  let r := forSlots (delRmEntry rm1 a2Check) s.kernel s.tbl
  ⟨r.2, a2Check, r.1⟩

/-! ### Runs -/

/-- The calls. -/
inductive RmOp
  | add (rm1 : RmResource) (bypass : Bool)
  | del (rm1 : RmResource)
  deriving DecidableEq, Repr

def RmState.step (s : RmState) : RmOp → RmState
  | .add rm1 bypass => addRmDepend s rm1 bypass
  | .del rm1 => delRmDepend s rm1

/-- How often a resource is up, after the calls of a list with the last one first.  Only
`IPA_RM_RESOURCE_Q6_CONS` is counted. -/
def upCount : List RmOp → RmResource → ℕ
  | [], _ => 0
  | .add rm1 _ :: hist, rm =>
    if rm1 = rm then (if rm = .q6Cons then upCount hist rm + 1 else 1) else upCount hist rm
  | .del rm1 :: hist, rm =>
    if rm1 = rm then (if rm = .q6Cons then upCount hist rm - 1 else 0) else upCount hist rm

/-- The states of the runs in which only what is up is deleted, and whose calls satisfy
`ok`, with the calls. -/
inductive RmReach (ok : RmState → RmOp → Prop) : List RmOp → RmState → Prop
  | start : RmReach ok [] .init
  | add {hist : List RmOp} {s : RmState} (rm1 : RmResource) (bypass : Bool) :
      RmReach ok hist s → ok s (.add rm1 bypass) →
      RmReach ok (.add rm1 bypass :: hist) (s.step (.add rm1 bypass))
  | del {hist : List RmOp} {s : RmState} (rm1 : RmResource) :
      RmReach ok hist s → 0 < upCount hist rm1 → ok s (.del rm1) →
      RmReach ok (.del rm1 :: hist) (s.step (.del rm1))

/-- The table and the kernel follow what is up. -/
structure RmExact (hist : List RmOp) (s : RmState) : Prop where
  set : ∀ e ∈ s.tbl, e.rmSet = true ↔ 0 < upCount hist e.producerRm1 ∧ 0 < upCount hist e.consumerRm1
  dep2 : ∀ e ∈ s.tbl, s.kernel.deps e.dep2 = true ↔
    0 < upCount hist e.producerRm1 ∧ 0 < upCount hist e.consumerRm1
  dep1 : ∀ e ∈ s.tbl, s.kernel.deps e.dep1 = true ↔ e.rmSet = true ∧ e.setBypass = false
  wrong : s.kernel.wrong = 0

/-- The deletion of a resource takes an entry down. -/
def RmClient.TakenDown (e : RmClient) (a2Check : ℤ) (rm1 : RmResource) : Prop :=
  e.rmSet = true ∧ (rm1 = e.producerRm1 ∨ rm1 = e.consumerRm1 ∧ ¬ (rm1 = .q6Cons ∧ a2Check = 2))

/-- The calls that do no harm.  `IPA_RM_RESOURCE_Q6_CONS` is not deleted while its count is
3 or more, and an entry that is taken down has the flag it was set up with. -/
def RmOk (s : RmState) : RmOp → Prop
  | .add _ _ => True
  | .del rm1 =>
    (rm1 = .q6Cons → s.a2Check ≤ 2) ∧ ∀ e ∈ s.tbl, e.TakenDown s.a2Check rm1 → e.rxBypassIpa = e.setBypass

instance (e : RmClient) (a2Check : ℤ) (rm1 : RmResource) : Decidable (e.TakenDown a2Check rm1) :=
  inferInstanceAs (Decidable (_ ∧ _))

instance (s : RmState) : (op : RmOp) → Decidable (RmOk s op)
  | .add _ _ => inferInstanceAs (Decidable True)
  | .del _ => inferInstanceAs (Decidable (_ ∧ _))

/-! ### One entry -/

/-- An entry and the kernel. -/
structure RmEntryInv (hist : List RmOp) (k : RmKernel) (e : RmClient) : Prop where
  producer : e.producer1Up = decide (0 < upCount hist e.producerRm1)
  consumer : e.consumer1Up = decide (0 < upCount hist e.consumerRm1)
  set : e.rmSet = (e.producer1Up && e.consumer1Up)
  dep2 : k.deps e.dep2 = e.rmSet
  dep1 : k.deps e.dep1 = (e.rmSet && !e.setBypass)

/-- What does not change in an entry: the resources. -/
def RmClient.names (e : RmClient) : RmResource × RmResource × RmResource × RmResource :=
  (e.producerRm1, e.consumerRm1, e.producerRm2, e.consumerRm2)

/-- The two pairs of an entry are different, and so are its producer and its consumer. -/
structure RmClient.Proper (e : RmClient) : Prop where
  deps : e.dep1 ≠ e.dep2
  ends : e.producerRm1 ≠ e.consumerRm1
  producer : e.producerRm1 ≠ .q6Cons

/-- What a step for one entry leaves alone. -/
structure RmFrame (k : RmKernel) (e : RmClient) (r : RmKernel × RmClient) : Prop where
  names : r.2.names = e.names
  wrong : r.1.wrong = k.wrong
  deps : ∀ d, d ≠ e.dep1 → d ≠ e.dep2 → r.1.deps d = k.deps d

section

variable {k : RmKernel} {e : RmClient} {hist : List RmOp} {rm1 : RmResource} {bypass : Bool} {a2Check : ℤ}

theorem setupRm_frame (k : RmKernel) (e : RmClient) : RmFrame k e (setupRm k e) := by
  refine ⟨rfl, ?_, fun d h₁ h₂ => ?_⟩
  · cases hb : e.rxBypassIpa with
    | true | false => simp [setupRm, RmKernel.add, hb]
  · cases hb : e.rxBypassIpa with
    | true => simp [setupRm, RmKernel.add, hb, h₂]
    | false => simp [setupRm, RmKernel.add, hb, h₁, h₂]

theorem setupRm_deps (he : e.Proper) (hdep1 : k.deps e.dep1 = false) :
    (setupRm k e).1.deps e.dep2 ∧ (setupRm k e).1.deps e.dep1 = !e.rxBypassIpa := by
  cases hb : e.rxBypassIpa with
  | true => simp [setupRm, RmKernel.add, hb, he.deps, hdep1]
  | false => simp [setupRm, RmKernel.add, hb, he.deps]

theorem takeDownRm_frame (he : e.Proper) (hdep2 : k.deps e.dep2)
    (hdep1 : k.deps e.dep1 = !e.rxBypassIpa) : RmFrame k e (takeDownRm k e) := by
  refine ⟨rfl, ?_, fun d h₁ h₂ => ?_⟩
  · cases hb : e.rxBypassIpa with
    | true => simp [takeDownRm, RmKernel.del, hb, hdep2]
    | false =>
      rw [hb] at hdep1
      simp [takeDownRm, RmKernel.del, hb, he.deps.symm, hdep1, hdep2]
  · cases hb : e.rxBypassIpa with
    | true => simp [takeDownRm, RmKernel.del, hb, h₂]
    | false => simp [takeDownRm, RmKernel.del, hb, h₁, h₂]

theorem takeDownRm_deps (he : e.Proper) (hdep1 : k.deps e.dep1 = !e.rxBypassIpa) :
    (takeDownRm k e).1.deps e.dep2 = false ∧ (takeDownRm k e).1.deps e.dep1 = false := by
  cases hb : e.rxBypassIpa with
  | true =>
    rw [hb] at hdep1
    simp [takeDownRm, RmKernel.del, hb, he.deps, hdep1]
  | false => simp [takeDownRm, RmKernel.del, hb, he.deps]

theorem RmFrame.refl {e' : RmClient} (h : e'.names = e.names) : RmFrame k e (k, e') := ⟨h, rfl, fun _ _ _ => rfl⟩

/-! What is up after a call. -/

theorem upCount_add_self : 0 < upCount (.add rm1 bypass :: hist) rm1 := by
  by_cases h : rm1 = .q6Cons
  · simp [upCount, h]
  · simp [upCount, h]

theorem upCount_add_of_ne {rm : RmResource} (h : rm1 ≠ rm) :
    upCount (.add rm1 bypass :: hist) rm = upCount hist rm := by
  simp [upCount, h]

theorem upCount_del_self (h : rm1 ≠ .q6Cons) : upCount (.del rm1 :: hist) rm1 = 0 := by
  simp [upCount, h]

theorem upCount_del_of_ne {rm : RmResource} (h : rm1 ≠ rm) : upCount (.del rm1 :: hist) rm = upCount hist rm := by
  simp [upCount, h]

section

variable (h : RmEntryInv hist k e) (he : e.Proper)
include h he

theorem RmEntryInv.add (rm1 : RmResource) (bypass : Bool) :
    RmEntryInv (.add rm1 bypass :: hist) (addRmEntry rm1 bypass k e).1 (addRmEntry rm1 bypass k e).2 ∧
      RmFrame k e (addRmEntry rm1 bypass k e) := by
  have hdep1 := h.dep1
  by_cases hp : rm1 = e.producerRm1
  · -- the producer comes up, maybe again
    have hc : rm1 ≠ e.consumerRm1 := fun hc => he.ends (hp.symm.trans hc)
    have hprod : true = decide (0 < upCount (.add rm1 bypass :: hist) e.producerRm1) := by
      rw [← hp]
      exact (decide_eq_true upCount_add_self).symm
    have hcons : e.consumer1Up = decide (0 < upCount (.add rm1 bypass :: hist) e.consumerRm1) := by
      rw [upCount_add_of_ne hc]
      exact h.consumer
    by_cases hset : e.consumer1Up = true ∧ e.rmSet = false
    · have heq : addRmEntry rm1 bypass k e = setupRm k { e with producer1Up := true, rxBypassIpa := bypass } := by
        rw [addRmEntry, if_pos hp, if_pos hset]
        exact if_neg hc
      rw [hset.2, Bool.false_and] at hdep1
      obtain ⟨h₂, h₁⟩ := setupRm_deps (e := { e with producer1Up := true, rxBypassIpa := bypass })
        ⟨he.deps, he.ends, he.producer⟩ hdep1
      have hframe := setupRm_frame k { e with producer1Up := true, rxBypassIpa := bypass }
      rw [heq]
      refine ⟨⟨hprod, hcons, ?_, h₂, h₁⟩, hframe.names, hframe.wrong, hframe.deps⟩
      show true = (true && e.consumer1Up)
      rw [hset.1]
      rfl
    have heq : addRmEntry rm1 bypass k e = (k, { e with producer1Up := true, rxBypassIpa := bypass }) := by
      rw [addRmEntry, if_pos hp, if_neg hset]
      exact if_neg hc
    rw [heq]
    refine ⟨⟨hprod, hcons, ?_, h.dep2, h.dep1⟩, RmFrame.refl rfl⟩
    show e.rmSet = (true && e.consumer1Up)
    have hrm := h.set
    cases hcu : e.consumer1Up with
    | true =>
      rw [hcu] at hset
      simpa using hset
    | false =>
      rw [hrm, hcu]
      exact Bool.and_false _
  have hprod : e.producer1Up = decide (0 < upCount (.add rm1 bypass :: hist) e.producerRm1) := by
    rw [upCount_add_of_ne hp]
    exact h.producer
  by_cases hc : rm1 = e.consumerRm1
  · -- the consumer comes up, maybe again
    have hcons : true = decide (0 < upCount (.add rm1 bypass :: hist) e.consumerRm1) := by
      rw [← hc]
      exact (decide_eq_true upCount_add_self).symm
    by_cases hset : e.producer1Up = true ∧ e.rmSet = false
    · have heq : addRmEntry rm1 bypass k e = setupRm k { e with consumer1Up := true } := by
        rw [addRmEntry, if_neg hp, if_pos hc, if_pos hset]
      rw [hset.2, Bool.false_and] at hdep1
      obtain ⟨h₂, h₁⟩ := setupRm_deps (e := { e with consumer1Up := true }) ⟨he.deps, he.ends, he.producer⟩ hdep1
      have hframe := setupRm_frame k { e with consumer1Up := true }
      rw [heq]
      refine ⟨⟨hprod, hcons, ?_, h₂, h₁⟩, hframe.names, hframe.wrong, hframe.deps⟩
      show true = (e.producer1Up && true)
      rw [hset.1]
      rfl
    have heq : addRmEntry rm1 bypass k e = (k, { e with consumer1Up := true }) := by
      rw [addRmEntry, if_neg hp, if_pos hc, if_neg hset]
    rw [heq]
    refine ⟨⟨hprod, hcons, ?_, h.dep2, h.dep1⟩, RmFrame.refl rfl⟩
    show e.rmSet = (e.producer1Up && true)
    have hrm := h.set
    cases hpu : e.producer1Up with
    | true =>
      rw [hpu] at hset
      simpa using hset
    | false =>
      rw [hrm, hpu]
      rfl
  have heq : addRmEntry rm1 bypass k e = (k, e) := by
    rw [addRmEntry, if_neg hp]
    exact if_neg hc
  rw [heq]
  refine ⟨⟨hprod, ?_, h.set, h.dep2, h.dep1⟩, RmFrame.refl rfl⟩
  rw [upCount_add_of_ne hc]
  exact h.consumer

theorem RmEntryInv.takeDown (hflag : e.rmSet → e.rxBypassIpa = e.setBypass) :
    ∃ k', (if e.rmSet then takeDownRm k e else (k, e)) = (k', { e with rmSet := false }) ∧
      k'.deps e.dep2 = false ∧ k'.deps e.dep1 = false ∧ RmFrame k e (k', { e with rmSet := false }) := by
  have hdep1 := h.dep1
  have hdep2 := h.dep2
  cases hset : e.rmSet with
  | true =>
    rw [hset, Bool.true_and, ← hflag hset] at hdep1
    rw [hset] at hdep2
    obtain ⟨h₂, h₁⟩ := takeDownRm_deps he hdep1
    exact ⟨_, if_pos rfl, h₂, h₁, takeDownRm_frame he hdep2 hdep1⟩
  | false =>
    rw [hset, Bool.false_and] at hdep1
    rw [hset] at hdep2
    refine ⟨k, ?_, hdep2, hdep1, RmFrame.refl rfl⟩
    rw [if_neg Bool.false_ne_true, ← hset]

theorem RmEntryInv.del (hup : 0 < upCount hist rm1)
    (ha2 : a2Check = if rm1 = .q6Cons then (upCount hist .q6Cons : ℤ) - 1 else upCount hist .q6Cons)
    (hle : rm1 = .q6Cons → upCount hist .q6Cons ≤ 2)
    (hflag : e.TakenDown (upCount hist .q6Cons) rm1 → e.rxBypassIpa = e.setBypass) :
    RmEntryInv (.del rm1 :: hist) (delRmEntry rm1 a2Check k e).1 (delRmEntry rm1 a2Check k e).2 ∧
      RmFrame k e (delRmEntry rm1 a2Check k e) := by
  by_cases hp : rm1 = e.producerRm1
  · have hc : rm1 ≠ e.consumerRm1 := fun hc => he.ends (hp.symm.trans hc)
    obtain ⟨k', hk', h₂, h₁, hframe⟩ := h.takeDown he fun hset => hflag ⟨hset, Or.inl hp⟩
    have heq : delRmEntry rm1 a2Check k e =
        (k', { e with rmSet := false, producer1Up := false, rxBypassIpa := false }) := by
      rw [delRmEntry, if_pos hp, hk']
      exact if_neg hc
    rw [heq]
    refine ⟨⟨?_, ?_, rfl, h₂, h₁⟩, hframe.names, hframe.wrong, hframe.deps⟩
    · show false = decide (0 < upCount (.del rm1 :: hist) e.producerRm1)
      rw [← hp, upCount_del_self (hp ▸ he.producer)]
      rfl
    · show e.consumer1Up = decide (0 < upCount (.del rm1 :: hist) e.consumerRm1)
      rw [upCount_del_of_ne hc]
      exact h.consumer
  have hprod : e.producer1Up = decide (0 < upCount (.del rm1 :: hist) e.producerRm1) := by
    rw [upCount_del_of_ne hp]
    exact h.producer
  by_cases hc : rm1 = e.consumerRm1
  · by_cases hstill : e.consumerRm1 = .q6Cons ∧ a2Check = 1
    · -- it is still up once
      have heq : delRmEntry rm1 a2Check k e = (k, e) := by
        rw [delRmEntry, if_neg hp, if_pos hc, if_pos hstill]
      rw [heq]
      refine ⟨⟨hprod, ?_, h.set, h.dep2, h.dep1⟩, RmFrame.refl rfl⟩
      have hq : rm1 = .q6Cons := hc.trans hstill.1
      rw [if_pos hq, hstill.2] at ha2
      have hcons := h.consumer
      rw [← hc] at hcons ⊢
      rw [hcons, hq]
      have h2 : upCount hist .q6Cons = 2 := by omega
      simp [upCount, h2]
    have hzero : upCount (.del rm1 :: hist) e.consumerRm1 = 0 := by
      rw [← hc]
      by_cases hq : rm1 = .q6Cons
      · rw [hq] at hup
        have hle := hle hq
        rw [if_pos hq] at ha2
        have hne : a2Check ≠ 1 := fun h1 => hstill ⟨hc.symm.trans hq, h1⟩
        simp only [upCount, hq, if_true]
        omega
      · exact upCount_del_self hq
    obtain ⟨k', hk', h₂, h₁, hframe⟩ := h.takeDown he fun hset =>
      hflag ⟨hset, Or.inr ⟨hc, fun hq => hstill ⟨hc.symm.trans hq.1, by
        have h2 := hq.2
        rw [if_pos hq.1] at ha2
        omega⟩⟩⟩
    have heq : delRmEntry rm1 a2Check k e = (k', { e with rmSet := false, consumer1Up := false }) := by
      rw [delRmEntry, if_neg hp, if_pos hc, if_neg hstill]
      rw [hk']
    rw [heq]
    refine ⟨⟨hprod, ?_, (Bool.and_false _).symm, h₂, h₁⟩, hframe.names, hframe.wrong, hframe.deps⟩
    show false = decide (0 < upCount (.del rm1 :: hist) e.consumerRm1)
    rw [hzero]
    rfl
  have heq : delRmEntry rm1 a2Check k e = (k, e) := by
    rw [delRmEntry, if_neg hp]
    exact if_neg hc
  rw [heq]
  refine ⟨⟨hprod, ?_, h.set, h.dep2, h.dep1⟩, RmFrame.refl rfl⟩
  rw [upCount_del_of_ne hc]
  exact h.consumer

end

end

/-! ### The table -/

/-- The resources of the table. -/
def rmNames : List (RmResource × RmResource × RmResource × RmResource) :=
  RmState.init.tbl.map RmClient.names

/-- Two entries have no dependency in common. -/
def NamesApart (m n : RmResource × RmResource × RmResource × RmResource) : Prop :=
  (∀ d ∈ [(m.1, m.2.1), (m.2.2.1, m.2.2.2)], d ∉ [(n.1, n.2.1), (n.2.2.1, n.2.2.2)])

instance (m n : RmResource × RmResource × RmResource × RmResource) : Decidable (NamesApart m n) :=
  inferInstanceAs (Decidable (∀ _ ∈ _, _))

theorem rmNames_apart : rmNames.Pairwise NamesApart := by decide

theorem proper_of_names {e : RmClient} (h : e.names ∈ rmNames) : e.Proper := by
  obtain ⟨_, _, _, _, _, _, _, _, _⟩ := e
  simp only [rmNames, RmState.init, RmClient.names, rmClientInit, map_cons, map_nil,
    mem_cons, Prod.mk.injEq, not_mem_nil, or_false] at h
  rcases h with ⟨rfl, rfl, rfl, rfl⟩ | ⟨rfl, rfl, rfl, rfl⟩ | ⟨rfl, rfl, rfl, rfl⟩
  · exact ⟨by simp [RmClient.dep1, RmClient.dep2], by simp, by simp⟩
  · exact ⟨by simp [RmClient.dep1, RmClient.dep2], by simp, by simp⟩
  · exact ⟨by simp [RmClient.dep1, RmClient.dep2], by simp, by simp⟩

section

variable {k k' : RmKernel} {e : RmClient} {hist hist' : List RmOp} {s : RmState}

theorem RmEntryInv.frame (h : RmEntryInv hist k e) (h₁ : k'.deps e.dep1 = k.deps e.dep1)
    (h₂ : k'.deps e.dep2 = k.deps e.dep2) : RmEntryInv hist k' e :=
  ⟨h.producer, h.consumer, h.set, h₂.trans h.dep2, h₁.trans h.dep1⟩

theorem RmFrame.others {x y : RmClient} {r : RmKernel × RmClient} (hf : RmFrame k x r)
    (h : RmEntryInv hist k y) (hapart : NamesApart y.names x.names) : RmEntryInv hist r.1 y := by
  have h₁ := hapart y.dep1 (by simp [RmClient.dep1, RmClient.names])
  have h₂ := hapart y.dep2 (by simp [RmClient.dep2, RmClient.names])
  simp only [mem_cons, not_mem_nil, or_false, not_or] at h₁ h₂
  exact h.frame (hf.deps _ h₁.1 h₁.2) (hf.deps _ h₂.1 h₂.2)

theorem NamesApart.symm {m n : RmResource × RmResource × RmResource × RmResource}
    (h : NamesApart m n) : NamesApart n m :=
  fun d hn hm => h d hm hn

theorem forSlots_rm {body : RmKernel → RmClient → RmKernel × RmClient} {Q : RmClient → Prop} {l : List RmClient}
    (hbody : ∀ k e, RmEntryInv hist k e → e.Proper → Q e →
      RmEntryInv hist' (body k e).1 (body k e).2 ∧ RmFrame k e (body k e))
    (hnames : l.map RmClient.names = rmNames) (hinv : ∀ e ∈ l, RmEntryInv hist k e) (hQ : ∀ e ∈ l, Q e) :
    (∀ e ∈ (forSlots body k l).2, RmEntryInv hist' (forSlots body k l).1 e) ∧
      (forSlots body k l).2.map RmClient.names = rmNames ∧ (forSlots body k l).1.wrong = k.wrong := by
  -- the entries that are done follow the new history, the others still the old one
  have hscan := forSlots_scan (s := k) (l := l) (P := fun k' l1 l2 => (∀ e ∈ l1, RmEntryInv hist' k' e) ∧
      (∀ e ∈ l2, RmEntryInv hist k' e ∧ Q e) ∧ (l1 ++ l2).map RmClient.names = rmNames ∧
      k'.wrong = k.wrong)
    (fun k' l1 x l2 hP => by
      obtain ⟨hdone, hrest, hn, hw⟩ := hP
      obtain ⟨hx, hxQ⟩ := hrest x mem_cons_self
      have hmem : x.names ∈ rmNames := by
        rw [← hn]
        exact mem_map_of_mem (by simp)
      obtain ⟨hx', hf⟩ := hbody k' x hx (proper_of_names hmem) hxQ
      have hpair := rmNames_apart
      rw [← hn, map_append, map_cons] at hpair
      obtain ⟨-, hpair2, hcross⟩ := pairwise_append.mp hpair
      refine ⟨fun y hy => ?_, fun y hy => ?_, ?_, hf.wrong.trans hw⟩
      · rcases mem_append.mp hy with hy | hy
        · exact hf.others (hdone y hy) (hcross _ (mem_map_of_mem hy) _ mem_cons_self)
        · obtain rfl := mem_singleton.mp hy
          exact hx'
      · refine ⟨hf.others (hrest y (mem_cons_of_mem _ hy)).1 ?_, (hrest y (mem_cons_of_mem _ hy)).2⟩
        exact (rel_of_pairwise_cons hpair2 (mem_map_of_mem hy)).symm
      · rw [← hn]
        simp [hf.names])
    (show _ ∧ _ ∧ ([] ++ l).map RmClient.names = rmNames ∧ _ from
      ⟨fun e he => absurd he not_mem_nil, fun e he => ⟨hinv e he, hQ e he⟩, hnames, rfl⟩)
  simp only [nil_append, append_nil] at hscan
  exact ⟨hscan.1, hscan.2.2⟩

/-- The table, the count and the kernel follow the calls. -/
structure RmInv (hist : List RmOp) (s : RmState) : Prop where
  entries : ∀ e ∈ s.tbl, RmEntryInv hist s.kernel e
  names : s.tbl.map RmClient.names = rmNames
  wrong : s.kernel.wrong = 0
  a2 : s.a2Check = upCount hist .q6Cons

theorem RmInv.start : RmInv [] .init := by
  refine ⟨fun e he => ?_, rfl, rfl, rfl⟩
  simp only [RmState.init, mem_cons, not_mem_nil, or_false] at he
  rcases he with rfl | rfl | rfl
  · exact ⟨rfl, rfl, rfl, rfl, rfl⟩
  · exact ⟨rfl, rfl, rfl, rfl, rfl⟩
  · exact ⟨rfl, rfl, rfl, rfl, rfl⟩

theorem RmInv.add (h : RmInv hist s) (rm1 : RmResource) (bypass : Bool) :
    RmInv (.add rm1 bypass :: hist) (s.step (.add rm1 bypass)) := by
  obtain ⟨hentries, hnames, hwrong⟩ := forSlots_rm (Q := fun _ => True)
    (fun k e he hp _ => he.add hp rm1 bypass) h.names h.entries fun _ _ => trivial
  refine ⟨hentries, hnames, hwrong.trans h.wrong, ?_⟩
  show (if rm1 = .q6Cons then s.a2Check + 1 else s.a2Check) = _
  rw [h.a2]
  by_cases hq : rm1 = .q6Cons
  · simp [upCount, hq]
  · simp [upCount, hq]

theorem RmInv.del (h : RmInv hist s) {rm1 : RmResource} (hup : 0 < upCount hist rm1)
    (hok : RmOk s (.del rm1)) : RmInv (.del rm1 :: hist) (s.step (.del rm1)) := by
  obtain ⟨hle, hflag⟩ := hok
  rw [h.a2] at hle hflag
  obtain ⟨hentries, hnames, hwrong⟩ := forSlots_rm
    (Q := fun e => e.TakenDown (upCount hist .q6Cons) rm1 → e.rxBypassIpa = e.setBypass)
    (fun k e he hp hQ => he.del hp hup rfl (fun hq => by have := hle hq; omega) hQ)
    h.names h.entries hflag
  have ha2 : (s.step (.del rm1)).a2Check =
      if rm1 = .q6Cons then (upCount hist .q6Cons : ℤ) - 1 else upCount hist .q6Cons := by
    rw [← h.a2]
    rfl
  have hstep : s.step (.del rm1) = ⟨(forSlots (delRmEntry rm1 (s.step (.del rm1)).a2Check) s.kernel s.tbl).2,
        (s.step (.del rm1)).a2Check,
        (forSlots (delRmEntry rm1 (s.step (.del rm1)).a2Check) s.kernel s.tbl).1⟩ := rfl
  rw [ha2] at hstep
  rw [hstep]
  refine ⟨hentries, hnames, hwrong.trans h.wrong, ?_⟩
  by_cases hq : rm1 = .q6Cons
  · subst hq
    have hcast : ((upCount hist .q6Cons - 1 : ℕ) : ℤ) = (upCount hist .q6Cons : ℤ) - 1 := by omega
    simp [upCount, hcast]
  · simp [upCount, hq]

theorem RmInv.exact (h : RmInv hist s) : RmExact hist s := by
  have hset : ∀ e ∈ s.tbl, e.rmSet = true ↔ 0 < upCount hist e.producerRm1 ∧ 0 < upCount hist e.consumerRm1 := by
    intro e he
    have hinv := h.entries e he
    rw [hinv.set, hinv.producer, hinv.consumer, Bool.and_eq_true, decide_eq_true_eq, decide_eq_true_eq]
  refine ⟨hset, fun e he => ?_, fun e he => ?_, h.wrong⟩
  · rw [(h.entries e he).dep2]
    exact hset e he
  · rw [(h.entries e he).dep1, Bool.and_eq_true, Bool.not_eq_true']

/-- **The dependencies follow what is up, and none is deleted that does not exist**, in
every run whose calls do no harm. -/
theorem rmDepend_exact (h : RmReach RmOk hist s) : RmExact hist s := by
  have hinv : RmInv hist s := by
    induction h with
    | start => exact RmInv.start
    | add rm1 bypass _ _ ih => exact ih.add rm1 bypass
    | del _ _ hup hok ih => exact ih.del hup hok
  exact hinv.exact

end

/-- WLAN with a bypass, which comes and goes, while the uplink is up twice. -/
theorem rmDepend_exact_sample :
    ∃ hist s, RmReach RmOk hist s ∧ hist.length = 5 ∧ s.kernel.deps (.q6Prod, .wlanCons) ∧
      RmExact hist s := by
  have h0 : RmReach RmOk _ _ := RmReach.start
  have h₁ := h0.add .wlanProd true trivial
  have h₂ := h₁.add .q6Cons false trivial
  have h3 := h₂.add .q6Cons false trivial
  have h4 := h3.add .wlanProd true trivial
  have h5 := h4.del .q6Cons (by decide) (by decide)
  exact ⟨_, _, h5, rfl, rfl, rmDepend_exact h5⟩

/-- The third of three uplinks that goes takes the dependency down.  If the flag of an
entry that is set up is overwritten, a dependency stays, or one is deleted that does not
exist. -/
theorem rmDepend_wrong : (∃ hist s, RmReach (fun _ _ => True) hist s ∧ ¬ RmExact hist s ∧
      upCount hist .q6Cons = 2 ∧ upCount hist .usbProd = 1 ∧ s.tbl.all (fun e => !e.rmSet)) ∧
    (∃ hist s, RmReach (fun _ _ => True) hist s ∧ s.kernel.deps (.wlanProd, .q6Cons) ∧
      s.tbl.all (fun e => !e.rmSet)) ∧
    ∃ hist s, RmReach (fun _ _ => True) hist s ∧ s.kernel.wrong = 1 := by
  have h0 : RmReach (fun _ _ => True) _ _ := RmReach.start
  refine ⟨?_, ?_, ?_⟩
  · have h₁ := h0.add .usbProd false trivial
    have h₂ := h₁.add .q6Cons false trivial
    have h3 := h₂.add .q6Cons false trivial
    have h4 := h3.add .q6Cons false trivial
    have h5 := h4.del .q6Cons (by decide) trivial
    refine ⟨_, _, h5, fun hexact => ?_, rfl, rfl, rfl⟩
    have hset := (hexact.set ⟨.usbProd, .q6Cons, .q6Prod, .usbCons, true, false, false, false, false⟩
      (by decide)).mpr (by decide)
    exact Bool.false_ne_true hset
  · have h₁ := h0.add .wlanProd false trivial
    have h₂ := h₁.add .q6Cons false trivial
    have h3 := h₂.add .wlanProd true trivial
    have h4 := h3.del .wlanProd (by decide) trivial
    exact ⟨_, _, h4, rfl, rfl⟩
  have h₁ := h0.add .wlanProd true trivial
  have h₂ := h₁.add .q6Cons false trivial
  have h3 := h₂.add .wlanProd false trivial
  have h4 := h3.del .wlanProd (by decide) trivial
  exact ⟨_, _, h4, rfl⟩

end G4Common.Ipacm
