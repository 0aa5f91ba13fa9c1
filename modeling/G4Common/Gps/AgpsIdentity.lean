/-
Who a `BITSubscriber` is (`BITSubscriber::equals()` of `gps/loc_api/libloc_api_50001/loc_eng_agps.cpp`).

A subscriber without an IPv4 address is told from others by the 16 bytes of its IPv6 address, but `strncmp()` compares
them as a string: behind the first zero byte that the two have in common, nothing is compared.  So two clients are
confused if their addresses differ there only (`BitClient.Confused`).  What is compared is still an equivalence, so the
list of a machine works as it does, for the classes of clients that are confused.

A client that leaves the list is deleted at once, and who is left is compared with what is read from its memory.  That
may be any other client, so another subscription may end if there is one (`bit_identity_iff`).
-/
import G4Common.Gps.AgpsSubscriptions

namespace G4Common.Gps

universe u

/-! ### Strings in arrays -/

/-- `strncmp()`, in the length of the arrays. -/
def strncmp : ℕ → List UInt8 → List UInt8 → ℤ
  | n + 1, a :: s, b :: t => if a ≠ b then (a.toNat : ℤ) - b.toNat else if a = 0 then 0 else strncmp n s t
  | _, _, _ => 0

/-- Two arrays differ, but a zero byte comes first. -/
def HiddenDifference (v w : List UInt8) : Prop := ∃ p s t, v = p ++ 0 :: s ∧ w = p ++ 0 :: t ∧ s ≠ t

variable {s t : List UInt8}

theorem takeWhile_or_zero (l : List UInt8) : l = l.takeWhile (· ≠ 0) ∨ ∃ r, l = l.takeWhile (· ≠ 0) ++ 0 :: r := by
  induction l with
  | nil => exact .inl rfl
  | cons a l ih =>
    by_cases ha : a = 0
    · exact .inr ⟨l, by simp [ha]⟩
    · simpa [ha] using ih

theorem takeWhile_eq_iff (hlen : s.length = t.length) :
    s.takeWhile (· ≠ 0) = t.takeWhile (· ≠ 0) ↔ s = t ∨ HiddenDifference s t := by
  constructor
  · intro h
    have hs := takeWhile_or_zero s
    rw [h] at hs
    rcases hs with hs | ⟨r, hs⟩ <;> rcases takeWhile_or_zero t with ht | ⟨r', ht⟩
    · exact .inl (hs.trans ht.symm)
    · rw [hs, congrArg List.length ht] at hlen
      simp at hlen
    · rw [hs, congrArg List.length ht] at hlen
      simp at hlen
    · by_cases hr : r = r'
      · exact .inl (by rw [hs, hr]; exact ht.symm)
      · exact .inr ⟨_, r, r', hs, ht, hr⟩
  · rintro (rfl | ⟨p, s, t, rfl, rfl, -⟩)
    · rfl
    · rw [List.takeWhile_append, List.takeWhile_append]
      simp

/-- **What `strncmp()` takes for equal.** -/
theorem strncmp_eq_zero_iff_takeWhile {n : ℕ} (hs : s.length = n) (ht : t.length = n) :
    strncmp n s t = 0 ↔ s.takeWhile (· ≠ 0) = t.takeWhile (· ≠ 0) := by
  induction n generalizing s t with
  | zero =>
    obtain rfl := List.eq_nil_of_length_eq_zero hs
    obtain rfl := List.eq_nil_of_length_eq_zero ht
    exact iff_of_true rfl rfl
  | succ n ih =>
    obtain ⟨a, s, rfl⟩ := List.exists_cons_of_length_eq_add_one hs
    obtain ⟨b, t, rfl⟩ := List.exists_cons_of_length_eq_add_one ht
    rw [strncmp]
    rcases eq_or_ne a b with rfl | hab
    · rw [if_neg (not_not_intro rfl)]
      rcases eq_or_ne a 0 with rfl | ha
      · exact iff_of_true (if_pos rfl) rfl
      · rw [if_neg ha, ih (Nat.succ.inj hs) (Nat.succ.inj ht)]
        simp [ha]
    rw [if_pos hab]
    refine iff_of_false ?_ ?_
    · intro h
      exact hab (UInt8.toNat_inj.1 (by omega))
    intro h
    rw [List.takeWhile_cons, List.takeWhile_cons] at h
    rcases eq_or_ne a 0 with rfl | ha
    · have hb : b ≠ 0 := fun hb => hab hb.symm
      simp [hb] at h
    by_cases hb : b = 0
    · simp [ha, hb] at h
    · simp [ha, hb] at h
      exact hab h.1

/-! ### Clients -/

/-- The addresses that a `BITSubscriber` is built from. -/
structure BitClient where
  ipv4 : UInt32
  ipv6 : Vector UInt8 16
  deriving DecidableEq

open List

namespace BitClient

def subscriber (c : BitClient) : Subscriber := ⟨.bit, c.ipv4, c.ipv6.toList, false⟩

/-- `BITSubscriber::equals()`. -/
def bitEquals (c d : BitClient) : Bool :=
  c.ipv4 = d.ipv4 && (INADDR_NONE ≠ c.ipv4 || 0 = strncmp 16 c.ipv6.toList d.ipv6.toList)

/-- The same addresses, as far as they count. -/
def Same (c d : BitClient) : Prop := c.ipv4 = d.ipv4 ∧ (c.ipv4 = INADDR_NONE → c.ipv6 = d.ipv6)

instance (c d : BitClient) : Decidable (c.Same d) :=
  inferInstanceAs (Decidable (c.ipv4 = d.ipv4 ∧ (c.ipv4 = INADDR_NONE → c.ipv6 = d.ipv6)))

/-- Two clients without IPv4 addresses whose IPv6 addresses differ behind a zero byte only. -/
def Confused (c d : BitClient) : Prop :=
  c.ipv4 = INADDR_NONE ∧ d.ipv4 = INADDR_NONE ∧ HiddenDifference c.ipv6.toList d.ipv6.toList

variable {c d e : BitClient}

theorem bitEquals_iff : c.bitEquals d ↔
    c.ipv4 = d.ipv4 ∧ (c.ipv4 = INADDR_NONE → strncmp 16 c.ipv6.toList d.ipv6.toList = 0) := by
  rw [bitEquals, Bool.and_eq_true, decide_eq_true_iff, Bool.or_eq_true, decide_eq_true_iff, decide_eq_true_iff]
  refine and_congr_right fun _ => ?_
  rw [eq_comm (a := (0 : ℤ)), or_iff_not_imp_left, not_not, eq_comm (a := INADDR_NONE)]

theorem equals_eq_bitEquals (c d : BitClient) : c.subscriber.equals d.subscriber = c.bitEquals d := by
  rw [Bool.eq_iff_iff, bitEquals_iff, strncmp_eq_zero_iff_takeWhile (Vector.length_toList) (Vector.length_toList)]
  have haddress : ∀ x : BitClient, x.subscriber.address = x.ipv6.toList.takeWhile (· ≠ 0) := by
    intro x
    rw [Subscriber.address]
    congr 1
    exact take_of_length_le (Nat.le_of_eq Vector.length_toList)
  rw [← haddress c, ← haddress d]
  constructor
  · intro h
    obtain ⟨hid, -, haddr⟩ := Subscriber.same_of_equals (s := c.subscriber) (t := d.subscriber) (fun _ _ => rfl) h
    exact ⟨hid, fun hnone => haddr hnone rfl⟩
  · rintro ⟨hid, haddr⟩
    exact Subscriber.Same.equals ⟨hid, fun _ => rfl, fun hnone _ => haddr hnone⟩

/-- **Who is taken for the same**: who is, and who is confused. -/
theorem bitEquals_iff_same_or_confused : c.bitEquals d ↔ c.Same d ∨ c.Confused d := by
  rw [bitEquals_iff, strncmp_eq_zero_iff_takeWhile Vector.length_toList Vector.length_toList,
    takeWhile_eq_iff (Vector.length_toList.trans Vector.length_toList.symm), Same, Confused]
  constructor
  · rintro ⟨hid, h⟩
    by_cases hnone : c.ipv4 = INADDR_NONE
    · rcases h hnone with heq | hdiff
      · exact .inl ⟨hid, fun _ => Vector.toList_inj.1 heq⟩
      · exact .inr ⟨hnone, hid.symm.trans hnone, hdiff⟩
    · exact .inl ⟨hid, fun h => absurd h hnone⟩
  · rintro (⟨hid, h⟩ | ⟨hc, hd, hdiff⟩)
    · exact ⟨hid, fun hnone => Or.inl (by rw [h hnone])⟩
    · exact ⟨hc.trans hd.symm, fun _ => Or.inr hdiff⟩

theorem not_same_of_confused (h : c.Confused d) : ¬c.Same d := by
  rintro ⟨-, hsame⟩
  obtain ⟨hc, -, p, s, t, hs, ht, hne⟩ := h
  rw [hsame hc, ht] at hs
  exact hne (cons.inj (append_cancel_left hs)).2.symm

/-- **An equivalence**, for all clients. -/
theorem equivalence_bitEquals : Equivalence fun c d : BitClient => c.bitEquals d = true where
  refl c := bitEquals_iff_same_or_confused.2 (.inl ⟨rfl, fun _ => rfl⟩)
  symm {c d} h := by
    rw [bitEquals_iff, strncmp_eq_zero_iff_takeWhile (Vector.length_toList) (Vector.length_toList)] at h ⊢
    exact ⟨h.1.symm, fun hnone => (h.2 (h.1.trans hnone)).symm⟩
  trans {c d e} h h' := by
    rw [bitEquals_iff, strncmp_eq_zero_iff_takeWhile (Vector.length_toList) (Vector.length_toList)] at h h' ⊢
    exact ⟨h.1.trans h'.1, fun hnone => (h.2 hnone).trans (h'.2 (h.1.symm.trans hnone))⟩

end BitClient

/-! ### The list of a machine -/

namespace AgpsMachine

open BitClient

variable {X : Type u}

/-- A machine with such subscribers. -/
def withBits (m : AgpsMachine X) (l : List BitClient) : AgpsMachine X := { m with subscribers := l.map subscriber }

/-- The class, where freed memory reads like this. -/
def reading (cls : AgpsClass X) (freed : X → Subscriber) : AgpsClass X := { cls with freed := freed }

/-- **Clients are told apart**: in comparisons, when one is added to the list, and when one leaves it, whatever is read
from freed memory. -/
structure IdentityRight (cls : AgpsClass X) (m : AgpsMachine X) (l : List BitClient) (c : BitClient) : Prop where
  equals_iff : ∀ e ∈ l, (e.bitEquals c = true ↔ e.Same c) ∧ (c.bitEquals e = true ↔ c.Same e)
  equivalence : Equivalence fun c d : BitClient => c.bitEquals d = true
  clone : ∀ c : BitClient, c.subscriber.clone.equals c.subscriber = true ∧ c.subscriber.equals c.subscriber.clone = true
  add : ((m.withBits l).addSubscriber c.subscriber).subscribers =
    if ∃ e ∈ l, e.Same c then l.map subscriber else c.subscriber :: l.map subscriber
  unsubscribe : ∀ freed, ((l.filter fun e => ¬e.Same c).map subscriber).Sublist
    (unsubscribeRsrc (reading cls freed) (m.withBits l) c.subscriber).subscribers

variable {m : AgpsMachine X} {l : List BitClient} {c : BitClient}

theorem confused_symm {c d : BitClient} (h : c.Confused d) : d.Confused c := by
  obtain ⟨hc, hd, p, s, t, hs, ht, hne⟩ := h
  exact ⟨hd, hc, p, t, s, ht, hs, hne.symm⟩

theorem find?_withBits (l : List BitClient) (c : BitClient) :
    (l.map subscriber).find? (Subscriber.equals · c.subscriber) = (l.find? (bitEquals · c)).map subscriber := by
  rw [find?_map]
  congr 2
  funext e
  exact equals_eq_bitEquals e c

theorem addSubscriber_withBits (h : ∀ e ∈ l, ¬e.Confused c) :
    ((m.withBits l).addSubscriber c.subscriber).subscribers =
      if ∃ e ∈ l, e.Same c then l.map subscriber else c.subscriber :: l.map subscriber := by
  have hfind : (m.withBits l).subscribers.find? (Subscriber.equals · c.subscriber) =
      (l.find? (bitEquals · c)).map subscriber := find?_withBits l c
  rw [addSubscriber, hfind]
  rcases hl : l.find? (bitEquals · c) with - | e
  · rw [if_neg]
    · rfl
    · rintro ⟨e, he, hsame⟩
      exact find?_eq_none.1 hl e he (bitEquals_iff_same_or_confused.2 (.inl hsame))
  have he := mem_of_find?_eq_some hl
  have hequals : e.bitEquals c = true := by simpa using find?_some hl
  rw [if_pos ⟨e, he, (bitEquals_iff_same_or_confused.1 hequals).resolve_right (h e he)⟩]
  rfl

/-- The client leaves the list alone: it is not in it, or nobody else is, or the machine does not delete it. -/
def LeavesAlone (m : AgpsMachine X) (l : List BitClient) (c : BitClient) : Prop :=
  m.state = .released ∨ (∀ e ∈ l, ¬e.Same c) ∨ ∀ e ∈ l, e.Same c

theorem unsubscribe_withBits (cls : AgpsClass X) (h : ∀ e ∈ l, ¬e.Confused c) (halone : LeavesAlone m l c) :
    ((l.filter fun e => ¬e.Same c).map subscriber).Sublist
      (unsubscribeRsrc cls (m.withBits l) c.subscriber).subscribers := by
  have hfind : (m.withBits l).subscribers.find? (Subscriber.equals · c.subscriber) =
      (l.find? (bitEquals · c)).map subscriber := find?_withBits l c
  have hall : ((l.filter fun e => ¬e.Same c).map subscriber).Sublist (l.map subscriber) := filter_sublist.map _
  rw [unsubscribeRsrc, hfind]
  rcases hl : l.find? (bitEquals · c) with - | b
  · exact hall
  have hb := mem_of_find?_eq_some hl
  have hbc : b.Same c := by
    have hequals : b.bitEquals c = true := by simpa using find?_some hl
    exact (bitEquals_iff_same_or_confused.1 hequals).resolve_right (h b hb)
  rw [Option.map_some]
  rcases halone with hst | hnone | hsame
  · have hkeep : (onEvent cls (m.withBits l) (.unsubscribe c.subscriber b.subscriber)).subscribers = l.map subscriber := by
      have hst' : (m.withBits l).state = .released := hst
      rw [onEvent, hst']
      rfl
    rw [hkeep]
    exact hall
  · exact absurd hbc (hnone b hb)
  · have hnil : (l.filter fun e => ¬e.Same c) = [] := by
      rw [filter_eq_nil_iff]
      intro e he
      simpa using hsame e he
    rw [hnil, map_nil]
    exact nil_sublist _

/-- Once the receiver is gone, the one that its memory reads as is deleted as well. -/
theorem notifyLoop_gone (cls : AgpsClass X) {f : Subscriber} (hf : ∀ x, cls.freed x = f) (b : Subscriber)
    (status : AgpsRsrcStatus) (k : ℕ) (m : AgpsMachine X) :
    notifyLoop cls ⟨.rcver b, status, true⟩ k true m = notifyLoop cls ⟨.rcver f, status, true⟩ k true m := by
  induction k generalizing m with
  | zero => rfl
  | succ k ih =>
    have hread : ∀ r, NotificationGroup.read (cls.freed m.ext) true (.rcver r) = .rcver f := by
      intro r
      rw [NotificationGroup.read, if_pos rfl, hf]
    rw [notifyLoop, notifyLoop, hread, hread]
    dsimp only
    rcases m.subscribers.find? (Subscriber.notifies · ⟨.rcver f, status, true⟩) with - | s
    · rfl
    · exact ih _

theorem not_mem_notifySubscribers (cls : AgpsClass X) {f b : Subscriber} (hf : ∀ x, cls.freed x = f) {m : AgpsMachine X}
    (hb : m.subscribers.find? (Subscriber.equals · b) = some b) :
    f ∉ (notifySubscribers cls m ⟨.rcver b, .unsubscribe, true⟩).subscribers := by
  have hnotifies : ∀ r x : Subscriber, x.notifies ⟨.rcver r, .unsubscribe, true⟩ = x.equals r := by
    intro r x
    exact Bool.and_true _
  have hpos := length_pos_of_mem (mem_of_find?_eq_some hb)
  obtain ⟨k, hk⟩ : ∃ k, m.subscribers.length = k + 1 := ⟨m.subscribers.length - 1, by omega⟩
  rw [notifySubscribers, if_pos rfl, hk, notifyLoop]
  simp only [NotificationGroup.read, Bool.false_eq_true, if_false, hnotifies, hb]
  have hgone : (false || NotificationGroup.isRcver b (.rcver b)) = true := by simp [NotificationGroup.isRcver]
  have hlen : (m.subscribers.eraseP (Subscriber.equals · b)).length ≤ k := by
    have herase := length_eraseP_of_mem (p := (Subscriber.equals · b)) (mem_of_find?_eq_some hb) b.equals_self
    omega
  rw [hgone, notifyLoop_gone cls hf, notifyLoop_eq cls ⟨.rcver f, .unsubscribe, true⟩, (quiet_foldl ..).2]
  · simp only [hnotifies, mem_filter, f.equals_self]
    exact fun h => by cases h.2
  · exact hlen
  · rintro _ - ⟨⟩
    exact hf
  · intro _ x
    rw [NotificationGroup.read, if_pos rfl, hf]

theorem leavesAlone_of_unsubscribe (cls : AgpsClass X)
    (hsub : ∀ freed, ((l.filter fun e => ¬e.Same c).map subscriber).Sublist
      (unsubscribeRsrc (reading cls freed) (m.withBits l) c.subscriber).subscribers) : LeavesAlone m l c := by
  by_contra hnot
  rw [LeavesAlone, not_or, not_or] at hnot
  obtain ⟨hst, hmem, hother⟩ := hnot
  push Not at hmem hother
  obtain ⟨a, ha, hac⟩ := hmem
  obtain ⟨e, he, hec⟩ := hother
  have hfind : (m.withBits l).subscribers.find? (Subscriber.equals · c.subscriber) =
      (l.find? (bitEquals · c)).map subscriber := find?_withBits l c
  obtain ⟨b, hl⟩ : ∃ b, l.find? (bitEquals · c) = some b := by
    rw [← Option.isSome_iff_exists, find?_isSome]
    exact ⟨a, ha, bitEquals_iff_same_or_confused.2 (.inl hac)⟩
  have hbc : b.bitEquals c = true := by simpa using find?_some hl
  -- the memory of `b` reads as `e`
  have hin : e.subscriber ∈ (unsubscribeRsrc (reading cls fun _ => e.subscriber) (m.withBits l) c.subscriber).subscribers := by
    refine (hsub _).subset (mem_map_of_mem (mem_filter.2 ⟨he, ?_⟩))
    simpa using hec
  have hb : (m.withBits l).subscribers.find? (Subscriber.equals · b.subscriber) = some b.subscriber := by
    have hpred : ∀ x : BitClient, x.bitEquals b = x.bitEquals c := by
      intro x
      rw [Bool.eq_iff_iff]
      exact ⟨fun hx => equivalence_bitEquals.trans hx hbc, fun hx => equivalence_bitEquals.trans hx (equivalence_bitEquals.symm hbc)⟩
    show (l.map subscriber).find? _ = _
    rw [find?_withBits]
    simp only [hpred]
    rw [hl]
    rfl
  have hno := not_mem_notifySubscribers (reading cls fun _ => e.subscriber) (f := e.subscriber) (fun _ => rfl) hb
  have hst' : (m.withBits l).state ≠ .released := hst
  rw [unsubscribeRsrc, hfind, hl, Option.map_some] at hin
  dsimp only at hin
  rw [subscribers_unsubscribe, if_neg hst'] at hin
  exact hno hin

/-- **BIT subscriber identity.**  Clients are told apart, in every list of every machine, if and only if the client is
confused with nobody in the list, and leaves it alone. -/
theorem bit_identity_iff (cls : AgpsClass X) (m : AgpsMachine X) (l : List BitClient) (c : BitClient) :
    IdentityRight cls m l c ↔ (∀ e ∈ l, ¬e.Confused c) ∧ LeavesAlone m l c := by
  constructor
  · intro h
    have hconf : ∀ e ∈ l, ¬e.Confused c := fun e he hconf =>
      not_same_of_confused hconf ((h.equals_iff e he).1.1 (bitEquals_iff_same_or_confused.2 (.inr hconf)))
    exact ⟨hconf, leavesAlone_of_unsubscribe cls h.unsubscribe⟩
  rintro ⟨h, halone⟩
  refine ⟨fun e he => ⟨?_, ?_⟩, equivalence_bitEquals, fun d => ?_, addSubscriber_withBits h,
    fun _ => unsubscribe_withBits _ h halone⟩
  · rw [bitEquals_iff_same_or_confused]
    exact or_iff_left (h e he)
  · rw [bitEquals_iff_same_or_confused]
    exact or_iff_left fun hconf => h e he (confused_symm hconf)
  · exact ⟨(Subscriber.same_clone _).equals, (Subscriber.same_clone _).symm.equals⟩

/-- `2001:db8::1` and `2001:db8::2`. -/
def sampleClient (last : UInt8) : BitClient :=
  ⟨INADDR_NONE, #v[0x20, 0x01, 0x0d, 0xb8, 0, 0, 0, 0, 0, 0, 0, 0, 0, 0, 0, last]⟩

/-- Two clients with different addresses are one for `equals()`; the second one is not added to the list.  And of two
with IPv4 addresses one leaves the list, and the other one with it. -/
theorem bit_identity_fails :
    ((sampleClient 1).bitEquals (sampleClient 2) ∧ ¬(sampleClient 1).Same (sampleClient 2) ∧
      (((new false ()).withBits [sampleClient 1]).addSubscriber (sampleClient 2).subscriber).subscribers =
        [(sampleClient 1).subscriber]) ∧
    let other : BitClient := { sampleClient 1 with ipv4 := 7 }
    let leaving : BitClient := { sampleClient 1 with ipv4 := 8 }
    ¬other.Same leaving ∧ (unsubscribeRsrc (agpsBase fun _ => other.subscriber)
      ({ AgpsMachine.new false 0 with state := .acquired }.withBits [leaving, other]) leaving.subscriber).subscribers = [] := by
  decide

end AgpsMachine

end G4Common.Gps
