/-
Undirected graphs as adjacency lists.

A program may store an undirected graph as one list of neighbours for each
vertex, and the number of edges in a counter.  `LinkGraph L n` says that the
lists `L` are such a graph, without loops and double edges, and that it has `n`
edges.  An edge comes and goes in both lists at once.
-/
import Mathlib.Data.Set.Card
import Mathlib.Data.Sym.Sym2

namespace G4Common

open Function List

variable {V : Type*} [DecidableEq V]

/-- The edges of adjacency lists. -/
def edges (L : V → List V) : Set (Sym2 V) := {e | ∃ p q, e = s(p, q) ∧ q ∈ L p}

/-- The lists `L` are a graph with `n` edges. -/
structure LinkGraph (L : V → List V) (n : ℕ) : Prop where
  nodup : ∀ p, (L p).Nodup
  symm : ∀ {p q}, q ∈ L p → p ∈ L q
  irrefl : ∀ p, p ∉ L p
  finite : (edges L).Finite
  card : (edges L).ncard = n

namespace LinkGraph

variable {L : V → List V} {n : ℕ} {a b : V} {l : List V}

omit [DecidableEq V] in
theorem empty : LinkGraph (fun _ : V => []) 0 where
  nodup := fun _ => nodup_nil
  symm := fun h => by simp at h
  irrefl := fun _ => by simp
  finite := by simp [edges]
  card := by simp [edges]

omit [DecidableEq V] in
theorem mem_edges (h : LinkGraph L n) : s(a, b) ∈ edges L ↔ b ∈ L a := by
  constructor
  · rintro ⟨p, q, heq, hq⟩
    rcases Sym2.eq_iff.mp heq with ⟨rfl, rfl⟩ | ⟨rfl, rfl⟩
    · exact hq
    · exact h.symm hq
  · exact fun hb => ⟨a, b, rfl, hb⟩

theorem mem_link {p q : V} (hne : a ≠ b) : q ∈ update (update L a (L a ++ [b])) b (L b ++ [a]) p ↔
      q ∈ L p ∨ p = a ∧ q = b ∨ p = b ∧ q = a := by
  by_cases hpb : p = b
  · subst hpb
    have : ¬ p = a := fun h => hne h.symm
    simp [this]
  rw [update_of_ne hpb]
  by_cases hpa : p = a
  · subst hpa
    simp [hpb]
  · rw [update_of_ne hpa]
    simp [hpa, hpb]

theorem link (h : LinkGraph L n) (hne : a ≠ b) (hno : b ∉ L a) :
    LinkGraph (update (update L a (L a ++ [b])) b (L b ++ [a])) (n + 1) := by
  have hno' : a ∉ L b := fun ha => hno (h.symm ha)
  have hsymm : ∀ {p q}, q ∈ update (update L a (L a ++ [b])) b (L b ++ [a]) p →
      p ∈ update (update L a (L a ++ [b])) b (L b ++ [a]) q := fun hq => by
    rw [mem_link hne] at hq ⊢
    rcases hq with hq | ⟨hp, hq⟩ | ⟨hp, hq⟩
    · exact .inl (h.symm hq)
    · exact .inr (.inr ⟨hq, hp⟩)
    · exact .inr (.inl ⟨hq, hp⟩)
  have hedges : edges (update (update L a (L a ++ [b])) b (L b ++ [a])) =
      insert s(a, b) (edges L) := by
    ext e
    constructor
    · rintro ⟨p, q, rfl, hq⟩
      rcases (mem_link hne).mp hq with hq | ⟨rfl, rfl⟩ | ⟨rfl, rfl⟩
      · exact Set.mem_insert_of_mem _ ⟨p, q, rfl, hq⟩
      · exact Set.mem_insert _ _
      · rw [Sym2.eq_swap]
        exact Set.mem_insert _ _
    · rintro (rfl | ⟨p, q, rfl, hq⟩)
      · exact ⟨a, b, rfl, (mem_link hne).mpr (.inr (.inl ⟨rfl, rfl⟩))⟩
      · exact ⟨p, q, rfl, (mem_link hne).mpr (.inl hq)⟩
  refine ⟨fun p => ?_, hsymm, fun p hp => ?_, ?_, ?_⟩
  · by_cases hpb : p = b
    · rw [hpb, update_self, nodup_append]
      refine ⟨h.nodup b, nodup_singleton a, fun x hx y hy => ?_⟩
      rw [mem_singleton.mp hy]
      rintro rfl
      exact hno' hx
    rw [update_of_ne hpb]
    by_cases hpa : p = a
    · rw [hpa, update_self, nodup_append]
      refine ⟨h.nodup a, nodup_singleton b, fun x hx y hy => ?_⟩
      rw [mem_singleton.mp hy]
      rintro rfl
      exact hno hx
    · rw [update_of_ne hpa]
      exact h.nodup p
  · rcases (mem_link hne).mp hp with hp | ⟨hpa, hpb⟩ | ⟨hpb, hpa⟩
    · exact h.irrefl p hp
    · exact hne (hpa.symm.trans hpb)
    · exact hne (hpa.symm.trans hpb)
  · rw [hedges]
    exact h.finite.insert _
  · rw [hedges, Set.ncard_insert_of_notMem (fun he => hno (h.mem_edges.mp he)) h.finite, h.card]

theorem mem_unlink (h : LinkGraph L n) {p q : V} : q ∈ update (update L a ((L a).erase b)) b ((L b).erase a) p ↔
      q ∈ L p ∧ ¬ (p = a ∧ q = b) ∧ ¬ (p = b ∧ q = a) := by
  by_cases hpb : p = b
  · subst hpb
    rw [update_self, (h.nodup p).mem_erase_iff]
    constructor
    · rintro ⟨hqa, hq⟩
      refine ⟨hq, ?_, fun h' => hqa h'.2⟩
      rintro ⟨rfl, rfl⟩
      exact hqa rfl
    · rintro ⟨hq, -, hqa⟩
      exact ⟨fun h' => hqa ⟨rfl, h'⟩, hq⟩
  rw [update_of_ne hpb]
  by_cases hpa : p = a
  · subst hpa
    rw [update_self, (h.nodup p).mem_erase_iff]
    constructor
    · rintro ⟨hqb, hq⟩
      exact ⟨hq, fun h' => hqb h'.2, fun h' => hpb h'.1⟩
    · rintro ⟨hq, hqb, -⟩
      exact ⟨fun h' => hqb ⟨rfl, h'⟩, hq⟩
  · rw [update_of_ne hpa]
    simp [hpa, hpb]

theorem unlink (h : LinkGraph L n) (hb : b ∈ L a) :
    0 < n ∧ LinkGraph (update (update L a ((L a).erase b)) b ((L b).erase a))
      (n - 1) := by
  have hmem : s(a, b) ∈ edges L := h.mem_edges.mpr hb
  have hcard := Set.ncard_sdiff_singleton_add_one hmem h.finite
  rw [h.card] at hcard
  have hedges : edges (update (update L a ((L a).erase b)) b ((L b).erase a)) =
      edges L \ {s(a, b)} := by
    ext e
    constructor
    · rintro ⟨p, q, rfl, hq⟩
      obtain ⟨hq, h1, h2⟩ := h.mem_unlink.mp hq
      refine ⟨⟨p, q, rfl, hq⟩, fun heq => ?_⟩
      rcases Sym2.eq_iff.mp heq with heq | heq
      · exact h1 heq
      · exact h2 heq
    rintro ⟨⟨p, q, rfl, hq⟩, hne⟩
    refine ⟨p, q, rfl, h.mem_unlink.mpr ⟨hq, fun h' => hne ?_, fun h' => hne ?_⟩⟩
    · rw [h'.1, h'.2]
      rfl
    · rw [h'.1, h'.2, Sym2.eq_swap]
      rfl
  refine ⟨by omega, fun p => ?_, fun hq => ?_, fun p hp => ?_, ?_, ?_⟩
  · by_cases hpb : p = b
    · rw [hpb, update_self]
      exact (h.nodup b).erase a
    rw [update_of_ne hpb]
    by_cases hpa : p = a
    · rw [hpa, update_self]
      exact (h.nodup a).erase b
    · rw [update_of_ne hpa]
      exact h.nodup p
  · obtain ⟨hq, h1, h2⟩ := h.mem_unlink.mp hq
    exact h.mem_unlink.mpr ⟨h.symm hq, fun h' => h2 h'.symm, fun h' => h1 h'.symm⟩
  · exact h.irrefl p (h.mem_unlink.mp hp).1
  · rw [hedges]
    exact h.finite.sdiff
  · rw [hedges]
    omega

theorem unlinkHead (h : LinkGraph (update L a (b :: l)) n) : 0 < n ∧ b ≠ a ∧ a ∈ L b ∧
      LinkGraph (update (update L b ((L b).erase a)) a l) (n - 1) := by
  have hne : b ≠ a := by
    rintro rfl
    refine h.irrefl b ?_
    rw [update_self]
    exact mem_cons_self ..
  have hb : b ∈ update L a (b :: l) a := by
    rw [update_self]
    exact mem_cons_self ..
  have hsym := h.symm hb
  obtain ⟨hpos, hgraph⟩ := h.unlink hb
  rw [update_of_ne hne] at hsym
  refine ⟨hpos, hne, hsym, ?_⟩
  rwa [update_self, erase_cons_head, update_idem, update_of_ne hne, update_comm hne.symm] at hgraph

end LinkGraph

end G4Common
