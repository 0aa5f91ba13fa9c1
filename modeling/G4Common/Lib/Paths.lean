/-
Paths as strings.

A path names what its components say, from the root if it begins with `/` and from where one is if not; further `/`
between the components and at the end make no difference (`SamePath`).  A name that is put after a path is a component
of its own if there is a `/` between them (`components_slash_append`), and goes on with the last component if there is
none (`not_samePath_append`).  A path of which something is cut off, and which did not end with `/`, is another path
(`not_samePath_take`).
-/
import G4Common.Lib.CString

namespace G4Common.Paths

open CString List

/-- The names that a path goes through. -/
def components (path : List Char) : List (List Char) := tokens '/' path

/-- Two ways to write a path. -/
def SamePath (a b : List Char) : Prop :=
  (a.head? = some '/' ↔ b.head? = some '/') ∧ components a = components b

/-- The name of an entry of a directory. -/
structure EntryName (name : List Char) : Prop where
  ne_nil : name ≠ []
  slash : '/' ∉ name

section Same

variable {a b c name : List Char}

theorem SamePath.rfl : SamePath a a := ⟨Iff.rfl, Eq.refl _⟩

theorem SamePath.symm (h : SamePath a b) : SamePath b a := ⟨h.1.symm, h.2.symm⟩

theorem SamePath.trans (h : SamePath a b) (h' : SamePath b c) : SamePath a c := ⟨h.1.trans h'.1, h.2.trans h'.2⟩

theorem head?_append (ha : a ≠ []) (t : List Char) : (a ++ t).head? = a.head? := by
  cases a with
  | nil => exact absurd (Eq.refl []) ha
  | cons x => exact Eq.refl (some x)

theorem components_slash_append (a : List Char) (hname : EntryName name) :
    components (a ++ '/' :: name) = components a ++ [name] := by
  show tokens '/' (a ++ '/' :: name) = _
  rw [tokens_append_delim, tokens_of_notMem hname.ne_nil hname.slash]
  exact Eq.refl _

theorem components_slash (a : List Char) : components (a ++ ['/']) = components a := by
  have hnil : tokens '/' [] = [] := Eq.refl []
  show tokens '/' (a ++ '/' :: []) = _
  rw [tokens_append_delim, hnil, append_nil]
  exact Eq.refl _

theorem samePath_slash (ha : a ≠ []) : SamePath (a ++ ['/']) a := by
  constructor
  · rw [head?_append ha]
  · exact components_slash a

theorem exists_concat_of_getLast? {x : Char} (h : a.getLast? = some x) : ∃ s, a = s ++ [x] := by
  obtain ⟨s, hs⟩ := getLast?_eq_some_iff.1 h
  exact ⟨s, hs⟩

theorem components_append (ha : a.getLast? = some '/') (hname : EntryName name) :
    components (a ++ name) = components a ++ [name] := by
  obtain ⟨s, rfl⟩ := exists_concat_of_getLast? ha
  rw [append_assoc, singleton_append, components_slash_append s hname, components_slash]

theorem not_samePath_append (ha : a ≠ []) (hlast : a.getLast? ≠ some '/') (hname : EntryName name) :
    ¬ SamePath (a ++ name) (a ++ '/' :: name) := by
  rintro ⟨-, h⟩
  obtain ⟨s, x, rfl⟩ : ∃ s x, a = s ++ [x] := ⟨a.dropLast, a.getLast ha, (dropLast_append_getLast ha).symm⟩
  have hx : x ≠ '/' := by
    rintro rfl
    exact hlast getLast?_concat
  have hlen : (components (s ++ [x] ++ name)).length = (components (s ++ [x])).length :=
    length_tokens_append hx hname.slash s
  rw [h, components_slash_append _ hname, length_append, length_singleton] at hlen
  omega

theorem not_samePath_take {n : ℕ} (hn : n < a.length) (hlast : a.getLast? ≠ some '/') : ¬ SamePath (a.take n) a := by
  rintro ⟨-, h⟩
  have ha : a ≠ [] := ne_nil_of_length_pos (by omega)
  have hchars := congrArg flatten h
  -- There is one more character in the components of the whole path, its last one.
  have hdrop : a.drop n ≠ [] := ne_nil_of_length_pos (by rw [length_drop]; omega)
  have hmem : (a.drop n).getLast hdrop ∈ (a.drop n).filter fun c => c ≠ '/' := by
    rw [mem_filter]
    refine ⟨getLast_mem hdrop, decide_eq_true fun hslash => hlast ?_⟩
    rw [getLast_drop hdrop] at hslash
    rw [getLast?_eq_some_getLast ha, hslash]
  have hall : (a.take n ++ a.drop n).filter (fun c => c ≠ '/') = (a.take n).filter fun c => c ≠ '/' := by
    rw [take_append_drop]
    exact (flatten_tokens '/' a).symm.trans (hchars.symm.trans (flatten_tokens '/' (a.take n)))
  rw [filter_append] at hall
  rw [append_right_eq_self.1 hall] at hmem
  exact not_mem_nil hmem

end Same

end G4Common.Paths
