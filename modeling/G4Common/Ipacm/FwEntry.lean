/-
The entry of one `Firewall` element (`IPACM_firewall_xml_parse_tree()` of `ipacm/src/IPACM_Xml.cpp`).

The elements inside a `Firewall` element write to the entry that it has begun, one after the other, in the order in
which they are visited, each with its own text (`entryItems`).  Neither the elements before it nor those of the entries
behind it write to it, as long as the table has room for all of them (`entry_foldlM`).
-/
import G4Common.Ipacm.Xml
import G4Common.Lib.Fields

namespace G4Common.Ipacm

open List Option Fields

/-! ### Elements with their texts -/

/-- The ports for TCP, for UDP and for both are stored in the same way; the elements for TCP stand for all three. -/
def FwTag.key : FwTag → FwTag
  | .udpSourcePort | .tcpUdpSourcePort => .tcpSourcePort
  | .udpSourceRange | .tcpUdpSourceRange => .tcpSourceRange
  | .udpDestinationPort | .tcpUdpDestinationPort => .tcpDestinationPort
  | .udpDestinationRange | .tcpUdpDestinationRange => .tcpDestinationRange
  | tag => tag

/-- The text that a branch uses for a write to the last entry, if it writes there.  A flag needs no text. -/
def FwWork.text (content : Option (List Char)) : FwWork → Option (List Char)
  | .flag _ => some []
  | .entry _ => content.map fun c => c.take (strSize c)
  | .descend | .newEntry | .enable _ | .accept _ => none

/-- What a branch writes to an entry. -/
def FwWork.onEntry (text : List Char) (e : FirewallEntry) : FwWork → FirewallEntry
  | .flag f => { e with attrib := e.attrib.setFlag f }
  | .entry f => f text e
  | .descend | .newEntry | .enable _ | .accept _ => e

/-- What an element writes to its entry. -/
def FwTag.write (lib : XmlLib) (tag : FwTag) (text : List Char) (e : FirewallEntry) : FirewallEntry :=
  (fwWork lib tag).onEntry text e

theorem write_key (lib : XmlLib) (tag : FwTag) : tag.key.write lib = tag.write lib := by
  cases tag <;> rfl

abbrev XmlVisit := XmlItem × XmlTree

/-- It is a `Firewall` element. -/
def beginsEntry (x : XmlVisit) : Bool := fwTagOf x.1 = some .firewall

/-- What a node writes to the last entry. -/
def visitItem (lib : XmlLib) (x : XmlVisit) : Option (FwTag × List Char) :=
  (fwTagOf x.1).bind fun tag => ((fwWork lib tag).text (readContentElement x.2)).map fun text => (tag.key, text)

/-- The elements that write to the entry `k`, from a node on before which `n` entries have begun. -/
def entryItems (lib : XmlLib) (k : ℕ) : ℕ → List XmlVisit → List (FwTag × List Char)
  | _, [] => []
  | n, x :: xs =>
    (if n = k + 1 then (visitItem lib x).toList else []) ++ entryItems lib k (if beginsEntry x then n + 1 else n) xs

theorem key_of_mem_entryItems {lib : XmlLib} {k n : ℕ} {xs : List XmlVisit} {i : FwTag × List Char}
    (h : i ∈ entryItems lib k n xs) : i.1.key = i.1 := by
  have hkey : ∀ tag : FwTag, tag.key.key = tag.key := fun tag => by cases tag <;> rfl
  induction xs generalizing n with
  | nil => cases h
  | cons x xs ih =>
    rw [entryItems] at h
    rcases mem_append.1 h with h | h
    · split at h
      · rw [Option.mem_toList, visitItem] at h
        obtain ⟨tag, -, h⟩ := bind_eq_some_iff.1 h
        obtain ⟨_, -, rfl⟩ := map_eq_some_iff.1 h
        exact hkey tag
      · cases h
    · exact ih h

/-! ### One entry -/

theorem XmlTable.getElem?_modifyLast {α : Type} {max : ℕ} {t t' : XmlTable α max} {f : α → α}
    (h : t.modifyLast f = some t') (k : ℕ) :
    t'.entries[k]? = if t.num.toNat = k + 1 then t.entries[k]?.map f else t.entries[k]? := by
  rw [modifyLast] at h
  split at h
  · rename_i hin
    cases h
    have hlast : t.last = t.num.toNat - 1 := rfl
    rw [Vector.getElem?_set]
    by_cases hk : t.last.toNat = k
    · subst hk
      rw [if_pos rfl, if_pos (by omega), Vector.getElem?_eq_getElem hin.2]
      rfl
    · rw [if_neg hk, if_neg (by omega)]
  · cases h

section

variable {lib : XmlLib} {c c' : FirewallXml} {x : XmlVisit}

theorem entry_work {w : FwWork} {content : Option (List Char)} (h : c.work content w = some c') (k : ℕ) :
    c'.extdFirewall.entries[k]? =
      if c.num.toNat = k + 1 then
        c.extdFirewall.entries[k]?.map ((w.text content).elim id fun text e => w.onEntry text e)
      else c.extdFirewall.entries[k]? := by
  have hwrite : ∀ f, c.modifyEntry f = some c' → c'.extdFirewall.entries[k]? =
      if c.num.toNat = k + 1 then c.extdFirewall.entries[k]?.map f else c.extdFirewall.entries[k]? := by
    intro f hf
    obtain ⟨t, ht, rfl⟩ := map_eq_some_iff.1 hf
    exact XmlTable.getElem?_modifyLast ht k
  have hkeep : c'.extdFirewall.entries = c.extdFirewall.entries → c'.extdFirewall.entries[k]? =
      if c.num.toNat = k + 1 then c.extdFirewall.entries[k]?.map id else c.extdFirewall.entries[k]? := by
    intro heq
    rw [heq, Option.map_id, id, ite_self]
  cases w with
  | descend | newEntry =>
    cases h
    exact hkeep rfl
  | enable | accept =>
    apply hkeep
    rw [FirewallXml.work] at h
    refine withContent_keeps (g := fun c => c.extdFirewall.entries) ?_ h
    rintro _ _ ⟨⟩
    rfl
  | flag f => exact hwrite _ h
  | entry f =>
    rcases content with - | text
    · cases h
      exact hkeep rfl
    rw [FirewallXml.work, withContent] at h
    split at h
    · exact hwrite _ h
    · cases h

/-- A node of the document. -/
def fwVisit (lib : XmlLib) (c : FirewallXml) (x : XmlVisit) : Option FirewallXml :=
  (fwTagOf x.1).elim (some c) fun tag => c.work (readContentElement x.2) (fwWork lib tag)

theorem num_fwVisit (h : fwVisit lib c x = some c') : c'.num = if beginsEntry x then c.num + 1 else c.num := by
  rw [fwVisit] at h
  rw [beginsEntry]
  rcases hx : fwTagOf x.1 with - | _
  · rw [hx] at h
    cases h
    rfl
  · rw [hx] at h
    rw [FirewallXml.num_work h, fwWork_next]
    simp

theorem entry_fwVisit (h : fwVisit lib c x = some c') (k : ℕ) :
    c'.extdFirewall.entries[k]? =
      if c.num.toNat = k + 1 then
        c.extdFirewall.entries[k]?.map (writes (FwTag.write lib) (visitItem lib x).toList)
      else c.extdFirewall.entries[k]? := by
  rw [fwVisit] at h
  rw [visitItem]
  rcases hx : fwTagOf x.1 with - | tag
  · rw [hx] at h
    cases h
    exact ((congrArg (ite _ · _) Option.map_id').trans (ite_self _)).symm
  rw [hx] at h
  rw [entry_work (c := c) h k, Option.bind_some]
  rcases (fwWork lib tag).text (readContentElement x.2) with - | text
  · rfl
  · show _ = if _ then c.extdFirewall.entries[k]?.map (tag.key.write lib text) else _
    rw [write_key]
    rfl

/-- **An entry is what its elements write**, wherever they are in the document. -/
theorem entry_foldlM {xs : List XmlVisit} (h : xs.foldlM (fwVisit lib) c = some c') (k : ℕ)
    (hroom : c.num.toNat + xs.countP beginsEntry ≤ maxFirewallEntries) :
    c'.extdFirewall.entries[k]? =
      c.extdFirewall.entries[k]?.map (writes (FwTag.write lib) (entryItems lib k c.num.toNat xs)) := by
  rw [maxFirewallEntries] at hroom
  induction xs generalizing c with
  | nil =>
    cases h
    exact Option.map_id'.symm
  | cons x xs ih =>
    rw [foldlM_cons] at h
    obtain ⟨c1, hx, h⟩ := bind_eq_some_iff.1 h
    rw [countP_cons] at hroom
    have hnum : c1.num.toNat = if beginsEntry x then c.num.toNat + 1 else c.num.toNat := by
      rw [num_fwVisit hx]
      split_ifs with hb
      · rw [if_pos hb] at hroom
        rw [UInt8.toNat_add]
        show (c.num.toNat + 1) % 256 = _
        omega
      · rfl
    have hrest : c1.num.toNat + xs.countP beginsEntry ≤ 50 := by
      rw [hnum]
      split_ifs with hb
      · rw [if_pos hb] at hroom
        omega
      · omega
    rw [ih h hrest, entry_fwVisit hx, hnum, entryItems]
    by_cases hk : c.num.toNat = k + 1
    · rw [if_pos hk, if_pos hk, Option.map_map]
      congr 1
      funext e
      exact foldl_append.symm
    · rw [if_neg hk, if_neg hk, nil_append]

theorem fwParse_eq_foldlM (lib : XmlLib) (t : XmlTree) (c : FirewallXml) :
    ipacmFirewallXmlParseTree lib t c = (fwVisits t).foldlM (fwVisit lib) c := by
  rw [ipacmFirewallXmlParseTree, Forest.walk_eq_foldlM]
  rfl

end

end G4Common.Ipacm
