import SchemaMigration.Proofs.FirstEntries
import SchemaMigration.Proofs.SeenObjects

namespace SchemaMigration
namespace Element

def Registers (entry : Element) (p : List Nat) (n : Element) : Prop :=
  Holds entry .entry p n ∨ (p = [] ∧ n = entry)

structure FirstWithId (before : List Nat → List Nat → Prop) (entry : Element) (id : String)
    (p : List Nat) (n : Element) : Prop where
  registers : entry.Registers p n
  attr?_id : n.attr? "id" = some id
  before_or_eq : ∀ q m, entry.Registers q m → m.attr? "id" = some id → before p q ∨ q = p

/-- A registry has each id of an entry once, in the order of the first elements that carry them,
and for each id what that element is. -/
structure RegisteredBy (before : List Nat → List Nat → Prop) (entry : Element)
    (ids : OnceMap IdOwner) : Prop where
  count_eq_one : ∀ p n id, entry.Registers p n → n.attr? "id" = some id →
    (ids.entries.map Prod.fst).count id = 1
  exists_places : ∃ places : List (List Nat), places.Pairwise before ∧
    List.Forall₂ (fun p x => ∃ n, FirstWithId before entry x.1 p n ∧
      x.2 = ⟨(n.attr? "struct-name").getD "", n.line⟩) places ids.entries

/-- A map of logged sightings has the first one for each id. -/
theorem registeredBy_of_logged {entry : Element} {seen : Sightings}
    (h : Logged entry.Registers seen) :
    entry.RegisteredBy EndsBefore (OnceMap.ofList seen) := by
  obtain ⟨log, rfl, hpairwise, hlog⟩ := h
  constructor
  case count_eq_one =>
    intro p n id hn hid
    have hmem : (p, id, ⟨(n.attr? "struct-name").getD "", n.line⟩) ∈ log :=
      (hlog p _).mpr ⟨n, hn, mem_sighting_iff.mpr ⟨hid, rfl⟩⟩
    apply List.count_eq_one_of_mem (OnceMap.ofList _).nodup_keys
    rw [← OnceMap.contains_iff_mem_keys, OnceMap.contains_ofList]
    exact ⟨_, List.mem_map_of_mem hmem⟩
  case exists_places =>
    obtain ⟨firsts, hsub, hentries, hfirst⟩ := OnceMap.exists_firsts log
    refine ⟨firsts.map Prod.fst, List.pairwise_map.mpr (hpairwise.sublist hsub), ?_⟩
    rw [hentries, List.forall₂_map_left_iff, List.forall₂_map_right_iff, List.forall₂_same]
    rintro ⟨p, id, o⟩ hy
    obtain ⟨n, hn, hsighting⟩ := (hlog p (id, o)).mp (hsub.subset hy)
    obtain ⟨hid, ho⟩ := mem_sighting_iff.mp hsighting
    refine ⟨n, ⟨hn, hid, fun q m hm hmid => ?_⟩, ho⟩
    -- Another element with the id is logged after this one, which is the first with it.
    obtain ⟨earlier, later, hsplit, hearlier⟩ := hfirst (p, id, o) hy
    have hmem : (q, id, ⟨(m.attr? "struct-name").getD "", m.line⟩) ∈ log :=
      (hlog q _).mpr ⟨m, hm, mem_sighting_iff.mpr ⟨hmid, rfl⟩⟩
    rw [hsplit] at hmem hpairwise
    rcases List.mem_append.mp hmem with hmem | hmem
    · exact (hearlier _ hmem rfl).elim
    · rcases List.mem_cons.mp hmem with heq | hmem
      · exact Or.inr (congrArg Prod.fst heq)
      · have hrest := (List.pairwise_append.mp hpairwise).2.1
        exact Or.inl (List.rel_of_pairwise_cons hrest hmem)

/-- What is seen in an entry is logged, and the entry itself after all that stands in it. -/
theorem logged_entry {entry : Element} {models : List Model} {seen : Sightings}
    (houtcome : entry.outcome .entry = .ok (models, seen)) :
    Logged entry.Registers (seen ++ entry.sighting) := by
  apply (logged_outcome entry .entry models seen houtcome).append (.sighting entry)
  rintro p n q m hn ⟨rfl, _⟩
  obtain ⟨i, p', c, rfl, _⟩ := holds_entry_iff.mp hn
  exact .inside _ p'

end Element

namespace Document

open Element

/-- The registry of a document has each id of its objects once, in the order in which the first
objects with them end, and tells of an id what that object is. -/
theorem read_registers {root : Element} {d : Document} (hread : read root = .ok d) :
    ∃ entry, root.placed = [entry] ∧ entry.RegisteredBy EndsBefore d.ids := by
  obtain ⟨entry, models, seen, hplaced, houtcome, rfl⟩ := read_eq_ok_iff.mp hread
  exact ⟨entry, hplaced, registeredBy_of_logged (logged_entry houtcome)⟩

def nestedEntry : Element :=
  let catalog := ((object Struct.catalog.name).setKey "catalog").setId "m" |>.setLine 5
  let model := ((object Struct.model.name).setId "m").addChild catalog |>.setLine 4
  (({ name := "value" } : Element).setId "d").setLine 2
    |>.addChild ((list.setKey "physicalModels").addChild model)

/-- The catalog ends before the model, so it keeps the id that both carry. -/
theorem read_registers_nestedEntry :
    ∃ d, read (data [nestedEntry]) = .ok d ∧
      ∃ entry, (data [nestedEntry]).placed = [entry] ∧ entry.RegisteredBy EndsBefore d.ids :=
  ⟨_, rfl, read_registers rfl⟩

/-- The registry need not be in the order in which objects begin: here the entry, which begins
first, comes last, and the catalog keeps the id that the model around it has too. -/
theorem not_registeredBy_begin :
    ∃ d, read (data [nestedEntry]) = .ok d ∧ (data [nestedEntry]).placed = [nestedEntry] ∧
      d.ids.entries = [("m", ⟨Struct.catalog.name, some 5⟩), ("d", ⟨"", some 2⟩)] ∧
      ¬nestedEntry.RegisteredBy (· < ·) d.ids := by
  refine ⟨_, rfl, rfl, rfl, ?_⟩
  rintro ⟨_, places, hpairwise, hplaces⟩
  obtain ⟨p, rest, _, hrest, rfl⟩ := List.forall₂_cons_right_iff.mp hplaces
  obtain ⟨q, rest', ⟨n, hfirst, _⟩, _, rfl⟩ := List.forall₂_cons_right_iff.mp hrest
  have hq : q = [] := by
    obtain hbefore | heq := hfirst.before_or_eq [] nestedEntry (Or.inr ⟨rfl, rfl⟩) rfl
    · exact absurd hbefore (List.not_lt_nil q)
    · exact heq.symm
  have hpq := List.rel_of_pairwise_cons hpairwise List.mem_cons_self
  rw [hq] at hpq
  exact List.not_lt_nil p hpq

end Document
end SchemaMigration
