import SchemaMigration.Proofs.ContainedEntities
import SchemaMigration.Proofs.DirectorySearch
import SchemaMigration.Proofs.SeenObjects

namespace SchemaMigration

def Entity.SeenIn (e : Entity) (seen : Sightings) : Prop :=
  e.id = "" ∨ ∃ o, (e.id, o) ∈ seen ∧ o.struct? = some e.struct

theorem Entity.SeenIn.mono {e : Entity} {seen seen' : Sightings} (h : e.SeenIn seen)
    (hsub : ∀ x ∈ seen, x ∈ seen') : e.SeenIn seen' := by
  obtain hblank | ⟨o, hmem, hstruct⟩ := h
  · exact Or.inl hblank
  · exact Or.inr ⟨o, hsub _ hmem, hstruct⟩

namespace Element

/-- An item of a list is what one of the elements is decoded as. -/
theorem exists_of_mem_items {es : List Element} {items : List Datum} {seen : Sightings}
    (h : decodeItems es = .ok (items, seen)) {d : Datum} (hd : d ∈ items) :
    ∃ e ∈ es, ∃ seen', e.decode = .ok (some d, seen') ∧ ∀ x ∈ seen', x ∈ seen := by
  rw [decodeItems_eq] at h
  obtain ⟨e, he, result, hitem, hd⟩ := (mem_gather h d).mp hd
  have hseen : ∀ x ∈ result.2, x ∈ seen := fun x hx =>
    (mem_seen_gather h x).mpr ⟨e, he, result, hitem, hx⟩
  obtain ⟨⟨v, seen'⟩, hdecode, hitem⟩ := bind_eq_ok_iff.mp hitem
  cases hitem
  obtain rfl : v = some d := Option.mem_toList.mp hd
  exact ⟨e, he, seen', hdecode, hseen⟩

/-- The same for the members of an object. -/
theorem exists_of_mem_members {keys : List String} {es : List Element}
    {members : List (String × Datum)} {seen : Sightings}
    (h : decodeMembers keys es = .ok (members, seen)) {m : String × Datum} (hm : m ∈ members) :
    ∃ e ∈ es, ∃ seen', e.decode = .ok (some m.2, seen') ∧ ∀ x ∈ seen', x ∈ seen := by
  rw [decodeMembers_eq] at h
  obtain ⟨e, he, result, hmember, hm⟩ := (mem_gather h m).mp hm
  have hseen : ∀ x ∈ result.2, x ∈ seen := fun x hx =>
    (mem_seen_gather h x).mpr ⟨e, he, result, hmember, hx⟩
  obtain ⟨key, _, hmember⟩ := bind_eq_ok_iff.mp hmember
  split at hmember
  · obtain ⟨⟨v, seen'⟩, hdecode, hmember⟩ := bind_eq_ok_iff.mp hmember
    cases hmember
    obtain ⟨d, hd, rfl⟩ := List.mem_map.mp hm
    obtain rfl : v = some d := Option.mem_toList.mp hd
    exact ⟨e, he, seen', hdecode, hseen⟩
  · cases hmember
    cases hm

/-- An object has been seen with the id and the structure of its entity. -/
theorem seenIn_sighting {e : Element} {struct : Struct} (hform : e.form = .ok (.entity struct))
    (members : List (String × Datum)) :
    (struct.build members (e.attr? "id")).SeenIn e.sighting := by
  rw [Entity.SeenIn, (struct.build_entities members (e.attr? "id")).1, struct.struct_build]
  cases hid : e.attr? "id" with
  | none => exact Or.inl rfl
  | some id =>
    refine Or.inr ⟨_, mem_sighting_iff.mpr ⟨hid, rfl⟩, ?_⟩
    rw [IdOwner.struct?, (fits_of_form_eq_ok hform).2.2]
    exact Struct.ofName?_name struct

/-- Whatever entities stand in the value of an element, they were seen when it was decoded. -/
theorem seenIn_of_decode (e : Element) (x : Entity) :
    ∀ (v : Datum) (seen : Sightings), e.decode = .ok (some v, seen) → v.Contains x →
      x.SeenIn seen := by
  induction e using Element.induction with
  | h e ih =>
    intro v seen hdecode hx
    obtain ⟨f, hform, hd⟩ := form_of_decode hdecode
    cases f with
    | list =>
      obtain ⟨items, hitems, hv⟩ := hd
      cases hv
      cases hx with
      | list hd hx =>
        obtain ⟨c, hc, below, hitem, hsub⟩ := exists_of_mem_items hitems hd
        exact (ih c hc _ below hitem hx).mono hsub
    | entity struct =>
      obtain ⟨members, seen', hmembers, hv, rfl⟩ := hd
      cases hv
      cases hx with
      | entity hx =>
        -- The entity is that of the element itself, or one of the members contains it.
        obtain rfl | ⟨m, hm, hx⟩ := (struct.build_entities members (e.attr? "id")).2 x hx
        · exact (seenIn_sighting hform members).mono fun _ => List.mem_append_right seen'
        · obtain ⟨c, hc, below, hmember, hsub⟩ := exists_of_mem_members hmembers hm
          apply (ih c hc m.2 below hmember hx).mono
          exact fun y hy => List.mem_append_left _ (hsub y hy)
    | unknown | scalar | link =>
      cases hd.1
      cases hx
    | skipped => cases hd.1

/-- All entities of the models have been seen. -/
theorem seenIn_of_outcome {entry : Element} {models : List Model} {seen : Sightings}
    (h : entry.outcome .entry = .ok (models, seen)) :
    ∀ x ∈ models.flatMap Model.entities, x.SeenIn seen := by
  intro x hx
  obtain ⟨⟨members, seen'⟩, hmembers, h⟩ := bind_eq_ok_iff.mp h
  cases h
  obtain ⟨m, hm, hx⟩ := modelsField_entities members x hx
  obtain ⟨c, hc, below, hdecode, hsub⟩ := exists_of_mem_members hmembers hm
  exact (seenIn_of_decode c x m.2 below hdecode hx).mono hsub

/-- An entry has an element with an id: itself, or an object that is decoded in it. -/
def Carries (entry n : Element) (id : String) : Prop :=
  (n = entry ∨ ∃ p, entry.Holds .entry p n) ∧ n.attr? "id" = some id

/-- The sightings in an entry and its own are those of the elements that carry ids. -/
theorem mem_sightings_iff {entry : Element} {models : List Model} {seen : Sightings}
    (houtcome : entry.outcome .entry = .ok (models, seen)) {id : String} {o : IdOwner} :
    (id, o) ∈ seen ++ entry.sighting ↔
      ∃ n, entry.Carries n id ∧ o = ⟨(n.attr? "struct-name").getD "", n.line⟩ := by
  rw [List.mem_append, mem_seen_iff entry (id, o) .entry models seen houtcome]
  constructor
  · rintro (⟨p, n, hholds, hn⟩ | hn)
    · obtain ⟨hid, ho⟩ := mem_sighting_iff.mp hn
      exact ⟨n, ⟨Or.inr ⟨p, hholds⟩, hid⟩, ho⟩
    · obtain ⟨hid, ho⟩ := mem_sighting_iff.mp hn
      exact ⟨entry, ⟨Or.inl rfl, hid⟩, ho⟩
  · rintro ⟨n, ⟨rfl | ⟨p, hholds⟩, hid⟩, ho⟩
    · exact Or.inr (mem_sighting_iff.mpr ⟨hid, ho⟩)
    · exact Or.inl ⟨p, n, hholds, mem_sighting_iff.mpr ⟨hid, ho⟩⟩

end Element

namespace OnceMap

variable {α : Type} {entries : List (String × α)} {key : String}

theorem mem_of_get?_ofList {value : α} (h : (ofList entries).get? key = some value) :
    (key, value) ∈ entries := by
  rw [get?_ofList] at h
  exact mem_of_lookup_eq_some h

end OnceMap

namespace Document

open Element

/-- If the ids of all entities are known, then so are those of the tables, and a later document has
a table with an id as a new one if the id is not known. -/
theorem mem_created_iff {new old : Document}
    (hknown : ∀ e ∈ old.entities, e.id ≠ "" → old.ids.contains e.id = true) {t : Table}
    (ht : t ∈ new.tables) (hid : t.id ≠ "") :
    t ∈ (new.difference (some old)).created ↔ old.ids.contains t.id = false := by
  rw [difference, mem_tablesUnknownTo, and_iff_right ht, and_iff_left_iff_imp]
  intro hunknown before hbefore hsame
  have htable : old.ids.contains before.id = true :=
    hknown (.table before) (table_mem_entities hbefore) (hsame.trans_ne hid)
  rw [hsame, hunknown] at htable
  cases htable

/-- What a document knows of the ids in its entry. -/
structure KnowsIdsIn (d : Document) (entry : Element) : Prop where
  contains_iff : ∀ id, d.ids.contains id = true ↔ ∃ n, entry.Carries n id
  owner : ∀ id o, d.ids.get? id = some o →
    ∃ n, entry.Carries n id ∧ o = ⟨(n.attr? "struct-name").getD "", n.line⟩
  entities : ∀ e ∈ d.entities, e.id ≠ "" → d.ids.contains e.id = true
  directory : ∀ id e, d.directory.get? id = some e → d.ids.contains id = true
  created : ∀ new : Document, ∀ t ∈ new.tables, t.id ≠ "" →
    (t ∈ (new.difference (some d)).created ↔ d.ids.contains t.id = false)
  struct : entry.DistinctIds → ∀ id e, d.directory.get? id = some e →
    ∃ o, d.ids.get? id = some o ∧ o.struct? = some e.struct

/-- The ids that a document knows are those of the decoded objects and of the entry, and among them
are the ids of its entities. Where no two objects share an id, the object and the entity that have
it are of one structure. -/
theorem read_knowsIds {root : Element} {d : Document} (hread : read root = .ok d) :
    ∃ entry, root.placed = [entry] ∧ d.KnowsIdsIn entry := by
  obtain ⟨entry, models, seen, hplaced, houtcome, rfl⟩ := read_eq_ok_iff.mp hread
  let d : Document := { models := models, ids := OnceMap.ofList (seen ++ entry.sighting) }
  have hcontains (id : String) : d.ids.contains id = true ↔ ∃ n, entry.Carries n id := by
    rw [OnceMap.contains_ofList]
    constructor
    · rintro ⟨o, ho⟩
      obtain ⟨n, hn, _⟩ := (mem_sightings_iff houtcome).mp ho
      exact ⟨n, hn⟩
    · rintro ⟨n, hn⟩
      exact ⟨_, (mem_sightings_iff houtcome).mpr ⟨n, hn, rfl⟩⟩
  have hseen (e : Entity) (he : e ∈ d.entities) (hid : e.id ≠ "") :
      ∃ o, (e.id, o) ∈ seen ∧ o.struct? = some e.struct :=
    (seenIn_of_outcome houtcome e he).resolve_left hid
  have hentities (e : Entity) (he : e ∈ d.entities) (hid : e.id ≠ "") :
      d.ids.contains e.id = true := by
    obtain ⟨o, ho, _⟩ := hseen e he hid
    exact OnceMap.contains_ofList.mpr ⟨o, List.mem_append_left _ ho⟩
  refine ⟨entry, hplaced, hcontains, ?owner, hentities, ?directory, ?created, ?struct⟩
  case owner =>
    intro id o ho
    exact (mem_sightings_iff houtcome).mp (OnceMap.mem_of_get?_ofList ho)
  case directory =>
    intro id e he
    obtain ⟨hmem, rfl, hid⟩ := of_directory_get? he
    exact hentities e hmem hid
  case created =>
    intro new t ht hid
    exact mem_created_iff hentities ht hid
  case struct =>
    intro hids id e he
    obtain ⟨hmem, rfl, hid⟩ := of_directory_get? he
    obtain ⟨o, ho, hstruct⟩ := hseen e hmem hid
    refine ⟨o, ?_, hstruct⟩
    rw [OnceMap.get?_ofList, List.lookup_append,
      (lookup_eq_some_iff_mem (owner_unique hids houtcome)).mpr ho]
    rfl

def notedEntry : Element :=
  let note := ((object "db.Note").setKey "name").setId "n"
  let catalog := ((object Struct.catalog.name).setKey "catalog").setId "c"
  let model := ((object Struct.model.name).setId "m").addChildren [note, catalog]
  ({ name := "value" } : Element).setId "d"
    |>.addChild ((list.setKey "physicalModels").addChild model)

def notedDocument : Document where
  models := [{ id := "m", catalog := some { id := "c" } }]
  ids := OnceMap.ofList [("n", ⟨"db.Note", none⟩), ("c", ⟨Struct.catalog.name, none⟩),
    ("m", ⟨Struct.model.name, none⟩), ("d", ⟨"", none⟩)]

/-- The note is of an unknown structure, and its id is known all the same. -/
theorem read_knowsIds_notedEntry :
    read (data [notedEntry]) = .ok notedDocument ∧ notedDocument.KnowsIdsIn notedEntry := by
  have hread : read (data [notedEntry]) = .ok notedDocument := rfl
  obtain ⟨entry, hplaced, hknows⟩ := read_knowsIds hread
  obtain rfl : notedEntry = entry := List.singleton_inj.mp hplaced
  exact ⟨hread, hknows⟩

end Document
end SchemaMigration
