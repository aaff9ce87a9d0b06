import SchemaMigration.Proofs.FieldIndependence
import SchemaMigration.Proofs.Gathering

namespace SchemaMigration

section

variable {α β : Type} (f : α → Option β) (xs : List α)

theorem map_some_filterMap :
    (xs.filterMap f).map some = (xs.filter fun x => (f x).isSome).map f := by
  induction xs with
  | nil => rfl
  | cons x xs ih => cases hx : f x <;> simp [hx, ih]

theorem eq_bind_of_map_some {f : α → Option β} {o : Option β} {o' : Option α}
    (h : o.map some = o'.map f) : o = o'.bind f := by
  cases o' with
  | none => simpa using h
  | some a => cases o <;> simp_all

/-- The last result is that of the last element that has one. -/
theorem getLast?_filterMap_eq :
    (xs.filterMap f).getLast? = (xs.filter fun x => (f x).isSome).getLast?.bind f := by
  apply eq_bind_of_map_some
  rw [← List.getLast?_map, map_some_filterMap, List.getLast?_map]

end

variable {ρ α : Type}

namespace Field

def Keeps (f : Field ρ) (get : ρ → α) : Prop :=
  ∀ x d, get (f.set x d) = get x

/-- A field keeps a part that its update does not touch. -/
theorem keeps_of {β : Type} {key : String} {content : Content β} {get' : ρ → β} {put : ρ → β → ρ}
    {get : ρ → α} (h : ∀ x v, get (put x v) = get x) : (of key content get' put).Keeps get := by
  intro x d
  simp only [set, of]
  cases content.read d with
  | none => rfl
  | some v => exact h x v

/-- A member leaves a part of an entity as it is if the fields with its key do. -/
theorem assignTo_keeps {fields : List (Field ρ)} {get : ρ → α} {m : String × Datum}
    (h : ∀ f ∈ fields, f.key = m.1 → f.Keeps get) (x : ρ) :
    get (assignTo fields x m) = get x := by
  rw [assignTo_eq]
  cases hf : fields.find? (·.key == m.1) with
  | none => rfl
  | some f =>
    have hkey : f.key = m.1 := by simpa using List.find?_some hf
    exact h f (List.mem_of_find?_eq_some hf) hkey x m.2

/-- What every field leaves as it is, the members of an object leave as it is. -/
theorem foldl_keeps {fields : List (Field ρ)} {get : ρ → α} (h : ∀ f ∈ fields, f.Keeps get)
    (members : List (String × Datum)) (x : ρ) :
    get (members.foldl (assignTo fields) x) = get x := by
  induction members generalizing x with
  | nil => rfl
  | cons m members ih => rw [List.foldl_cons, ih, assignTo_keeps fun f hf _ => h f hf]

/-- Setting the field leaves a part of the entity as it is, unless the field is the one with a
key. -/
def Spares (f : Field ρ) (key : String) (get : ρ → α) : Prop :=
  f.key ≠ key → f.Keeps get

theorem spares_of {β : Type} {key key' : String} {content : Content β} {get' : ρ → β}
    {put : ρ → β → ρ} {get : ρ → α} (h : key' ≠ key → ∀ x v, get (put x v) = get x) :
    (of key' content get' put).Spares key get :=
  fun hkey => keeps_of (h hkey)

/-- Of some fields the one with a key holds a part of an entity, in the given shape, and the others
leave that part as it is. -/
structure Governs (fields : List (Field ρ)) (key : String) (content : Content α)
    (get : ρ → α) : Prop where
  own : ∀ x d, get (assignTo fields x (key, d)) = (content.read d).getD (get x)
  others : ∀ x m, m.1 ≠ key → get (assignTo fields x m) = get x

/-- The field under a key governs its part, if the fields under other keys spare it. -/
theorem governs_of {fields : List (Field ρ)} {key : String} {content : Content α} {get : ρ → α}
    {put : ρ → α → ρ} (hfind : fields.find? (·.key == key) = some (of key content get put))
    (hget : ∀ x v, get (put x v) = v) (hothers : ∀ f ∈ fields, f.Spares key get) :
    Governs fields key content get where
  own := by
    intro x d
    rw [assignTo_eq, hfind]
    simp only [set, of]
    cases content.read d with
    | none => rfl
    | some v => exact hget x v
  others := by
    intro x m hm
    apply assignTo_keeps
    intro f hf hkey
    exact hothers f hf (hkey ▸ hm)

/-- What a member assigns to the field with a key, if it has that key and the right shape. -/
def given (key : String) (content : Content α) (m : String × Datum) : Option α :=
  if m.1 = key then content.read m.2 else none

/-- The last member that assigns something to a field decides. -/
theorem Governs.foldl {fields : List (Field ρ)} {key : String} {content : Content α} {get : ρ → α}
    (h : Governs fields key content get) (members : List (String × Datum)) (x : ρ) :
    get (members.foldl (assignTo fields) x) =
      (members.filterMap (given key content)).getLast?.getD (get x) := by
  induction members generalizing x with
  | nil => rfl
  | cons m members ih =>
    have hstep : get (assignTo fields x m) = (given key content m).getD (get x) := by
      by_cases hm : m.1 = key
      · obtain ⟨k, d⟩ := m
        cases hm
        rw [given, if_pos rfl]
        exact h.own x d
      · rw [given, if_neg hm]
        exact h.others x m hm
    rw [List.foldl_cons, ih, hstep, List.filterMap_cons]
    -- The value of this member is the last one only if none of those behind it has one.
    cases given key content m with
    | none => rfl
    | some v =>
      cases hlast : (members.filterMap (given key content)).getLast? <;>
        simp [List.getLast?_cons, hlast]

end Field

namespace Element

def datum? (e : Element) : Option Datum :=
  match e.decode with
  | .ok (d, _) => d
  | .error _ => none

theorem datum?_eq_some_iff {e : Element} {d : Datum} :
    e.datum? = some d ↔ ∃ seen, e.decode = .ok (some d, seen) := by
  rw [datum?]
  cases e.decode with
  | error err => simp
  | ok result =>
    obtain ⟨d', seen⟩ := result
    simp

theorem datum?_of_decode {e : Element} {d : Option Datum} {seen : Sightings}
    (h : e.decode = .ok (d, seen)) : e.datum? = d := by
  rw [datum?, h]

/-- An entity is read from an object of its structure, and from nothing else. -/
theorem entity_of_decode {e : Element} {x : Entity} {seen : Sightings}
    (h : e.decode = .ok (some (.entity x), seen)) :
    ∃ struct members seen', e.form = .ok (.entity struct) ∧
      decodeMembers struct.keys e.children = .ok (members, seen') ∧
      x = struct.build members (e.attr? "id") := by
  obtain ⟨f, hform, hd⟩ := form_of_decode h
  cases f with
  | entity struct =>
    obtain ⟨members, seen', hmembers, hx, _⟩ := hd
    cases hx
    exact ⟨struct, members, seen', hform, hmembers, rfl⟩
  | list =>
    obtain ⟨_, _, hx⟩ := hd
    cases hx
  | _ => cases hd.1

/-- A list is read from a list, and from nothing else. -/
theorem list_of_decode {e : Element} {items : List Datum} {seen : Sightings}
    (h : e.decode = .ok (some (.list items), seen)) :
    decodeItems e.children = .ok (items, seen) := by
  obtain ⟨f, _, hd⟩ := form_of_decode h
  cases f with
  | list =>
    obtain ⟨items', hitems, hx⟩ := hd
    cases hx
    exact hitems
  | entity struct =>
    obtain ⟨_, _, _, hx, _⟩ := hd
    cases hx
  | _ => cases hd.1

/-- The items of a list are what its elements are read as by themselves. -/
theorem items_eq {es : List Element} {items : List Datum} {seen : Sightings}
    (h : decodeItems es = .ok (items, seen)) : items = es.filterMap datum? := by
  induction es generalizing items seen with
  | nil =>
    cases h
    rfl
  | cons e es ih =>
    obtain ⟨⟨d, seen₁⟩, hd, h⟩ := bind_eq_ok_iff.mp h
    obtain ⟨⟨items', seen₂⟩, hitems, h⟩ := bind_eq_ok_iff.mp h
    cases h
    rw [List.filterMap_cons, datum?_of_decode hd, ← ih hitems]
    cases d <;> rfl

def given? (key : String) (content : Content α) (e : Element) : Option α :=
  if e.attr? "key" = some key then e.datum?.bind content.read else none

/-- The members with a wanted key are what the elements with that key are read as by themselves. -/
theorem members_eq {keys : List String} {key : String} (hkey : key ∈ keys) (content : Content α)
    {es : List Element} {members : List (String × Datum)} {seen : Sightings}
    (h : decodeMembers keys es = .ok (members, seen)) :
    members.filterMap (Field.given key content) = es.filterMap (given? key content) := by
  induction es generalizing members seen with
  | nil =>
    cases h
    rfl
  | cons e es ih =>
    obtain ⟨k, hk, h⟩ := bind_eq_ok_iff.mp h
    rw [attr_eq_ok_iff] at hk
    by_cases hwanted : k ∈ keys
    · rw [if_pos hwanted] at h
      obtain ⟨⟨d, seen₁⟩, hd, h⟩ := bind_eq_ok_iff.mp h
      obtain ⟨⟨members', seen₂⟩, hmembers, h⟩ := bind_eq_ok_iff.mp h
      cases h
      have hgiven : given? key content e = if k = key then d.bind content.read else none := by
        rw [given?, hk, datum?_of_decode hd]
        simp
      rw [List.filterMap_append, ih hmembers, List.filterMap_cons, hgiven]
      cases d with
      | none => simp
      | some d =>
        by_cases hsame : k = key
        · cases hread : content.read d <;> simp [Field.given, hsame, hread]
        · simp [Field.given, hsame]
    -- A member that is not wanted does not have the key.
    · rw [if_neg hwanted] at h
      have hne : k ≠ key := fun hsame => hwanted (hsame ▸ hkey)
      have hgiven : given? key content e = none := by
        rw [given?, hk]
        simp [hne]
      rw [List.filterMap_cons, hgiven]
      exact ih h

def lastMember? (e : Element) (key : String) (content : Content α) : Option Element :=
  (e.children.filter fun c => (given? key content c).isSome).getLast?

theorem exists_of_lastMember? {e c : Element} {key : String} {content : Content α}
    (h : e.lastMember? key content = some c) : ∃ v, given? key content c = some v :=
  Option.isSome_iff_exists.mp (List.mem_filter.mp (List.mem_of_getLast? h)).2

def lastValue? (e : Element) (key : String) (content : Content α) : Option α :=
  (e.lastMember? key content).bind (given? key content)

/-- A part is what the last of its members gives, or what it was. -/
theorem foldl_members_eq {fields : List (Field ρ)} {key : String} {content : Content α}
    {get : ρ → α} (h : Field.Governs fields key content get) (hkey : key ∈ fields.map (·.key))
    {e : Element} {members : List (String × Datum)} {seen : Sightings}
    (hmembers : decodeMembers (fields.map (·.key)) e.children = .ok (members, seen)) (x : ρ) :
    get (members.foldl (Field.assignTo fields) x) = (e.lastValue? key content).getD (get x) := by
  rw [h.foldl, members_eq hkey content hmembers, getLast?_filterMap_eq]
  rfl

end Element

namespace Record

def read? (r : Record ρ) (e : Element) : Option ρ :=
  e.datum?.bind (Datum.entity? r.ofEntity?)

structure Proper (r : Record ρ) : Prop where
  keys : r.struct.keys = r.keys
  ofEntity? : ∀ (k : Struct) members id?, r.ofEntity? (k.build members id?) =
    if k = r.struct then some (r.build members id?) else none

theorem Proper.read?_eq_some {r : Record ρ} (h : r.Proper) {e : Element} {x : ρ}
    (hx : r.read? e = some x) :
    ∃ members seen, Element.decodeMembers r.keys e.children = .ok (members, seen) ∧
      x = r.build members (e.attr? "id") := by
  obtain ⟨d, hd, hx⟩ := Option.bind_eq_some_iff.mp hx
  obtain ⟨seen, hdecode⟩ := Element.datum?_eq_some_iff.mp hd
  cases d with
  | entity entity =>
    obtain ⟨struct, members, seen', -, hmembers, rfl⟩ := Element.entity_of_decode hdecode
    change r.ofEntity? (struct.build members (e.attr? "id")) = some x at hx
    rw [h.ofEntity?] at hx
    split at hx
    case isTrue hstruct =>
      cases hx
      rw [hstruct, h.keys] at hmembers
      exact ⟨members, seen', hmembers, rfl⟩
    case isFalse => cases hx
  | _ => cases hx

structure Has (r : Record ρ) (key : String) (content : Content α) (get : ρ → α) : Prop where
  governs : Field.Governs r.fields key content get
  key : key ∈ r.keys
  setId : ∀ x id, get (r.setId x id) = get x

/-- The id of an entity has no part in what its members give. -/
theorem Has.get_build {r : Record ρ} {key : String} {content : Content α} {get : ρ → α}
    (h : r.Has key content get) (members : List (String × Datum)) (id? : Option String) :
    get (r.build members id?) = get (members.foldl (Field.assignTo r.fields) r.blank) := by
  unfold build
  cases id? with
  | none => rfl
  | some id => exact h.setId _ id

/-- A field of an entity has the value of the last member with its key and of the right shape. -/
theorem Has.get_eq {r : Record ρ} (hr : r.Proper) {key : String} {content : Content α}
    {get : ρ → α} (h : r.Has key content get) {e : Element} {x : ρ} (hx : r.read? e = some x) :
    get x = (e.lastValue? key content).getD (get r.blank) := by
  obtain ⟨members, seen, hmembers, rfl⟩ := hr.read?_eq_some hx
  rw [h.get_build]
  exact Element.foldl_members_eq h.governs h.key hmembers r.blank

/-- The list of entities in a member is read from the objects of the structure among its items. -/
theorem given?_records {r : Record ρ} {key : String} {e : Element} {xs : List ρ}
    (h : e.given? key (.records r) = some xs) : xs = e.children.filterMap r.read? := by
  rw [Element.given?] at h
  split at h
  case isTrue =>
    obtain ⟨d, hd, hread⟩ := Option.bind_eq_some_iff.mp h
    obtain ⟨seen, hdecode⟩ := Element.datum?_eq_some_iff.mp hd
    cases d with
    | list items =>
      cases hread
      rw [Element.items_eq (Element.list_of_decode hdecode), List.filterMap_filterMap]
      rfl
    | _ => cases hread
  case isFalse => cases h

/-- A member gives an entity if one is read from it. -/
theorem given?_entity? {r : Record ρ} {key : String} {e : Element} {x : Option ρ}
    (h : e.given? key (.entity? r) = some x) : x = r.read? e ∧ x.isSome = true := by
  rw [Element.given?] at h
  split at h
  case isTrue =>
    obtain ⟨d, hd, hread⟩ := Option.bind_eq_some_iff.mp h
    obtain ⟨y, hy, rfl⟩ := Option.map_eq_some_iff.mp hread
    rw [read?, hd]
    exact ⟨hy.symm, rfl⟩
  case isFalse => cases h

end Record

/-- The record of each structure has its keys and its entities. -/
theorem Struct.proper (k : Struct) : k.record.Proper where
  keys := by
    rw [k.struct_record]
    exact k.keys_eq
  ofEntity? := by
    intro k' members id?
    rw [k.struct_record]
    cases k <;> cases k' <;> rfl

end SchemaMigration
