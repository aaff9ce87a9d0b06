import SchemaMigration.Proofs.LastMember

namespace SchemaMigration
namespace Element

variable {α : Type} {e : Element} {d : Option Datum} {seen : Sightings}

/-- What the items of a list give is what those of them give that are of one kind, if the others
give nothing. -/
theorem items_filterMap_eq {f : Datum → Option α} {p : Element → Prop} [DecidablePred p]
    {g : Element → α}
    (hf : ∀ c d seen, decode c = .ok (d, seen) → d.bind f = if p c then some (g c) else none)
    {es : List Element} {items : List Datum} (h : decodeItems es = .ok (items, seen)) :
    items.filterMap f = (es.filter (p ·)).map g := by
  induction es generalizing items seen with
  | nil =>
    cases h
    rfl
  | cons c es ih =>
    obtain ⟨⟨d, seen₁⟩, hd, h⟩ := bind_eq_ok_iff.mp h
    obtain ⟨⟨items', seen₂⟩, hitems, h⟩ := bind_eq_ok_iff.mp h
    cases h
    have hitem : d.toList.filterMap f = (d.bind f).toList := by
      cases d with
      | none => rfl
      | some d => cases hd : f d <;> simp [hd]
    rw [List.filterMap_append, hitem, hf c d seen₁ hd, ih hitems, List.filter_cons]
    by_cases hp : p c <;> simp [hp]

/-- A wanted member of an object that is decoded is decoded too. -/
theorem decode_of_mem_members {keys : List String} {es : List Element}
    {members : List (String × Datum)} (h : decodeMembers keys es = .ok (members, seen))
    {key : String} (hwanted : key ∈ keys) {c : Element} (hc : c ∈ es)
    (hkey : c.attr? "key" = some key) : ∃ d seen, c.decode = .ok (d, seen) := by
  rw [decodeMembers_eq] at h
  obtain ⟨_, hmember⟩ := exists_of_gather h c hc
  rw [decodeMember, attr_eq_ok_iff.mpr hkey] at hmember
  obtain ⟨key', hkey', hmember⟩ := bind_eq_ok_iff.mp hmember
  cases hkey'
  rw [if_pos hwanted] at hmember
  obtain ⟨⟨d, seen'⟩, hdecode, _⟩ := bind_eq_ok_iff.mp hmember
  exact ⟨d, seen', hdecode⟩

def scalarText? (e : Element) : Option String :=
  if e.Fits .scalar ∨ e.Fits .link then some e.content else none

def itemTexts? (e : Element) : Option (List String) :=
  if e.Fits .list then
    some ((e.children.filter fun c => c.Fits .scalar ∨ c.Fits .link).map content)
  else none

/-- The text of a value is the scalar text of its element. -/
theorem text?_of_decode (h : e.decode = .ok (d, seen)) : d.bind Datum.text? = e.scalarText? := by
  obtain ⟨f, hform, hd⟩ := form_of_decode h
  simp only [scalarText?, fits_iff hform]
  cases f with
  | list =>
    obtain ⟨items, _, rfl⟩ := hd
    simp [Datum.text?]
  | entity struct =>
    obtain ⟨members, _, _, rfl, _⟩ := hd
    simp [Datum.text?]
  | _ =>
    obtain ⟨rfl, _⟩ := hd
    simp [Datum.text?]

/-- The texts of a value are those of the scalar items of its element. -/
theorem texts?_of_decode (h : e.decode = .ok (d, seen)) : d.bind Datum.texts? = e.itemTexts? := by
  obtain ⟨f, hform, hd⟩ := form_of_decode h
  simp only [itemTexts?, fits_iff hform]
  cases f with
  | list =>
    obtain ⟨items, hitems, rfl⟩ := hd
    have htexts := items_filterMap_eq (f := Datum.text?) (g := content)
      (p := fun c => c.Fits .scalar ∨ c.Fits .link) (fun c d seen => text?_of_decode) hitems
    rw [Option.bind_some, Datum.texts?, htexts, if_pos rfl]
  | entity struct =>
    obtain ⟨members, _, _, rfl, _⟩ := hd
    simp [Datum.texts?]
  | _ =>
    obtain ⟨rfl, _⟩ := hd
    simp [Datum.texts?]

end Element

namespace Record

variable {ρ : Type} (r : Record ρ)

def entityOf (e : Element) : ρ :=
  (r.read? e).getD r.blank

def object? (e : Element) : Option ρ :=
  if e.Fits (.entity r.struct) then some (r.entityOf e) else none

def itemObjects? (e : Element) : Option (List ρ) :=
  if e.Fits .list then
    some ((e.children.filter fun c => c.Fits (.entity r.struct)).map r.entityOf)
  else none

variable {r} {e : Element} {d : Option Datum} {seen : Sightings}

/-- A value is an entity of the record if its element is an object of the structure. -/
theorem Proper.entity?_of_decode (h : r.Proper) (hdecode : e.decode = .ok (d, seen)) :
    d.bind (Datum.entity? r.ofEntity?) = r.object? e := by
  obtain ⟨f, hform, hd⟩ := Element.form_of_decode hdecode
  simp only [object?, entityOf, read?, Element.datum?_of_decode hdecode, Element.fits_iff hform]
  cases f with
  | list =>
    obtain ⟨items, _, rfl⟩ := hd
    simp [Datum.entity?]
  | entity struct =>
    obtain ⟨members, _, _, rfl, _⟩ := hd
    rw [Option.bind_some, Datum.entity?, h.ofEntity?]
    by_cases hstruct : struct = r.struct
    · simp [hstruct]
    · simp [hstruct, Ne.symm hstruct]
  | _ =>
    obtain ⟨rfl, _⟩ := hd
    simp [Datum.entity?]

/-- The entities of a value are those of the objects among the items of its element. -/
theorem Proper.entities?_of_decode (h : r.Proper) (hdecode : e.decode = .ok (d, seen)) :
    d.bind (Datum.entities? r.ofEntity?) = r.itemObjects? e := by
  obtain ⟨f, hform, hd⟩ := Element.form_of_decode hdecode
  simp only [itemObjects?, Element.fits_iff hform]
  cases f with
  | list =>
    obtain ⟨items, hitems, rfl⟩ := hd
    have hobjects := Element.items_filterMap_eq (f := Datum.entity? r.ofEntity?) (g := r.entityOf)
      (p := fun c => c.Fits (.entity r.struct)) (fun c d seen => h.entity?_of_decode) hitems
    rw [Option.bind_some, Datum.entities?, hobjects, if_pos rfl]
  | entity struct =>
    obtain ⟨members, _, _, rfl, _⟩ := hd
    simp [Datum.entities?]
  | _ =>
    obtain ⟨rfl, _⟩ := hd
    simp [Datum.entities?]

end Record

/-- A content together with what members give to it, if they have the right shape for it. -/
structure Shape (α : Type) where
  content : Content α
  value? : Element → Option α
  agrees : ∀ e d seen, e.decode = .ok (d, seen) → d.bind content.read = value? e

namespace Shape

def text : Shape String :=
  ⟨.text, Element.scalarText?, fun _ _ _ => Element.text?_of_decode⟩

def reference : Shape String :=
  ⟨.reference, Element.scalarText?, fun _ _ _ => Element.text?_of_decode⟩

def reference? : Shape (Option String) where
  content := .reference?
  value? e := e.scalarText?.map some
  agrees _ d _ h := by
    rw [← Element.text?_of_decode h, Option.map_bind]
    rfl

def integer : Shape Int64 where
  content := .integer
  value? e := e.scalarText?.bind fun s => readWhole? (trim s.toList)
  agrees _ d _ h := by
    rw [← Element.text?_of_decode h, Option.bind_assoc]
    rfl

def flag : Shape Bool where
  content := .flag
  value? e := (integer.value? e).map (· != 0)
  agrees _ d _ h := by
    rw [← integer.agrees _ d _ h, Option.map_bind]
    rfl

def texts : Shape (List String) :=
  ⟨.texts, Element.itemTexts?, fun _ _ _ => Element.texts?_of_decode⟩

def references : Shape (List String) :=
  ⟨.references, Element.itemTexts?, fun _ _ _ => Element.texts?_of_decode⟩

def entity? {ρ : Type} (r : Record ρ) (h : r.Proper) : Shape (Option ρ) where
  content := .entity? r
  value? e := (r.object? e).map some
  agrees _ d _ hdecode := by
    rw [← h.entity?_of_decode hdecode, Option.map_bind]
    rfl

def records {ρ : Type} (r : Record ρ) (h : r.Proper) : Shape (List ρ) :=
  ⟨.records r, r.itemObjects?, fun _ _ _ => h.entities?_of_decode⟩

end Shape

namespace Element

variable {α : Type}

/-- What the last child gives that has a key and gives something, or else a default. -/
def lastGiven (e : Element) (key : String) (value? : Element → Option α) (default : α) : α :=
  ((e.children.filter fun c => c.attr? "key" = some key).filterMap value?).getLast?.getD default

/-- In an object whose members are decoded the last value of a content under a wanted key is what
the last child with that key gives that has the right shape. -/
theorem lastValue?_getD (shape : Shape α) {e : Element} {keys : List String}
    {members : List (String × Datum)} {seen : Sightings}
    (h : decodeMembers keys e.children = .ok (members, seen)) {key : String} (hwanted : key ∈ keys)
    (default : α) :
    (e.lastValue? key shape.content).getD default = e.lastGiven key shape.value? default := by
  have hchild (c : Element) (hc : c ∈ e.children) : given? key shape.content c =
      if decide (c.attr? "key" = some key) then shape.value? c else none := by
    by_cases hkey : c.attr? "key" = some key
    -- A child with a wanted key is decoded, so its shape tells what is read from it.
    · obtain ⟨d, seen', hdecode⟩ := decode_of_mem_members h hwanted hc hkey
      rw [given?, if_pos hkey, datum?_of_decode hdecode, shape.agrees c d seen' hdecode]
      simp [hkey]
    · simp [given?, hkey]
  rw [lastGiven, List.filterMap_filter, ← List.filterMap_congr hchild, getLast?_filterMap_eq]
  rfl

end Element
end SchemaMigration
