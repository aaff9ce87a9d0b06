import SchemaMigration.Document.Reading
import SchemaMigration.Proofs.Outcome

namespace SchemaMigration
namespace Element

theorem attr?_setKey (e : Element) (key : String) {k : String} (hk : k ≠ "key") :
    (e.setKey key).attr? k = e.attr? k := by
  rw [setKey, attr?_setAttr, if_neg hk]

theorem attr_setKey (e : Element) (key : String) {k : String} (hk : k ≠ "key") :
    (e.setKey key).attr k = e.attr k := by
  rw [attr, attr, attr?_setKey e key hk]
  rfl

theorem attr_key_setKey (e : Element) (key : String) : (e.setKey key).attr "key" = .ok key := by
  rw [attr, setKey, attr?_setAttr, if_pos rfl]

theorem form_setKey (e : Element) (key : String) : (e.setKey key).form = e.form := by
  rw [form, form, attr_setKey e key (by decide), attr_setKey e key (by decide)]
  rfl

theorem children_setKey (e : Element) (key : String) : (e.setKey key).children = e.children :=
  rfl

theorem content_setKey (e : Element) (key : String) : (e.setKey key).content = e.content := by
  cases e with
  | mk name attrs text line children => simp [setKey, setAttr, content]

theorem attr_eq_ok_iff {e : Element} {key value : String} :
    e.attr key = .ok value ↔ e.attr? key = some value := by
  rw [attr]
  cases e.attr? key with
  | none => simp
  | some v => simp

theorem attr_eq_error_iff {e : Element} {key : String} {err : DocumentError} :
    e.attr key = .error err ↔
      e.attr? key = none ∧ err = .missingAttribute e.name key e.line := by
  rw [attr]
  cases e.attr? key with
  | none => simp [eq_comm]
  | some v => simp

def Fits (e : Element) : Form → Prop
  | .list => e.name = "value" ∧ e.attr? "type" = some "list"
  | .entity struct =>
    e.name = "value" ∧ e.attr? "type" = some "object" ∧ e.attr? "struct-name" = some struct.name
  | .unknown structName =>
    e.name = "value" ∧ e.attr? "type" = some "object" ∧ e.attr? "struct-name" = some structName ∧
      Struct.ofName? structName = none
  | .scalar =>
    e.name = "value" ∧ ∃ type, e.attr? "type" = some type ∧ type ≠ "list" ∧ type ≠ "object"
  | .link => e.name = "link"
  | .skipped => e.name ≠ "value" ∧ e.name ≠ "link"

theorem fits_of_form_eq_ok {e : Element} {f : Form} (h : e.form = .ok f) : e.Fits f := by
  rw [form] at h
  split at h
  case isTrue hname =>
    obtain ⟨type, htype, h⟩ := bind_eq_ok_iff.mp h
    rw [attr_eq_ok_iff] at htype
    split at h
    case isTrue hlist =>
      cases h
      exact ⟨hname, hlist ▸ htype⟩
    case isFalse hlist =>
      split at h
      case isTrue hobject =>
        obtain ⟨structName, hstruct, h⟩ := bind_eq_ok_iff.mp h
        rw [attr_eq_ok_iff] at hstruct
        split at h
        case h_1 struct hof =>
          cases h
          rw [Struct.ofName?_eq_some_iff] at hof
          exact ⟨hname, hobject ▸ htype, hof ▸ hstruct⟩
        case h_2 hof =>
          cases h
          exact ⟨hname, hobject ▸ htype, hstruct, hof⟩
      case isFalse hobject =>
        cases h
        exact ⟨hname, type, htype, hlist, hobject⟩
  case isFalse hname =>
    split at h
    case isTrue hlink =>
      cases h
      exact hlink
    case isFalse hlink =>
      cases h
      exact ⟨hname, hlink⟩

theorem form_eq_ok_of_fits {e : Element} {f : Form} (h : e.Fits f) : e.form = .ok f := by
  rw [form]
  cases f with
  | list =>
    obtain ⟨hname, htype⟩ := h
    rw [if_pos hname]
    exact bind_eq_ok_iff.mpr ⟨"list", attr_eq_ok_iff.mpr htype, rfl⟩
  | entity struct =>
    obtain ⟨hname, htype, hstruct⟩ := h
    rw [if_pos hname]
    refine bind_eq_ok_iff.mpr ⟨"object", attr_eq_ok_iff.mpr htype, ?_⟩
    refine bind_eq_ok_iff.mpr ⟨struct.name, attr_eq_ok_iff.mpr hstruct, ?_⟩
    rw [Struct.ofName?_name]
    rfl
  | unknown structName =>
    obtain ⟨hname, htype, hstruct, hof⟩ := h
    rw [if_pos hname]
    refine bind_eq_ok_iff.mpr ⟨"object", attr_eq_ok_iff.mpr htype, ?_⟩
    refine bind_eq_ok_iff.mpr ⟨structName, attr_eq_ok_iff.mpr hstruct, ?_⟩
    rw [hof]
    rfl
  | scalar =>
    obtain ⟨hname, type, htype, hlist, hobject⟩ := h
    rw [if_pos hname]
    refine bind_eq_ok_iff.mpr ⟨type, attr_eq_ok_iff.mpr htype, ?_⟩
    rw [if_neg hlist, if_neg hobject]
    rfl
  | link =>
    have hlink : e.name = "link" := h
    have hname : e.name ≠ "value" := fun hname => absurd (hname.symm.trans hlink) (by decide)
    rw [if_neg hname, if_pos hlink]
    rfl
  | skipped =>
    rw [if_neg h.1, if_neg h.2]
    rfl

/-- An element has no form only if it is a value without a type, or an object without the name of
its structure. -/
theorem missing_of_form_eq_error {e : Element} {err : DocumentError} (h : e.form = .error err) :
    ∃ a, err = .missingAttribute e.name a e.line ∧ e.name = "value" ∧
      (a = "type" ∧ e.attr? "type" = none ∨
        a = "struct-name" ∧ e.attr? "type" = some "object" ∧ e.attr? "struct-name" = none) := by
  rw [form] at h
  split at h
  case isTrue hname =>
    obtain htype | ⟨type, htype, h⟩ := bind_eq_error_iff.mp h
    · obtain ⟨hnone, rfl⟩ := attr_eq_error_iff.mp htype
      exact ⟨"type", rfl, hname, Or.inl ⟨rfl, hnone⟩⟩
    · rw [attr_eq_ok_iff] at htype
      split at h
      case isTrue => cases h
      case isFalse =>
        split at h
        case isTrue hobject =>
          obtain hstruct | ⟨structName, _, h⟩ := bind_eq_error_iff.mp h
          · obtain ⟨hnone, rfl⟩ := attr_eq_error_iff.mp hstruct
            exact ⟨"struct-name", rfl, hname, Or.inr ⟨rfl, hobject ▸ htype, hnone⟩⟩
          · split at h <;> cases h
        case isFalse => cases h
  case isFalse =>
    split at h <;> cases h

instance (e : Element) (f : Form) : Decidable (e.Fits f) :=
  decidable_of_iff (e.form = .ok f) ⟨fits_of_form_eq_ok, form_eq_ok_of_fits⟩

/-- An element has one form at most. -/
theorem fits_iff {e : Element} {f : Form} (hform : e.form = .ok f) (f' : Form) :
    e.Fits f' ↔ f' = f := by
  constructor
  · intro hfits
    have hform' := form_eq_ok_of_fits hfits
    rw [hform] at hform'
    cases hform'
    rfl
  · rintro rfl
    exact fits_of_form_eq_ok hform

/-- What an element is read as hangs on its form, its children and its id. -/
theorem decode_eq (e : Element) :
    e.decode = (do
      match ← e.form with
      | .list =>
        let (items, seen) ← decodeItems e.children
        return (some (.list items), seen)
      | .entity struct =>
        let (members, seen) ← decodeMembers struct.keys e.children
        return (some (.entity (struct.build members (e.attr? "id"))), seen ++ e.sighting)
      | .unknown structName =>
        return (some (.unknown structName (e.attr? "id")), e.sighting)
      | .scalar => return (some (.text e.content), [])
      | .link => return (some (.link e.content), [])
      | .skipped => return (none, [])) := by
  cases e with
  | mk name attrs text line children => rfl

/-- An element that is decoded has a form, and what it is read as and what is seen in it are known
from that form. -/
theorem form_of_decode {e : Element} {d : Option Datum} {seen : Sightings}
    (h : e.decode = .ok (d, seen)) :
    ∃ f, e.form = .ok f ∧
      match f with
      | .list => ∃ items, decodeItems e.children = .ok (items, seen) ∧ d = some (.list items)
      | .entity struct => ∃ members seen',
          decodeMembers struct.keys e.children = .ok (members, seen') ∧
          d = some (.entity (struct.build members (e.attr? "id"))) ∧ seen = seen' ++ e.sighting
      | .unknown structName =>
          d = some (.unknown structName (e.attr? "id")) ∧ seen = e.sighting
      | .scalar => d = some (.text e.content) ∧ seen = []
      | .link => d = some (.link e.content) ∧ seen = []
      | .skipped => d = none ∧ seen = [] := by
  rw [decode_eq] at h
  obtain ⟨f, hform, h⟩ := bind_eq_ok_iff.mp h
  refine ⟨f, hform, ?_⟩
  cases f with
  | list =>
    obtain ⟨⟨items, seen'⟩, hitems, h⟩ := bind_eq_ok_iff.mp h
    cases h
    exact ⟨items, hitems, rfl⟩
  | entity struct =>
    obtain ⟨⟨members, seen'⟩, hmembers, h⟩ := bind_eq_ok_iff.mp h
    cases h
    exact ⟨members, seen', hmembers, rfl, rfl⟩
  | _ =>
    cases h
    exact ⟨rfl, rfl⟩

theorem decode_of_list {e : Element} (h : e.form = .ok .list) :
    e.decode = (do
      let (items, seen) ← decodeItems e.children
      return (some (.list items), seen)) := by
  rw [decode_eq, h]
  rfl

/-- An object of a known structure is read from those members that the structure has, and is seen
after all that stands in it. -/
theorem decode_of_entity {e : Element} {struct : Struct} (h : e.form = .ok (.entity struct)) :
    e.decode = (do
      let (members, seen) ← decodeMembers struct.keys e.children
      return (some (.entity (struct.build members (e.attr? "id"))), seen ++ e.sighting)) := by
  rw [decode_eq, h]
  rfl

/-- Of an object of an unknown structure, nothing but the structure and the id is read. -/
theorem decode_of_unknown {e : Element} {structName : String}
    (h : e.form = .ok (.unknown structName)) :
    e.decode = .ok (some (.unknown structName (e.attr? "id")), e.sighting) := by
  rw [decode_eq, h]
  rfl

/-- An element is read the same under every key. -/
theorem decode_setKey (e : Element) (key : String) : (e.setKey key).decode = e.decode := by
  have hid : (e.setKey key).attr? "id" = e.attr? "id" := attr?_setKey e key (by decide)
  have hname : (e.setKey key).attr? "struct-name" = e.attr? "struct-name" :=
    attr?_setKey e key (by decide)
  have hsighting : (e.setKey key).sighting = e.sighting := by
    rw [sighting, sighting, hid, hname]
    rfl
  rw [decode_eq, decode_eq, form_setKey, hid, hsighting, children_setKey, content_setKey]

theorem entries_eq (e : Element) :
    e.entries =
      (if e.name = "data" then e.children.filter (·.name = "value") else []) ++
        entriesOf e.children := by
  cases e with
  | mk name attrs text line children => rw [entries]

def NoEntry (e : Element) : Prop :=
  e.entries = []

theorem noEntry_setKey {e : Element} (h : e.NoEntry) (key : String) : (e.setKey key).NoEntry := by
  rw [NoEntry, entries_eq] at h ⊢
  exact h

theorem entriesOf_eq_nil {es : List Element} (h : ∀ e ∈ es, e.NoEntry) : entriesOf es = [] := by
  induction es with
  | nil => rfl
  | cons e es ih =>
    have he : e.entries = [] := h e List.mem_cons_self
    rw [entriesOf, he, ih fun e' he' => h e' (List.mem_cons_of_mem e he')]
    rfl

/-- Where no child has an entry in it, only a data node can have one. -/
theorem noEntry_of_children {e : Element} (hname : e.name ≠ "data")
    (h : ∀ e' ∈ e.children, e'.NoEntry) : e.NoEntry := by
  rw [NoEntry, entries_eq, if_neg hname, entriesOf_eq_nil h]
  rfl

theorem decode_string (s : String) : (string s).decode = .ok (some (.text s), []) := by
  have hcontent : (string s).content = s := by simp [string, scalar, content, contents]
  rw [decode_eq, hcontent]
  rfl

theorem decode_int (n : Int64) : (int n).decode = .ok (some (.text (int64Text n)), []) := by
  have hcontent : (int n).content = int64Text n := by simp [int, scalar, content, contents]
  rw [decode_eq, hcontent]
  rfl

theorem decode_link (id : String) : (link id).decode = .ok (some (.link id), []) := by
  have hcontent : (link id).content = id := by simp [link, content, contents]
  rw [decode_eq, hcontent]
  rfl

/-- A list is read as the list of what its items are read as. -/
theorem decodeItems_map {α : Type} (xs : List α) (write : α → Element) (read : α → Datum)
    (h : ∀ x ∈ xs, ∃ seen, (write x).decode = .ok (some (read x), seen)) :
    ∃ seen, decodeItems (xs.map write) = .ok (xs.map read, seen) := by
  induction xs with
  | nil => exact ⟨[], rfl⟩
  | cons x xs ih =>
    obtain ⟨seen, hx⟩ := h x List.mem_cons_self
    obtain ⟨seen', hxs⟩ := ih fun y hy => h y (List.mem_cons_of_mem x hy)
    refine ⟨seen ++ seen', ?_⟩
    rw [List.map_cons, decodeItems, hx, hxs]
    rfl

theorem decode_list {α : Type} (xs : List α) (write : α → Element) (read : α → Datum)
    (h : ∀ x ∈ xs, ∃ seen, (write x).decode = .ok (some (read x), seen)) :
    ∃ seen, (list.addChildren (xs.map write)).decode = .ok (some (.list (xs.map read)), seen) := by
  obtain ⟨seen, hitems⟩ := decodeItems_map xs write read h
  have hchildren : (list.addChildren (xs.map write)).children = xs.map write := by
    simp [list, addChildren]
  refine ⟨seen, ?_⟩
  rw [decode_eq, hchildren]
  change (do
    let (items, seen) ← decodeItems (xs.map write)
    return (some (Datum.list items), seen)) = _
  rw [hitems]
  rfl

theorem noEntry_list {es : List Element} (h : ∀ e ∈ es, e.NoEntry) :
    (list.addChildren es).NoEntry := by
  apply noEntry_of_children
  · change "value" ≠ "data"
    decide
  simpa [list, addChildren] using h

end Element
end SchemaMigration
