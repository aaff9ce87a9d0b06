import SchemaMigration.Proofs.ElementReading
import SchemaMigration.Proofs.IntegerText
import SchemaMigration.Proofs.StructRecord

namespace SchemaMigration

structure Content.Faithful {α : Type} (content : Content α) : Prop where
  decode : ∀ v e, content.write v = some e →
    ∃ d seen, e.decode = .ok (some d, seen) ∧ content.read d = some v
  noEntry : ∀ v e, content.write v = some e → e.NoEntry

namespace Content

/-- A content is faithful if what it writes is decoded and read back. -/
theorem faithful_of_write {α : Type} {content : Content α} (write : α → Element) (datum : α → Datum)
    (hwrite : ∀ v, content.write v = some (write v))
    (hdecode : ∀ v, ∃ seen, (write v).decode = .ok (some (datum v), seen))
    (hread : ∀ v, content.read (datum v) = some v) (hentry : ∀ v, (write v).NoEntry) :
    content.Faithful where
  decode := by
    intro v e he
    rw [hwrite v] at he
    cases he
    obtain ⟨seen, hseen⟩ := hdecode v
    exact ⟨datum v, seen, hseen, hread v⟩
  noEntry := by
    intro v e he
    rw [hwrite v] at he
    cases he
    exact hentry v

@[simp] theorem faithful_text : text.Faithful :=
  faithful_of_write Element.string Datum.text (fun _ => rfl)
    (fun s => ⟨[], Element.decode_string s⟩) (fun _ => rfl) fun _ => rfl

@[simp] theorem faithful_reference : reference.Faithful :=
  faithful_of_write Element.link Datum.link (fun _ => rfl)
    (fun id => ⟨[], Element.decode_link id⟩) (fun _ => rfl) fun _ => rfl

@[simp] theorem faithful_reference? : reference?.Faithful where
  decode := by
    intro v e he
    obtain ⟨id, rfl, rfl⟩ := Option.map_eq_some_iff.mp he
    exact ⟨.link id, [], Element.decode_link id, rfl⟩
  noEntry := by
    intro v e he
    obtain ⟨id, rfl, rfl⟩ := Option.map_eq_some_iff.mp he
    rfl

theorem integer?_int64Text (n : Int64) : (Datum.text (int64Text n)).integer? = some n :=
  readWhole?_int64Text n

@[simp] theorem faithful_integer : integer.Faithful :=
  faithful_of_write Element.int (fun n => .text (int64Text n)) (fun _ => rfl)
    (fun n => ⟨[], Element.decode_int n⟩) integer?_int64Text fun _ => rfl

@[simp] theorem faithful_flag : flag.Faithful := by
  apply faithful_of_write (fun b => Element.int (if b then 1 else 0))
    (fun b => .text (int64Text (if b then 1 else 0))) (fun _ => rfl)
  · intro b
    exact ⟨[], Element.decode_int _⟩
  · intro b
    change (Datum.text _).integer?.map (· != 0) = some b
    rw [integer?_int64Text]
    cases b <;> rfl
  · intro b
    rfl

@[simp] theorem faithful_texts : texts.Faithful := by
  apply faithful_of_write (fun ss => Element.list.addChildren (ss.map .string))
    (fun ss => .list (ss.map .text)) (fun _ => rfl)
  · intro ss
    exact Element.decode_list ss _ _ fun s _ => ⟨[], Element.decode_string s⟩
  · intro ss
    simp [texts, Datum.texts?, List.filterMap_map, Function.comp_def, Datum.text?]
  · intro ss
    apply Element.noEntry_list
    intro e he
    obtain ⟨s, _, rfl⟩ := List.mem_map.mp he
    rfl

@[simp] theorem faithful_references : references.Faithful := by
  apply faithful_of_write (fun ids => Element.list.addChildren (ids.map .link))
    (fun ids => .list (ids.map .link)) (fun _ => rfl)
  · intro ids
    exact Element.decode_list ids _ _ fun id _ => ⟨[], Element.decode_link id⟩
  · intro ids
    simp [references, Datum.texts?, List.filterMap_map, Function.comp_def, Datum.text?]
  · intro ids
    apply Element.noEntry_list
    intro e he
    obtain ⟨id, _, rfl⟩ := List.mem_map.mp he
    rfl

end Content

namespace Field

variable {ρ : Type}

def copy (f : Field ρ) (x y : ρ) : ρ :=
  match f.member x with
  | none => y
  | some e =>
    match e.decode with
    | .ok (some d, _) => (f.assign y d).getD y
    | _ => y

structure Faithful (f : Field ρ) : Prop where
  key : ∀ x e, f.member x = some e → e.attr "key" = .ok f.key
  decode : ∀ x e, f.member x = some e → ∃ d seen, e.decode = .ok (some d, seen)
  noEntry : ∀ x e, f.member x = some e → e.NoEntry

@[simp] theorem faithful_of {α : Type} (key : String) {content : Content α} (get : ρ → α)
    (put : ρ → α → ρ) (h : content.Faithful) : (Field.of key content get put).Faithful where
  key := by
    intro x e he
    obtain ⟨e', _, rfl⟩ := Option.map_eq_some_iff.mp he
    exact Element.attr_key_setKey e' key
  decode := by
    intro x e he
    obtain ⟨e', he', rfl⟩ := Option.map_eq_some_iff.mp he
    obtain ⟨d, seen, hd, _⟩ := h.decode (get x) e' he'
    exact ⟨d, seen, by rw [Element.decode_setKey, hd]⟩
  noEntry := by
    intro x e he
    obtain ⟨e', he', rfl⟩ := Option.map_eq_some_iff.mp he
    exact Element.noEntry_setKey (h.noEntry (get x) e' he') key

/-- A field is copied if something is written for it. -/
theorem copy_of {α : Type} (key : String) {content : Content α} (get : ρ → α) (put : ρ → α → ρ)
    (h : content.Faithful) (x y : ρ) :
    (Field.of key content get put).copy x y =
      if (content.write (get x)).isSome then put y (get x) else y := by
  cases hw : content.write (get x) with
  | none => simp [copy, Field.of, hw]
  | some e =>
    obtain ⟨d, seen, hd, hread⟩ := h.decode (get x) e hw
    simp [copy, Field.of, hw, Element.decode_setKey, hd, hread]

theorem find?_key {fields : List (Field ρ)} (hn : (fields.map (·.key)).Nodup) {f : Field ρ}
    (hf : f ∈ fields) : fields.find? (·.key == f.key) = some f := by
  induction fields with
  | nil => cases hf
  | cons g fields ih =>
    rw [List.map_cons, List.nodup_cons] at hn
    rcases List.mem_cons.mp hf with rfl | hf
    · simp
    · have hne : g.key ≠ f.key := by
        intro hk
        exact hn.1 (hk ▸ List.mem_map_of_mem hf)
      rw [List.find?_cons_of_neg (by simpa using hne)]
      exact ih hn.2 hf

/-- The members of an entity are read, and assigned in order they copy the fields. -/
theorem decodeMembers_members {all : List (Field ρ)} (hn : (all.map (·.key)).Nodup)
    (fields : List (Field ρ)) (hsub : ∀ f ∈ fields, f ∈ all ∧ f.Faithful) (x : ρ) :
    ∃ members seen,
      Element.decodeMembers (all.map (·.key)) (fields.filterMap (·.member x)) =
        .ok (members, seen) ∧
      ∀ y, members.foldl (assignTo all) y = fields.foldl (fun y f => f.copy x y) y := by
  induction fields with
  | nil => exact ⟨[], [], rfl, fun _ => rfl⟩
  | cons f fields ih =>
    obtain ⟨members, seen, hmembers, hfold⟩ := ih fun g hg => hsub g (List.mem_cons_of_mem f hg)
    obtain ⟨hmem, hf⟩ := hsub f List.mem_cons_self
    cases hm : f.member x with
    | none =>
      -- A field that writes no member copies nothing.
      refine ⟨members, seen, ?_, ?_⟩
      · simp only [List.filterMap_cons, hm, hmembers]
      · intro y
        rw [List.foldl_cons, copy, hm, hfold]
    | some e =>
      obtain ⟨d, seen', hd⟩ := hf.decode x e hm
      have hkey : f.key ∈ all.map (·.key) := List.mem_map_of_mem hmem
      refine ⟨(f.key, d) :: members, seen' ++ seen, ?_, ?_⟩
      · simp only [List.filterMap_cons, hm, Element.decodeMembers]
        rw [hf.key x e hm]
        change (if f.key ∈ all.map (·.key) then _ else _) = _
        rw [if_pos hkey, hd, hmembers]
        rfl
      · intro y
        have hassign : assignTo all y (f.key, d) = f.copy x y := by
          rw [assignTo, find?_key hn hmem, copy, hm]
          simp only [hd]
        rw [List.foldl_cons, hassign, hfold, List.foldl_cons]

end Field

namespace Record

variable {ρ : Type}

/-- A record from whose fields an entity can be told. Its objects are built as entities of the
given kind, and copying the fields of an entity onto a blank one gives the entity. -/
structure Faithful (r : Record ρ) (kind : ρ → Entity) : Prop where
  keys : r.struct.keys = r.keys
  build : ∀ members id?, r.struct.build members id? = kind (r.build members id?)
  ofEntity? : ∀ x, r.ofEntity? (kind x) = some x
  nodup : r.keys.Nodup
  fields : ∀ f ∈ r.fields, f.Faithful
  copy : ∀ x, r.setId (r.fields.foldl (fun y f => f.copy x y) r.blank) (r.id x) = x

variable {r : Record ρ} {kind : ρ → Entity}

theorem form_element (r : Record ρ) (x : ρ) : (r.element x).form = .ok (.entity r.struct) := by
  have hname : (r.element x).attr? "struct-name" = some r.struct.name := rfl
  have htype : (r.element x).attr? "type" = some "object" := rfl
  exact Element.form_eq_ok_of_fits ⟨rfl, htype, hname⟩

theorem attr?_id_element (r : Record ρ) (x : ρ) : (r.element x).attr? "id" = some (r.id x) := rfl

theorem children_element (r : Record ρ) (x : ρ) :
    (r.element x).children = r.fields.filterMap (·.member x) := by
  simp [element, Element.addChildren, Element.setId, Element.setAttr, Element.object]

/-- The object of an entity is read as the entity. -/
theorem Faithful.decode (h : r.Faithful kind) (x : ρ) :
    ∃ seen, (r.element x).decode = .ok (some (.entity (kind x)), seen) := by
  obtain ⟨members, seen, hmembers, hfold⟩ := Field.decodeMembers_members h.nodup r.fields
    (fun f hf => ⟨hf, h.fields f hf⟩) x
  have hbuild : r.build members (some (r.id x)) = x := by
    rw [Record.build, hfold]
    exact h.copy x
  refine ⟨seen ++ (r.element x).sighting, ?_⟩
  rw [Element.decode_eq, form_element, children_element, attr?_id_element]
  have hkeys : Element.decodeMembers r.struct.keys (r.fields.filterMap (·.member x)) =
      .ok (members, seen) := by
    rw [h.keys]
    exact hmembers
  simp only [bind, Except.bind, hkeys]
  change Except.ok (some (Datum.entity (r.struct.build members (some (r.id x)))), _) = _
  rw [h.build, hbuild]

theorem Faithful.noEntry (h : r.Faithful kind) (x : ρ) : (r.element x).NoEntry := by
  apply Element.noEntry_of_children
  · change "value" ≠ "data"
    decide
  · rw [children_element]
    intro e he
    obtain ⟨f, hf, hm⟩ := List.mem_filterMap.mp he
    exact (h.fields f hf).noEntry x e hm

end Record

section

variable {ρ : Type} {r : Record ρ} {kind : ρ → Entity}

/-- A record that is faithful can be the content of a field. -/
theorem Record.Faithful.entity? (h : r.Faithful kind) : (Content.entity? r).Faithful where
  decode := by
    intro v e he
    obtain ⟨x, rfl, rfl⟩ := Option.map_eq_some_iff.mp he
    obtain ⟨seen, hx⟩ := h.decode x
    refine ⟨.entity (kind x), seen, hx, ?_⟩
    simp [Content.entity?, Datum.entity?, h.ofEntity? x]
  noEntry := by
    intro v e he
    obtain ⟨x, rfl, rfl⟩ := Option.map_eq_some_iff.mp he
    exact h.noEntry x

theorem Record.Faithful.records (h : r.Faithful kind) : (Content.records r).Faithful := by
  apply Content.faithful_of_write (fun xs => Element.list.addChildren (xs.map r.element))
    (fun xs => .list (xs.map fun x => .entity (kind x))) (fun _ => rfl)
  · intro xs
    exact Element.decode_list xs _ _ fun x _ => h.decode x
  · intro xs
    simp [Content.records, Datum.entities?, List.filterMap_map, Function.comp_def, Datum.entity?,
      h.ofEntity?]
  · intro xs
    apply Element.noEntry_list
    intro e he
    obtain ⟨x, _, rfl⟩ := List.mem_map.mp he
    exact h.noEntry x

end

/-- The record of a structure is faithful if its fields are and are enough to tell an entity. -/
theorem Struct.faithful_of (k : Struct) (hfields : ∀ f ∈ k.record.fields, f.Faithful)
    (hcopy : ∀ x, k.record.setId (k.record.fields.foldl (fun y f => f.copy x y) k.record.blank)
      (k.record.id x) = x) : k.record.Faithful k.entity where
  keys := by
    rw [k.struct_record]
    exact k.keys_eq
  build members id? := by rw [k.struct_record, k.build_eq]
  ofEntity? := k.ofEntity?_entity
  nodup := k.nodup_keys
  fields := hfields
  copy := hcopy

end SchemaMigration
