import SchemaMigration.Proofs.GenerationRun
import SchemaMigration.Proofs.EntityParts
import SchemaMigration.Proofs.TableMatching

namespace SchemaMigration

variable {ρ : Type}

theorem has_catalog : Model.record.Has "catalog" (.entity? Catalog.record) (·.catalog) :=
  Struct.has .model ⟨"catalog", .entity? Catalog.record (Struct.proper .catalog), (·.catalog)⟩
    (by simp [Struct.parts, Model.parts])

theorem has_schemata : Catalog.record.Has "schemata" (.records Schema.record) (·.schemata) :=
  Struct.has .catalog ⟨"schemata", .records Schema.record (Struct.proper .schema), (·.schemata)⟩
    (by simp [Struct.parts, Catalog.parts])

theorem has_tables : Schema.record.Has "tables" (.records Table.record) (·.tables) :=
  Struct.has .schema ⟨"tables", .records Table.record (Struct.proper .table), (·.tables)⟩
    (by simp [Struct.parts, Schema.parts])

section

variable {α β γ δ : Type} {R : α → β → Prop} {S : γ → δ → Prop}

theorem rel_head? {xs : List α} {ys : List β} (h : List.Forall₂ R xs ys) :
    Option.Rel R xs.head? ys.head? := by
  cases h with
  | nil => exact .none
  | cons h _ => exact .some h

theorem rel_bind {o : Option α} {o' : Option β} {f : α → Option γ} {g : β → Option δ}
    (h : Option.Rel R o o') (hfg : ∀ a b, R a b → Option.Rel S (f a) (g b)) :
    Option.Rel S (o.bind f) (o'.bind g) := by
  cases h with
  | none => exact .none
  | some h => exact hfg _ _ h

end

namespace Element

def objects (e : Element) (r : Record ρ) : List Element :=
  e.children.filter fun c => (r.read? c).isSome

/-- The entities of a list are read from its objects, one by one. -/
theorem forall₂_objects (e : Element) (r : Record ρ) :
    List.Forall₂ (fun c x => r.read? c = some x) (e.objects r) (e.children.filterMap r.read?) := by
  unfold objects
  induction e.children with
  | nil => exact .nil
  | cons c cs ih => cases hc : r.read? c <;> simp [hc, ih]

/-- What a member with a list gives, if there is one, begins with the entity that is read from the
first object of its structure there. -/
theorem rel_records (e : Element) (key : String) (r : Record ρ) :
    Option.Rel (fun c x => r.read? c = some x)
      ((e.lastMember? key (.records r)).bind fun list => (list.objects r).head?)
      ((e.lastValue? key (.records r)).getD []).head? := by
  rw [lastValue?]
  cases hlist : e.lastMember? key (.records r) with
  | none => exact .none
  | some list =>
    obtain ⟨xs, hxs⟩ := exists_of_lastMember? hlist
    rw [Option.bind_some, Option.bind_some, hxs, Option.getD_some, Record.given?_records hxs]
    exact rel_head? (list.forall₂_objects r)

/-- What a member with an entity gives is read from that member. -/
theorem rel_entity? (e : Element) (key : String) (r : Record ρ) :
    Option.Rel (fun c x => r.read? c = some x) (e.lastMember? key (.entity? r))
      ((e.lastValue? key (.entity? r)).getD none) := by
  rw [lastValue?]
  cases hmember : e.lastMember? key (.entity? r) with
  | none => exact .none
  | some c =>
    obtain ⟨x, hx⟩ := exists_of_lastMember? hmember
    obtain ⟨rfl, hsome⟩ := Record.given?_entity? hx
    obtain ⟨y, hy⟩ := Option.isSome_iff_exists.mp hsome
    rw [Option.bind_some, hx, Option.getD_some, hy]
    exact .some hy

end Element

namespace Document

open Element

def modelNode? (root : Element) : Option Element := do
  let [entry] := root.entries | none
  let models ← entry.lastMember? modelsField.key (.records Model.record)
  (models.objects Model.record).head?

/-- The object of the schema whose tables a document has, the first one in the catalog of that
model. -/
def schemaNode? (root : Element) : Option Element := do
  let model ← modelNode? root
  let catalog ← model.lastMember? "catalog" (.entity? Catalog.record)
  let schemata ← catalog.lastMember? "schemata" (.records Schema.record)
  (schemata.objects Schema.record).head?

def tableNodes (root : Element) : List Element :=
  match (schemaNode? root).bind (·.lastMember? "tables" (.records Table.record)) with
  | some tables => tables.objects Table.record
  | none => []

/-- The first model of a document is read from its object. -/
theorem rel_model? {root : Element} {d : Document} (h : read root = .ok d) :
    Option.Rel (fun c m => Model.record.read? c = some m) (modelNode? root) d.models.head? := by
  unfold read at h
  split at h
  case h_1 entry hentries =>
    unfold modelNode?
    rw [hentries, models_eq h]
    exact rel_records entry _ _
  case h_2 => cases h

/-- The schema of a document is read from its object. -/
theorem rel_schema? {root : Element} {d : Document} (h : read root = .ok d) :
    Option.Rel (fun c s => Schema.record.read? c = some s) (schemaNode? root) d.schema? := by
  -- From each object on the way the next one is found as the entity takes its part from it.
  apply rel_bind (rel_model? h)
  intro model m hm
  rw [has_catalog.get_eq (Struct.proper .model) hm]
  apply rel_bind (rel_entity? model _ _)
  intro catalog c hc
  rw [has_schemata.get_eq (Struct.proper .catalog) hc]
  exact rel_records catalog _ _

/-- The tables of a document are read from their objects, one from each, in order. -/
theorem forall₂_tables {root : Element} {d : Document} (h : read root = .ok d) :
    List.Forall₂ (fun node t => Table.record.read? node = some t) (tableNodes root) d.tables := by
  have hschema := rel_schema? h
  unfold tables tableNodes
  generalize schemaNode? root = node? at hschema ⊢
  generalize d.schema? = schema? at hschema ⊢
  cases hschema with
  -- Without a schema there are no tables, and no list of them either.
  | none => exact .nil
  | @some node schema hschema =>
    simp only [Option.bind_some]
    rw [has_tables.get_eq (Struct.proper .schema) hschema, lastValue?]
    cases htables : node.lastMember? "tables" (.records Table.record) with
    | none => exact .nil
    | some tables =>
      obtain ⟨ts, hts⟩ := exists_of_lastMember? htables
      rw [Option.bind_some, hts, Option.getD_some, Record.given?_records hts]
      exact tables.forall₂_objects Table.record

/-- A document with a single schema is a document. -/
theorem read_of_readSingle {root : Element} {d : Document} (h : readSingle root = .ok d) :
    read root = .ok d := by
  obtain ⟨d', hread, h⟩ := bind_eq_ok_iff.mp h
  obtain ⟨_, _, h⟩ := bind_eq_ok_iff.mp h
  cases h
  exact hread

end Document

namespace Settings

/-- What becomes of each of some tables: its code, nothing if it is left out, or the reason why it
has no code. -/
def outcomes (s : Settings) (tables : List Table) : List (Except LoweringError (List TableCode)) :=
  tables.map fun t => s.generate [t]

/-- What becomes of the tables of a document is known from their objects, each by itself. -/
theorem forall₂_outcomes (s : Settings) {root : Element} {d : Document}
    (h : Document.read root = .ok d) :
    List.Forall₂ (fun node outcome =>
        (Table.record.read? node).map (fun t => s.generate [t]) = some outcome)
      (Document.tableNodes root) (s.outcomes d.tables) := by
  rw [outcomes, List.forall₂_map_right_iff]
  apply (Document.forall₂_tables h).imp
  intro node t ht
  rw [ht, Option.map_some]

/-- One object stands for one outcome, in whatever documents and at whatever places. -/
theorem outcome_of_node (s : Settings) {root root' : Element} {d d' : Document}
    (h : Document.read root = .ok d) (h' : Document.read root' = .ok d') {i j : Nat}
    {node : Element} (hi : (Document.tableNodes root)[i]? = some node)
    (hj : (Document.tableNodes root')[j]? = some node) :
    ∃ outcome, (s.outcomes d.tables)[i]? = some outcome ∧
      (s.outcomes d'.tables)[j]? = some outcome := by
  obtain ⟨outcome, houtcome, hnode⟩ := getElem?_of_forall₂ (s.forall₂_outcomes h) hi
  obtain ⟨outcome', houtcome', hnode'⟩ := getElem?_of_forall₂ (s.forall₂_outcomes h') hj
  -- Both are what becomes of the table that is read from the object.
  have hsame : outcome = outcome' := Option.some.inj (hnode.symm.trans hnode')
  exact ⟨outcome, houtcome, hsame ▸ houtcome'⟩

/-- Tables are generated independently of each other. What becomes of a table is the same in two
documents if its object is, wherever it stands among the tables and whatever else there is. A run
over tables is made of the runs over them in order, the first of them that is included and has no
code decides the error, and one that is not included changes nothing. -/
theorem generate_independent (s : Settings) :
    (∀ root (d : Document), Document.readSingle root = .ok d →
      List.Forall₂ (fun node outcome =>
          (Table.record.read? node).map (fun t => s.generate [t]) = some outcome)
        (Document.tableNodes root) (s.outcomes d.tables)) ∧
      (∀ root root' (d d' : Document), Document.readSingle root = .ok d →
        Document.readSingle root' = .ok d' → ∀ (i j : Nat) node,
          (Document.tableNodes root)[i]? = some node →
          (Document.tableNodes root')[j]? = some node →
            ∃ outcome, (s.outcomes d.tables)[i]? = some outcome ∧
              (s.outcomes d'.tables)[j]? = some outcome) ∧
      (∀ a b, s.generate (a ++ b) = do
        let codes ← s.generate a
        let codes' ← s.generate b
        return codes ++ codes') ∧
      (∀ tables e, s.generate tables = .error e ↔
        ∃ before t after, tables = before ++ t :: after ∧
          (∃ codes, s.generate before = .ok codes) ∧ s.includes t.name = true ∧
            t.generate s.indentWidth = .error e) ∧
      ∀ a b t, s.includes t.name = false → s.generate (a ++ t :: b) = s.generate (a ++ b) := by
  refine ⟨?_, ?_, s.generate_append, fun _ _ => generate_eq_error_iff,
    fun a b _ => s.generate_excluded a b⟩
  · intro root d h
    exact s.forall₂_outcomes (Document.read_of_readSingle h)
  · intro root root' d d' h h' i j node hi hj
    exact s.outcome_of_node (Document.read_of_readSingle h) (Document.read_of_readSingle h') hi hj

def columnTree (id name type : String) : Element :=
  (Document.tableTree id name).addChild
    ((Element.list.addChild ((Element.object "db.mysql.Column").addChild
      ((Element.string type).setKey "simpleType"))).setKey "columns")

/-- A table stands first in one document, and behind a table without code in another one, where the
schema has its id. -/
theorem generate_independent_posts :
    ∃ d d' : Document,
      Document.readSingle (Document.schemaTree "s"
        [columnTree "1" "posts" "int", columnTree "2" "tags" "int"]) = .ok d ∧
      Document.readSingle (Document.schemaTree "1"
        [columnTree "2" "tags" "cube", columnTree "1" "posts" "int"]) = .ok d' ∧
      ∃ outcome, (outcomes {} d.tables)[0]? = some outcome ∧
        (outcomes {} d'.tables)[1]? = some outcome := by
  let node := columnTree "1" "posts" "int"
  let root := Document.schemaTree "s" [node, columnTree "2" "tags" "int"]
  let root' := Document.schemaTree "1" [columnTree "2" "tags" "cube", node]
  have hread : ∃ d, Document.readSingle root = .ok d := ⟨_, rfl⟩
  have hread' : ∃ d, Document.readSingle root' = .ok d := ⟨_, rfl⟩
  have hnode : (Document.tableNodes root)[0]? = some node := rfl
  have hnode' : (Document.tableNodes root')[1]? = some node := rfl
  obtain ⟨d, hd⟩ := hread
  obtain ⟨d', hd'⟩ := hread'
  have houtcome := (generate_independent {}).2.1 root root' d d' hd hd' 0 1 node hnode hnode'
  exact ⟨d, d', hd, hd', houtcome⟩

end Settings

end SchemaMigration
