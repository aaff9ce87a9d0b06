import Mathlib.Data.List.Nodup
import SchemaMigration.Proofs.Gathering
import SchemaMigration.Proofs.LiveElement

namespace SchemaMigration
namespace Element

/-- Two trees that are alike but for the order of attributes in some of their elements, where the
keys of these attributes differ. -/
inductive Shuffled : Element → Element → Prop
  | mk {name text : String} {line : Option Nat} {attrs attrs' : List (String × String)}
      {children children' : List Element}
      (hattrs : attrs = attrs' ∨ (attrs.map Prod.fst).Nodup ∧ attrs.Perm attrs')
      (hchildren : List.Forall₂ Shuffled children children') :
      Shuffled ⟨name, attrs, text, line, children⟩ ⟨name, attrs', text, line, children'⟩

namespace Shuffled

variable {e e' : Element}

theorem name_eq (h : Shuffled e e') : e'.name = e.name := by
  cases h
  rfl

theorem text_eq (h : Shuffled e e') : e'.text = e.text := by
  cases h
  rfl

theorem line_eq (h : Shuffled e e') : e'.line = e.line := by
  cases h
  rfl

theorem children (h : Shuffled e e') : List.Forall₂ Shuffled e.children e'.children := by
  cases h with
  | mk _ hchildren => exact hchildren

/-- The keys differ, so every look-up finds the same attribute. -/
theorem attr?_eq (h : Shuffled e e') (key : String) : e'.attr? key = e.attr? key := by
  cases h with
  | @mk name text line attrs attrs' children children' hattrs hchildren =>
    change attrs'.lookup key = attrs.lookup key
    symm
    obtain rfl | ⟨hkeys, hperm⟩ := hattrs
    · rfl
    apply lookup_eq_of_mem_iff
    · intro v w hv hw
      have heq : (key, v) = (key, w) := List.inj_on_of_nodup_map hkeys hv hw rfl
      exact congrArg Prod.snd heq
    · exact fun v => hperm.mem_iff

theorem attr_eq (h : Shuffled e e') (key : String) : e'.attr key = e.attr key := by
  rw [attr, attr, h.attr?_eq, h.name_eq, h.line_eq]

theorem form_eq (h : Shuffled e e') : e'.form = e.form := by
  rw [form, form, h.attr_eq, h.attr_eq, h.name_eq]

theorem sighting_eq (h : Shuffled e e') : e'.sighting = e.sighting := by
  rw [sighting, sighting, h.attr?_eq, h.attr?_eq, h.line_eq]

/-- What holds of two such trees if it holds of their children, one by one, holds of them. -/
theorem induction {P : Element → Element → Prop}
    (hstep : ∀ e e', Shuffled e e' → List.Forall₂ P e.children e'.children → P e e') :
    ∀ e e', Shuffled e e' → P e e' := by
  intro e
  induction e using Element.induction with
  | h e ih =>
    intro e' h
    apply hstep e e' h
    have hall (cs cs' : List Element) (hcs : List.Forall₂ Shuffled cs cs')
        (hP : ∀ c ∈ cs, ∀ c', Shuffled c c' → P c c') : List.Forall₂ P cs cs' := by
      induction hcs with
      | nil => exact .nil
      | cons hc _ ihcs =>
        refine .cons (hP _ List.mem_cons_self _ hc) (ihcs ?_)
        exact fun d hd => hP d (List.mem_cons_of_mem _ hd)
    exact hall e.children e'.children h.children ih

end Shuffled

theorem content_eq (e : Element) : e.content = e.text ++ contents e.children := by
  cases e
  rfl

theorem contents_congr {es es' : List Element}
    (h : List.Forall₂ (fun e e' => e'.content = e.content) es es') :
    contents es' = contents es := by
  induction h with
  | nil => rfl
  | cons he _ ih => rw [contents, contents, he, ih]

theorem Shuffled.content_eq {e e' : Element} (h : Shuffled e e') : e'.content = e.content := by
  refine Shuffled.induction (P := fun e e' => e'.content = e.content) ?_ e e' h
  intro e e' h hchildren
  rw [Element.content_eq, Element.content_eq e, h.text_eq, contents_congr hchildren]

/-- What an element is read as hangs on its form, its id and its text, which stay, and on what its
children are read as. Of a child as a member its key counts too. -/
theorem Shuffled.key_decode_eq {e e' : Element} (h : Shuffled e e') :
    e'.attr "key" = e.attr "key" ∧ e'.decode = e.decode := by
  refine Shuffled.induction
    (P := fun e e' => e'.attr "key" = e.attr "key" ∧ e'.decode = e.decode) ?_ e e' h
  intro e e' h hchildren
  have hitems : decodeItems e'.children = decodeItems e.children :=
    decodeItems_congr (hchildren.imp fun _ _ hc => hc.2)
  have hmembers (keys : List String) :
      decodeMembers keys e'.children = decodeMembers keys e.children :=
    decodeMembers_congr hchildren
  refine ⟨h.attr_eq "key", ?_⟩
  rw [Element.decode_eq, Element.decode_eq e, h.form_eq, h.attr?_eq, h.sighting_eq,
    h.content_eq, hitems]
  simp only [hmembers]

/-- The entries of two such trees correspond to each other. -/
theorem Shuffled.entries {e e' : Element} (h : Shuffled e e') :
    List.Forall₂ Shuffled e.entries e'.entries := by
  refine Shuffled.induction (P := fun e e' => List.Forall₂ Shuffled e.entries e'.entries) ?_ e e' h
  intro e e' h hchildren
  have hplaced (cs cs' : List Element) (hcs : List.Forall₂ Shuffled cs cs') :
      List.Forall₂ Shuffled (cs.filter (·.name = "value")) (cs'.filter (·.name = "value")) := by
    induction hcs with
    | nil => exact .nil
    | @cons c c' cs cs' hc hcs ih =>
      rw [List.filter_cons, List.filter_cons, hc.name_eq]
      split
      · exact .cons hc ih
      · exact ih
  have hbelow (cs cs' : List Element)
      (hcs : List.Forall₂ (fun c c' => List.Forall₂ Shuffled c.entries c'.entries) cs cs') :
      List.Forall₂ Shuffled (entriesOf cs) (entriesOf cs') := by
    induction hcs with
    | nil => exact .nil
    | cons hc _ ih => exact List.rel_append hc ih
  rw [entries_eq, entries_eq e', h.name_eq]
  apply List.rel_append
  · split
    · exact hplaced _ _ h.children
    · exact .nil
  · exact hbelow _ _ hchildren

theorem dataLine?_eq (e : Element) :
    e.dataLine? = if e.name = "data" then e.line else dataLineOf? e.children := by
  cases e
  rfl

theorem Shuffled.dataLine?_eq {e e' : Element} (h : Shuffled e e') :
    e'.dataLine? = e.dataLine? := by
  refine Shuffled.induction (P := fun e e' => e'.dataLine? = e.dataLine?) ?_ e e' h
  intro e e' h hchildren
  have hbelow (cs cs' : List Element)
      (hcs : List.Forall₂ (fun c c' => c'.dataLine? = c.dataLine?) cs cs') :
      dataLineOf? cs' = dataLineOf? cs := by
    induction hcs with
    | nil => rfl
    | cons hc _ ih => rw [dataLineOf?, dataLineOf?, hc, ih]
  rw [Element.dataLine?_eq, Element.dataLine?_eq e, h.name_eq, h.line_eq, hbelow _ _ hchildren]

end Element

namespace Document

open Element

/-- Two entries that differ in the order of attributes alone give the same document. -/
theorem ofEntry_eq_of_shuffled {entry entry' : Element} (h : Shuffled entry entry') :
    ofEntry entry' = ofEntry entry := by
  have hmembers : decodeMembers [modelsField.key] entry'.children =
      decodeMembers [modelsField.key] entry.children :=
    decodeMembers_congr (h.children.imp fun _ _ hc => hc.key_decode_eq)
  rw [ofEntry, ofEntry, hmembers, h.sighting_eq]

/-- So the order of attributes has no part in the document that is read, or in the error. -/
theorem read_eq_of_shuffled {root root' : Element} (h : Shuffled root root') :
    read root' = read root := by
  have hentries := h.entries
  have hline := h.dataLine?_eq
  rw [read, read, hline]
  generalize root.entries = es at hentries ⊢
  generalize root'.entries = es' at hentries ⊢
  match hentries with
  | .nil => rfl
  | .cons hentry .nil => exact ofEntry_eq_of_shuffled hentry
  -- Of more entries only the number counts.
  | .cons _ (.cons _ hmore) =>
    have hlength := hmore.length_eq
    simp only [List.length_cons, hlength]

/-- In whatever order the elements of a tree have their attributes, the answer is the same. -/
theorem read_shuffled {root root' : Element} (h : Shuffled root root') :
    read root' = read root ∧ readSingle root' = readSingle root := by
  have hread := read_eq_of_shuffled h
  exact ⟨hread, by rw [readSingle, readSingle, hread]⟩

def attributed (order : List (String × String) → List (String × String)) : Element :=
  let model : Element :=
    { name := "value"
      attrs := order [("type", "object"), ("struct-name", Struct.model.name), ("id", "m")] }
  let models : Element :=
    { name := "value"
      attrs := order [("type", "list"), ("key", "physicalModels")]
      children := [model] }
  let entry : Element :=
    { name := "value", attrs := order [("type", "object"), ("id", "d")], children := [models] }
  { name := "data", children := [entry] }

/-- In a tree with one model, the attributes of all elements but the topmost are reversed. -/
theorem read_shuffled_attributed :
    Shuffled (attributed id) (attributed List.reverse) ∧
      read (attributed List.reverse) = read (attributed id) ∧
      readSingle (attributed List.reverse) = readSingle (attributed id) := by
  have hperm (attrs : List (String × String)) : (id attrs).Perm attrs.reverse :=
    attrs.reverse_perm.symm
  have hshuffled : Shuffled (attributed id) (attributed List.reverse) := by
    refine .mk (Or.inl rfl) (.cons ?entry .nil)
    refine .mk (Or.inr ⟨by decide, hperm _⟩) (.cons ?models .nil)
    refine .mk (Or.inr ⟨by decide, hperm _⟩) (.cons ?model .nil)
    exact .mk (Or.inr ⟨by decide, hperm _⟩) .nil
  exact ⟨hshuffled, read_shuffled hshuffled⟩

end Document
end SchemaMigration
