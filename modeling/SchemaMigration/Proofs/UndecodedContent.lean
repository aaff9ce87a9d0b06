import SchemaMigration.Proofs.Revision

namespace SchemaMigration
namespace Element

def NoData (e : Element) : Prop :=
  ∀ n ∈ e.nodes, n.name ≠ "data"

def PassedOver (e : Element) : Prop :=
  e.name ≠ "value" ∧ e.name ≠ "link"

/-- Content that is not decoded is replaced: all but the key of a member that is not wanted, or that
is passed over; the text and the children of an object of an unknown structure; or some items of a
list that are passed over. -/
inductive Redacted : Role → Element → Element → Prop
  | unwanted {keys : List String} {key : String} {e e' : Element}
      (hkey : e.attr? "key" = some key) (hkey' : e'.attr? "key" = some key)
      (hunwanted : key ∉ keys) (hdata : e'.NoData) : Redacted (.member keys) e e'
  | member {keys : List String} {key : String} {e e' : Element}
      (hkey : e.attr? "key" = some key) (hkey' : e'.attr? "key" = some key)
      (hpassed : e.PassedOver) (hpassed' : e'.PassedOver) (hdata : e'.NoData) :
      Redacted (.member keys) e e'
  | object {role : Role} {structName text : String} {e : Element} {children : List Element}
      (hdecoded : e.Decoded role) (hname : e.name = "value")
      (htype : e.attr? "type" = some "object")
      (hstruct : e.attr? "struct-name" = some structName)
      (hunknown : Struct.ofName? structName = none) (hdata : ∀ c ∈ children, c.NoData) :
      Redacted role e { e with text := text, children := children }
  | items {role : Role} {e : Element} {before items items' after : List Element}
      (hdecoded : e.Decoded role) (hname : e.name = "value") (htype : e.attr? "type" = some "list")
      (hchildren : e.children = before ++ items ++ after)
      (hitems : ∀ c ∈ items, c.PassedOver)
      (hitems' : ∀ c ∈ items', c.PassedOver ∧ c.NoData) :
      Redacted role e { e with children := before ++ items' ++ after }

theorem noEntry_of_noData {e : Element} (h : e.NoData) : e.NoEntry := by
  have hnone : e.nodes.filter (·.name = "data") = [] := by
    apply List.filter_eq_nil_iff.mpr
    intro n hn
    simpa using h n hn
  rw [NoEntry, ← placed_eq_entries, placed, hnone]
  rfl

theorem noData_of_childless {e : Element} (hname : e.name ≠ "data") (hchildren : e.children = []) :
    e.NoData := by
  intro n hn
  rw [nodes_eq, hchildren, nodesOf, List.mem_singleton] at hn
  rw [hn]
  exact hname

/-- What is passed over is not decoded in any role. -/
theorem PassedOver.not_decoded {e : Element} (h : e.PassedOver) (role : Role) :
    ¬e.Decoded role := by
  rintro ⟨hvalue | hlink, -⟩
  · exact h.1 hvalue
  · exact h.2 hlink

/-- A member under a key that is not wanted is not decoded. -/
theorem not_decoded_unwanted {e : Element} {keys : List String} {key : String}
    (hkey : e.attr? "key" = some key) (hunwanted : key ∉ keys) :
    ¬e.Decoded (.member keys) := by
  rintro ⟨-, key', hwanted, hkey'⟩
  rw [hkey] at hkey'
  cases hkey'
  exact hunwanted hwanted

/-- Items that are passed over do not count, wherever they stand. -/
theorem decodeItems_passedOver {items : List Element} (h : ∀ c ∈ items, c.PassedOver)
    (before after : List Element) :
    decodeItems (before ++ items ++ after) = decodeItems (before ++ after) := by
  have hnone : gather decodeItem items = .ok ([], []) :=
    gather_eq_nil fun c hc => decodeItem_of_not_decoded ((h c hc).not_decoded .item)
  rw [decodeItems_eq, decodeItems_eq, gather_append, gather_append_of_eq_nil hnone,
    ← gather_append]

/-- Replacing content that is not decoded leaves the outcome of the element as it is. -/
theorem outcome_eq_of_redacted {e e' : Element} {role : Role} (h : Redacted role e e') :
    e.outcome role = e'.outcome role := by
  cases h with
  | @unwanted keys _ _ _ hkey hkey' hunwanted =>
    change e.decodeMember keys = e'.decodeMember keys
    rw [decodeMember_of_not_decoded hkey (not_decoded_unwanted hkey hunwanted),
      decodeMember_of_not_decoded hkey' (not_decoded_unwanted hkey' hunwanted)]
  | @member keys _ _ _ hkey hkey' hpassed hpassed' =>
    change e.decodeMember keys = e'.decodeMember keys
    rw [decodeMember_of_not_decoded hkey (hpassed.not_decoded _),
      decodeMember_of_not_decoded hkey' (hpassed'.not_decoded _)]
  | @object _ structName text _ children hdecoded hname htype hstruct hunknown =>
    let e' : Element := { e with text := text, children := children }
    -- Neither the text nor the children of such an object are looked at.
    have hform : e.form = .ok (.unknown structName) :=
      form_eq_ok_of_fits ⟨hname, htype, hstruct, hunknown⟩
    have hform' : e'.form = .ok (.unknown structName) := hform
    have hdecode : e.decode = e'.decode := by
      rw [decode_of_unknown hform, decode_of_unknown hform']
      rfl
    exact rel_outcome .equality hdecoded.ne_entry rfl hdecode
  | @items _ _ before items items' after hdecoded hname htype hchildren hitems hitems' =>
    let e' : Element := { e with children := before ++ items' ++ after }
    have hform : e.form = .ok .list := form_eq_ok_of_fits ⟨hname, htype⟩
    have hform' : e'.form = .ok .list := hform
    -- The items are passed over before and after.
    have hread : decodeItems e.children = decodeItems e'.children := by
      rw [hchildren, decodeItems_passedOver hitems,
        decodeItems_passedOver fun c hc => (hitems' c hc).1]
    have hdecode : e.decode = e'.decode := by
      rw [decode_of_list hform, decode_of_list hform', hread]
    exact rel_outcome .equality hdecoded.ne_entry rfl hdecode

theorem not_redacted_entry {e e' : Element} : ¬Redacted .entry e e' := by
  intro h
  cases h with
  | object hdecoded => exact hdecoded.2
  | items hdecoded => exact hdecoded.2

/-- A redaction brings in no entry. -/
theorem noEntry_of_redacted {e e' : Element} {role : Role} (h : Redacted role e e')
    (hentry : e.NoEntry) : e'.NoEntry := by
  cases h with
  | unwanted _ _ _ hdata => exact noEntry_of_noData hdata
  | member _ _ _ _ hdata => exact noEntry_of_noData hdata
  | object _ hname _ _ _ hdata =>
    have hname' : e.name ≠ "data" := by rw [hname]; decide
    exact noEntry_of_children hname' fun c hc => noEntry_of_noData (hdata c hc)
  | @items _ _ before items items' after _ hname _ hchildren _ hitems' =>
    have hname' : e.name ≠ "data" := by rw [hname]; decide
    have hall := (noEntry_iff hname').mp hentry
    rw [hchildren, List.forall_mem_append, List.forall_mem_append] at hall
    have hall' : ∀ c ∈ before ++ items' ++ after, c.NoEntry := by
      rw [List.forall_mem_append, List.forall_mem_append]
      exact ⟨⟨hall.1.1, fun c hc => noEntry_of_noData (hitems' c hc).2⟩, hall.2⟩
    exact noEntry_of_children hname' hall'

end Element

namespace Document

open Element

/-- Replacing content that is not decoded, anywhere in a tree with one entry, changes neither the
document nor the error. -/
theorem read_eq_of_redacted {root root' : Element} (hone : root.placed.length = 1)
    (h : DifferAtEntry (Revised Redacted .entry) root root') : read root' = read root := by
  rw [placed_eq_entries] at hone
  obtain ⟨entry, children, hentries, hentries', hrevised⟩ := Revised.exists_entries
    (fun h => absurd h not_redacted_entry) noEntry_of_redacted h hone
  have hread : read root = ofEntry entry := by
    rw [read, hentries]
  have hread' : read root' = ofEntry { entry with children := children } := by
    rw [read, hentries']
  have houtcome : entry.outcome .entry =
      ({ entry with children := children } : Element).outcome .entry :=
    hrevised.rel_outcome .equality outcome_eq_of_redacted
  rw [hread, hread', ofEntry_eq, ofEntry_eq, houtcome]
  rfl

def annotatedEntry (unknown : Element) (inner remarks : List Element) : Element :=
  let note := (object "db.Note").addChildren inner
  { name := "value"
    children := [unknown.setKey "version",
      (list.setKey "physicalModels").addChildren (note :: remarks)] }

def untypedValue : Element :=
  ({ name := "value" } : Element).setId "n"

theorem revised_annotatedEntry :
    Revised Redacted .entry (annotatedEntry (int 1) [] [])
      (annotatedEntry untypedValue [untypedValue] [{ name := "remark" }]) := by
  let note (inner : List Element) : Element := (object "db.Note").addChildren inner
  let models (inner remarks : List Element) : Element :=
    (list.setKey "physicalModels").addChildren (note inner :: remarks)
  let remark : Element := { name := "remark" }
  have huntyped : untypedValue.NoData := noData_of_childless (by decide) rfl
  have hremark : remark.PassedOver ∧ remark.NoData :=
    ⟨⟨by decide, by decide⟩, noData_of_childless (by decide) rfl⟩
  have hlist (inner remarks : List Element) :
      (models inner remarks).Decoded (.member [modelsField.key]) :=
    ⟨Or.inl rfl, modelsField.key, List.mem_singleton.mpr rfl, rfl⟩
  have hnote : Revised Redacted .item (note []) (note [untypedValue]) :=
    .change (.object ⟨Or.inl rfl, trivial⟩ rfl rfl rfl (by decide)
      (List.forall_mem_singleton.mpr huntyped))
  have hmodels : Revised Redacted (.member [modelsField.key]) (models [] [])
      (models [untypedValue] [remark]) := by
    have hitems : Redacted (.member [modelsField.key]) (models [] []) (models [] [remark]) :=
      @Redacted.items _ (models [] []) [note []] [] [remark] [] (hlist [] []) rfl rfl rfl (by simp)
        (by simpa using hremark)
    apply (Revised.change hitems).trans
    exact @Revised.child _ _ .item (models [] [remark]) (note []) _ [] [remark] rfl
      (.list (hlist [] [remark]) rfl rfl (Or.inl rfl)) hnote
  have hunknown : Revised Redacted (.member [modelsField.key]) ((int 1).setKey "version")
      (untypedValue.setKey "version") :=
    .change (.unwanted rfl rfl (by decide) (noData_of_childless (by decide) rfl))
  have hfirst : Revised Redacted .entry (annotatedEntry (int 1) [] [])
      (annotatedEntry untypedValue [] []) :=
    @Revised.child _ _ _ (annotatedEntry (int 1) [] []) _ _ [] [models [] []] rfl (.entry _ _)
      hunknown
  apply hfirst.trans
  exact @Revised.child _ _ _ (annotatedEntry untypedValue [] []) _ _
    [untypedValue.setKey "version"] [] rfl (.entry _ _) hmodels

def annotatedTree : Element :=
  data [annotatedEntry (int 1) [] []]

def redactedTree : Element :=
  data [annotatedEntry untypedValue [untypedValue] [{ name := "remark" }]]

/-- An untyped value, its place in a list and a remark are redacted one after the other. -/
theorem read_eq_of_redacted_annotatedTree :
    annotatedTree.placed.length = 1 ∧
      DifferAtEntry (Revised Redacted .entry) annotatedTree redactedTree ∧
      read redactedTree = read annotatedTree := by
  have hone : annotatedTree.placed.length = 1 := rfl
  have hdiffer : DifferAtEntry (Revised Redacted .entry) annotatedTree redactedTree :=
    @DifferAtEntry.entry _ annotatedTree (annotatedEntry (int 1) [] []) _ [] [] rfl rfl rfl
      revised_annotatedEntry
  exact ⟨hone, hdiffer, read_eq_of_redacted hone hdiffer⟩

end Document
end SchemaMigration
