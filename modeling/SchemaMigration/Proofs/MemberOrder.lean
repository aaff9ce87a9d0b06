import Mathlib.Data.List.Perm.Basic
import SchemaMigration.Proofs.FieldIndependence
import SchemaMigration.Proofs.FirstEntries
import SchemaMigration.Proofs.SeenObjects

namespace SchemaMigration

/-- A reading that succeeds goes over into one with the same result and the same sightings, in any
order. -/
def Preserved {α : Type} (x y : Except DocumentError (α × Sightings)) : Prop :=
  ∀ v seen, x = .ok (v, seen) → ∃ seen', y = .ok (v, seen') ∧ seen.Perm seen'

def Congruence.preservation : Congruence where
  Seen := List.Perm
  Rel := Preserved
  seen_refl := .refl
  seen_append h h' := h.append h'
  refl _ _ seen h := ⟨seen, h, .refl seen⟩
  trans := by
    intro α x y z hxy hyz v seen hx
    obtain ⟨seen', hy, hperm⟩ := hxy v seen hx
    obtain ⟨seen'', hz, hperm'⟩ := hyz v seen' hy
    exact ⟨seen'', hz, hperm.trans hperm'⟩
  pure := by
    intro α v seen seen' hseen w s hw
    cases hw
    exact ⟨seen', rfl, hseen⟩
  bind := by
    intro α β x y f g hxy hfg w s h
    obtain ⟨⟨v, seen⟩, hx, hf⟩ := bind_eq_ok_iff.mp h
    obtain ⟨seen', hy, hperm⟩ := hxy v seen hx
    obtain ⟨s', hg, hperm'⟩ := hfg v seen seen' hperm w s hf
    exact ⟨s', bind_eq_ok_iff.mpr ⟨(v, seen'), hy, hg⟩, hperm'⟩

namespace Element

variable {α : Type} {f : Element → Except DocumentError (List α × Sightings)}

def wantedKeys (keys : List String) (members : List Element) : List String :=
  (members.filterMap (·.attr? "key")).filter (· ∈ keys)

/-- The members of the entry or of a decoded object of a known structure are put in another order,
if the wanted keys among them differ. -/
inductive Reordered : Role → Element → Element → Prop
  | entry {e : Element} {children : List Element}
      (hdistinct : (wantedKeys [modelsField.key] e.children).Nodup)
      (hperm : e.children.Perm children) :
      Reordered .entry e { e with children := children }
  | object {role : Role} {struct : Struct} {e : Element} {children : List Element}
      (hdecoded : e.Decoded role) (hname : e.name = "value")
      (htype : e.attr? "type" = some "object")
      (hstruct : e.attr? "struct-name" = some struct.name)
      (hdistinct : (wantedKeys struct.keys e.children).Nodup)
      (hperm : e.children.Perm children) : Reordered role e { e with children := children }

/-- In another order of the elements, the same is gathered in another order. -/
theorem gather_perm {es es' : List Element} {vs : List α} {seen : Sightings}
    (h : gather f es = .ok (vs, seen)) (hperm : es.Perm es') :
    ∃ vs' seen', gather f es' = .ok (vs', seen') ∧ vs.Perm vs' ∧ seen.Perm seen' := by
  obtain ⟨results, hresults, rfl, rfl⟩ := gather_eq_ok_iff.mp h
  obtain ⟨results', hresults', hperm'⟩ := List.perm_comp_forall₂ hperm.symm hresults
  refine ⟨_, _, gather_eq_ok_iff.mpr ⟨results', hresults', rfl, rfl⟩, ?_, ?_⟩
  · exact hperm'.symm.flatMap_right _
  · exact hperm'.symm.flatMap_right _

/-- Each member gives at most one value, under its own key, and that only if the key is wanted. -/
theorem keys_sublist {keys : List String} {es : List Element} {members : List (String × Datum)}
    {seen : Sightings} (h : decodeMembers keys es = .ok (members, seen)) :
    (members.map Prod.fst).Sublist (wantedKeys keys es) := by
  induction es generalizing members seen with
  | nil =>
    cases h
    exact .slnil
  | cons e es ih =>
    obtain ⟨key, hkey, h⟩ := bind_eq_ok_iff.mp h
    rw [attr_eq_ok_iff] at hkey
    by_cases hwanted : key ∈ keys
    · rw [if_pos hwanted] at h
      have hfront : wantedKeys keys (e :: es) = key :: wantedKeys keys es := by
        simp [wantedKeys, hkey, hwanted]
      obtain ⟨⟨value, seen₁⟩, _, h⟩ := bind_eq_ok_iff.mp h
      obtain ⟨⟨members', seen₂⟩, hmembers, h⟩ := bind_eq_ok_iff.mp h
      cases h
      rw [hfront, List.map_append]
      -- A wanted member that is skipped gives no value.
      have hhead : ((value.toList.map (key, ·)).map Prod.fst).Sublist [key] := by
        cases value <;> simp
      exact hhead.append (ih hmembers)
    · rw [if_neg hwanted] at h
      have hfront : wantedKeys keys (e :: es) = wantedKeys keys es := by
        simp [wantedKeys, hkey, hwanted]
      rw [hfront]
      exact ih h

/-- So it is with members, where the wanted keys are distinct. -/
theorem decodeMembers_perm {keys : List String} {es es' : List Element}
    {members : List (String × Datum)} {seen : Sightings}
    (h : decodeMembers keys es = .ok (members, seen)) (hdistinct : (wantedKeys keys es).Nodup)
    (hperm : es.Perm es') :
    ∃ members' seen', decodeMembers keys es' = .ok (members', seen') ∧
      (members.map Prod.fst).Nodup ∧ members.Perm members' ∧ seen.Perm seen' := by
  have hkeys : (members.map Prod.fst).Nodup := hdistinct.sublist (keys_sublist h)
  rw [decodeMembers_eq] at h
  obtain ⟨members', seen', h', hmembers, hseen⟩ := gather_perm h hperm
  exact ⟨members', seen', by rw [decodeMembers_eq, h'], hkeys, hmembers, hseen⟩

/-- A reordering keeps what is read, and what is seen up to order. -/
theorem preserved_of_reordered {e e' : Element} {role : Role} (h : Reordered role e e') :
    Preserved (e.outcome role) (e'.outcome role) := by
  cases h with
  | entry hdistinct hperm =>
    intro models seen houtcome
    obtain ⟨⟨members, seen₁⟩, hmembers, houtcome⟩ := bind_eq_ok_iff.mp houtcome
    cases houtcome
    obtain ⟨members', seen', hmembers', hkeys, hperm', hseen⟩ :=
      decodeMembers_perm hmembers hdistinct hperm
    refine ⟨seen', bind_eq_ok_iff.mpr ⟨_, hmembers', ?_⟩, hseen⟩
    have hfold := Field.foldl_assignTo_eq_of_perm (List.pairwise_singleton _ modelsField) hkeys
      hperm' []
    exact congrArg (fun models : List Model =>
      (.ok (models, seen') : Except DocumentError (List Model × Sightings))) hfold
  | @object _ struct _ children hdecoded hname htype hstruct hdistinct hperm =>
    have hform : e.form = .ok (.entity struct) := form_eq_ok_of_fits ⟨hname, htype, hstruct⟩
    let e' : Element := { e with children := children }
    have hform' : e'.form = .ok (.entity struct) := hform
    have hdecode : Preserved e.decode e'.decode := by
      rw [decode_of_entity hform, decode_of_entity hform']
      intro v seen h
      obtain ⟨⟨members, seen₁⟩, hmembers, h⟩ := bind_eq_ok_iff.mp h
      cases h
      obtain ⟨members', seen', hmembers', hkeys, hperm', hseen⟩ :=
        decodeMembers_perm hmembers hdistinct hperm
      refine ⟨seen' ++ e.sighting, bind_eq_ok_iff.mpr ⟨_, hmembers', ?_⟩, hseen.append_right _⟩
      simp only [Struct.build_eq_of_perm hkeys hperm']
      rfl
    exact rel_outcome .preservation hdecoded.ne_entry rfl hdecode

theorem exists_children_of_reordered {e e' : Element} (h : Reordered .entry e e') :
    ∃ children, e' = { e with children := children } := by
  cases h with
  | entry => exact ⟨_, rfl⟩
  | object => exact ⟨_, rfl⟩

/-- The entries below reordered children are the same in another order. -/
theorem entries_perm {e : Element} {children : List Element} (hperm : e.children.Perm children) :
    e.entries.Perm ({ e with children := children } : Element).entries := by
  rw [entries_eq, entries_eq, entriesOf_eq, entriesOf_eq]
  apply List.Perm.append
  · split
    · exact hperm.filter _
    · exact .refl []
  · exact hperm.flatMap_right _

theorem noEntry_of_perm {e : Element} {children : List Element} (hperm : e.children.Perm children)
    (h : e.NoEntry) : ({ e with children := children } : Element).NoEntry := by
  have hentries := entries_perm hperm
  rw [NoEntry] at h
  rw [h] at hentries
  exact hentries.symm.eq_nil

theorem noEntry_of_reordered {e e' : Element} {role : Role} (h : Reordered role e e')
    (hentry : e.NoEntry) : e'.NoEntry := by
  cases h with
  | entry _ hperm => exact noEntry_of_perm hperm hentry
  | object _ _ _ _ _ hperm => exact noEntry_of_perm hperm hentry

end Element

namespace Document

open Element

/-- A document is read the same if the members of objects are put in another order at which their
keys differ, and so is the registry of ids, unless two objects share one. -/
theorem read_of_reordered {root root' : Element} {d : Document}
    (h : DifferAtEntry (Revised Reordered .entry) root root') (hread : read root = .ok d) :
    ∃ d', read root' = .ok d' ∧ d'.models = d.models ∧
      ∀ entry, root.placed = [entry] → entry.DistinctIds → d'.same d = true := by
  obtain ⟨entry, models, seen, hplaced, houtcome, rfl⟩ := read_eq_ok_iff.mp hread
  have hone : root.entries.length = 1 := by
    rw [← placed_eq_entries, hplaced]
    rfl
  obtain ⟨entry₁, children, hentries, hentries', hrevised⟩ :=
    Revised.exists_entries exists_children_of_reordered noEntry_of_reordered h hone
  obtain rfl : entry₁ = entry := by
    rw [placed_eq_entries, hentries] at hplaced
    exact List.singleton_inj.mp hplaced
  have hpreserved : Preserved (entry₁.outcome .entry)
      (({ entry₁ with children := children } : Element).outcome .entry) :=
    hrevised.rel_outcome .preservation preserved_of_reordered
  obtain ⟨seen', houtcome', hperm⟩ := hpreserved models seen houtcome
  refine ⟨_, read_eq_ok_iff.mpr ⟨_, models, seen', ?_, houtcome', rfl⟩, rfl, ?_⟩
  · rw [placed_eq_entries, hentries']
  · intro entry hplaced' hids
    obtain rfl : entry₁ = entry := List.singleton_inj.mp (hplaced.symm.trans hplaced')
    -- No two sightings share an id, so their order decides nothing.
    have hget (id : String) : (OnceMap.ofList (seen' ++ entry₁.sighting)).get? id =
        (OnceMap.ofList (seen ++ entry₁.sighting)).get? id := by
      have hlookup : seen'.lookup id = seen.lookup id := by
        symm
        apply lookup_eq_of_mem_iff (owner_unique hids houtcome)
        exact fun o => hperm.mem_iff
      rw [OnceMap.get?_ofList, OnceMap.get?_ofList, List.lookup_append, List.lookup_append,
        hlookup]
    rw [same, Bool.and_eq_true]
    exact ⟨beq_self_eq_true _, OnceMap.sameEntries_of_get?_eq hget⟩

def memberCatalog : Element :=
  ((object Struct.catalog.name).setKey "catalog").setId "c"

def memberModel (order : List Element → List Element) : Element :=
  ((object Struct.model.name).setId "m").addChildren
    (order [(string "a").setKey "name", memberCatalog])

def memberEntry (order : List Element → List Element) : Element :=
  { name := "value"
    children := order [(int 1).setKey "version",
      (list.setKey "physicalModels").addChild (memberModel order)] }

/-- The members of the entry trade places, and then those of its model. -/
theorem revised_memberEntry :
    Revised Reordered .entry (memberEntry id) (memberEntry List.reverse) := by
  let version := (int 1).setKey "version"
  let models (model : Element) := (list.setKey "physicalModels").addChild model
  let entry (model : Element) : Element := { name := "value", children := [models model, version] }
  have hmodel : Revised Reordered .item (memberModel id) (memberModel List.reverse) :=
    .change (@Reordered.object _ .model (memberModel id) _ ⟨Or.inl rfl, trivial⟩ rfl rfl rfl
      (by decide) (List.Perm.swap _ _ []))
  have hmodels : Revised Reordered (.member [modelsField.key]) (models (memberModel id))
      (models (memberModel List.reverse)) :=
    @Revised.child _ _ .item (models (memberModel id)) _ _ [] [] rfl
      (.list ⟨Or.inl rfl, modelsField.key, List.mem_singleton.mpr rfl, rfl⟩ rfl rfl (Or.inl rfl))
      hmodel
  have hentry : Reordered .entry (memberEntry id) (entry (memberModel id)) :=
    @Reordered.entry (memberEntry id) _ (by decide) (List.Perm.swap _ _ [])
  apply (Revised.change hentry).trans
  exact @Revised.child _ _ _ (entry (memberModel id)) _ _ [] [version] rfl (.entry _ _) hmodels

/-- The model and the catalog are the only objects, and their ids differ. -/
theorem distinctIds_memberEntry : (memberEntry id).DistinctIds := by
  have hleaf {e n : Element} {role : Role} {p : List Nat} (hchildren : e.children = [])
      (h : Holds e role p n) : p = [] ∧ n = e ∧ e.DecodedObject role := by
    obtain hhere | ⟨i, q, c, role', rfl, hc, _⟩ := holds_iff.mp h
    · exact hhere
    · rw [hchildren] at hc
      cases hc
  -- The model stands in the list, and the catalog in the model; nothing else is an object.
  have hobjects {p : List Nat} {n : Element} (h : (memberEntry id).Holds .entry p n) :
      p = [1, 0] ∧ n.attr? "id" = some "m" ∨ p = [1, 0, 1] ∧ n.attr? "id" = some "c" := by
    obtain ⟨rfl, rfl, hobject⟩ | ⟨i, q, c, role', rfl, hc, _, h⟩ := holds_iff.mp h
    · exact hobject.1.2.elim
    rcases i with _ | _ | i <;> cases hc
    · obtain ⟨_, _, hobject⟩ := hleaf rfl h
      exact absurd hobject.2.2 (by decide)
    obtain ⟨rfl, rfl, hobject⟩ | ⟨i, q, c, role', rfl, hc, _, h⟩ := holds_iff.mp h
    · exact absurd hobject.2.2 (by decide)
    rcases i with _ | i <;> cases hc
    obtain ⟨rfl, rfl, _⟩ | ⟨i, q, c, role', rfl, hc, _, h⟩ := holds_iff.mp h
    · exact Or.inl ⟨rfl, rfl⟩
    rcases i with _ | _ | i <;> cases hc
    · obtain ⟨_, _, hobject⟩ := hleaf rfl h
      exact absurd hobject.2.2 (by decide)
    · obtain ⟨rfl, rfl, _⟩ := hleaf rfl h
      exact Or.inr ⟨rfl, rfl⟩
  intro p q n m id hn hm hid hid'
  obtain ⟨hp, hn⟩ | ⟨hp, hn⟩ := hobjects hn
  · obtain ⟨hq, hm⟩ | ⟨hq, hm⟩ := hobjects hm
    · rw [hp, hq]
    · exact absurd ((hn.symm.trans hid).trans (hid'.symm.trans hm)) (by decide)
  · obtain ⟨hq, hm⟩ | ⟨hq, hm⟩ := hobjects hm
    · exact absurd ((hn.symm.trans hid).trans (hid'.symm.trans hm)) (by decide)
    · rw [hp, hq]

def memberTree (order : List Element → List Element) : Element :=
  data [memberEntry order]

def memberDocument : Document where
  models := [{ id := "m", name := "a", catalog := some { id := "c" } }]
  ids := OnceMap.ofList [("c", ⟨Struct.catalog.name, none⟩), ("m", ⟨Struct.model.name, none⟩)]

/-- With the members of the entry and of its model reversed, the document is the same. -/
theorem read_of_reordered_memberTree :
    DifferAtEntry (Revised Reordered .entry) (memberTree id) (memberTree List.reverse) ∧
      read (memberTree id) = .ok memberDocument ∧
      (memberTree id).placed = [memberEntry id] ∧ (memberEntry id).DistinctIds ∧
      ∃ d, read (memberTree List.reverse) = .ok d ∧ d.models = memberDocument.models ∧
        d.same memberDocument = true := by
  have hdiffer :
      DifferAtEntry (Revised Reordered .entry) (memberTree id) (memberTree List.reverse) :=
    @DifferAtEntry.entry _ (memberTree id) (memberEntry id) _ [] [] rfl rfl rfl
      revised_memberEntry
  have hread : read (memberTree id) = .ok memberDocument := rfl
  have hplaced : (memberTree id).placed = [memberEntry id] := rfl
  obtain ⟨d, hread', hmodels, hsame⟩ := read_of_reordered hdiffer hread
  exact ⟨hdiffer, hread, hplaced, distinctIds_memberEntry, d, hread', hmodels,
    hsame _ hplaced distinctIds_memberEntry⟩

end Document
end SchemaMigration
