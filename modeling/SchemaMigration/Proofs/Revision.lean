import SchemaMigration.Proofs.FirstFault
import SchemaMigration.Proofs.Gathering

/-!
Trees that are revised, by changes of one kind, at places that the reading looks at. A kind of
change is a relation between the elements before and after it; it can hang on how the reading
reaches the element.
-/

namespace SchemaMigration

/-- A relation of readings that goes over from the readings of parts to that of the whole. It comes
with a relation of what was seen in them. -/
structure Congruence where
  Seen : Sightings → Sightings → Prop
  Rel : ∀ {α : Type}, Except DocumentError (α × Sightings) →
    Except DocumentError (α × Sightings) → Prop
  seen_refl : ∀ seen, Seen seen seen
  seen_append : ∀ {seen₁ seen₁' seen₂ seen₂'}, Seen seen₁ seen₁' → Seen seen₂ seen₂' →
    Seen (seen₁ ++ seen₂) (seen₁' ++ seen₂')
  refl : ∀ {α : Type} (x : Except DocumentError (α × Sightings)), Rel x x
  trans : ∀ {α : Type} {x y z : Except DocumentError (α × Sightings)}, Rel x y → Rel y z → Rel x z
  pure : ∀ {α : Type} (v : α) {seen seen'}, Seen seen seen' → Rel (.ok (v, seen)) (.ok (v, seen'))
  bind : ∀ {α β : Type} {x y : Except DocumentError (α × Sightings)}
    {f g : α × Sightings → Except DocumentError (β × Sightings)}, Rel x y →
    (∀ v seen seen', Seen seen seen' → Rel (f (v, seen)) (g (v, seen'))) → Rel (x >>= f) (y >>= g)

/-- A function of the result keeps the relation. -/
theorem Congruence.map (K : Congruence) {α β : Type} {x y : Except DocumentError (α × Sightings)}
    (g : α → β) (h : K.Rel x y) :
    K.Rel (do let (v, seen) ← x; return (g v, seen)) (do let (v, seen) ← y; return (g v, seen)) :=
  K.bind h fun v _ _ hseen => K.pure (g v) hseen

def Congruence.equality : Congruence where
  Seen := Eq
  Rel := Eq
  seen_refl _ := rfl
  seen_append h h' := by rw [h, h']
  refl _ := rfl
  trans := Eq.trans
  pure v _ _ h := by rw [h]
  bind := by
    rintro α β x _ f g rfl hfg
    congr 1
    funext ⟨v, seen⟩
    exact hfg v seen seen rfl

def Role.Yield : Role → Type
  | entry => Model
  | member _ => String × Datum
  | item => Datum

namespace Element

def outcome (e : Element) : (role : Role) → Except DocumentError (List role.Yield × Sightings)
  | .entry => do
    let (members, seen) ← decodeMembers [modelsField.key] e.children
    return (members.foldl (Field.assignTo [modelsField]) [], seen)
  | .member keys => e.decodeMember keys
  | .item => e.decodeItem

/-- A document is made of the models of its entry and of what is seen there, the entry last. -/
theorem ofEntry_eq (entry : Element) :
    Document.ofEntry entry = (do
      let (models, seen) ← entry.outcome .entry
      return { models := models, ids := OnceMap.ofList (seen ++ entry.sighting) }) := by
  rw [Document.ofEntry, outcome, bind_assoc]
  rfl

/-- An item that is not decoded gives nothing, and nothing is seen in it. -/
theorem decodeItem_of_not_decoded {e : Element} (h : ¬e.Decoded .item) :
    e.decodeItem = .ok ([], []) := by
  have hname : ¬(e.name = "value" ∨ e.name = "link") := fun hname => h ⟨hname, trivial⟩
  rw [decodeItem, decode_of_skipped hname]
  rfl

theorem decodeMember_of_not_decoded {e : Element} {keys : List String} {key : String}
    (hkey : e.attr? "key" = some key) (h : ¬e.Decoded (.member keys)) :
    e.decodeMember keys = .ok ([], []) := by
  rw [decodeMember, attr_eq_ok_iff.mpr hkey]
  change (if key ∈ keys then _ else _) = _
  by_cases hwanted : key ∈ keys
  · have hname : ¬(e.name = "value" ∨ e.name = "link") :=
      fun hname => h ⟨hname, key, hwanted, hkey⟩
    rw [if_pos hwanted, decode_of_skipped hname]
    rfl
  · rw [if_neg hwanted]
    rfl

theorem Decoded.ne_entry {e : Element} {role : Role} (h : e.Decoded role) : role ≠ .entry := by
  rintro rfl
  exact h.2

/-- An element in a role is revised by changes, one after the other, of itself or of what the
reading enters from it. -/
inductive Revised (Change : Role → Element → Element → Prop) : Role → Element → Element → Prop
  | refl (role : Role) (e : Element) : Revised Change role e e
  | change {role : Role} {e e' : Element} (hchange : Change role e e') : Revised Change role e e'
  | child {role role' : Role} {e c c' : Element} {before after : List Element}
      (hchildren : e.children = before ++ c :: after) (henters : Enters e role c role')
      (hrevised : Revised Change role' c c') :
      Revised Change role e { e with children := before ++ c' :: after }
  | trans {role : Role} {e e' e'' : Element} (hfirst : Revised Change role e e')
      (hsecond : Revised Change role e' e'') : Revised Change role e e''

inductive DifferAtEntry (R : Element → Element → Prop) : Element → Element → Prop
  | entry {e c c' : Element} {before after : List Element} (hname : e.name = "data")
      (hvalue : c.name = "value") (hchildren : e.children = before ++ c :: after) (hrel : R c c') :
      DifferAtEntry R e { e with children := before ++ c' :: after }
  | child {e c c' : Element} {before after : List Element}
      (hchildren : e.children = before ++ c :: after) (hdiffer : DifferAtEntry R c c') :
      DifferAtEntry R e { e with children := before ++ c' :: after }

theorem noEntry_iff {e : Element} (hname : e.name ≠ "data") :
    e.NoEntry ↔ ∀ c ∈ e.children, c.NoEntry := by
  constructor
  · intro h
    rw [NoEntry, entries_eq, if_neg hname, List.nil_append, entriesOf_eq] at h
    exact List.flatMap_eq_nil_iff.mp h
  · exact noEntry_of_children hname

section

variable (K : Congruence) {α : Type} {f : Element → Except DocumentError (List α × Sightings)}

/-- A relation between what is gathered from one element carries over to the list around it. -/
theorem rel_gather {c c' : Element} (h : K.Rel (f c) (f c')) (before after : List Element) :
    K.Rel (gather f (before ++ c :: after)) (gather f (before ++ c' :: after)) := by
  have htail : K.Rel (gather f (c :: after)) (gather f (c' :: after)) := by
    rw [gather, gather]
    apply K.bind h
    intro vs seen seen' hseen
    apply K.bind (K.refl _)
    intro vs' rest rest' hrest
    exact K.pure _ (K.seen_append hseen hrest)
  rw [gather_append, gather_append]
  apply K.bind (K.refl _)
  intro vs seen seen' hseen
  apply K.bind htail
  intro vs' rest rest' hrest
  exact K.pure _ (K.seen_append hseen hrest)

/-- What a decoded element gives hangs on its key and on what it is decoded as. -/
theorem rel_outcome {e e' : Element} {role : Role} (hrole : role ≠ .entry)
    (hkey : e'.attr "key" = e.attr "key") (h : K.Rel e.decode e'.decode) :
    K.Rel (e.outcome role) (e'.outcome role) := by
  cases role with
  | entry => exact absurd rfl hrole
  | item => exact K.map Option.toList h
  | member keys =>
    change K.Rel (e.decodeMember keys) (e'.decodeMember keys)
    rw [decodeMember, decodeMember, hkey]
    cases e.attr "key" with
    | error err => exact K.refl _
    | ok key =>
      change K.Rel (if key ∈ keys then _ else _) (if key ∈ keys then _ else _)
      split
      · exact K.map (fun value : Option Datum => value.toList.map (key, ·)) h
      · exact K.refl _

/-- A child that is entered hands the relation on to its element. -/
theorem rel_of_enters {e c c' : Element} {role role' : Role} {before after : List Element}
    (hchildren : e.children = before ++ c :: after) (henters : Enters e role c role')
    (h : K.Rel (c.outcome role') (c'.outcome role')) :
    K.Rel (e.outcome role)
      (({ e with children := before ++ c' :: after } : Element).outcome role) := by
  let e' : Element := { e with children := before ++ c' :: after }
  -- The children around the one that differs are the same.
  have hmembers (keys : List String)
      (h : K.Rel (c.outcome (.member keys)) (c'.outcome (.member keys))) :
      K.Rel (decodeMembers keys e.children) (decodeMembers keys e'.children) := by
    rw [hchildren, decodeMembers_eq, decodeMembers_eq]
    exact rel_gather K h before after
  cases henters with
  | entry =>
    exact K.map (fun members => members.foldl (Field.assignTo [modelsField]) []) (hmembers _ h)
  | @object _ struct hdecoded hname htype hstruct =>
    have hform : e.form = .ok (.entity struct) := form_eq_ok_of_fits ⟨hname, htype, hstruct⟩
    have hform' : e'.form = .ok (.entity struct) := hform
    have hdecode : K.Rel e.decode e'.decode := by
      rw [decode_of_entity hform, decode_of_entity hform']
      apply K.bind (hmembers _ h)
      intro members seen seen' hseen
      exact K.pure _ (K.seen_append hseen (K.seen_refl e.sighting))
    exact rel_outcome K hdecoded.ne_entry rfl hdecode
  | list hdecoded hname htype =>
    have hform : e.form = .ok .list := form_eq_ok_of_fits ⟨hname, htype⟩
    have hform' : e'.form = .ok .list := hform
    have hitems : K.Rel (decodeItems e.children) (decodeItems e'.children) := by
      rw [hchildren, decodeItems_eq, decodeItems_eq]
      exact rel_gather K h before after
    have hdecode : K.Rel e.decode e'.decode := by
      rw [decode_of_list hform, decode_of_list hform']
      exact K.map (fun items => some (Datum.list items)) hitems
    exact rel_outcome K hdecoded.ne_entry rfl hdecode

end

variable {Change : Role → Element → Element → Prop} {R : Element → Element → Prop}

/-- If each change relates the outcomes of the element that is changed, then revisions relate those
of the element that is revised, however deep the changes are. -/
theorem Revised.rel_outcome (K : Congruence)
    (hchange : ∀ {role e e'}, Change role e e' → K.Rel (e.outcome role) (e'.outcome role))
    {role : Role} {e e' : Element} (h : Revised Change role e e') :
    K.Rel (e.outcome role) (e'.outcome role) := by
  induction h with
  | refl => exact K.refl _
  | change h => exact hchange h
  | child hchildren henters _ ih => exact rel_of_enters K hchildren henters ih
  | trans _ _ ih ih' => exact K.trans ih ih'

/-- Where changes of the entry are changes of its children, so are its revisions. -/
theorem Revised.exists_children
    (hshell : ∀ {e e'}, Change .entry e e' → ∃ children, e' = { e with children := children })
    {role : Role} {e e' : Element} (h : Revised Change role e e') (hrole : role = .entry) :
    ∃ children, e' = { e with children := children } := by
  induction h with
  | refl role e => exact ⟨e.children, by cases e; rfl⟩
  | change hchange =>
    subst hrole
    exact hshell hchange
  | child => exact ⟨_, rfl⟩
  | trans _ _ ih ih' =>
    obtain ⟨children, rfl⟩ := ih hrole
    obtain ⟨children', rfl⟩ := ih' hrole
    exact ⟨children', rfl⟩

/-- Changes that bring no entries with them bring none into an element where they are made. -/
theorem Revised.noEntry
    (hshell : ∀ {e e'}, Change .entry e e' → ∃ children, e' = { e with children := children })
    (hchange : ∀ {role e e'}, Change role e e' → e.NoEntry → e'.NoEntry)
    {role : Role} {e e' : Element} (h : Revised Change role e e')
    (hvalue : role = .entry → e.name = "value") (hentry : e.NoEntry) : e'.NoEntry := by
  induction h with
  | refl => exact hentry
  | change h => exact hchange h hentry
  | @child role role' e c c' before after hchildren henters hrevised ih =>
    -- An element that is entered is a value, so it places no entries itself.
    have hdata : e.name ≠ "data" := by
      have hval : e.name = "value" := by
        cases henters with
        | entry => exact hvalue rfl
        | object _ hname => exact hname
        | list _ hname => exact hname
      rw [hval]
      decide
    have hrole : role' ≠ .entry := by
      cases henters <;> exact fun h => Role.noConfusion h
    have hall := (noEntry_iff hdata).mp hentry
    rw [hchildren, List.forall_mem_append, List.forall_mem_cons] at hall
    obtain ⟨hbefore, hc, hafter⟩ := hall
    have hc' : c'.NoEntry := ih (fun h => absurd h hrole) hc
    have hdata' : ({ e with children := before ++ c' :: after } : Element).name ≠ "data" := hdata
    rw [noEntry_iff hdata', List.forall_mem_append, List.forall_mem_cons]
    exact ⟨hbefore, hc', hafter⟩
  | trans hfirst _ ih ih' =>
    have hmiddle := ih hvalue hentry
    refine ih' (fun hrole => ?_) hmiddle
    obtain ⟨children, rfl⟩ := hfirst.exists_children hshell hrole
    exact hvalue hrole

theorem DifferAtEntry.name_eq {e e' : Element} (h : DifferAtEntry R e e') : e'.name = e.name := by
  cases h <;> rfl

/-- The entries of an element, those in one of its children apart from the others. -/
theorem entries_split {e c : Element} {before after : List Element}
    (hchildren : e.children = before ++ c :: after) :
    e.entries =
      (if e.name = "data" then e.children.filter (·.name = "value") else []) ++
        (entriesOf before ++ (c.entries ++ entriesOf after)) := by
  rw [entries_eq, hchildren, entriesOf_eq, entriesOf_eq, entriesOf_eq, List.flatMap_append,
    List.flatMap_cons]

theorem DifferAtEntry.entries_ne_nil {e e' : Element} (h : DifferAtEntry R e e') :
    e.entries ≠ [] := by
  induction h with
  | entry hname hvalue hchildren =>
    rw [entries_split hchildren, if_pos hname, hchildren]
    simp [hvalue]
  | child hchildren _ ih =>
    rw [entries_split hchildren]
    simp [ih]

/-- In a tree with one entry it is the entries that differ. -/
theorem DifferAtEntry.exists_entries
    (hR : ∀ {c c'}, R c c' → c.name = "value" → c.NoEntry → c'.NoEntry ∧ c'.name = "value")
    {e e' : Element} (h : DifferAtEntry R e e') (hone : e.entries.length = 1) :
    ∃ c c', R c c' ∧ e.entries = [c] ∧ e'.entries = [c'] := by
  induction h with
  | @entry e c c' before after hname hvalue hchildren hrel =>
    have hsplit := entries_split hchildren
    rw [if_pos hname, hchildren, List.filter_append, List.filter_cons,
      if_pos (by simpa using hvalue)] at hsplit
    -- There is one entry in all, so there is none beside this one, below it or elsewhere.
    have hlength := congrArg List.length hsplit
    simp only [List.length_append, List.length_cons, hone] at hlength
    have hbefore : before.filter (·.name = "value") = [] :=
      List.length_eq_zero_iff.mp (by omega)
    have hafter : after.filter (·.name = "value") = [] :=
      List.length_eq_zero_iff.mp (by omega)
    have hbefore' : entriesOf before = [] := List.length_eq_zero_iff.mp (by omega)
    have hafter' : entriesOf after = [] := List.length_eq_zero_iff.mp (by omega)
    have hnone : c.entries = [] := List.length_eq_zero_iff.mp (by omega)
    obtain ⟨hnone', hvalue'⟩ := hR hrel hvalue hnone
    refine ⟨c, c', hrel, ?_, ?_⟩
    · rw [hsplit, hbefore, hafter, hbefore', hafter', hnone]
      rfl
    · rw [entries_split rfl, if_pos hname, List.filter_append, List.filter_cons,
        if_pos (by simpa using hvalue'), hbefore, hafter, hbefore', hafter', hnone']
      rfl
  | @child e c c' before after hchildren hdiffer ih =>
    have hsplit := entries_split hchildren
    have hlength := congrArg List.length hsplit
    simp only [List.length_append, hone] at hlength
    -- The one entry stands below the child that differs.
    have hpos : 0 < c.entries.length := List.length_pos_iff.mpr hdiffer.entries_ne_nil
    obtain ⟨x, x', hrel, hx, hx'⟩ := ih (by omega)
    have hplaced : (if e.name = "data" then e.children.filter (·.name = "value") else []) = [] :=
      List.length_eq_zero_iff.mp (by omega)
    have hbefore : entriesOf before = [] := List.length_eq_zero_iff.mp (by omega)
    have hafter : entriesOf after = [] := List.length_eq_zero_iff.mp (by omega)
    refine ⟨x, x', hrel, ?_, ?_⟩
    · rw [hsplit, hplaced, hbefore, hafter, hx]
      rfl
    · -- The child keeps its name, so the element still places no entries itself.
      have hplaced' : (if e.name = "data" then
          (before ++ c' :: after).filter (·.name = "value") else []) = [] := by
        by_cases hname : e.name = "data"
        · rw [if_pos hname, List.filter_eq_nil_iff] at hplaced ⊢
          rw [hchildren] at hplaced
          simpa only [List.forall_mem_append, List.forall_mem_cons, hdiffer.name_eq]
            using hplaced
        · rw [if_neg hname]
      rw [entries_split rfl, hplaced', hbefore, hafter, hx']
      rfl

/-- If the entry of a tree with one entry is revised, then the tree still has one entry, which is
the old one but for its children. -/
theorem Revised.exists_entries
    (hshell : ∀ {e e'}, Change .entry e e' → ∃ children, e' = { e with children := children })
    (hchange : ∀ {role e e'}, Change role e e' → e.NoEntry → e'.NoEntry) {root root' : Element}
    (h : DifferAtEntry (Revised Change .entry) root root') (hone : root.entries.length = 1) :
    ∃ entry children, root.entries = [entry] ∧
      root'.entries = [{ entry with children := children }] ∧
      Revised Change .entry entry { entry with children := children } := by
  have hkept : ∀ {c c' : Element}, Revised Change .entry c c' → c.name = "value" → c.NoEntry →
      c'.NoEntry ∧ c'.name = "value" := by
    intro c c' hrevised hvalue hnone
    have hnone' : c'.NoEntry := hrevised.noEntry hshell hchange (fun _ => hvalue) hnone
    obtain ⟨children, rfl⟩ := hrevised.exists_children hshell rfl
    exact ⟨hnone', hvalue⟩
  obtain ⟨entry, entry', hrevised, hentries, hentries'⟩ := h.exists_entries hkept hone
  obtain ⟨children, rfl⟩ := hrevised.exists_children hshell rfl
  exact ⟨entry, children, hentries, hentries', hrevised⟩

end Element
end SchemaMigration
