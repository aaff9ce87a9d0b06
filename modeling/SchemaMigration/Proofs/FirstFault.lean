import SchemaMigration.Proofs.LiveElement
import SchemaMigration.Proofs.Outcome

/-!
When a document is not read, and the fault that is reported then. Positions are compared as lists:
an element comes before those in it, and these before those in the children that follow.
-/

namespace SchemaMigration

abbrev Faults := List Nat → Element → String → Prop

namespace Faults

variable {α β : Type} {S T : Faults}

def First (S : Faults) (p : List Nat) (n : Element) (a : String) : Prop :=
  S p n a ∧ ∀ q m b, S q m b → (q = p ∧ m = n ∧ b = a) ∨ p < q

/-- A computation reports faults if it succeeds in their absence, and fails with the first one
otherwise. -/
def Reported (S : Faults) (result : Except DocumentError α) : Prop :=
  match result with
  | .ok _ => ∀ p n a, ¬S p n a
  | .error err => ∃ p n a, S.First p n a ∧ err = .missingAttribute n.name a n.line

/-- There is at most one first fault: of two, each would come before the other. -/
theorem First.unique {p q : List Nat} {n m : Element} {a b : String} (h₁ : S.First p n a)
    (h₂ : S.First q m b) : p = q ∧ n = m ∧ a = b := by
  obtain h | hpq := h₂.2 p n a h₁.1
  · exact h
  · obtain ⟨rfl, rfl, rfl⟩ | hqp := h₁.2 q m b h₂.1
    · exact ⟨rfl, rfl, rfl⟩
    · exact absurd hqp (List.lt_asymm hpq)

theorem Reported.congr {result : Except DocumentError α} (h : S.Reported result)
    (hST : ∀ p n a, S p n a ↔ T p n a) : T.Reported result := by
  have heq : S = T := by
    funext p n a
    exact propext (hST p n a)
  exact heq ▸ h

/-- Two computations one after the other report the faults of both, if those of the first come
first. -/
theorem Reported.bind {x : Except DocumentError α} {f : α → Except DocumentError β}
    (hx : S.Reported x) (hf : ∀ v, x = .ok v → T.Reported (f v))
    (hlt : ∀ p n a q m b, S p n a → T q m b → p < q) :
    Reported (fun p n a => S p n a ∨ T p n a) (x >>= f) := by
  cases x with
  | error err =>
    -- The second computation does not run, and its faults all come later than this one.
    obtain ⟨p, n, a, ⟨hS, hfirst⟩, herr⟩ := hx
    refine ⟨p, n, a, ⟨Or.inl hS, ?_⟩, herr⟩
    rintro q m b (hS' | hT)
    · exact hfirst q m b hS'
    · exact Or.inr (hlt p n a q m b hS hT)
  | ok v =>
    have hnone : ∀ p n a, ¬S p n a := hx
    refine (hf v rfl).congr fun p n a => ?_
    exact (or_iff_right (hnone p n a)).symm

/-- What is done with a result adds no fault. -/
theorem Reported.map {x : Except DocumentError α} (hx : S.Reported x) (f : α → β) :
    S.Reported (x >>= fun v => .ok (f v)) := by
  cases x with
  | error err => exact hx
  | ok v => exact hx

/-- The error that is reported is that of the first fault. -/
theorem Reported.error_iff {result : Except DocumentError α} (h : S.Reported result)
    (err : DocumentError) :
    result = .error err ↔
      ∃ p n a, S.First p n a ∧ err = .missingAttribute n.name a n.line := by
  cases result with
  | error err' =>
    obtain ⟨p, n, a, hfirst, rfl⟩ := h
    constructor
    · intro herr
      cases herr
      exact ⟨p, n, a, hfirst, rfl⟩
    · rintro ⟨q, m, b, hfirst', rfl⟩
      obtain ⟨_, rfl, rfl⟩ := hfirst.unique hfirst'
      rfl
  | ok v =>
    constructor
    · intro herr
      cases herr
    · rintro ⟨p, n, a, hfirst, _⟩
      exact absurd hfirst.1 (h p n a)

/-- A computation that reports faults succeeds if there are none. -/
theorem Reported.ok_iff {result : Except DocumentError α} (h : S.Reported result) :
    (∃ v, result = .ok v) ↔ ∀ p n a, ¬S p n a := by
  cases result with
  | error err =>
    obtain ⟨p, n, a, hfirst, _⟩ := h
    constructor
    · rintro ⟨v, hv⟩
      cases hv
    · intro hnone
      exact absurd hfirst.1 (hnone p n a)
  | ok v => exact ⟨fun _ => h, fun _ => ⟨v, rfl⟩⟩

end Faults

namespace Element

open Faults

variable {α β : Type}

/-- The faults of one element in some roles, and then those of the elements that follow. -/
theorem reported_cons {roles : Element → Role → Prop} {k : Nat} {c : Element} {es : List Element}
    {x : Except DocumentError α} {f : α → Except DocumentError β}
    (hx : Reported (fun p n a => ∃ role, roles c role ∧ c.Lacks role p n a) x)
    (hf : ∀ v, x = .ok v → Reported (LacksAmong roles (k + 1) es) (f v)) :
    Reported (LacksAmong roles k (c :: es)) (x >>= f) := by
  -- In front of the positions below the element stands its own index among the elements.
  have hshift :
      Reported (fun p n a => ∃ q role, p = k :: q ∧ roles c role ∧ c.Lacks role q n a) x := by
    cases x with
    | error err =>
      obtain ⟨p, n, a, ⟨⟨role, hlacks⟩, hfirst⟩, herr⟩ := hx
      refine ⟨k :: p, n, a, ⟨⟨p, role, rfl, hlacks⟩, ?_⟩, herr⟩
      rintro _ m b ⟨q, role', rfl, hlacks'⟩
      obtain ⟨rfl, hrest⟩ | hlt := hfirst q m b ⟨role', hlacks'⟩
      · exact Or.inl ⟨rfl, hrest⟩
      · exact Or.inr (List.cons_lt_cons_iff.mpr (Or.inr ⟨rfl, hlt⟩))
    | ok v =>
      rintro _ n a ⟨q, role, rfl, hlacks⟩
      exact hx q n a ⟨role, hlacks⟩
  refine (hshift.bind hf ?_).congr fun p n a => lacksAmong_cons.symm
  rintro _ n a _ m b ⟨q, role, rfl, _⟩ ⟨i, q', c', role', rfl, _⟩
  exact List.cons_lt_cons_iff.mpr (Or.inl (by omega))

/-- The form of a wanted element is found unless the element itself lacks an attribute. -/
theorem reported_form {e : Element} {role : Role} (hwants : role.Wants e) :
    Reported (fun p n a => p = [] ∧ n = e ∧ e.Needs role a ∧ e.attr? a = none) e.form := by
  cases hform : e.form with
  | error err =>
    obtain ⟨a, rfl, hname, hmissing⟩ := missing_of_form_eq_error hform
    obtain ⟨hneeds, hnone⟩ := (lacks_here_iff hwants).mpr ⟨hname, hmissing⟩
    refine ⟨[], e, a, ⟨⟨rfl, rfl, hneeds, hnone⟩, ?_⟩, rfl⟩
    rintro _ _ b ⟨rfl, rfl, hneeds', hnone'⟩
    exact Or.inl ⟨rfl, rfl, missing_unique ⟨hneeds', hnone'⟩ ⟨hneeds, hnone⟩⟩
  | ok f =>
    rintro p n a ⟨-, -, hneeds, hnone⟩
    have hfits := fits_of_form_eq_ok hform
    obtain ⟨hname, ⟨-, htype⟩ | ⟨-, htype, hstruct⟩⟩ := (lacks_here_iff hwants).mp ⟨hneeds, hnone⟩
    · cases f <;> simp [Fits, hname, htype] at hfits
    · cases f <;> simp [Fits, hname, htype, hstruct] at hfits

/-- Which children of a wanted element are looked at, by its form. -/
theorem enters_iff_of_form {e c : Element} {role role' : Role} {f : Form}
    (hwants : role.Wants e) (hform : e.form = .ok f) :
    Enters e role c role' ↔
      match f with
      | .list => (c.name = "value" ∨ c.name = "link") ∧ role' = .item
      | .entity struct => role' = .member struct.keys
      | _ => False := by
  constructor
  · intro h
    cases h with
    | entry => exact hwants.elim
    | @object _ struct _ hname htype hstruct =>
      have hobject : e.form = .ok (.entity struct) :=
        form_eq_ok_of_fits ⟨hname, htype, hstruct⟩
      -- An element has one form, so this is the structure of the form.
      cases hform.symm.trans hobject
      rfl
    | list _ hname htype hc =>
      have hlist : e.form = .ok .list := form_eq_ok_of_fits ⟨hname, htype⟩
      cases hform.symm.trans hlist
      exact ⟨hc, rfl⟩
  · intro h
    have hfits := fits_of_form_eq_ok hform
    cases f with
    | list =>
      obtain ⟨hc, rfl⟩ := h
      exact .list ⟨Or.inl hfits.1, hwants⟩ hfits.1 hfits.2 hc
    | entity struct =>
      obtain rfl := h
      exact .object ⟨Or.inl hfits.1, hwants⟩ hfits.1 hfits.2.1 hfits.2.2 c
    | _ => exact h.elim

/-- A member that is not wanted can lack its key only. -/
theorem lacks_iff_of_not_wants {e : Element} {keys : List String}
    (hwants : ¬(Role.member keys).Wants e) {p : List Nat} {n : Element} {a : String} :
    e.Lacks (.member keys) p n a ↔ p = [] ∧ n = e ∧ a = "key" ∧ e.attr? "key" = none := by
  rw [lacks_iff]
  constructor
  · rintro (⟨rfl, rfl, hneeds, hnone⟩ | ⟨i, q, c, role', _, _, henters, _⟩)
    · cases hneeds with
      | key => exact ⟨rfl, rfl, rfl, hnone⟩
      | type hdecoded => exact absurd hdecoded.2 hwants
      | structName hdecoded => exact absurd hdecoded.2 hwants
    · cases henters with
      | object hdecoded => exact absurd hdecoded.2 hwants
      | list hdecoded => exact absurd hdecoded.2 hwants
  · rintro ⟨rfl, rfl, rfl, hnone⟩
    exact Or.inl ⟨rfl, rfl, .key keys, hnone⟩

/-- So the look-up of its key reports all of its faults. -/
theorem reported_attr_key {e : Element} {keys : List String}
    (hwants : ¬(Role.member keys).Wants e) :
    Reported (e.Lacks (.member keys)) (e.attr "key") := by
  cases hkey : e.attr "key" with
  | error err =>
    obtain ⟨hnone, rfl⟩ := attr_eq_error_iff.mp hkey
    have hlacks := (lacks_iff_of_not_wants hwants).mpr ⟨rfl, rfl, rfl, hnone⟩
    refine ⟨[], e, "key", ⟨hlacks, ?_⟩, rfl⟩
    intro q m b hlacks'
    obtain ⟨rfl, rfl, rfl, _⟩ := (lacks_iff_of_not_wants hwants).mp hlacks'
    exact Or.inl ⟨rfl, rfl, rfl⟩
  | ok key =>
    intro p n a hlacks
    obtain ⟨_, _, _, hnone⟩ := (lacks_iff_of_not_wants hwants).mp hlacks
    rw [attr_eq_ok_iff, hnone] at hkey
    cases hkey

/-- What is neither a value nor a link is skipped, and no attribute of it is asked for. -/
theorem decode_of_skipped {e : Element} (h : ¬(e.name = "value" ∨ e.name = "link")) :
    e.decode = .ok (none, []) := by
  obtain ⟨hvalue, hlink⟩ := not_or.mp h
  rw [decode_eq, form, if_neg hvalue, if_neg hlink]
  rfl

theorem reported_decodeItems {roles : Element → Role → Prop}
    (hroles : ∀ c role, roles c role ↔ (c.name = "value" ∨ c.name = "link") ∧ role = .item)
    {es : List Element} (hdecode : ∀ c ∈ es, Reported (c.Lacks .item) c.decode) (k : Nat) :
    Reported (LacksAmong roles k es) (decodeItems es) := by
  induction es generalizing k with
  | nil => exact fun p n a => not_lacksAmong_nil
  | cons c es ih =>
    have htail := ih (fun c' hc' => hdecode c' (List.mem_cons_of_mem c hc')) (k + 1)
    -- An item of another name is passed over with all that is in it.
    have hhead : Reported (fun p n a => ∃ role, roles c role ∧ c.Lacks role p n a) c.decode := by
      by_cases hc : c.name = "value" ∨ c.name = "link"
      · refine (hdecode c List.mem_cons_self).congr fun p n a => ?_
        simp [hroles, hc]
      · rw [decode_of_skipped hc]
        rintro p n a ⟨role, hrole, _⟩
        exact hc ((hroles c role).mp hrole).1
    rw [decodeItems]
    exact reported_cons hhead fun _ _ => htail.map _

/-- The members of an object report the faults of their keys and of those that are wanted. -/
theorem reported_decodeMembers {keys : List String} {roles : Element → Role → Prop}
    (hroles : ∀ c role, roles c role ↔ role = .member keys) {es : List Element}
    (hdecode : ∀ c ∈ es, (Role.member keys).Wants c → Reported (c.Lacks (.member keys)) c.decode)
    (k : Nat) : Reported (LacksAmong roles k es) (decodeMembers keys es) := by
  induction es generalizing k with
  | nil => exact fun p n a => not_lacksAmong_nil
  | cons c es ih =>
    have htail := ih (fun c' hc' => hdecode c' (List.mem_cons_of_mem c hc')) (k + 1)
    have hrole : ∀ p n a, c.Lacks (.member keys) p n a ↔
        ∃ role, roles c role ∧ c.Lacks role p n a := by
      simp [hroles]
    rw [decodeMembers]
    by_cases hwants : (Role.member keys).Wants c
    · obtain ⟨key, hmem, hkey⟩ := id hwants
      rw [attr_eq_ok_iff.mpr hkey]
      change Reported _ (if key ∈ keys then _ else _)
      rw [if_pos hmem]
      refine reported_cons ((hdecode c List.mem_cons_self hwants).congr hrole) ?_
      exact fun _ _ => htail.map _
    -- Of a member that is not wanted only the key is read.
    · refine reported_cons ((reported_attr_key hwants).congr hrole) fun key hkey => ?_
      have hmem : key ∉ keys := fun hmem => hwants ⟨key, hmem, attr_eq_ok_iff.mp hkey⟩
      rw [if_neg hmem]
      exact htail

/-- A wanted element is read unless something that is looked at in it lacks an attribute. -/
theorem reported_decode (e : Element) :
    ∀ role : Role, role.Wants e → Reported (e.Lacks role) e.decode := by
  induction e using Element.induction with
  | h e ih =>
    intro role hwants
    rw [decode_eq]
    -- First come the attributes of the element itself, then, if its form is found, its children.
    refine ((reported_form hwants).bind (T := LacksAmong (e.Enters role) 0 e.children) ?_ ?_).congr
      fun p n a => lacks_iff.symm
    · intro f hform
      have hroles (c : Element) (role' : Role) : Enters e role c role' ↔ _ :=
        enters_iff_of_form hwants hform
      cases f with
      | list =>
        exact (reported_decodeItems hroles (fun c hc => ih c hc .item trivial) 0).map _
      | entity struct =>
        exact (reported_decodeMembers hroles
          (fun c hc hwants' => ih c hc (.member struct.keys) hwants') 0).map _
      | _ =>
        rintro p n a ⟨i, q, c, role', _, _, henters, _⟩
        exact (hroles c role').mp henters
    · rintro _ n a _ m b ⟨rfl, _⟩ ⟨i, q, c, role', rfl, _⟩
      exact List.nil_lt_cons _ _

mutual

def nodes : Element → List Element
  | e@⟨_, _, _, _, children⟩ => e :: nodesOf children

def nodesOf : List Element → List Element
  | [] => []
  | e :: es => e.nodes ++ nodesOf es

end

/-- The elements named `value` in a tree whose parents are named `data`. -/
def placed (root : Element) : List Element :=
  (root.nodes.filter (·.name = "data")).flatMap fun parent =>
    parent.children.filter (·.name = "value")

theorem nodes_eq (e : Element) : e.nodes = e :: nodesOf e.children := by
  cases e with
  | mk name attrs text line children => rw [nodes]

theorem nodesOf_eq (es : List Element) : nodesOf es = es.flatMap nodes := by
  induction es with
  | nil => rfl
  | cons e es ih => rw [nodesOf, ih, List.flatMap_cons]

theorem entriesOf_eq (es : List Element) : entriesOf es = es.flatMap entries := by
  induction es with
  | nil => rfl
  | cons e es ih => rw [entriesOf, ih, List.flatMap_cons]

/-- The values placed in a tree are those of its root, if it is named `data`, and those placed in
its children. -/
theorem placed_eq (e : Element) :
    e.placed =
      (if e.name = "data" then e.children.filter (·.name = "value") else []) ++
        e.children.flatMap placed := by
  have hbelow : (e.children.flatMap nodes).filter (·.name = "data") =
      e.children.flatMap fun c => c.nodes.filter (·.name = "data") :=
    List.filter_flatMap
  rw [placed, nodes_eq, nodesOf_eq, List.filter_cons, hbelow]
  by_cases hname : e.name = "data"
  · rw [if_pos hname, if_pos (by simpa using hname), List.flatMap_cons, List.flatMap_assoc]
    rfl
  · rw [if_neg hname, if_neg (by simpa using hname), List.flatMap_assoc]
    rfl

/-- The values placed in a tree are its entries. -/
theorem placed_eq_entries (e : Element) : e.placed = e.entries := by
  induction e using Element.induction with
  | h e ih =>
    have hchildren : e.children.flatMap placed = e.children.flatMap entries :=
      List.flatMap_congr ih
    rw [placed_eq, hchildren, ← entriesOf_eq, ← entries_eq]

end Element

namespace Document

open Element Faults

/-- The entry is read unless something that is looked at in it lacks an attribute. -/
theorem reported_ofEntry (entry : Element) :
    Reported (entry.Lacks .entry) (ofEntry entry) := by
  have hmembers : Reported (LacksAmong (entry.Enters .entry) 0 entry.children)
      (decodeMembers [modelsField.key] entry.children) :=
    reported_decodeMembers (fun _ _ => enters_entry_iff)
      (fun c _ hwants => reported_decode c _ hwants) 0
  have hlacks : ∀ p n a, LacksAmong (entry.Enters .entry) 0 entry.children p n a ↔
      entry.Lacks .entry p n a := by
    intro p n a
    rw [lacks_iff]
    constructor
    · exact Or.inr
    · rintro (⟨_, _, hneeds, _⟩ | h)
      · exact absurd hneeds not_needs_entry
      · exact h
  exact (hmembers.map _).congr hlacks

/-- A tree is read if exactly one element named `value` has a parent named `data`, and nothing that
is looked at in that one lacks an attribute. The error of a tree in which not exactly one such
element stands counts them; otherwise it names the first attribute that is missing, in document
order, with the name and the line of its element. -/
theorem read_outcome (root : Element) :
    (root.placed.length ≠ 1 →
      read root = .error (.entryCount root.placed.length root.dataLine?)) ∧
    ∀ entry, root.placed = [entry] →
      ((∃ d, read root = .ok d) ↔ ∀ p n a, ¬entry.Lacks .entry p n a) ∧
      ∀ err, read root = .error err ↔
        ∃ p n a, First (entry.Lacks .entry) p n a ∧ err = .missingAttribute n.name a n.line := by
  rw [placed_eq_entries]
  constructor
  · intro hlength
    rw [read]
    split
    case h_1 entry hentries => exact absurd (by rw [hentries]; rfl) hlength
    case h_2 => rfl
  · intro entry hentries
    have hread : read root = ofEntry entry := by
      rw [read, hentries]
    rw [hread]
    exact ⟨(reported_ofEntry entry).ok_iff, (reported_ofEntry entry).error_iff⟩

def untypedEntry : Element :=
  { name := "value"
    line := some 2
    children := [(list.setKey "physicalModels").addChildren [{ name := "value", line := some 4 }]] }

/-- A tree without entries is refused for that; in the tree with this one, the value at line 4 is
the first that lacks an attribute. -/
theorem read_outcome_untypedEntry :
    (data []).placed.length ≠ 1 ∧ read (data []) = .error (.entryCount 0 none) ∧
      (data [untypedEntry]).placed = [untypedEntry] ∧
      ∃ p n a, First (untypedEntry.Lacks .entry) p n a ∧
        DocumentError.missingAttribute "value" "type" (some 4) =
          .missingAttribute n.name a n.line := by
  have hnone : (data []).placed.length ≠ 1 := by decide
  have hone : (data [untypedEntry]).placed = [untypedEntry] := rfl
  have hread : read (data [untypedEntry]) = .error (.missingAttribute "value" "type" (some 4)) :=
    rfl
  refine ⟨hnone, (read_outcome _).1 hnone, hone, ?_⟩
  exact (((read_outcome _).2 untypedEntry hone).2 _).mp hread

end Document
end SchemaMigration
