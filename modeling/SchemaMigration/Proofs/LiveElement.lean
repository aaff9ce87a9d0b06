import SchemaMigration.Proofs.ElementReading

/-!
The elements that the reading of a document looks at, and the attributes that it needs of them.
Which attributes these are depends on how an element is reached: what stands under an unknown key,
in an object of an unknown structure, or in an element that is neither value nor link, is not
looked at.
-/

namespace SchemaMigration

/-- How the reading reaches an element: as the entry, as a member of an object of which some keys
are wanted, or as an item of a list. -/
inductive Role where
  | entry
  | member (keys : List String)
  | item
  deriving DecidableEq, Repr

def Role.Wants : Role → Element → Prop
  | entry, _ => False
  | member keys, e => ∃ key ∈ keys, e.attr? "key" = some key
  | item, _ => True

namespace Element

def Decoded (e : Element) (role : Role) : Prop :=
  (e.name = "value" ∨ e.name = "link") ∧ role.Wants e

/-- The children that are looked at: all members of the entry and of a decoded object of a known
structure, and the values and links in a decoded list. -/
inductive Enters : Element → Role → Element → Role → Prop
  | entry (e c : Element) : Enters e .entry c (.member [modelsField.key])
  | object {e : Element} {role : Role} {struct : Struct} (hdecoded : e.Decoded role)
      (hname : e.name = "value") (htype : e.attr? "type" = some "object")
      (hstruct : e.attr? "struct-name" = some struct.name) (c : Element) :
      Enters e role c (.member struct.keys)
  | list {e c : Element} {role : Role} (hdecoded : e.Decoded role) (hname : e.name = "value")
      (htype : e.attr? "type" = some "list") (hc : c.name = "value" ∨ c.name = "link") :
      Enters e role c .item

inductive Live : Element → Role → List Nat → Element → Role → Prop
  | here (e : Element) (role : Role) : Live e role [] e role
  | child {e c n : Element} {role role' role'' : Role} {i : Nat} {p : List Nat}
      (hc : e.children[i]? = some c) (henters : Enters e role c role')
      (hlive : Live c role' p n role'') : Live e role (i :: p) n role''

/-- The attributes that an element needs: a key as a member, a type as a decoded value, and the name
of its structure as a decoded object. -/
inductive Needs (e : Element) : Role → String → Prop
  | key (keys : List String) : Needs e (.member keys) "key"
  | type {role : Role} (hdecoded : e.Decoded role) (hname : e.name = "value") :
      Needs e role "type"
  | structName {role : Role} (hdecoded : e.Decoded role) (hname : e.name = "value")
      (htype : e.attr? "type" = some "object") : Needs e role "struct-name"

def Lacks (e : Element) (role : Role) (p : List Nat) (n : Element) (a : String) : Prop :=
  ∃ role', Live e role p n role' ∧ n.Needs role' a ∧ n.attr? a = none

def LacksAmong (roles : Element → Role → Prop) (k : Nat) (es : List Element) (p : List Nat)
    (n : Element) (a : String) : Prop :=
  ∃ i q c role, p = (k + i) :: q ∧ es[i]? = some c ∧ roles c role ∧ c.Lacks role q n a

/-- A property of all elements holds if it goes from the children of an element to the element. -/
theorem induction {P : Element → Prop} (h : ∀ e, (∀ c ∈ e.children, P c) → P e) : ∀ e, P e
  | ⟨name, attrs, text, line, children⟩ => h _ fun c hc =>
    have : sizeOf c < sizeOf children := List.sizeOf_lt_of_mem hc
    induction h c
termination_by e => sizeOf e
decreasing_by simp; omega

/-- An element lacks an attribute itself, or one of its children lacks one in a role that it
enters. -/
theorem lacks_iff {e : Element} {role : Role} {p : List Nat} {n : Element} {a : String} :
    e.Lacks role p n a ↔
      (p = [] ∧ n = e ∧ e.Needs role a ∧ e.attr? a = none) ∨
        LacksAmong (e.Enters role) 0 e.children p n a := by
  constructor
  · rintro ⟨role', hlive, hneeds, hnone⟩
    cases hlive with
    | here => exact Or.inl ⟨rfl, rfl, hneeds, hnone⟩
    | child hc henters hlive =>
      exact Or.inr ⟨_, _, _, _, by rw [Nat.zero_add], hc, henters, _, hlive, hneeds, hnone⟩
  · rintro (⟨rfl, rfl, hneeds, hnone⟩ | ⟨i, q, c, role', rfl, hc, henters, role'', hlive, hrest⟩)
    · exact ⟨role, .here n role, hneeds, hnone⟩
    · rw [Nat.zero_add]
      exact ⟨role'', .child hc henters hlive, hrest⟩

theorem not_lacksAmong_nil {roles : Element → Role → Prop} {k : Nat} {p : List Nat} {n : Element}
    {a : String} : ¬LacksAmong roles k [] p n a := by
  rintro ⟨i, _, c, _, _, hc, _⟩
  cases hc

/-- Among several elements, the first one lacks an attribute, or one of the others does. -/
theorem lacksAmong_cons {roles : Element → Role → Prop} {k : Nat} {c : Element}
    {es : List Element} {p : List Nat} {n : Element} {a : String} :
    LacksAmong roles k (c :: es) p n a ↔
      (∃ q role, p = k :: q ∧ roles c role ∧ c.Lacks role q n a) ∨
        LacksAmong roles (k + 1) es p n a := by
  constructor
  · rintro ⟨i, q, c', role, hp, hc, hrest⟩
    cases i with
    | zero =>
      cases hc
      exact Or.inl ⟨q, role, hp, hrest⟩
    | succ i =>
      refine Or.inr ⟨i, q, c', role, ?_, hc, hrest⟩
      rw [hp, Nat.add_right_comm, Nat.add_assoc]
  · rintro (⟨q, role, hp, hrest⟩ | ⟨i, q, c', role, hp, hc, hrest⟩)
    · exact ⟨0, q, c, role, hp, rfl, hrest⟩
    · refine ⟨i + 1, q, c', role, ?_, hc, hrest⟩
      rw [hp, Nat.add_right_comm, Nat.add_assoc]

theorem enters_entry_iff {e c : Element} {role : Role} :
    Enters e .entry c role ↔ role = .member [modelsField.key] := by
  constructor
  · intro h
    cases h with
    | entry => rfl
    | object hdecoded => exact hdecoded.2.elim
    | list hdecoded => exact hdecoded.2.elim
  · rintro rfl
    exact .entry e c

theorem not_needs_entry {e : Element} {a : String} : ¬e.Needs .entry a := by
  intro h
  cases h with
  | type hdecoded => exact hdecoded.2
  | structName hdecoded => exact hdecoded.2

/-- A wanted element has its key, if it is a member. So it can lack its type, or, if it has one, the
name of its structure. -/
theorem lacks_here_iff {e : Element} {role : Role} (hwants : role.Wants e) {a : String} :
    e.Needs role a ∧ e.attr? a = none ↔
      e.name = "value" ∧ (a = "type" ∧ e.attr? "type" = none ∨
        a = "struct-name" ∧ e.attr? "type" = some "object" ∧ e.attr? "struct-name" = none) := by
  constructor
  · rintro ⟨hneeds, hnone⟩
    cases hneeds with
    | key keys =>
      obtain ⟨key, _, hkey⟩ := hwants
      rw [hkey] at hnone
      cases hnone
    | type _ hname => exact ⟨hname, Or.inl ⟨rfl, hnone⟩⟩
    | structName _ hname htype => exact ⟨hname, Or.inr ⟨rfl, htype, hnone⟩⟩
  · rintro ⟨hname, ⟨rfl, hnone⟩ | ⟨rfl, htype, hnone⟩⟩
    · exact ⟨.type ⟨Or.inl hname, hwants⟩ hname, hnone⟩
    · exact ⟨.structName ⟨Or.inl hname, hwants⟩ hname htype, hnone⟩

/-- No element lacks more than one attribute: without its key a member is not looked into, and
without its type a value is no object. -/
theorem missing_unique {e : Element} {role : Role} {a b : String}
    (ha : e.Needs role a ∧ e.attr? a = none) (hb : e.Needs role b ∧ e.attr? b = none) :
    a = b := by
  by_cases hwants : role.Wants e
  · rw [lacks_here_iff hwants] at ha hb
    obtain ⟨_, ⟨rfl, hnone⟩ | ⟨rfl, htype, _⟩⟩ := ha
    · obtain ⟨_, ⟨rfl, _⟩ | ⟨_, htype, _⟩⟩ := hb
      · rfl
      · rw [hnone] at htype
        cases htype
    · obtain ⟨_, ⟨_, hnone⟩ | ⟨rfl, _⟩⟩ := hb
      · rw [hnone] at htype
        cases htype
      · rfl
  · have hkey : ∀ {c : String}, e.Needs role c → c = "key" := by
      intro c hneeds
      cases hneeds with
      | key => rfl
      | type hdecoded => exact absurd hdecoded.2 hwants
      | structName hdecoded => exact absurd hdecoded.2 hwants
    rw [hkey ha.1, hkey hb.1]

end Element
end SchemaMigration
