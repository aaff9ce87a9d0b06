import SchemaMigration.Proofs.Revision
import SchemaMigration.Proofs.SightingOrder

/-!
The objects that are seen while a tree is read: those that are decoded, at whatever position. They
are seen in the order in which their elements end.
-/

namespace SchemaMigration
namespace Element

def DecodedObject (e : Element) (role : Role) : Prop :=
  e.Decoded role ∧ e.name = "value" ∧ e.attr? "type" = some "object"

/-- At a position below an element in its role stands a decoded object. -/
def Holds (e : Element) (role : Role) (p : List Nat) (n : Element) : Prop :=
  ∃ role', Live e role p n role' ∧ n.DecodedObject role'

def Sees (e : Element) (role : Role) (x : String × IdOwner) : Prop :=
  ∃ p n, Holds e role p n ∧ x ∈ n.sighting

def DistinctIds (entry : Element) : Prop :=
  ∀ p q n m id, entry.Holds .entry p n → entry.Holds .entry q m →
    n.attr? "id" = some id → m.attr? "id" = some id → p = q

/-- An element is seen with its id, its structure and its line. -/
theorem mem_sighting_iff {e : Element} {id : String} {o : IdOwner} :
    (id, o) ∈ e.sighting ↔
      e.attr? "id" = some id ∧ o = ⟨(e.attr? "struct-name").getD "", e.line⟩ := by
  rw [sighting]
  cases e.attr? "id" with
  | none => simp
  | some id' => simp [eq_comm]

/-- An element holds itself, if it is a decoded object, and what the children that it enters
hold. -/
theorem holds_iff {e n : Element} {role : Role} {p : List Nat} :
    Holds e role p n ↔ (p = [] ∧ n = e ∧ e.DecodedObject role) ∨
      ∃ i q c role', p = i :: q ∧ e.children[i]? = some c ∧ Enters e role c role' ∧
        Holds c role' q n := by
  constructor
  · rintro ⟨role', hlive, hobject⟩
    cases hlive with
    | here => exact Or.inl ⟨rfl, rfl, hobject⟩
    | child hc henters hlive => exact Or.inr ⟨_, _, _, _, rfl, hc, henters, _, hlive, hobject⟩
  · rintro (⟨rfl, rfl, hobject⟩ | ⟨i, q, c, role', rfl, hc, henters, role'', hlive, hobject⟩)
    · exact ⟨role, .here n role, hobject⟩
    · exact ⟨role'', .child hc henters hlive, hobject⟩

/-- One position holds one object. -/
theorem Holds.unique {e n m : Element} {role : Role} {p : List Nat} (hn : Holds e role p n)
    (hm : Holds e role p m) : n = m := by
  have hlive {e n m : Element} {role role₁ role₂ role₃ : Role} {p : List Nat}
      (hn : Live e role p n role₁) : Live e role₂ p m role₃ → n = m := by
    induction hn generalizing role₂ with
    | here =>
      intro hm
      cases hm
      rfl
    | child hc _ _ ih =>
      intro hm
      cases hm with
      | child hc' _ hm =>
        rw [hc] at hc'
        cases hc'
        exact ih hm
  obtain ⟨_, hn, _⟩ := hn
  obtain ⟨_, hm, _⟩ := hm
  exact hlive hn hm

def HoldsAmong (role : Role) (k : Nat) (es : List Element) (p : List Nat) (n : Element) : Prop :=
  ∃ i q c, p = (k + i) :: q ∧ es[i]? = some c ∧ Holds c role q n

theorem not_holdsAmong_nil {role : Role} {k : Nat} {p : List Nat} {n : Element} :
    ¬HoldsAmong role k [] p n := by
  rintro ⟨i, _, c, _, hc, _⟩
  cases hc

theorem holdsAmong_cons {role : Role} {k : Nat} {c : Element} {es : List Element} {p : List Nat}
    {n : Element} :
    HoldsAmong role k (c :: es) p n ↔
      (∃ q, p = k :: q ∧ Holds c role q n) ∨ HoldsAmong role (k + 1) es p n := by
  constructor
  · rintro ⟨i, q, c', hp, hc, hholds⟩
    cases i with
    | zero =>
      cases hc
      exact Or.inl ⟨q, hp, hholds⟩
    | succ i =>
      refine Or.inr ⟨i, q, c', ?_, hc, hholds⟩
      rw [hp, Nat.add_right_comm, Nat.add_assoc]
  · rintro (⟨q, hp, hholds⟩ | ⟨i, q, c', hp, hc, hholds⟩)
    · exact ⟨0, q, c, hp, rfl, hholds⟩
    · refine ⟨i + 1, q, c', ?_, hc, hholds⟩
      rw [hp, Nat.add_right_comm, Nat.add_assoc]

/-- If the children are entered in one role, then below an element stand itself, as an object, and
what stands below its children. -/
theorem holds_iff_of_enters {e n : Element} {role : Role} {p : List Nat} (role' : Role)
    (henters : ∀ c q, Holds c role' q n → Enters e role c role')
    (honly : ∀ c r, Enters e role c r → r = role') :
    Holds e role p n ↔
      HoldsAmong role' 0 e.children p n ∨ (p = [] ∧ n = e ∧ e.DecodedObject role) := by
  rw [holds_iff, or_comm]
  apply or_congr_left
  constructor
  · rintro ⟨i, q, c, r, rfl, hc, hr, hholds⟩
    obtain rfl := honly c r hr
    exact ⟨i, q, c, by rw [Nat.zero_add], hc, hholds⟩
  · rintro ⟨i, q, c, rfl, hc, hholds⟩
    exact ⟨i, q, c, role', by rw [Nat.zero_add], hc, henters c q hholds, hholds⟩

/-- In an element that is not decoded nothing is seen. -/
theorem not_holds {e n : Element} {role : Role} {p : List Nat} (hrole : role ≠ .entry)
    (hdecoded : ¬e.Decoded role) : ¬Holds e role p n := by
  intro h
  obtain ⟨_, _, hdecoded', _⟩ | ⟨_, _, c, role', _, _, henters, _⟩ := holds_iff.mp h
  · exact hdecoded hdecoded'
  · cases henters with
    | entry => exact hrole rfl
    | object hdecoded' => exact hdecoded hdecoded'
    | list hdecoded' => exact hdecoded hdecoded'

theorem holds_entry_iff {e n : Element} {p : List Nat} :
    Holds e .entry p n ↔ HoldsAmong (.member [modelsField.key]) 0 e.children p n := by
  rw [holds_iff_of_enters _ (fun c _ _ => .entry e c) (fun c r => enters_entry_iff.mp),
    or_iff_left]
  rintro ⟨_, _, hdecoded, _⟩
  exact hdecoded.2

/-- What is seen in a decoded element by its form: in an object of a known structure what is seen in
its members, in a list what is seen in its items; and objects themselves are seen. -/
theorem holds_iff_of_form {e n : Element} {role : Role} {f : Form} {p : List Nat}
    (hdecoded : e.Decoded role) (hform : e.form = .ok f) :
    Holds e role p n ↔
      match f with
      | .list => HoldsAmong .item 0 e.children p n
      | .entity struct =>
        HoldsAmong (.member struct.keys) 0 e.children p n ∨ (p = [] ∧ n = e)
      | .unknown _ => p = [] ∧ n = e
      | _ => False := by
  have hfits := fits_of_form_eq_ok hform
  have henters (c : Element) (role' : Role) : Enters e role c role' ↔ _ :=
    enters_iff_of_form hdecoded.2 hform
  have hnot (type : String) (htype : e.attr? "type" = some type) (hne : type ≠ "object") :
      ¬e.DecodedObject role := by
    rintro ⟨_, _, htype'⟩
    rw [htype] at htype'
    cases htype'
    exact hne rfl
  cases f with
  | list =>
    rw [holds_iff_of_enters .item, or_iff_left]
    · exact fun h => hnot _ hfits.2 (by decide) h.2.2
    · intro c q hholds
      -- In an item that is passed over nothing would be seen.
      have hitem : c.Decoded .item := by
        by_contra hpassed
        exact not_holds (by simp) hpassed hholds
      exact (henters c .item).mpr ⟨hitem.1, rfl⟩
    · exact fun c r hr => ((henters c r).mp hr).2
  | entity struct =>
    have hobject : e.DecodedObject role := ⟨hdecoded, hfits.1, hfits.2.1⟩
    rw [holds_iff_of_enters (.member struct.keys) (fun c _ _ => (henters c _).mpr rfl)
      fun c r => (henters c r).mp, and_iff_left hobject]
  | unknown structName =>
    have hobject : e.DecodedObject role := ⟨hdecoded, hfits.1, hfits.2.1⟩
    rw [holds_iff, and_iff_left hobject, or_iff_left]
    rintro ⟨_, _, c, role', _, _, hrole', _⟩
    exact (henters c role').mp hrole'
  | scalar =>
    obtain ⟨_, type, htype, _, hne⟩ := hfits
    rw [holds_iff, iff_false, not_or]
    refine ⟨fun h => hnot type htype hne h.2.2, ?_⟩
    rintro ⟨_, _, c, role', _, _, hrole', _⟩
    exact (henters c role').mp hrole'
  | link =>
    rw [holds_iff, iff_false, not_or]
    constructor
    · rintro ⟨_, _, _, hname, _⟩
      have hlink : e.name = "link" := hfits
      rw [hname] at hlink
      exact absurd hlink (by decide)
    · rintro ⟨_, _, c, role', _, _, hrole', _⟩
      exact (henters c role').mp hrole'
  | skipped =>
    rcases hdecoded.1 with hname | hname
    · exact absurd hname hfits.1
    · exact absurd hname hfits.2

/-- What a decoded element gives comes with what was seen when it was decoded. -/
theorem decode_of_outcome {e : Element} {role : Role} (hdecoded : e.Decoded role)
    {vs : List role.Yield} {seen : Sightings} (h : e.outcome role = .ok (vs, seen)) :
    ∃ v, e.decode = .ok (v, seen) := by
  cases role with
  | entry => exact hdecoded.2.elim
  | item =>
    obtain ⟨⟨v, seen'⟩, hdecode, h⟩ := bind_eq_ok_iff.mp h
    cases h
    exact ⟨v, hdecode⟩
  | member keys =>
    obtain ⟨key, hmem, hkey⟩ := hdecoded.2
    obtain ⟨key', hkey', h⟩ := bind_eq_ok_iff.mp h
    rw [attr_eq_ok_iff, hkey] at hkey'
    cases hkey'
    rw [if_pos hmem] at h
    obtain ⟨⟨v, seen'⟩, hdecode, h⟩ := bind_eq_ok_iff.mp h
    cases h
    exact ⟨v, hdecode⟩

/-- Where nothing is decoded, nothing is seen. -/
theorem seen_of_outcome {e : Element} {role : Role} (hrole : role ≠ .entry)
    (hdecoded : ¬e.Decoded role) {vs : List role.Yield} {seen : Sightings}
    (h : e.outcome role = .ok (vs, seen)) : seen = [] := by
  cases role with
  | entry => exact absurd rfl hrole
  | item =>
    change e.decodeItem = _ at h
    rw [decodeItem_of_not_decoded hdecoded] at h
    cases h
    rfl
  | member keys =>
    obtain ⟨key, hkey, _⟩ := bind_eq_ok_iff.mp h
    rw [attr_eq_ok_iff] at hkey
    change e.decodeMember keys = _ at h
    rw [decodeMember_of_not_decoded hkey hdecoded] at h
    cases h
    rfl

/-- What is seen in some elements one after the other is logged if it is for each of them. -/
theorem logged_children {role : Role} {es : List Element}
    (hes : ∀ c ∈ es, ∀ vs seen, c.outcome role = .ok (vs, seen) → Logged (Holds c role) seen) :
    ∀ (k : Nat) (vs : List role.Yield) (seen : Sightings),
      gather (·.outcome role) es = .ok (vs, seen) → Logged (HoldsAmong role k es) seen := by
  induction es with
  | nil =>
    intro k vs seen h
    cases h
    exact .nil fun _ _ => not_holdsAmong_nil
  | cons c es ih =>
    intro k vs seen h
    obtain ⟨⟨vs₁, seen₁⟩, hc, h⟩ := bind_eq_ok_iff.mp h
    obtain ⟨⟨vs₂, seen₂⟩, hrest, h⟩ := bind_eq_ok_iff.mp h
    cases h
    have hfirst := (hes c List.mem_cons_self vs₁ seen₁ hc).below k
    have hothers := ih (fun c' hc' => hes c' (List.mem_cons_of_mem c hc')) (k + 1) vs₂ seen₂ hrest
    apply (hfirst.append hothers _).congr fun p n => holdsAmong_cons
    -- Places in different children are apart, and those in the first child come first.
    rintro p n q m ⟨p', rfl, _⟩ ⟨i, q', c', rfl, _⟩
    exact .apart (by omega) p' q'

/-- The objects that are seen while an element is read are those that are decoded in it, each one
after those that stand in it. -/
theorem logged_outcome (e : Element) :
    ∀ (role : Role) (vs : List role.Yield) (seen : Sightings), e.outcome role = .ok (vs, seen) →
      Logged (Holds e role) seen := by
  induction e using Element.induction with
  | h e ih =>
    intro role vs seen houtcome
    have hbelow (role' : Role) {vs : List role'.Yield} {seen : Sightings}
        (h : gather (·.outcome role') e.children = .ok (vs, seen)) :
        Logged (HoldsAmong role' 0 e.children) seen :=
      logged_children (fun c hc vs seen => ih c hc role' vs seen) 0 vs seen h
    -- An entry is read from its one member; its own sighting is not among these.
    by_cases hrole : role = .entry
    · subst hrole
      obtain ⟨⟨members, seen'⟩, hmembers, houtcome⟩ := bind_eq_ok_iff.mp houtcome
      cases houtcome
      rw [decodeMembers_eq] at hmembers
      exact (hbelow (.member [modelsField.key]) hmembers).congr fun p n => holds_entry_iff
    by_cases hdecoded : e.Decoded role
    · obtain ⟨v, hdecode⟩ := decode_of_outcome hdecoded houtcome
      obtain ⟨f, hform, hd⟩ := form_of_decode hdecode
      have hiff (p : List Nat) (n : Element) := holds_iff_of_form (p := p) (n := n) hdecoded hform
      cases f with
      | list =>
        obtain ⟨items, hitems, _⟩ := hd
        rw [decodeItems_eq] at hitems
        exact (hbelow .item hitems).congr hiff
      | entity struct =>
        obtain ⟨members, seen', hmembers, _, rfl⟩ := hd
        rw [decodeMembers_eq] at hmembers
        apply ((hbelow (.member struct.keys) hmembers).append (.sighting e) _).congr hiff
        -- The objects in a member end before the object around it.
        rintro p n q m ⟨i, p', c, rfl, _⟩ ⟨rfl, _⟩
        exact .inside _ p'
      | unknown structName =>
        obtain ⟨_, rfl⟩ := hd
        exact (Logged.sighting e).congr hiff
      | _ =>
        obtain ⟨_, rfl⟩ := hd
        exact .nil fun p n => (hiff p n).mp
    · rw [seen_of_outcome hrole hdecoded houtcome]
      exact .nil fun p n => not_holds hrole hdecoded

/-- So they are these objects, in whatever order. -/
theorem mem_seen_iff (e : Element) (x : String × IdOwner) :
    ∀ (role : Role) (vs : List role.Yield) (seen : Sightings), e.outcome role = .ok (vs, seen) →
      (x ∈ seen ↔ Sees e role x) := by
  intro role vs seen houtcome
  obtain ⟨log, rfl, _, hlog⟩ := logged_outcome e role vs seen houtcome
  rw [List.mem_map]
  constructor
  · rintro ⟨⟨p, y⟩, hy, rfl⟩
    obtain ⟨n, hn⟩ := (hlog p y).mp hy
    exact ⟨p, n, hn⟩
  · rintro ⟨p, n, hn⟩
    exact ⟨(p, x), (hlog p x).mpr ⟨n, hn⟩, rfl⟩

/-- If no two decoded objects share an id, then an id is seen with one owner. -/
theorem owner_unique {entry : Element} (hids : entry.DistinctIds) {models : List Model}
    {seen : Sightings} (houtcome : entry.outcome .entry = .ok (models, seen)) {id : String}
    (o o' : IdOwner) (ho : (id, o) ∈ seen) (ho' : (id, o') ∈ seen) : o = o' := by
  obtain ⟨p, n, hn, hsighting⟩ := (mem_seen_iff entry (id, o) .entry models seen houtcome).mp ho
  obtain ⟨q, m, hm, hsighting'⟩ := (mem_seen_iff entry (id, o') .entry models seen houtcome).mp ho'
  rw [mem_sighting_iff] at hsighting hsighting'
  obtain rfl : p = q := hids p q n m id hn hm hsighting.1 hsighting'.1
  obtain rfl : n = m := hn.unique hm
  rw [hsighting.2, hsighting'.2]

end Element

namespace Document

open Element

/-- A document is read from the one entry of a tree. The registry has what is seen in the entry and,
after that, the entry itself. -/
theorem read_eq_ok_iff {root : Element} {d : Document} :
    read root = .ok d ↔
      ∃ entry models seen, root.placed = [entry] ∧ entry.outcome .entry = .ok (models, seen) ∧
        d = { models := models, ids := OnceMap.ofList (seen ++ entry.sighting) } := by
  rw [placed_eq_entries, read]
  constructor
  · intro h
    split at h
    case h_1 entry hentries =>
      rw [ofEntry_eq] at h
      obtain ⟨⟨models, seen⟩, houtcome, h⟩ := bind_eq_ok_iff.mp h
      cases h
      exact ⟨entry, models, seen, hentries, houtcome, rfl⟩
    case h_2 => cases h
  · rintro ⟨entry, models, seen, hentries, houtcome, rfl⟩
    rw [hentries]
    change ofEntry entry = _
    rw [ofEntry_eq, houtcome]
    rfl

end Document
end SchemaMigration
