import Mathlib.Data.List.Pairwise
import SchemaMigration.Document.Reading

namespace SchemaMigration

/-- The order in which elements end, by their positions: an element ends after what stands in it,
and otherwise where the ways to two elements part decides. -/
inductive EndsBefore : List Nat → List Nat → Prop
  | inside (i : Nat) (p : List Nat) : EndsBefore (i :: p) []
  | apart {i j : Nat} (h : i < j) (p q : List Nat) : EndsBefore (i :: p) (j :: q)
  | along (i : Nat) {p q : List Nat} (h : EndsBefore p q) : EndsBefore (i :: p) (i :: q)

def Logged (P : List Nat → Element → Prop) (seen : Sightings) : Prop :=
  ∃ log : List (List Nat × String × IdOwner), log.map Prod.snd = seen ∧
    log.Pairwise (fun y z => EndsBefore y.1 z.1) ∧
    ∀ p x, (p, x) ∈ log ↔ ∃ n, P p n ∧ x ∈ n.sighting

namespace Logged

variable {P Q : List Nat → Element → Prop} {seen seen' : Sightings}

theorem congr (h : Logged P seen) (hiff : ∀ p n, Q p n ↔ P p n) : Logged Q seen := by
  obtain rfl : Q = P := funext₂ fun p n => propext (hiff p n)
  exact h

theorem nil (h : ∀ p n, ¬P p n) : Logged P [] :=
  ⟨[], rfl, .nil, by simp [h]⟩

/-- An object by itself. -/
theorem sighting (e : Element) : Logged (fun p n => p = [] ∧ n = e) e.sighting := by
  refine ⟨e.sighting.map fun x => ([], x), ?_, ?_, ?_⟩
  · rw [List.map_map]
    exact List.map_id _
  · rw [List.pairwise_map, Element.sighting]
    cases e.attr? "id" <;> simp
  · intro p x
    rw [List.mem_map]
    constructor
    · rintro ⟨y, hy, heq⟩
      cases heq
      exact ⟨e, ⟨rfl, rfl⟩, hy⟩
    · rintro ⟨n, ⟨rfl, rfl⟩, hx⟩
      exact ⟨x, hx, rfl⟩

/-- Two logs one after the other are in order if all of the first ends before the second. -/
theorem append (h : Logged P seen) (h' : Logged Q seen')
    (hbefore : ∀ p n q m, P p n → Q q m → EndsBefore p q) :
    Logged (fun p n => P p n ∨ Q p n) (seen ++ seen') := by
  obtain ⟨log, rfl, hpairwise, hlog⟩ := h
  obtain ⟨log', rfl, hpairwise', hlog'⟩ := h'
  refine ⟨log ++ log', List.map_append, ?_, ?_⟩
  · rw [List.pairwise_append]
    refine ⟨hpairwise, hpairwise', ?_⟩
    rintro ⟨p, x⟩ hx ⟨q, y⟩ hy
    obtain ⟨n, hn, _⟩ := (hlog p x).mp hx
    obtain ⟨m, hm, _⟩ := (hlog' q y).mp hy
    exact hbefore p n q m hn hm
  · intro p x
    rw [List.mem_append, hlog, hlog']
    constructor
    · rintro (⟨n, hn, hx⟩ | ⟨n, hn, hx⟩)
      · exact ⟨n, Or.inl hn, hx⟩
      · exact ⟨n, Or.inr hn, hx⟩
    · rintro ⟨n, hn | hn, hx⟩
      · exact Or.inl ⟨n, hn, hx⟩
      · exact Or.inr ⟨n, hn, hx⟩

/-- The positions in a child are those below its index. -/
theorem below (h : Logged P seen) (k : Nat) : Logged (fun p n => ∃ q, p = k :: q ∧ P q n) seen := by
  obtain ⟨log, rfl, hpairwise, hlog⟩ := h
  refine ⟨log.map fun y => (k :: y.1, y.2), ?_, ?_, ?_⟩
  · rw [List.map_map]
    rfl
  · rw [List.pairwise_map]
    exact hpairwise.imp fun hends => .along k hends
  · intro p x
    rw [List.mem_map]
    constructor
    · rintro ⟨⟨q, y⟩, hy, heq⟩
      cases heq
      obtain ⟨n, hn, hx⟩ := (hlog q y).mp hy
      exact ⟨n, ⟨q, rfl, hn⟩, hx⟩
    · rintro ⟨n, ⟨q, rfl, hn⟩, hx⟩
      exact ⟨(q, x), (hlog q x).mpr ⟨n, hn, hx⟩, rfl⟩

end Logged

end SchemaMigration
