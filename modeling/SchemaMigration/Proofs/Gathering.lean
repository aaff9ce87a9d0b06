import SchemaMigration.Proofs.ElementReading

namespace SchemaMigration
namespace Element

variable {α : Type}

def gather (f : Element → Except DocumentError (List α × Sightings)) :
    List Element → Except DocumentError (List α × Sightings)
  | [] => return ([], [])
  | e :: es => do
    let (vs, seen) ← f e
    let (vs', seen') ← gather f es
    return (vs ++ vs', seen ++ seen')

def decodeItem (e : Element) : Except DocumentError (List Datum × Sightings) := do
  let (item, seen) ← e.decode
  return (item.toList, seen)

def decodeMember (keys : List String) (e : Element) :
    Except DocumentError (List (String × Datum) × Sightings) := do
  let key ← e.attr "key"
  if key ∈ keys then
    let (value, seen) ← e.decode
    return (value.toList.map (key, ·), seen)
  else
    return ([], [])

/-- Items and members are read by one loop, with what is done for one of them. -/
theorem decodeItems_eq (es : List Element) : decodeItems es = gather decodeItem es := by
  induction es with
  | nil => rfl
  | cons e es ih =>
    rw [decodeItems, gather, decodeItem, ih, bind_assoc]
    rfl

theorem decodeMembers_eq (keys : List String) (es : List Element) :
    decodeMembers keys es = gather (decodeMember keys) es := by
  induction es with
  | nil => rfl
  | cons e es ih =>
    rw [decodeMembers, gather, decodeMember, ih, bind_assoc]
    congr 1
    funext key
    by_cases hkey : key ∈ keys
    · simp only [hkey, if_true, bind_assoc]
      rfl
    -- A member that is not wanted adds nothing in front of the others.
    · simp only [hkey, if_false, pure_bind, List.nil_append]
      exact (bind_pure _).symm

variable {f : Element → Except DocumentError (List α × Sightings)}

/-- The elements of two lists are gathered one list after the other. -/
theorem gather_append (xs ys : List Element) :
    gather f (xs ++ ys) = (do
      let (vs, seen) ← gather f xs
      let (vs', seen') ← gather f ys
      return (vs ++ vs', seen ++ seen')) := by
  induction xs with
  | nil => exact (bind_pure _).symm
  | cons x xs ih =>
    rw [List.cons_append, gather, ih, gather]
    simp only [bind_assoc, pure_bind, List.append_assoc]

/-- Elements that give the same can stand for each other. -/
theorem gather_congr {g : Element → Except DocumentError (List α × Sightings)}
    {xs ys : List Element} (h : List.Forall₂ (fun x y => f x = g y) xs ys) :
    gather f xs = gather g ys := by
  induction h with
  | nil => rfl
  | cons hx _ ih => rw [gather, gather, hx, ih]

/-- Elements that are read the same, one by one, are read the same as a list. -/
theorem decodeItems_congr {es es' : List Element}
    (h : List.Forall₂ (fun e e' => e'.decode = e.decode) es es') :
    decodeItems es' = decodeItems es := by
  rw [decodeItems_eq, decodeItems_eq]
  symm
  apply gather_congr
  apply h.imp
  intro e e' he
  rw [decodeItem, decodeItem, he]

theorem decodeMembers_congr {keys : List String} {es es' : List Element}
    (h : List.Forall₂ (fun e e' => e'.attr "key" = e.attr "key" ∧ e'.decode = e.decode) es es') :
    decodeMembers keys es' = decodeMembers keys es := by
  rw [decodeMembers_eq, decodeMembers_eq]
  symm
  apply gather_congr
  apply h.imp
  rintro e e' ⟨hkey, hdecode⟩
  rw [decodeMember, decodeMember, hkey, hdecode]

/-- Elements that give nothing can be left out. -/
theorem gather_eq_nil {es : List Element} (h : ∀ e ∈ es, f e = .ok ([], [])) :
    gather f es = .ok ([], []) := by
  induction es with
  | nil => rfl
  | cons e es ih =>
    rw [gather, h e List.mem_cons_self, ih fun e' he' => h e' (List.mem_cons_of_mem e he')]
    rfl

theorem gather_append_of_eq_nil {ys : List Element} (h : gather f ys = .ok ([], []))
    (xs : List Element) : gather f (xs ++ ys) = gather f xs := by
  rw [gather_append, h]
  cases hxs : gather f xs with
  | error err => rfl
  | ok result =>
    change Except.ok (result.1 ++ [], result.2 ++ []) = Except.ok result
    rw [List.append_nil, List.append_nil]

/-- If the elements are read, then each of them is, and the results follow in their order. -/
theorem gather_eq_ok_iff {es : List Element} {vs : List α} {seen : Sightings} :
    gather f es = .ok (vs, seen) ↔
      ∃ results, List.Forall₂ (fun e result => f e = .ok result) es results ∧
        vs = results.flatMap (·.1) ∧ seen = results.flatMap (·.2) := by
  induction es generalizing vs seen with
  | nil =>
    constructor
    · intro h
      cases h
      exact ⟨[], .nil, rfl, rfl⟩
    · rintro ⟨results, hresults, rfl, rfl⟩
      cases hresults
      rfl
  | cons e es ih =>
    rw [gather, bind_eq_ok_iff]
    constructor
    · rintro ⟨⟨vs₁, seen₁⟩, hhead, h⟩
      obtain ⟨⟨vs₂, seen₂⟩, htail, h⟩ := bind_eq_ok_iff.mp h
      cases h
      obtain ⟨results, hresults, rfl, rfl⟩ := ih.mp htail
      exact ⟨(vs₁, seen₁) :: results, .cons hhead hresults, rfl, rfl⟩
    · rintro ⟨results, hresults, rfl, rfl⟩
      cases hresults with
      | @cons _ result _ results hhead htail =>
        refine ⟨result, hhead, bind_eq_ok_iff.mpr ?_⟩
        exact ⟨_, ih.mpr ⟨results, htail, rfl, rfl⟩, rfl⟩

theorem mem_flatMap_results {β : Type} {es : List Element} {results : List (List α × Sightings)}
    (h : List.Forall₂ (fun e result => f e = .ok result) es results)
    (part : List α × Sightings → List β) (x : β) :
    x ∈ results.flatMap part ↔ ∃ e ∈ es, ∃ result, f e = .ok result ∧ x ∈ part result := by
  induction h with
  | nil => simp
  | @cons e result es results he _ ih =>
    rw [List.flatMap_cons, List.mem_append, ih, List.exists_mem_cons_iff]
    apply or_congr_left
    constructor
    · exact fun hx => ⟨result, he, hx⟩
    · rintro ⟨result', he', hx⟩
      rw [he] at he'
      cases he'
      exact hx

section

variable {es : List Element} {vs : List α} {seen : Sightings} (h : gather f es = .ok (vs, seen))
include h

theorem exists_of_gather : ∀ e ∈ es, ∃ result, f e = .ok result := by
  obtain ⟨results, hresults, -, -⟩ := gather_eq_ok_iff.mp h
  intro e he
  obtain ⟨result, _, hresult⟩ := exists_mem_of_forall₂ hresults e he
  exact ⟨result, hresult⟩

theorem mem_gather (v : α) : v ∈ vs ↔ ∃ e ∈ es, ∃ result, f e = .ok result ∧ v ∈ result.1 := by
  obtain ⟨results, hresults, rfl, -⟩ := gather_eq_ok_iff.mp h
  exact mem_flatMap_results hresults (·.1) v

theorem mem_seen_gather (x : String × IdOwner) :
    x ∈ seen ↔ ∃ e ∈ es, ∃ result, f e = .ok result ∧ x ∈ result.2 := by
  obtain ⟨results, hresults, -, rfl⟩ := gather_eq_ok_iff.mp h
  exact mem_flatMap_results hresults (·.2) x

end

end Element
end SchemaMigration
