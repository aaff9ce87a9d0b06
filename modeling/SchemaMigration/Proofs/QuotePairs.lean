import SchemaMigration.Proofs.EnumerationText

namespace SchemaMigration

section

variable {α : Type}

/-- The entries of a list, two by two. A last one without a partner is left out. -/
def pairs : List α → List (α × α)
  | a :: b :: rest => (a, b) :: pairs rest
  | _ => []

/-- The pair at a place stands at twice this place and behind it. -/
theorem getElem?_pairs (xs : List α) (i : Nat) (a b : α) :
    (pairs xs)[i]? = some (a, b) ↔ xs[2 * i]? = some a ∧ xs[2 * i + 1]? = some b := by
  fun_induction pairs xs generalizing i with
  | case1 x y rest ih =>
    cases i with
    | zero => simp
    | succ i =>
      have hfirst : 2 * (i + 1) = 2 * i + 1 + 1 := by omega
      rw [List.getElem?_cons_succ, ih, hfirst]
      simp only [List.getElem?_cons_succ]
  | case2 xs h =>
    -- With less than two entries there is none at an odd place.
    have hshort : xs.length ≤ 1 := by
      match xs, h with
      | [], _ => simp
      | [_], _ => simp
      | x :: y :: rest, h => exact absurd rfl (h x y rest)
    have hodd : xs[2 * i + 1]? = none := List.getElem?_eq_none (by omega)
    simp [hodd]

theorem extract_append_append (front piece rest : List α) :
    (front ++ (piece ++ rest)).extract front.length (front.length + piece.length) = piece := by
  simp

end

section

variable {mark : Char} {before after piece : List Char}

/-- A text has no mark, or one mark, or two marks with a piece between them before the rest. -/
@[elab_as_elim]
theorem mark_pairs_induction {motive : List Char → Prop} (mark : Char)
    (none : ∀ cs, mark ∉ cs → motive cs)
    (single : ∀ before after, mark ∉ before → mark ∉ after → motive (before ++ mark :: after))
    (pair : ∀ before piece rest, mark ∉ before → mark ∉ piece → motive rest →
      motive (before ++ mark :: (piece ++ mark :: rest))) (cs : List Char) : motive cs := by
  by_cases hfirst : mark ∈ cs
  · obtain ⟨before, after, hsplit, hbefore⟩ := List.eq_append_cons_of_mem hfirst
    by_cases hsecond : mark ∈ after
    · obtain ⟨piece, rest, hsplit', hpiece⟩ := List.eq_append_cons_of_mem hsecond
      have hshorter : rest.length < cs.length := by
        rw [hsplit, hsplit']
        simp only [List.length_append, List.length_cons]
        omega
      rw [hsplit, hsplit']
      exact pair before piece rest hbefore hpiece (mark_pairs_induction mark none single pair rest)
    · rw [hsplit]
      exact single before after hbefore hsecond
  · exact none cs hfirst
termination_by cs.length

/-- A mark without a partner encloses nothing. -/
theorem enclosed_single (hbefore : mark ∉ before) (hafter : mark ∉ after) :
    enclosed mark (before ++ mark :: after) = [] := by
  rw [enclosed, segments_eq_splitOn, List.splitOn_append_cons_self_of_not_mem hbefore,
    List.splitOn_eq_singleton hafter]
  rfl

theorem idxsOf_eq_nil (h : mark ∉ before) (n : Nat) : before.idxsOf mark n = [] := by
  rw [List.idxsOf_eq_nil_iff]
  intro c hc
  rw [beq_eq_false_iff_ne]
  rintro rfl
  exact h hc

theorem idxsOf_append_cons (h : mark ∉ before) (rest : List Char) (n : Nat) :
    (before ++ mark :: rest).idxsOf mark n =
      (n + before.length) :: rest.idxsOf mark (n + before.length + 1) := by
  rw [List.idxsOf_append, idxsOf_eq_nil h, List.nil_append, List.idxsOf_cons,
    if_pos (beq_self_eq_true mark)]

/-- What is left of a text behind its front is cut at the places of its marks. -/
theorem enclosed_eq_map_pairs (front cs : List Char) :
    enclosed mark cs =
      (pairs (cs.idxsOf mark front.length)).map fun p =>
        (front ++ cs).extract (p.1 + 1) p.2 := by
  induction cs using mark_pairs_induction mark generalizing front with
  | none cs h =>
    rw [enclosed_eq_nil h, idxsOf_eq_nil h]
    rfl
  | single before after hbefore hafter =>
    rw [enclosed_single hbefore hafter, idxsOf_append_cons hbefore, idxsOf_eq_nil hafter]
    rfl
  | pair before piece rest hbefore hpiece ih =>
    let front' := front ++ (before ++ [mark])
    have hfront' : front'.length = front.length + before.length + 1 := by
      simp [front', Nat.add_assoc]
    have htext : front ++ (before ++ mark :: (piece ++ mark :: rest)) =
        front' ++ (piece ++ mark :: rest) := by
      simp [front']
    -- The front of the rest is all up to the second mark.
    have hrest := ih (front' ++ (piece ++ [mark]))
    have hlength : (front' ++ (piece ++ [mark])).length = front'.length + piece.length + 1 := by
      simp [Nat.add_assoc]
    have hsame : front' ++ (piece ++ [mark]) ++ rest = front' ++ (piece ++ mark :: rest) := by
      simp
    rw [hlength, hsame] at hrest
    rw [enclosed_cons hbefore hpiece, idxsOf_append_cons hbefore, idxsOf_append_cons hpiece,
      ← hfront', htext, pairs, List.map_cons, ← hrest]
    dsimp only
    rw [← hfront', extract_append_append]

/-- Text without a mark in front of the others encloses nothing. -/
theorem enclosed_append_of_not_mem (h : mark ∉ before) (cs : List Char) :
    enclosed mark (before ++ cs) = enclosed mark cs := by
  have hfront {front : List Char} (hfront : mark ∉ front) : mark ∉ before ++ front := by
    simp [h, hfront]
  cases cs using mark_pairs_induction mark with
  | none cs hcs => rw [enclosed_eq_nil (hfront hcs), enclosed_eq_nil hcs]
  | single front after hcs hafter =>
    rw [← List.append_assoc, enclosed_single (hfront hcs) hafter, enclosed_single hcs hafter]
  | pair front piece rest hcs hpiece =>
    rw [← List.append_assoc, enclosed_cons (hfront hcs) hpiece, enclosed_cons hcs hpiece]

/-- Behind an even number of marks the pairs start anew. -/
theorem enclosed_append_of_even {head : List Char} (h : head.count mark % 2 = 0)
    (rest : List Char) :
    enclosed mark (head ++ rest) = enclosed mark head ++ enclosed mark rest := by
  induction head using mark_pairs_induction mark with
  | none cs hcs => rw [enclosed_append_of_not_mem hcs, enclosed_eq_nil hcs, List.nil_append]
  | single before after hbefore hafter =>
    have hone : (before ++ mark :: after).count mark = 1 := by
      simp [List.count_eq_zero_of_not_mem, hbefore, hafter]
    rw [hone] at h
    cases h
  | pair before piece tail hbefore hpiece ih =>
    have htwo : (before ++ mark :: (piece ++ mark :: tail)).count mark = tail.count mark + 2 := by
      simp [List.count_eq_zero_of_not_mem, hbefore, hpiece]
    have htail : tail.count mark % 2 = 0 := by omega
    have htext : before ++ mark :: (piece ++ mark :: tail) ++ rest =
        before ++ mark :: (piece ++ mark :: (tail ++ rest)) := by
      simp
    rw [htext, enclosed_cons hbefore hpiece, enclosed_cons hbefore hpiece, ih htail,
      List.cons_append]

theorem not_mem_of_mem_enclosed {cs : List Char} (h : piece ∈ enclosed mark cs) :
    mark ∉ piece := by
  induction cs using mark_pairs_induction mark with
  | none cs hcs => simp [enclosed_eq_nil hcs] at h
  | single before after hbefore hafter => simp [enclosed_single hbefore hafter] at h
  | pair before first rest hbefore hfirst ih =>
    rw [enclosed_cons hbefore hfirst] at h
    rcases List.mem_cons.mp h with rfl | h
    · exact hfirst
    · exact ih h

/-- A text encloses half as many pieces as it has marks, rounded down. -/
theorem length_enclosed (cs : List Char) : (enclosed mark cs).length = cs.count mark / 2 := by
  rw [enclosed, length_insidePieces, length_segments, Nat.add_sub_cancel]

end

namespace Column

/-- The values are what stands between the quotes of each pair. -/
theorem values_eq_map_pairs (c : Column) :
    c.values = (pairs (c.explicitParams.toList.idxsOf '\'')).map fun p =>
      String.ofList (c.explicitParams.toList.extract (p.1 + 1) p.2) := by
  rw [values, enclosed_eq_map_pairs [], List.map_map]
  rfl

/-- The value at a place stands between the quotes at twice this place and behind it. -/
theorem getElem?_values_iff {c : Column} {i : Nat} {v : String} :
    c.values[i]? = some v ↔
      ∃ p q, (c.explicitParams.toList.idxsOf '\'')[2 * i]? = some p ∧
        (c.explicitParams.toList.idxsOf '\'')[2 * i + 1]? = some q ∧
        v = String.ofList (c.explicitParams.toList.extract (p + 1) q) := by
  rw [values_eq_map_pairs, List.getElem?_map, Option.map_eq_some_iff]
  constructor
  · rintro ⟨⟨p, q⟩, hpair, rfl⟩
    obtain ⟨hp, hq⟩ := (getElem?_pairs _ i p q).mp hpair
    exact ⟨p, q, hp, hq, rfl⟩
  · rintro ⟨p, q, hp, hq, rfl⟩
    exact ⟨(p, q), (getElem?_pairs _ i p q).mpr ⟨hp, hq⟩, rfl⟩

/-- So no value has a quote in it. -/
theorem not_quote_mem_of_mem_values {c : Column} {v : String} (h : v ∈ c.values) :
    '\'' ∉ v.toList := by
  obtain ⟨piece, hpiece, rfl⟩ := List.mem_map.mp h
  rw [String.toList_ofList]
  exact not_mem_of_mem_enclosed hpiece

/-- Behind an even number of quotes only what other quotes enclose is a value. -/
theorem values_eq_of_rest (c c' : Column) {head rest rest' : List Char}
    (htext : c.explicitParams.toList = head ++ rest)
    (htext' : c'.explicitParams.toList = head ++ rest') (heven : head.count '\'' % 2 = 0)
    (h : enclosed '\'' rest' = enclosed '\'' rest) : c'.values = c.values := by
  rw [values, values, htext, htext', enclosed_append_of_even heven,
    enclosed_append_of_even heven, h]

/-- Let the places of the single quotes in the parameters of an enumeration be listed in order. The
values are the texts between these quotes, from the first one to the second one, from the third one
to the fourth one, and so on; there are half as many as there are quotes. So no value has a quote in
it, a last quote without a partner adds nothing, and neither does text without a quote that is added
behind an even number of quotes. -/
theorem values_pair_quotes (c : Column) :
    let cs := c.explicitParams.toList
    let places := cs.idxsOf '\''
    places.Pairwise (· < ·) ∧ (∀ i, i ∈ places ↔ cs[i]? = some '\'') ∧
      c.values.length = places.length / 2 ∧
      (∀ i v, c.values[i]? = some v ↔
        ∃ p q, places[2 * i]? = some p ∧ places[2 * i + 1]? = some q ∧
          v = String.ofList (cs.extract (p + 1) q)) ∧
      (∀ v ∈ c.values, '\'' ∉ v.toList) ∧
      (∀ before after : String, c.explicitParams = before ++ "'" ++ after → '\'' ∉ after.toList →
        before.toList.count '\'' % 2 = 0 →
          { c with explicitParams := before }.values = c.values) ∧
      ∀ before after added : String, c.explicitParams = before ++ after → '\'' ∉ after.toList →
        '\'' ∉ added.toList → before.toList.count '\'' % 2 = 0 →
          { c with explicitParams := before ++ added ++ after }.values = c.values := by
  refine ⟨List.pairwise_idxsOf, fun i => ?_, ?_, fun i v => getElem?_values_iff,
    fun v hv => not_quote_mem_of_mem_values hv, ?_, ?_⟩
  · rw [List.mem_idxsOf_iff_exists_getElem_pos, List.getElem?_eq_some_iff]
    simp only [beq_iff_eq]
  · rw [values, List.length_map, length_enclosed, List.length_idxsOf]
  · intro before after hparams hafter heven
    have htext : c.explicitParams.toList = before.toList ++ ([] ++ '\'' :: after.toList) := by
      rw [hparams]
      simp
    have htext' : before.toList = before.toList ++ [] := (List.append_nil _).symm
    apply values_eq_of_rest c { c with explicitParams := before } htext htext' heven
    rw [enclosed_single List.not_mem_nil hafter, enclosed_eq_nil List.not_mem_nil]
  · intro before after added hparams hafter hadded heven
    have htext : c.explicitParams.toList = before.toList ++ after.toList := by
      rw [hparams, String.toList_append]
    have htext' : (before ++ added ++ after).toList =
        before.toList ++ (added.toList ++ after.toList) := by
      simp
    have hrest : '\'' ∉ added.toList ++ after.toList := by simp [hadded, hafter]
    let longer : Column := { c with explicitParams := before ++ added ++ after }
    apply values_eq_of_rest c longer htext htext' heven
    rw [enclosed_eq_nil hrest, enclosed_eq_nil hafter]

/-- Two quotes side by side enclose the empty text, and the last quote here has no partner. -/
example :
    ({ explicitParams := "('a','',' x ','dangling)" } : Column).values = ["a", "", " x "] := by
  decide +kernel

end Column

end SchemaMigration
