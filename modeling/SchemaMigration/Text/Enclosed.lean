/-!
The pieces of a text that stand between the first and the second mark, the third and the
fourth, and so on. A last mark without a partner encloses nothing.
-/

namespace SchemaMigration

def segments (mark : Char) : List Char → List (List Char)
  | [] => [[]]
  | c :: cs =>
    if c = mark then [] :: segments mark cs
    else
      match segments mark cs with
      | [] => [[c]]
      | s :: rest => (c :: s) :: rest

/-- Every second piece, as long as another piece follows it. -/
def insidePieces : List (List Char) → List (List Char)
  | _ :: s :: t :: rest => s :: insidePieces (t :: rest)
  | _ => []

def enclosed (mark : Char) (cs : List Char) : List (List Char) :=
  insidePieces (segments mark cs)

/-- A text has one piece more than it has marks. -/
theorem length_segments (mark : Char) (cs : List Char) :
    (segments mark cs).length = cs.count mark + 1 := by
  induction cs with
  | nil => rfl
  | cons c cs ih =>
    by_cases h : c = mark
    · simp [segments, h, ih]
    · cases hs : segments mark cs with
      | nil => simp [hs] at ih
      | cons s rest =>
        rw [hs] at ih
        simpa [segments, h, hs, List.count_cons] using ih

/-- Two marks enclose one piece. -/
theorem length_insidePieces (ps : List (List Char)) :
    (insidePieces ps).length = (ps.length - 1) / 2 := by
  fun_induction insidePieces ps with
  | case1 p s t rest ih => simp only [List.length_cons] at ih ⊢; omega
  | case2 ps h =>
    match ps, h with
    | [], _ => simp
    | [_], _ => simp
    | [_, _], _ => simp
    | a :: b :: c :: d, h => exact absurd rfl (h a b c d)

end SchemaMigration
