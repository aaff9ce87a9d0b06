import SchemaMigration.Proofs.LiteralText
import SchemaMigration.Proofs.Outcome
import SchemaMigration.Source.Script

namespace SchemaMigration

/-- Either all elements of a list have a property, or there is a first one that does not. -/
theorem forall_mem_or_first {α : Type} (p : α → Prop) (xs : List α) :
    (∀ x ∈ xs, p x) ∨
      ∃ before x after, xs = before ++ x :: after ∧ (∀ y ∈ before, p y) ∧ ¬p x := by
  induction xs with
  | nil => exact Or.inl (List.forall_mem_nil p)
  | cons x xs ih =>
    by_cases hx : p x
    · obtain hall | ⟨before, y, after, rfl, hbefore, hy⟩ := ih
      · exact Or.inl (List.forall_mem_cons.mpr ⟨hx, hall⟩)
      · exact Or.inr ⟨x :: before, y, after, rfl, List.forall_mem_cons.mpr ⟨hx, hbefore⟩, hy⟩
    · exact Or.inr ⟨[], x, xs, rfl, List.forall_mem_nil p, hx⟩

namespace Literal

inductive Textless : Literal → Prop
  | bool (b : Bool) : Textless (.bool b)
  | null : Textless .null

/-- A part of a literal stands behind a text, and all that stands before it has a text. The text is
made of the opening brackets of the lists around the part and, in each of them, of the items before
it with the separators behind them. -/
inductive Reaches : Literal → String → Literal → Prop
  | here (l : Literal) : Reaches l "" l
  | item {before after : List Literal} {l part : Literal} {text : String}
      (hbefore : ∀ k ∈ before, k.Written) (hreaches : Reaches l text part) :
      Reaches (.list (before ++ l :: after))
        ("[" ++ String.join (before.map fun k => k.source ++ ", ") ++ text) part

def StopsAfter (l : Literal) (text : String) (e : LiteralError) : Prop :=
  ∃ part, l.Reaches text part ∧ part.Textless ∧ e = .unsupportedLiteral part.kindName

def FirstStops (ls : List Literal) (e : LiteralError) : Prop :=
  ∃ before l after text, ls = before ++ l :: after ∧ (∀ k ∈ before, k.Written) ∧
    l.StopsAfter text e

/-- The items before a place in a list are appended first, each with the separator behind it. -/
theorem appendItems_append {before : List Literal} (hbefore : ∀ k ∈ before, k.Written)
    (l : Literal) (after : List Literal) (out : String) :
    appendItems (before ++ l :: after) out =
      appendItems (l :: after) (out ++ String.join (before.map fun k => k.source ++ ", ")) := by
  induction before generalizing out with
  | nil => rw [List.nil_append, List.map_nil, String.join_nil, String.append_empty]
  | cons k before ih =>
    obtain ⟨hk, hrest⟩ := List.forall_mem_cons.mp hbefore
    -- What is left is not empty, so it is appended behind a separator.
    have hseparator : appendRest (before ++ l :: after) (out ++ k.source) =
        appendItems (before ++ l :: after) (out ++ k.source ++ ", ") := by
      cases before <;> rfl
    calc appendItems (k :: before ++ l :: after) out
        = appendRest (before ++ l :: after) (out ++ k.source) := by
          simp only [List.cons_append, appendItems, hk.appendTo_eq out]
      _ = appendItems (l :: after) (out ++ k.source ++ ", " ++
            String.join (before.map fun k => k.source ++ ", ")) := by
          rw [hseparator, ih hrest]
      _ = appendItems (l :: after)
            (out ++ String.join ((k :: before).map fun k => k.source ++ ", ")) := by
          rw [List.map_cons, String.join_cons, String.append_assoc, String.append_assoc,
            String.append_assoc]

/-- Up to a part without a text, all is appended; there it stops with the kind of the part. -/
theorem Reaches.appendTo_eq {l part : Literal} {text : String} (h : l.Reaches text part)
    (hpart : part.Textless) (out : String) :
    l.appendTo out = (.error (.unsupportedLiteral part.kindName), out ++ text) := by
  induction h generalizing out with
  | here l =>
    rw [String.append_empty]
    cases hpart <;> rfl
  | @item before after l part text hbefore _ ih =>
    have hitem := ih hpart (out ++ "[" ++ String.join (before.map fun k => k.source ++ ", "))
    rw [appendTo, appendItems_append hbefore]
    simp only [appendItems, hitem]
    rw [String.append_assoc, String.append_assoc, String.append_assoc]

section

variable {l : Literal} {text : String} {e : LiteralError} (h : l.StopsAfter text e)
include h

/-- What was appended before the stop stays. -/
theorem StopsAfter.appendTo_eq (out : String) : l.appendTo out = (.error e, out ++ text) := by
  obtain ⟨part, hreaches, hpart, rfl⟩ := h
  exact hreaches.appendTo_eq hpart out

theorem StopsAfter.text_eq : l.text = .error e := by
  rw [Literal.text, h.appendTo_eq]

theorem StopsAfter.not_written : ¬l.Written := by
  intro hwritten
  have htext := hwritten.text_eq.symm.trans h.text_eq
  cases htext

end

/-- In every literal there is a first part without a text, or it is written. -/
theorem written_or_stopsAfter : ∀ l : Literal, l.Written ∨ ∃ text e, l.StopsAfter text e
  | .string s => Or.inl (.string s)
  | .int n => Or.inl (.int n)
  | .raw source => Or.inl (.raw source)
  | .bool b => Or.inr ⟨"", _, .bool b, .here (.bool b), .bool b, rfl⟩
  | .null => Or.inr ⟨"", _, .null, .here .null, .null, rfl⟩
  | .list items => by
    have hitems (l : Literal) (hl : l ∈ items) : l.Written ∨ ∃ text e, l.StopsAfter text e :=
      have : sizeOf l < sizeOf items := List.sizeOf_lt_of_mem hl
      written_or_stopsAfter l
    obtain hall | ⟨before, l, after, rfl, hbefore, hl⟩ := forall_mem_or_first Written items
    · exact Or.inl (.list items hall)
    · obtain hwritten | ⟨text, e, part, hreaches, hpart, he⟩ :=
        hitems l (List.mem_append_right before List.mem_cons_self)
      · exact absurd hwritten hl
      · exact Or.inr ⟨_, e, part, .item hbefore hreaches, hpart, he⟩
termination_by l => sizeOf l
decreasing_by simp; omega

/-- Either all literals have texts, or there is a first one that stops. -/
theorem written_or_firstStops (ls : List Literal) :
    (∀ l ∈ ls, l.Written) ∨ ∃ e, FirstStops ls e := by
  obtain hall | ⟨before, l, after, hls, hbefore, hl⟩ := forall_mem_or_first Written ls
  · exact Or.inl hall
  · obtain ⟨text, e, hstops⟩ := (written_or_stopsAfter l).resolve_left hl
    exact Or.inr ⟨e, before, l, after, text, hls, hbefore, hstops⟩

/-- The texts of several literals fail with the first one that stops. -/
theorem FirstStops.texts_eq {ls : List Literal} {e : LiteralError} (h : FirstStops ls e) :
    texts ls = .error e := by
  obtain ⟨before, l, after, text, hls, hbefore, hstops⟩ := h
  exact mapM_eq_error_iff.mpr
    ⟨before, l, after, hls, ⟨_, Literal.texts_eq before hbefore⟩, hstops.text_eq⟩

theorem FirstStops.not_written {ls : List Literal} {e : LiteralError} (h : FirstStops ls e) :
    ¬∀ l ∈ ls, l.Written := by
  intro hall
  have htexts := (Literal.texts_eq ls hall).symm.trans h.texts_eq
  cases htexts

end Literal

/-- What becomes of a literal and of a call. A literal without truth values and `null` is appended
as its text. From any other the text up to the first of these is appended, and the error names the
kind of that one. A call with such an argument fails with the error of the first of them and changes
nothing, and any other call is made with the texts of its arguments. -/
theorem failure_contained :
    (∀ l : Literal,
      (l.Written ∧ ∃ text, l.text = .ok text ∧ ∀ out, l.appendTo out = (.ok (), out ++ text)) ∨
        (¬l.Written ∧ ∃ text e, l.StopsAfter text e ∧ l.text = .error e ∧
          ∀ out, l.appendTo out = (.error e, out ++ text))) ∧
      ∀ (s : Script) (method : String) (args : List Literal),
        ((∀ l ∈ args, l.Written) ∧
          ∃ texts, List.Forall₂ (fun l text => l.text = .ok text) args texts ∧
            (Command.call method args).run s = (.ok (), s.callRaw method texts)) ∨
        ((¬∀ l ∈ args, l.Written) ∧
          ∃ e, Literal.FirstStops args e ∧ (Command.call method args).run s = (.error e, s)) := by
  constructor
  · intro l
    obtain hwritten | ⟨text, e, hstops⟩ := l.written_or_stopsAfter
    · exact Or.inl ⟨hwritten, l.source, hwritten.text_eq, hwritten.appendTo_eq⟩
    · exact Or.inr
        ⟨hstops.not_written, text, e, hstops, hstops.text_eq, hstops.appendTo_eq⟩
  · intro s method args
    obtain hall | ⟨e, hstops⟩ := Literal.written_or_firstStops args
    · have htexts := Literal.texts_eq args hall
      refine Or.inl ⟨hall, args.map Literal.source, mapM_eq_ok_iff.mp htexts, ?_⟩
      rw [Command.run, htexts]
    · refine Or.inr ⟨hstops.not_written, e, hstops, ?_⟩
      rw [Command.run, hstops.texts_eq]

example :
    (Literal.list [.int 1, .list [.raw "x", .null, .bool true], .int 2]).appendTo "a" =
      (.error (.unsupportedLiteral "null"), "a[1, [x, ") := by
  decide +kernel

end SchemaMigration
