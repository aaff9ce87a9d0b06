import SchemaMigration.Proofs.LiteralFailure
import SchemaMigration.Proofs.ScriptText

namespace SchemaMigration
namespace Command

inductive Composed : Command → Prop
  | newline : Composed .newline
  | write (text : String) : Composed (.write text)
  | call (method : String) (args : List Literal) : Composed (.call method args)
  | callRaw (method : String) (args : List String) : Composed (.callRaw method args)
  | block (opening closing : String) (body : List Command) (hbody : ∀ c ∈ body, Composed c) :
      Composed (.block opening closing body)

inductive Written : Command → Prop
  | newline : Written .newline
  | write (text : String) : Written (.write text)
  | call (method : String) (args : List Literal) (hargs : ∀ l ∈ args, l.Written) :
      Written (.call method args)
  | callRaw (method : String) (args : List String) : Written (.callRaw method args)
  | block (opening closing : String) (body : List Command) (hbody : ∀ c ∈ body, Written c) :
      Written (.block opening closing body)

mutual

def source : Command → Nat → Nat → String
  | newline, depth, w => Script.lineStart (depth * w)
  | write text, _, _ => text
  | call method args, _, _ => Script.callText method (args.map Literal.source)
  | callRaw method args, _, _ => Script.callText method args
  | block opening closing body, depth, w =>
    opening ++ bodySource body (depth + 1) w ++ Script.lineStart (depth * w) ++ closing
  | nested body, depth, w => bodySource body (depth + 1) w
  | indent, _, _ => ""
  | dedent, _, _ => ""
  | clear, _, _ => ""

def bodySource : List Command → Nat → Nat → String
  | [], _, _ => ""
  | c :: cs, depth, w => c.source depth w ++ bodySource cs depth w

end

/-- In a command at some depth stands a command at another one, behind a text, and all that stands
before it is written. The text is made of the openings of the blocks around the command and, in each
of them, of the commands before it. -/
inductive Reaches (w : Nat) : Nat → Command → String → Nat → Command → Prop
  | here (depth : Nat) (c : Command) : Reaches w depth c "" depth c
  | inside {depth depth' : Nat} {opening closing text : String} {before after : List Command}
      {c c' : Command} (hbefore : ∀ b ∈ before, b.Written)
      (hreaches : Reaches w (depth + 1) c text depth' c') :
      Reaches w depth (.block opening closing (before ++ c :: after))
        (opening ++ bodySource before (depth + 1) w ++ text) depth' c'

/-- Commands that write their texts write them one after the other. -/
theorem writes_body {cs : List Command} (h : ∀ c ∈ cs, Writes [c] c.source) :
    Writes cs (bodySource cs) := by
  induction cs with
  | nil => exact writes_nil
  | cons c cs ih =>
    obtain ⟨hc, hcs⟩ := List.forall_mem_cons.mp h
    exact hc.cons (ih hcs)

/-- A command whose calls all have texts writes its text at the depth where it stands. -/
theorem Written.writes {c : Command} (h : c.Written) : Writes [c] c.source := by
  induction h with
  | newline => exact writes_newline
  | write text => exact writes_write text
  | call method args hargs => exact writes_call method args hargs
  | callRaw method args =>
    intro s
    rfl
  | block opening closing body _ ih => exact writes_block opening closing (writes_body ih)

/-- It succeeds, and nothing of the script but its text changes. -/
theorem Written.run_eq {c : Command} (h : c.Written) (s : Script) :
    c.run s = (.ok (), s.write (c.source s.depth s.indentWidth)) := by
  have hall := h.writes s
  rw [runAll] at hall
  cases hrun : c.run s with
  | mk result s' =>
    rw [hrun] at hall
    cases result with
    | error e => cases hall
    | ok u => exact hall

theorem bodySource_append (before after : List Command) (depth w : Nat) :
    bodySource (before ++ after) depth w =
      bodySource before depth w ++ bodySource after depth w := by
  induction before with
  | nil => rw [List.nil_append, bodySource, String.empty_append]
  | cons c before ih => rw [List.cons_append, bodySource, bodySource, ih, String.append_assoc]

/-- The text of a written command goes on, behind the text before a command in it, with the text of
that command. -/
theorem Reaches.source_eq {w depth depth' : Nat} {c c' : Command} {text : String}
    (h : Reaches w depth c text depth' c') :
    ∃ rest, c.source depth w = text ++ c'.source depth' w ++ rest := by
  induction h with
  | here depth c => exact ⟨"", by rw [String.empty_append, String.append_empty]⟩
  | @inside depth depth' opening closing text before after c c' _ _ ih =>
    obtain ⟨rest, hrest⟩ := ih
    refine ⟨rest ++ bodySource after (depth + 1) w ++ Script.lineStart (depth * w) ++ closing, ?_⟩
    rw [source, bodySource_append, bodySource, hrest]
    simp only [String.append_assoc]

/-- A run stops at a call without a text. What stands before the call is written then, and the depth
is the one that the run started from. -/
theorem Reaches.run_eq {w depth depth' : Nat} {c : Command} {text method : String}
    {args : List Literal} {e : LiteralError} (h : Reaches w depth c text depth' (.call method args))
    (hargs : Literal.FirstStops args e) (s : Script) (hdepth : s.depth = depth)
    (hwidth : s.indentWidth = w) : c.run s = (.error e, s.write text) := by
  generalize hcall : Command.call method args = stop at h
  induction h generalizing s with
  | here depth c =>
    subst hcall
    rw [run, hargs.texts_eq]
    simp [Script.write]
  | @inside depth depth' opening closing text before after c c' hbefore _ ih =>
    subst hdepth hwidth
    -- The commands before the one that stops are written one level deeper.
    let s₁ : Script := (s.write opening).indent
    let s₂ : Script := s₁.write (bodySource before s₁.depth s₁.indentWidth)
    have hbefore : runAll before s₁ = (.ok (), s₂) :=
      writes_body (fun b hb => (hbefore b hb).writes) s₁
    have hstop : c.run s₂ = (.error e, s₂.write text) := ih s₂ rfl rfl hcall
    have hbody : runAll (before ++ c :: after) s₁ = (.error e, s₂.write text) := by
      simp only [runAll_append, hbefore, runAll, hstop]
    -- On the way out the depth is restored, and no closing is written.
    have hopen : (s₂.write text).dedent =
        s.write (opening ++ bodySource before (s.depth + 1) s.indentWidth ++ text) := by
      simp [s₂, s₁, Script.write, Script.indent, Script.dedent, String.append_assoc]
    rw [run, hbody, ← hopen]

/-- In a composed command there is a first call without a text, or the command is written. -/
theorem Composed.written_or_reaches {c : Command} (h : c.Composed) (w depth : Nat) :
    c.Written ∨ ∃ text depth' method args e,
      Reaches w depth c text depth' (.call method args) ∧ Literal.FirstStops args e := by
  induction h generalizing depth with
  | newline => exact Or.inl .newline
  | write text => exact Or.inl (.write text)
  | callRaw method args => exact Or.inl (.callRaw method args)
  | call method args =>
    obtain hargs | ⟨e, hargs⟩ := Literal.written_or_firstStops args
    · exact Or.inl (.call method args hargs)
    · exact Or.inr ⟨"", depth, method, args, e, .here depth _, hargs⟩
  | block opening closing body _ ih =>
    obtain hall | ⟨before, c, after, rfl, hbefore, hc⟩ := forall_mem_or_first Written body
    · exact Or.inl (.block opening closing body hall)
    -- The run stops in the first command of the body that is not written.
    · obtain hwritten | ⟨text, depth', method, args, e, hreaches, hargs⟩ :=
        ih c (List.mem_append_right before List.mem_cons_self) (depth + 1)
      · exact absurd hwritten hc
      · exact Or.inr ⟨_, depth', method, args, e, .inside hbefore hreaches, hargs⟩

/-- What becomes of a block. It appends some text and leaves the depth and the width as they were.
It succeeds if all calls in it have texts, and then each block in it is written with its closing
text on a new line, at the depth where that block was opened. Otherwise there is a first call in it
that has none. Then the text is what stands before that call, with the openings of the blocks around
the call and without their closings. -/
theorem block_outcome (s : Script) (opening closing : String) (body : List Command)
    (hbody : ∀ c ∈ body, c.Composed) :
    let result := (block opening closing body).run s
    result.2.depth = s.depth ∧ result.2.indentWidth = s.indentWidth ∧
      (∃ text, result.2.text = s.text ++ text) ∧
      ((result.1 = .ok () ∧ (∀ c ∈ body, c.Written) ∧
          result.2.text = s.text ++ (block opening closing body).source s.depth s.indentWidth ∧
          ∀ text depth opening' closing' body',
            Reaches s.indentWidth s.depth (block opening closing body) text depth
              (block opening' closing' body') →
            ∃ rest, result.2.text = s.text ++ text ++ (opening' ++
              bodySource body' (depth + 1) s.indentWidth ++
              Script.lineStart (depth * s.indentWidth) ++ closing') ++ rest) ∨
        ∃ text depth method args e,
          Reaches s.indentWidth s.depth (block opening closing body) text depth
            (call method args) ∧
          Literal.FirstStops args e ∧ result.1 = .error e ∧ result.2.text = s.text ++ text) := by
  have hblock : (block opening closing body).Composed := .block opening closing body hbody
  obtain hwritten | ⟨text, depth, method, args, e, hreaches, hargs⟩ :=
    hblock.written_or_reaches s.indentWidth s.depth
  · rw [hwritten.run_eq s]
    refine ⟨rfl, rfl, ⟨_, rfl⟩, Or.inl ⟨rfl, ?_, rfl, ?_⟩⟩
    · cases hwritten with
      | block _ _ _ hall => exact hall
    · intro text depth opening' closing' body' hreaches
      obtain ⟨rest, hrest⟩ := hreaches.source_eq
      refine ⟨rest, ?_⟩
      rw [Script.write, hrest, source]
      simp only [String.append_assoc]
  · rw [hreaches.run_eq hargs s rfl rfl]
    exact ⟨rfl, rfl, ⟨text, rfl⟩, Or.inr ⟨text, depth, method, args, e, hreaches, hargs, rfl, rfl⟩⟩

def openBody : List Command :=
  [.newline, .write "a", .block "if \x7b" "\x7d"
    [.newline, .call "f" [.int 1], .call "g" [.string "b", .list [.null, .bool true]], .newline],
    .write "c"]

theorem composed_openBody : ∀ c ∈ openBody, c.Composed := by
  have hinner : ∀ c ∈ [newline, call "f" [.int 1],
      call "g" [.string "b", .list [.null, .bool true]], newline], c.Composed := by
    simp only [List.forall_mem_cons]
    exact ⟨.newline, .call _ _, .call _ _, .newline, List.forall_mem_nil _⟩
  simp only [openBody, List.forall_mem_cons]
  exact ⟨.newline, .write _, .block _ _ _ hinner, .write _, List.forall_mem_nil _⟩

/-- Both blocks stay open at the call that has no text. -/
theorem block_outcome_openBody :
    let s : Script := { text := "x", depth := 1, indentWidth := 2 }
    let result := (block "do \x7b" "\x7d" openBody).run s
    (∀ c ∈ openBody, c.Composed) ∧
      result = (.error (.unsupportedLiteral "null"),
        s.write "do \x7b\n    aif \x7b\n      ->f(1)") ∧
      ∃ text depth method args e,
        Reaches 2 1 (block "do \x7b" "\x7d" openBody) text depth (call method args) ∧
        Literal.FirstStops args e ∧ result.1 = .error e ∧ result.2.text = "x" ++ text := by
  intro s result
  have hresult : result = (.error (.unsupportedLiteral "null"),
      s.write "do \x7b\n    aif \x7b\n      ->f(1)") := by
    decide +kernel
  obtain ⟨_, _, _, ⟨hok, _⟩ | hstop⟩ := block_outcome s "do \x7b" "\x7d" openBody composed_openBody
  · change result.1 = .ok () at hok
    rw [hresult] at hok
    cases hok
  · exact ⟨composed_openBody, hresult, hstop⟩

example :
    (block "a \x7b" "\x7d"
      [.newline, .block "b \x7b" "\x7d" [.newline, .callRaw "f" ["1", "2"]]]).run {} =
      (.ok (), { text := "a \x7b\n    b \x7b\n        ->f(1, 2)\n    \x7d\n\x7d" }) := by
  decide +kernel

end Command
end SchemaMigration
