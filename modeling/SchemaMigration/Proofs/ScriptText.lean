import SchemaMigration.Blueprint.Definition
import SchemaMigration.Proofs.LiteralText

namespace SchemaMigration

theorem Script.lineStart_eq (blanks : Nat) :
    lineStart blanks = "\n" ++ String.ofList (List.replicate blanks ' ') := by
  simp [lineStart]

theorem Script.lineStart_zero : lineStart 0 = "\n" := by
  decide

namespace Command

/-- The commands append a text that depends on the depth and the width of the script and on
nothing else of it, and change nothing else of it. -/
def Writes (cs : List Command) (text : Nat → Nat → String) : Prop :=
  ∀ s : Script, runAll cs s = (.ok (), s.write (text s.depth s.indentWidth))

theorem runAll_append (cs ds : List Command) (s : Script) :
    runAll (cs ++ ds) s =
      match runAll cs s with
      | (.ok (), s) => runAll ds s
      | (.error e, s) => (.error e, s) := by
  induction cs generalizing s with
  | nil => rfl
  | cons c cs ih =>
    rw [List.cons_append, runAll, runAll]
    cases h : run c s with
    | mk result s' =>
      cases result with
      | error e => rfl
      | ok u => exact ih s'

theorem writes_nil : Writes [] fun _ _ => "" := by
  intro s
  simp [runAll, Script.write]

theorem Writes.append {cs ds : List Command} {f g : Nat → Nat → String}
    (hf : Writes cs f) (hg : Writes ds g) :
    Writes (cs ++ ds) fun depth w => f depth w ++ g depth w := by
  intro s
  rw [runAll_append, hf s]
  change runAll ds (s.write (f s.depth s.indentWidth)) = _
  rw [hg (s.write (f s.depth s.indentWidth))]
  simp only [Script.write, String.append_assoc]

theorem Writes.cons {c : Command} {cs : List Command} {f g : Nat → Nat → String}
    (hf : Writes [c] f) (hg : Writes cs g) :
    Writes (c :: cs) fun depth w => f depth w ++ g depth w :=
  hf.append hg

theorem writes_flatMap {α : Type} (xs : List α) (commands : α → List Command)
    (f : α → Nat → Nat → String) (h : ∀ x ∈ xs, Writes (commands x) (f x)) :
    Writes (xs.flatMap commands) fun depth w => String.join (xs.map fun x => f x depth w) := by
  induction xs with
  | nil => exact writes_nil
  | cons x xs ih =>
    have hx : Writes (commands x) (f x) := h x List.mem_cons_self
    have hxs := ih fun y hy => h y (List.mem_cons_of_mem x hy)
    simpa only [List.flatMap_cons, List.map_cons, String.join_cons] using hx.append hxs

theorem writes_newline : Writes [newline] fun depth w => Script.lineStart (depth * w) := by
  intro s
  rfl

theorem writes_write (text : String) : Writes [write text] fun _ _ => text := by
  intro s
  rfl

theorem writes_call (method : String) (args : List Literal) (h : ∀ l ∈ args, l.Written) :
    Writes [call method args]
      fun _ _ => Script.callText method (args.map Literal.source) := by
  intro s
  simp only [runAll, run, Literal.texts_eq args h]
  rfl

/-- What is nested is written one level deeper. -/
theorem writes_nested {body : List Command} {f : Nat → Nat → String} (h : Writes body f) :
    Writes [nested body] fun depth w => f (depth + 1) w := by
  intro s
  simp only [runAll, run, h s.indent]
  rfl

/-- A block is closed where it was opened. -/
theorem writes_block (opening closing : String) {body : List Command} {f : Nat → Nat → String}
    (h : Writes body f) :
    Writes [block opening closing body] fun depth w =>
      opening ++ f (depth + 1) w ++ Script.lineStart (depth * w) ++ closing := by
  intro s
  simp only [runAll, run, h (s.write opening).indent]
  simp [Script.write, Script.indent, Script.dedent, Script.newline, String.append_assoc]

end Command

def callSource (method : String) (args : List Literal) : String :=
  "$table" ++ Script.callText method (args.map Literal.source)

namespace ColumnDefinition

structure Written (d : ColumnDefinition) : Prop where
  args : ∀ l ∈ d.args, l.Written
  modifiers : ∀ k args, d.modifier? k = some args → ∀ l ∈ args, l.Written

def modifierSource (depth w : Nat) (m : Modifier × List Literal) : String :=
  Script.lineStart (depth * w) ++ Script.callText m.1.method (m.2.map Literal.source)

def source (d : ColumnDefinition) (depth w : Nat) : String :=
  Script.lineStart (depth * w) ++ callSource d.method d.args ++
    String.join (d.modifiers.map (modifierSource (depth + 1) w)) ++ ";"

theorem Written.writes {d : ColumnDefinition} (h : d.Written) :
    Command.Writes d.commands d.source := by
  have hmodifier (m : Modifier × List Literal) (hm : m ∈ d.modifiers) :
      Command.Writes [.newline, .call m.1.method m.2] fun depth w => modifierSource depth w m :=
    Command.writes_newline.cons
      (Command.writes_call m.1.method m.2 (h.modifiers m.1 m.2 (mem_modifiers.mp hm)))
  have hchain := Command.writes_flatMap d.modifiers _ _ hmodifier
  have hrest := Command.writes_nested (hchain.append (Command.writes_write ";"))
  have hall := Command.writes_newline.cons ((Command.writes_write "$table").cons
    ((Command.writes_call d.method d.args h.args).cons hrest))
  intro s
  simpa only [commands, source, callSource, String.append_assoc] using hall s

end ColumnDefinition

namespace IndexDefinition

def asCall (d : IndexDefinition) : ColumnDefinition :=
  { method := d.method, args := [.list (d.columns.map .string)] }

theorem written_asCall (d : IndexDefinition) : d.asCall.Written := by
  refine ⟨?_, ?_⟩
  · intro l hl
    rw [List.mem_singleton.mp hl]
    exact (Literal.plain_names d.columns).written
  · intro k args h
    cases h

def source (d : IndexDefinition) (depth w : Nat) : String :=
  Script.lineStart (depth * w) ++ callSource d.method [.list (d.columns.map .string)] ++ ";"

theorem modifiers_asCall (d : IndexDefinition) : d.asCall.modifiers = [] := by
  simp [ColumnDefinition.modifiers, asCall]

/-- The statement of an index has the form of a call. -/
theorem source_asCall (d : IndexDefinition) : d.asCall.source = d.source := by
  funext depth w
  rw [ColumnDefinition.source, modifiers_asCall]
  simp [source, asCall]

theorem writes (d : IndexDefinition) : Command.Writes d.commands d.source := by
  have hplain : ∀ l ∈ [Literal.list (d.columns.map .string)], l.Written := d.written_asCall.args
  have hall := Command.writes_newline.cons ((Command.writes_write "$table").cons
    ((Command.writes_call d.method _ hplain).cons (Command.writes_write ";")))
  intro s
  simpa only [commands, source, callSource, String.append_assoc] using hall s

end IndexDefinition

def createSource (name : String) (columns : List ColumnDefinition)
    (indices : List IndexDefinition) (depth w : Nat) : String :=
  "Schema::create(" ++ singleQuoted name ++ ", function (Blueprint $table) \x7b" ++
    (String.join (columns.map (·.source (depth + 1) w)) ++
      String.join (indices.map (·.source (depth + 1) w))) ++
    Script.lineStart (depth * w) ++ "\x7d);"

/-- A table is written as a block of its statements. -/
theorem writes_createCommands (name : String) (columns : List ColumnDefinition)
    (indices : List IndexDefinition) (h : ∀ d ∈ columns, d.Written) :
    Command.Writes (createCommands name columns indices) fun depth w =>
      Script.lineStart (depth * w) ++ createSource name columns indices depth w := by
  have hcolumns := Command.writes_flatMap columns (·.commands) (·.source) fun d hd => (h d hd).writes
  have hindices := Command.writes_flatMap indices (·.commands) (·.source) fun d _ => d.writes
  have hblock := Command.writes_newline.cons (Command.writes_block
    ("Schema::create(" ++ singleQuoted name ++ ", function (Blueprint $table) \x7b") "\x7d);"
    (hcolumns.append hindices))
  intro s
  exact hblock s

def dropSource (name : String) : String :=
  "Schema::drop(" ++ singleQuoted name ++ ");"

theorem writes_dropCommands (name : String) :
    Command.Writes (dropCommands name) fun depth w =>
      Script.lineStart (depth * w) ++ dropSource name :=
  Command.writes_newline.cons (Command.writes_write (dropSource name))

end SchemaMigration
