import SchemaMigration.Proofs.StatementReading

namespace SchemaMigration

/-- Where a scan of source text stands: outside of all literals, inside of one that a quote opened,
or there behind a backslash, which takes the next character with it. -/
inductive ScanState where
  | code
  | inside (quote : Char)
  | taking (quote : Char)
  deriving DecidableEq, Repr

namespace ScanState

def next : ScanState → Char → ScanState
  | code, c => if c = '"' ∨ c = '\'' then inside c else code
  | inside quote, c =>
    if c = quote then code else if c = '\\' then taking quote else inside quote
  | taking quote, _ => inside quote

def keeps : ScanState → Char → Bool
  -- The quotes around a literal are kept.
  | code, _ => true
  | inside quote, c => c == quote
  | taking _, _ => false

def after (s : ScanState) (cs : List Char) : ScanState :=
  cs.foldl next s

def outline : ScanState → List Char → List Char
  | _, [] => []
  | s, c :: cs => if s.keeps c then c :: (s.next c).outline cs else (s.next c).outline cs

/-- A text leads from a state to a state and has an outline, and each `$` that it has between
double quotes is taken by a backslash. -/
structure Scans (s : ScanState) (cs : List Char) (s' : ScanState) (out : List Char) : Prop where
  after_eq : s.after cs = s'
  outline_eq : s.outline cs = out
  dollars : ∀ before behind, cs = before ++ '$' :: behind → s.after before ≠ inside '"'

theorem scans_nil (s : ScanState) : Scans s [] s [] where
  after_eq := rfl
  outline_eq := rfl
  dollars := by
    intro before behind h
    simp at h

theorem Scans.cons {s s₁ s' : ScanState} {c : Char} {cs out : List Char}
    (hnext : s.next c = s₁) (hc : c = '$' → s ≠ inside '"') (h : Scans s₁ cs s' out) :
    Scans s (c :: cs) s' (if s.keeps c then c :: out else out) := by
  subst hnext
  refine ⟨h.after_eq, by rw [outline, h.outline_eq], ?_⟩
  intro before behind hsplit
  cases before with
  | nil => exact hc (List.cons.inj hsplit).1
  | cons d before =>
    obtain ⟨rfl, hrest⟩ := List.cons.inj hsplit
    exact h.dollars before behind hrest

theorem Scans.keep {s s₁ s' : ScanState} {c : Char} {cs out : List Char}
    (hkeeps : s.keeps c = true) (hnext : s.next c = s₁) (hc : c = '$' → s ≠ inside '"')
    (h : Scans s₁ cs s' out) : Scans s (c :: cs) s' (c :: out) := by
  simpa [hkeeps] using Scans.cons hnext hc h

theorem Scans.drop {s s₁ s' : ScanState} {c : Char} {cs out : List Char}
    (hkeeps : s.keeps c = false) (hnext : s.next c = s₁) (hc : c = '$' → s ≠ inside '"')
    (h : Scans s₁ cs s' out) : Scans s (c :: cs) s' out := by
  simpa [hkeeps] using Scans.cons hnext hc h

theorem Scans.append {s s' s'' : ScanState} {cs ds out out' : List Char}
    (h : Scans s cs s' out) (h' : Scans s' ds s'' out') : Scans s (cs ++ ds) s'' (out ++ out') := by
  obtain ⟨rfl, rfl, hdollars⟩ := h
  induction cs generalizing s with
  | nil => exact h'
  | cons c cs ih =>
    have hrest : Scans (s.next c) (cs ++ ds) s'' ((s.next c).outline cs ++ out') := by
      apply ih _ h'
      intro before behind hsplit
      exact hdollars (c :: before) behind (by rw [hsplit]; rfl)
    have hc : c = '$' → s ≠ inside '"' := by
      rintro rfl
      exact hdollars [] cs rfl
    rw [outline]
    split
    case isTrue hkeeps => exact hrest.keep hkeeps rfl hc
    case isFalse hkeeps => exact hrest.drop (Bool.eq_false_iff.mpr hkeeps) rfl hc

/-- Outside of literals, a text without quotes is kept as it is. -/
theorem scans_code {cs : List Char} (h : ∀ c ∈ cs, c ≠ '"' ∧ c ≠ '\'') :
    Scans code cs code cs := by
  induction cs with
  | nil => exact scans_nil code
  | cons c cs ih =>
    have hnext : code.next c = code := by
      obtain ⟨hdouble, hsingle⟩ := h c List.mem_cons_self
      rw [next, if_neg (by simp [hdouble, hsingle])]
    exact (ih fun d hd => h d (List.mem_cons_of_mem c hd)).keep rfl hnext
      fun _ => ScanState.noConfusion

/-- Behind a backslash any character is passed over, a quote or a `$` too. -/
theorem scans_taking {quote : Char} (hquote : quote ≠ '\\') (c : Char) :
    Scans (inside quote) ['\\', c] (inside quote) [] := by
  have hkeeps : (inside quote).keeps '\\' = false := by
    simpa [keeps] using hquote.symm
  have hnext : (inside quote).next '\\' = taking quote := by
    rw [next, if_neg hquote.symm, if_pos rfl]
  have hc : Scans (taking quote) [c] (inside quote) [] :=
    (scans_nil (inside quote)).drop rfl rfl fun _ => ScanState.noConfusion
  exact hc.drop hkeeps hnext fun h => absurd h (by decide)

/-- Inside of a literal, ordinary characters are passed over. -/
theorem scans_inside {quote : Char} {cs : List Char}
    (h : ∀ c ∈ cs, c ≠ quote ∧ c ≠ '\\' ∧ (c = '$' → quote ≠ '"')) :
    Scans (inside quote) cs (inside quote) [] := by
  induction cs with
  | nil => exact scans_nil (inside quote)
  | cons c cs ih =>
    obtain ⟨hquote, hslash, hdollar⟩ := h c List.mem_cons_self
    have hkeeps : (inside quote).keeps c = false := by
      simpa [keeps] using hquote
    have hnext : (inside quote).next c = inside quote := by
      rw [next, if_neg hquote, if_neg hslash]
    exact (ih fun d hd => h d (List.mem_cons_of_mem c hd)).drop hkeeps hnext
      fun hc hs => hdollar hc (inside.inj hs)

/-- A quoted text is reduced to its quotes, if each of its characters is written as something that
stays inside. -/
theorem scans_quoted {quote : Char} (hquote : quote = '"' ∨ quote = '\'')
    {escape : Char → List Char}
    (hescape : ∀ c, Scans (inside quote) (escape c) (inside quote) []) (cs : List Char) :
    Scans code (quote :: (cs.flatMap escape ++ [quote])) code [quote, quote] := by
  have hdollar : quote ≠ '$' := by
    rcases hquote with rfl | rfl <;> decide
  have hbody : Scans (inside quote) (cs.flatMap escape) (inside quote) [] := by
    induction cs with
    | nil => exact scans_nil (inside quote)
    | cons c cs ih => exact (hescape c).append ih
  have hclose : Scans (inside quote) [quote] code [quote] :=
    (scans_nil code).keep (by simp [keeps]) (by rw [next, if_pos rfl]) fun h => absurd h hdollar
  have hopen : code.next quote = inside quote := by
    rw [next, if_pos hquote]
  exact (hbody.append hclose).keep rfl hopen fun h => absurd h hdollar

theorem scans_digits {cs : List Char} (h : ∀ c ∈ cs, IsDigit c) :
    Scans (inside '"') cs (inside '"') [] := by
  apply scans_inside
  intro c hc
  have hquote : c ≠ '"' := ne_of_kind (h c hc) (by decide)
  have hslash : c ≠ '\\' := ne_of_kind (h c hc) (by decide)
  have hdollar : c ≠ '$' := ne_of_kind (h c hc) (by decide)
  exact ⟨hquote, hslash, fun h => absurd h hdollar⟩

/-- An escaped character does not end the literal, and a `$` is taken. -/
theorem scans_escapeDouble (c : Char) :
    Scans (inside '"') (escapeDouble c) (inside '"') [] := by
  have htaking : ∀ d, Scans (inside '"') ['\\', d] (inside '"') [] := scans_taking (by decide)
  have hdigits : ∀ n < 0x20,
      IsDigit (Nat.digitChar (n / 8)) ∧ IsDigit (Nat.digitChar (n % 8)) := by
    decide
  -- All but the last case start with a backslash, which takes the character behind it.
  unfold escapeDouble
  split_ifs with h1 h2 h3 h4 h5 h6 h7
  · exact htaking 'n'
  · exact htaking 'r'
  · exact htaking 't'
  · exact htaking 'v'
  · exact htaking 'f'
  · exact htaking c
  · rw [(octalDigits_of_lt c.toNat h7).1]
    obtain ⟨hfirst, hsecond⟩ := hdigits c.toNat h7
    apply (htaking '0').append
    apply scans_digits
    intro d hd
    rcases List.mem_cons.mp hd with rfl | hd
    · exact hfirst
    · rw [List.mem_singleton.mp hd]
      exact hsecond
  · apply scans_inside
    intro d hd
    rw [List.mem_singleton.mp hd]
    simp only [List.mem_cons, not_or] at h6
    exact ⟨h6.1, h6.2.1, fun hdollar => absurd hdollar h6.2.2.1⟩

theorem scans_escapeSingle (c : Char) :
    Scans (inside '\'') (escapeSingle c) (inside '\'') [] := by
  unfold escapeSingle
  split
  case isTrue => exact scans_taking (by decide) c
  case isFalse h =>
    apply scans_inside
    intro d hd
    rw [List.mem_singleton.mp hd]
    simp only [not_or] at h
    exact ⟨h.1, h.2, fun _ => by decide⟩

end ScanState

open ScanState

def isBare (text : String) : Bool :=
  text.toList.all fun c => c != '"' && c != '\''

def ReducesTo (text bare : String) : Prop :=
  ScanState.code.Scans text.toList .code bare.toList

theorem ReducesTo.append {a a' b b' : String} (h : ReducesTo a a') (h' : ReducesTo b b') :
    ReducesTo (a ++ b) (a' ++ b') := by
  unfold ReducesTo
  rw [String.toList_append, String.toList_append]
  exact Scans.append h h'

/-- A text of characters of one kind is kept if no quote is of that kind. -/
theorem reducesTo_of_kind {p : Char → Prop} {text : String} (h : ∀ c ∈ text.toList, p c)
    (hdouble : ¬p '"') (hsingle : ¬p '\'') : ReducesTo text text := by
  apply scans_code
  intro c hc
  exact ⟨ne_of_kind (h c hc) hdouble, ne_of_kind (h c hc) hsingle⟩

/-- A text without quotes stays. -/
theorem reducesTo_bare {text : String} (h : isBare text = true) : ReducesTo text text := by
  apply scans_code
  intro c hc
  have hbare := List.all_eq_true.mp h c hc
  simpa using hbare

theorem reducesTo_join {α : Type} {xs : List α} {text bare : α → String}
    (h : ∀ x ∈ xs, ReducesTo (text x) (bare x)) :
    ReducesTo (String.join (xs.map text)) (String.join (xs.map bare)) := by
  induction xs with
  | nil => exact scans_nil code
  | cons x xs ih =>
    rw [List.map_cons, List.map_cons, String.join_cons, String.join_cons]
    exact (h x List.mem_cons_self).append (ih fun y hy => h y (List.mem_cons_of_mem x hy))

/-- Of a quoted text the two quotes are left. -/
theorem reducesTo_doubleQuoted (s : String) : ReducesTo (doubleQuoted s) (doubleQuoted "") := by
  unfold ReducesTo
  rw [toList_doubleQuoted, toList_doubleQuoted]
  exact scans_quoted (Or.inl rfl) scans_escapeDouble s.toList

theorem reducesTo_singleQuoted (s : String) : ReducesTo (singleQuoted s) (singleQuoted "") := by
  unfold ReducesTo
  rw [toList_singleQuoted, toList_singleQuoted]
  exact scans_quoted (Or.inr rfl) scans_escapeSingle s.toList

theorem reducesTo_word {s : String} (h : isWord s = true) : ReducesTo s s :=
  reducesTo_of_kind (isLetter_of_isWord h) (by decide) (by decide)

theorem reducesTo_int64Text (n : Int64) : ReducesTo (int64Text n) (int64Text n) :=
  reducesTo_of_kind (fun _ => kind_of_mem_int64Text) (by decide) (by decide)

theorem reducesTo_lineStart (blanks : Nat) :
    ReducesTo (Script.lineStart blanks) (Script.lineStart blanks) := by
  have hkind : ∀ c ∈ (Script.lineStart blanks).toList, c = '\n' ∨ c = ' ' := by
    intro c hc
    rw [Script.lineStart, String.toList_ofList] at hc
    exact (List.mem_cons.mp hc).imp id List.eq_of_mem_replicate
  exact reducesTo_of_kind hkind (by decide) (by decide)

namespace Literal

mutual

def blank : Literal → Literal
  | string _ => string ""
  | list items => list (blankItems items)
  | int n => int n
  | raw source => raw source
  | bool b => bool b
  | null => null

def blankItems : List Literal → List Literal
  | [] => []
  | item :: rest => item.blank :: blankItems rest

end

theorem blankItems_eq_map (items : List Literal) : blankItems items = items.map blank := by
  induction items with
  | nil => rfl
  | cons item rest ih => rw [blankItems, ih, List.map_cons]

theorem Plain.blank {l : Literal} (h : l.Plain) : l.blank.Plain := by
  induction h with
  | string s => exact .string ""
  | int n => exact .int n
  | list items _ ih =>
    rw [Literal.blank, blankItems_eq_map]
    apply Plain.list
    intro l hl
    obtain ⟨l', hl', rfl⟩ := List.mem_map.mp hl
    exact ih l' hl'

theorem reducesTo_restSource {items : List Literal}
    (h : ∀ l ∈ items, ReducesTo l.source l.blank.source) :
    ReducesTo (restSource items) (restSource (items.map blank)) := by
  induction items with
  | nil => exact scans_nil code
  | cons item rest ih =>
    have hcomma : ReducesTo ", " ", " := reducesTo_bare (by decide +kernel)
    have hrest := ih fun l hl => h l (List.mem_cons_of_mem item hl)
    exact (hcomma.append (h item List.mem_cons_self)).append hrest

theorem reducesTo_itemsSource {items : List Literal}
    (h : ∀ l ∈ items, ReducesTo l.source l.blank.source) :
    ReducesTo (itemsSource items) (itemsSource (items.map blank)) := by
  cases items with
  | nil => exact scans_nil code
  | cons item rest =>
    have hrest := reducesTo_restSource fun l hl => h l (List.mem_cons_of_mem item hl)
    exact (h item List.mem_cons_self).append hrest

/-- A literal reduces to its blank, list by list. -/
theorem Plain.reducesTo {l : Literal} (h : l.Plain) : ReducesTo l.source l.blank.source := by
  induction h with
  | string s => exact reducesTo_doubleQuoted s
  | int n => exact reducesTo_int64Text n
  | list items _ ih =>
    have hopen : ReducesTo "[" "[" := reducesTo_bare (by decide +kernel)
    have hclose : ReducesTo "]" "]" := reducesTo_bare (by decide +kernel)
    rw [Literal.blank, blankItems_eq_map]
    exact (hopen.append (reducesTo_itemsSource ih)).append hclose

end Literal

theorem reducesTo_callText {method : String} {args : List Literal} (hm : isWord method = true)
    (hargs : ∀ l ∈ args, l.Plain) :
    ReducesTo (Script.callText method (args.map Literal.source))
      (Script.callText method ((args.map Literal.blank).map Literal.source)) := by
  have harrow : ReducesTo "->" "->" := reducesTo_bare (by decide +kernel)
  have hopen : ReducesTo "(" "(" := reducesTo_bare (by decide +kernel)
  have hclose : ReducesTo ")" ")" := reducesTo_bare (by decide +kernel)
  have hitems := Literal.reducesTo_itemsSource fun l hl => (hargs l hl).reducesTo
  rw [Script.callText, Script.callText, ← Literal.itemsSource_eq_intercalate,
    ← Literal.itemsSource_eq_intercalate]
  exact (((harrow.append (reducesTo_word hm)).append hopen).append hitems).append hclose

namespace ColumnDefinition

def blank (d : ColumnDefinition) : ColumnDefinition where
  method := d.method
  args := d.args.map Literal.blank
  modifier? := fun k => (d.modifier? k).map fun args => args.map Literal.blank

theorem modifiers_blank (d : ColumnDefinition) :
    d.blank.modifiers = d.modifiers.map fun m => (m.1, m.2.map Literal.blank) := by
  unfold modifiers
  rw [List.map_filterMap]
  congr 1
  funext k
  rw [blank, Option.map_map, Option.map_map]
  rfl

theorem Readable.blank {d : ColumnDefinition} (h : d.Readable) : d.blank.Readable where
  method := h.method
  args := by
    intro l hl
    obtain ⟨l', hl', rfl⟩ := List.mem_map.mp hl
    exact (h.args l' hl').blank
  modifiers := by
    intro m hm l hl
    rw [modifiers_blank] at hm
    obtain ⟨m', hm', rfl⟩ := List.mem_map.mp hm
    obtain ⟨l', hl', rfl⟩ := List.mem_map.mp hl
    exact (h.modifiers m' hm' l' hl').blank

theorem Readable.written {d : ColumnDefinition} (h : d.Readable) : d.Written where
  args := fun l hl => (h.args l hl).written
  modifiers := fun k args hargs l hl =>
    (h.modifiers (k, args) (mem_modifiers.mpr hargs) l hl).written

/-- A declaration reduces to the one with all texts blank. -/
theorem Readable.reducesTo {d : ColumnDefinition} (h : d.Readable) (depth w : Nat) :
    ReducesTo (d.source depth w) (d.blank.source depth w) := by
  have htable : ReducesTo "$table" "$table" := reducesTo_bare (by decide +kernel)
  have hend : ReducesTo ";" ";" := reducesTo_bare (by decide +kernel)
  have hcall := htable.append (reducesTo_callText h.method h.args)
  have hchain : ReducesTo (String.join (d.modifiers.map (modifierSource (depth + 1) w)))
      (String.join (d.blank.modifiers.map (modifierSource (depth + 1) w))) := by
    rw [modifiers_blank, List.map_map]
    apply reducesTo_join
    intro m hm
    exact (reducesTo_lineStart _).append
      (reducesTo_callText (isWord_modifier m.1) (h.modifiers m hm))
  exact (((reducesTo_lineStart _).append hcall).append hchain).append hend

end ColumnDefinition

namespace IndexDefinition

def blank (d : IndexDefinition) : IndexDefinition where
  method := d.method
  columns := d.columns.map fun _ => ""

theorem blank_asCall (d : IndexDefinition) : d.asCall.blank = d.blank.asCall := by
  have hnames : (d.columns.map Literal.string).map Literal.blank =
      (d.columns.map fun _ => "").map Literal.string := by
    rw [List.map_map, List.map_map]
    rfl
  simp [asCall, blank, ColumnDefinition.blank, Literal.blank, Literal.blankItems_eq_map, hnames]

theorem reducesTo {d : IndexDefinition} (h : isWord d.method = true) (depth w : Nat) :
    ReducesTo (d.source depth w) (d.blank.source depth w) := by
  rw [← source_asCall, ← source_asCall, ← blank_asCall]
  exact (readable_asCall h).reducesTo depth w

end IndexDefinition

/-- The statement that creates a table is reduced to the one with nothing in its texts. -/
theorem reducesTo_createSource (name : String) {columns : List ColumnDefinition}
    {indices : List IndexDefinition} (hcolumns : ∀ d ∈ columns, d.Readable)
    (hindices : ∀ d ∈ indices, isWord d.method = true) (depth w : Nat) :
    ReducesTo (createSource name columns indices depth w)
      (createSource "" (columns.map (·.blank)) (indices.map (·.blank)) depth w) := by
  have hopen : ReducesTo "Schema::create(" "Schema::create(" := reducesTo_bare (by decide +kernel)
  have hbrace :
      ReducesTo ", function (Blueprint $table) \x7b" ", function (Blueprint $table) \x7b" :=
    reducesTo_bare (by decide +kernel)
  have hclose : ReducesTo "\x7d);" "\x7d);" := reducesTo_bare (by decide +kernel)
  have hcs := reducesTo_join fun d hd => (hcolumns d hd).reducesTo (depth + 1) w
  have his := reducesTo_join fun d hd => IndexDefinition.reducesTo (hindices d hd) (depth + 1) w
  unfold createSource
  rw [List.map_map, List.map_map]
  exact ((((hopen.append (reducesTo_singleQuoted name)).append hbrace).append
    (hcs.append his)).append (reducesTo_lineStart _)).append hclose

namespace Table

/-- No text of a table without default values reaches out of its literal. Without what lies inside
of literals, the code is what is written for the same declarations with nothing in their texts; a
scan ends outside of literals; and a `$` between double quotes is always taken by a backslash. -/
theorem outline_of_render_eq (w : Nat) (t : Table) (code : String) (h : t.render w = .ok code)
    (hdefaults : ∀ c ∈ t.columns, c.defaultText? = none) :
    ∃ columns indices,
      (t.columns.mapM t.columnDefinition = .ok columns ∧
        t.tableIndices.mapM t.indexDefinition = .ok indices) ∧
      Command.runAll (createCommands "" (columns.map (·.blank)) (indices.map (·.blank)))
          { indentWidth := w } =
        (.ok (), { text := "\n" ++ String.ofList (ScanState.code.outline code.toList)
                   indentWidth := w }) ∧
      ScanState.code.after code.toList = .code ∧
      ∀ before behind, code.toList = before ++ '$' :: behind →
        ScanState.code.after before ≠ .inside '"' := by
  obtain ⟨columns, indices, hdefs, rfl, hcolumns, hindices⟩ := readable_of_render_eq_ok h hdefaults
  have hreadable : ∀ d ∈ columns, d.Readable := fun d hd => (hcolumns d hd).1
  have hscan := reducesTo_createSource t.name hreadable hindices 0 w
  refine ⟨columns, indices, definitions_eq_ok_iff.mp hdefs, ?_, hscan.after_eq, hscan.dollars⟩
  have hwritten : ∀ d ∈ columns.map (·.blank), d.Written := by
    intro d hd
    obtain ⟨d', hd', rfl⟩ := List.mem_map.mp hd
    exact (hreadable d' hd').blank.written
  have hstart : Script.lineStart 0 = "\n" := by decide
  rw [writes_createCommands "" _ (indices.map (·.blank)) hwritten, hscan.outline_eq]
  simp only [Script.write, Nat.zero_mul, String.empty_append, hstart, String.ofList_toList]

/-- The texts of this table have quotes, a backslash and a `$` in them. -/
theorem outline_quoting :
    (quoting "s").render 0 = .ok quotingCode ∧
      ∃ columns indices,
        ((quoting "s").columns.mapM (quoting "s").columnDefinition = .ok columns ∧
          (quoting "s").tableIndices.mapM (quoting "s").indexDefinition = .ok indices) ∧
        Command.runAll (createCommands "" (columns.map (·.blank)) (indices.map (·.blank)))
            { indentWidth := 0 } =
          (.ok (), { text := "\n" ++ String.ofList (ScanState.code.outline quotingCode.toList)
                     indentWidth := 0 }) ∧
        ScanState.code.after quotingCode.toList = .code ∧
        ∀ before behind, quotingCode.toList = before ++ '$' :: behind →
          ScanState.code.after before ≠ .inside '"' := by
  have hs : (quoting "s").render 0 = .ok quotingCode := render_quoting rfl
  exact ⟨hs, outline_of_render_eq 0 (quoting "s") quotingCode hs (by decide)⟩

end Table

end SchemaMigration
