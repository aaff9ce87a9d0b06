/-!
The tokens of a settings text. Blanks and comments separate tokens and are none themselves; the
string forms are those of TOML.
-/

namespace SchemaMigration

/-- A token. A string that may span lines is told apart, for it cannot be a key. -/
inductive Token where
  | word (s : List Char)
  | text (s : List Char) (multiline : Bool)
  | equals
  | comma
  | openList
  | closeList
  | newline
  deriving DecidableEq, Repr

namespace Token

def isInlineBlank (c : Char) : Bool :=
  c = ' ' || c = '\t'

def isPrintable (c : Char) : Bool :=
  -- A tab, or no control character of ASCII.
  c = '\t' || (0x20 ≤ c.toNat && c.toNat ≠ 0x7F)

def isWordChar (c : Char) : Bool :=
  c.isAlphanum || c = '_' || c = '-' || c = '+'

def startsWithNewline : List Char → Bool
  | '\n' :: _ => true
  | '\r' :: '\n' :: _ => true
  | _ => false

def dropNewline : List Char → List Char
  | '\n' :: cs => cs
  | '\r' :: '\n' :: cs => cs
  | cs => cs

def escape? : Char → Option Char
  | 'b' => some '\x08'
  | 't' => some '\t'
  | 'n' => some '\n'
  | 'f' => some '\x0c'
  | 'r' => some '\r'
  | '"' => some '"'
  | '\\' => some '\\'
  | _ => none

def digit? (base : Nat) (c : Char) : Option Nat :=
  let value :=
    if c.isDigit then some (c.toNat - '0'.toNat)
    else if 'a' ≤ c ∧ c ≤ 'f' then some (c.toNat - 'a'.toNat + 10)
    else if 'A' ≤ c ∧ c ≤ 'F' then some (c.toNat - 'A'.toNat + 10)
    else none
  value.filter (· < base)

def number? (base : Nat) (ds : List Char) : Option Nat :=
  (ds.mapM (digit? base)).map (·.foldl (fun n d => n * base + d) 0)

def unicode? (ds : List Char) : Option Char := do
  let n ← number? 16 ds
  if n.isValidChar then some (Char.ofNat n) else none

def prepend (x : Option Char) (read : Option (List Char × List Char)) :
    Option (List Char × List Char) :=
  match x, read with
  | some x, some (s, rest) => some (x :: s, rest)
  | _, _ => none

theorem exists_of_prepend_eq_some {x : Option Char} {read : Option (List Char × List Char)}
    {s rest : List Char} (h : prepend x read = some (s, rest)) :
    ∃ s', read = some (s', rest) := by
  unfold prepend at h
  split at h
  · cases h
    exact ⟨_, rfl⟩
  · cases h

def basicText : List Char → Option (List Char × List Char)
  | '"' :: cs => some ([], cs)
  | '\\' :: 'u' :: a :: b :: c :: d :: cs => prepend (unicode? [a, b, c, d]) (basicText cs)
  | '\\' :: 'U' :: a :: b :: c :: d :: e :: f :: g :: h :: cs =>
    prepend (unicode? [a, b, c, d, e, f, g, h]) (basicText cs)
  | '\\' :: c :: cs => prepend (escape? c) (basicText cs)
  | c :: cs =>
    if isPrintable c ∧ c ≠ '\\' then prepend (some c) (basicText cs) else none
  | [] => none

/-- A string over several lines, up to its three closing double quotes; one or two more before them
belong to it. While `skipping`, blanks and line ends are left out; a backslash at the end of a
line starts that. -/
def basicBlock : Bool → List Char → Option (List Char × List Char)
  | true, ' ' :: cs => basicBlock true cs
  | true, '\t' :: cs => basicBlock true cs
  | true, '\n' :: cs => basicBlock true cs
  | true, '\r' :: '\n' :: cs => basicBlock true cs
  -- Of three to five quotes the last three close the string.
  | _, '"' :: '"' :: '"' :: '"' :: '"' :: cs => some (['"', '"'], cs)
  | _, '"' :: '"' :: '"' :: '"' :: cs => some (['"'], cs)
  | _, '"' :: '"' :: '"' :: cs => some ([], cs)
  | _, '\\' :: 'u' :: a :: b :: c :: d :: cs =>
    prepend (unicode? [a, b, c, d]) (basicBlock false cs)
  | _, '\\' :: 'U' :: a :: b :: c :: d :: e :: f :: g :: h :: cs =>
    prepend (unicode? [a, b, c, d, e, f, g, h]) (basicBlock false cs)
  | _, '\\' :: c :: cs =>
    -- Blanks may stand between the backslash and the end of its line.
    if startsWithNewline ((c :: cs).dropWhile isInlineBlank) then basicBlock true (c :: cs)
    else prepend (escape? c) (basicBlock false cs)
  | _, '\r' :: '\n' :: cs => prepend (some '\n') (basicBlock false cs)
  | _, c :: cs =>
    if (isPrintable c ∨ c = '\n') ∧ c ≠ '\\' then prepend (some c) (basicBlock false cs)
    else none
  | _, [] => none

def literalText : List Char → Option (List Char × List Char)
  | '\'' :: cs => some ([], cs)
  | c :: cs => if isPrintable c then prepend (some c) (literalText cs) else none
  | [] => none

def literalBlock : List Char → Option (List Char × List Char)
  | '\'' :: '\'' :: '\'' :: '\'' :: '\'' :: cs => some (['\'', '\''], cs)
  | '\'' :: '\'' :: '\'' :: '\'' :: cs => some (['\''], cs)
  | '\'' :: '\'' :: '\'' :: cs => some ([], cs)
  | '\r' :: '\n' :: cs => prepend (some '\n') (literalBlock cs)
  | c :: cs =>
    if isPrintable c ∨ c = '\n' then prepend (some c) (literalBlock cs) else none
  | [] => none

def textOf (multiline : Bool) :
    Option (List Char × List Char) → Option (Option Token × List Char)
  | some (s, rest) => some (some (text s multiline), rest)
  | none => none

theorem exists_of_textOf_eq_some {multiline : Bool} {read : Option (List Char × List Char)}
    {t : Option Token} {rest : List Char} (h : textOf multiline read = some (t, rest)) :
    ∃ s, read = some (s, rest) := by
  unfold textOf at h
  split at h
  · cases h
    exact ⟨_, rfl⟩
  · cases h

def next? : List Char → Option (Option Token × List Char)
  | '\n' :: cs => some (some newline, cs)
  | '\r' :: '\n' :: cs => some (some newline, cs)
  | '=' :: cs => some (some equals, cs)
  | ',' :: cs => some (some comma, cs)
  | '[' :: cs => some (some openList, cs)
  | ']' :: cs => some (some closeList, cs)
  | '#' :: cs => some (none, cs.dropWhile isPrintable)
  | '"' :: '"' :: '"' :: cs =>
    textOf true (basicBlock false (dropNewline cs))
  | '"' :: cs => textOf false (basicText cs)
  | '\'' :: '\'' :: '\'' :: cs =>
    textOf true (literalBlock (dropNewline cs))
  | '\'' :: cs => textOf false (literalText cs)
  | c :: cs =>
    if isInlineBlank c then some (none, cs)
    else if isWordChar c then
      some (some (word (c :: cs.takeWhile isWordChar)), cs.dropWhile isWordChar)
    else none
  | [] => none

theorem length_dropNewline_le (cs : List Char) : (dropNewline cs).length ≤ cs.length := by
  fun_cases dropNewline cs <;> simp +arith

theorem length_basicText_lt {cs s rest : List Char} (h : basicText cs = some (s, rest)) :
    rest.length < cs.length := by
  fun_induction basicText cs generalizing s rest
  case case3 ih =>
    obtain ⟨s', hr⟩ := exists_of_prepend_eq_some h
    have := ih hr
    simp only [List.length_cons]
    omega
  all_goals grind [exists_of_prepend_eq_some]

theorem length_basicBlock_lt {skipping : Bool} {cs s rest : List Char}
    (h : basicBlock skipping cs = some (s, rest)) : rest.length < cs.length := by
  fun_induction basicBlock skipping cs generalizing s rest
  case case9 ih =>
    obtain ⟨s', hr⟩ := exists_of_prepend_eq_some h
    have := ih hr
    simp only [List.length_cons]
    omega
  all_goals grind [exists_of_prepend_eq_some]

theorem length_literalText_lt {cs s rest : List Char} (h : literalText cs = some (s, rest)) :
    rest.length < cs.length := by
  fun_induction literalText cs generalizing s rest <;> grind [exists_of_prepend_eq_some]

theorem length_literalBlock_lt {cs s rest : List Char} (h : literalBlock cs = some (s, rest)) :
    rest.length < cs.length := by
  fun_induction literalBlock cs generalizing s rest <;> grind [exists_of_prepend_eq_some]

/-- A step over a token, a blank or a comment consumes some of the text. -/
theorem length_next?_lt {cs rest : List Char} {t : Option Token} (h : next? cs = some (t, rest)) :
    rest.length < cs.length := by
  have drop (p : Char → Bool) (l : List Char) : (l.dropWhile p).length ≤ l.length :=
    (List.dropWhile_suffix p).length_le
  have basic (l s : List Char) (hl : basicBlock false (dropNewline l) = some (s, rest)) :
      rest.length < l.length :=
    Nat.lt_of_lt_of_le (length_basicBlock_lt hl) (length_dropNewline_le l)
  have literal (l s : List Char) (hl : literalBlock (dropNewline l) = some (s, rest)) :
      rest.length < l.length :=
    Nat.lt_of_lt_of_le (length_literalBlock_lt hl) (length_dropNewline_le l)
  unfold next? at h
  grind [exists_of_textOf_eq_some, length_basicText_lt, length_literalText_lt]

def scan (cs : List Char) : Option (List Token) :=
  if cs = [] then some []
  else
    match _h : next? cs with
    | none => none
    | some (t, rest) => (scan rest).map (t.toList ++ ·)
termination_by cs.length
decreasing_by exact length_next?_lt _h

end Token

end SchemaMigration
