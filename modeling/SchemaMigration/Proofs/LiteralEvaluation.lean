import SchemaMigration.Proofs.LiteralReading

/-!
The strings that PHP evaluates literals between double quotes to. Such a string is made of bytes,
and a literal with a variable in it has no fixed one. What is written for a text is evaluated to
that text, except that a brace keeps the backslash that is written before it: no escape of PHP
stands for a brace.
-/

namespace SchemaMigration

def codePointBytes (n : Nat) : List UInt8 :=
  -- An escape can name code points that are no characters, such as surrogates.
  if n ≤ 0x7f then [.ofNat n]
  else if n ≤ 0x7ff then [.ofNat (n / 64 % 32 + 0xc0), .ofNat (n % 64 + 0x80)]
  else if n ≤ 0xffff then
    [.ofNat (n / 4096 % 16 + 0xe0), .ofNat (n / 64 % 64 + 0x80), .ofNat (n % 64 + 0x80)]
  else
    [.ofNat (n / 262144 % 8 + 0xf0), .ofNat (n / 4096 % 64 + 0x80), .ofNat (n / 64 % 64 + 0x80),
      .ofNat (n % 64 + 0x80)]

def charBytes (cs : List Char) : List UInt8 :=
  cs.flatMap fun c => codePointBytes c.toNat

def digitValue? (base : Nat) (c : Char) : Option Nat :=
  let value? :=
    if '0' ≤ c ∧ c ≤ '9' then some (c.toNat - '0'.toNat)
    else if 'a' ≤ c ∧ c ≤ 'f' then some (c.toNat - 'a'.toNat + 10)
    else if 'A' ≤ c ∧ c ≤ 'F' then some (c.toNat - 'A'.toNat + 10)
    else none
  value?.filter (· < base)

def leadingDigits (base limit : Nat) (cs : List Char) : List Char :=
  (cs.take limit).takeWhile fun c => (digitValue? base c).isSome

def digitsValue (base : Nat) (ds : List Char) : Nat :=
  ds.foldl (fun n c => base * n + (digitValue? base c).getD 0) 0

/-- The byte that the digits at the front of a text denote, and what follows them. Numbers that are
too large for a byte wrap around. -/
def evaluateByte (base limit : Nat) (cs : List Char) : Option (List UInt8 × List Char) :=
  let digits := leadingDigits base limit cs
  if digits = [] then none
  else some ([.ofNat (digitsValue base digits)], cs.drop digits.length)

def evaluateCodePoint (cs : List Char) : Option (List UInt8 × List Char) :=
  let digits := leadingDigits 16 cs.length cs
  let rest := cs.drop digits.length
  if digits ≠ [] ∧ digitsValue 16 digits ≤ 0x10ffff ∧ rest.head? = some '}' then
    some (codePointBytes (digitsValue 16 digits), rest.tail)
  else none

def shortEscapes : List (Char × Char) :=
  [('n', '\n'), ('r', '\r'), ('t', '\t'), ('v', '\x0b'), ('e', '\x1b'), ('f', '\x0c'),
    ('\\', '\\'), ('$', '$'), ('"', '"')]

/-- The bytes of an escape from behind its backslash, and what follows it. A backslash that no
escape starts with stands for itself, and so does the character behind it. -/
def evaluateEscape : List Char → Option (List UInt8 × List Char)
  | [] => none
  | c :: cs =>
    match shortEscapes.lookup c with
    | some d => some (charBytes [d], cs)
    | none =>
      if c = 'u' ∧ cs.head? = some '{' then evaluateCodePoint cs.tail
      else
        (if c = 'x' then evaluateByte 16 2 cs else evaluateByte 8 3 (c :: cs)).or
          (some (charBytes ['\\', c], cs))

/-- Whether a variable starts with a character: with a `$` that a name or a brace follows, or with a
brace that a `$` follows. -/
def startsVariable : Char → List Char → Bool
  | '$', c :: _ => c = '{' || c = '_' || c.isAlpha || 0x80 ≤ c.toNat
  | '{', c :: _ => c = '$'
  | _, _ => false

theorem length_evaluateByte_lt {base limit : Nat} {cs rest : List Char} {bytes : List UInt8}
    (h : evaluateByte base limit cs = some (bytes, rest)) : rest.length < cs.length := by
  simp only [evaluateByte] at h
  split at h
  case isTrue => cases h
  case isFalse hdigits =>
    cases h
    have hprefix : leadingDigits base limit cs <+: cs :=
      (List.takeWhile_prefix _).trans (List.take_prefix limit cs)
    have hle := hprefix.length_le
    have hpos := List.length_pos_iff.mpr hdigits
    simp only [List.length_drop]
    omega

theorem length_evaluateCodePoint_le {cs rest : List Char} {bytes : List UInt8}
    (h : evaluateCodePoint cs = some (bytes, rest)) : rest.length ≤ cs.length := by
  simp only [evaluateCodePoint] at h
  split at h
  case isTrue =>
    cases h
    simp only [List.length_tail, List.length_drop]
    omega
  case isFalse => cases h

theorem length_evaluateEscape_lt {cs rest : List Char} {bytes : List UInt8}
    (h : evaluateEscape cs = some (bytes, rest)) : rest.length < cs.length := by
  cases cs with
  | nil => cases h
  | cons c cs =>
    rw [List.length_cons]
    simp only [evaluateEscape] at h
    split at h
    case h_1 =>
      cases h
      exact Nat.lt_succ_self _
    case h_2 =>
      split at h
      case isTrue =>
        have hle := length_evaluateCodePoint_le h
        rw [List.length_tail] at hle
        omega
      case isFalse =>
        rcases Option.or_eq_some_iff.mp h with h | ⟨_, h⟩
        · split at h
          · have hlt := length_evaluateByte_lt h
            omega
          · exact length_evaluateByte_lt h
        · cases h
          exact Nat.lt_succ_self _

/-- The bytes of a literal from behind its opening quote, if its closing quote ends the text and no
variable stands in it. -/
def evaluateInside : List Char → Option (List UInt8)
  | [] => none
  | c :: cs =>
    if c = '"' then if cs = [] then some [] else none
    else if c = '\\' then
      match _h : evaluateEscape cs with
      | some (bytes, rest) => (evaluateInside rest).map (bytes ++ ·)
      | none => none
    else if startsVariable c cs then none
    else (evaluateInside cs).map (codePointBytes c.toNat ++ ·)
termination_by cs => cs.length
decreasing_by
  · have hlt := length_evaluateEscape_lt ‹_›
    simp only [List.length_cons]
    omega
  · exact Nat.lt_succ_self _

def evaluateDoubleQuoted (source : String) : Option ByteArray :=
  match source.toList with
  | '"' :: cs => (evaluateInside cs).map (·.toByteArray)
  | _ => none

/-- The bytes of characters are those that their text has in UTF-8. -/
theorem toByteArray_charBytes (cs : List Char) :
    (charBytes cs).toByteArray = (String.ofList cs).toUTF8 := by
  rfl

/-- An escape sequence gives its bytes, and the text behind it is evaluated next. -/
theorem evaluateInside_escape {cs rest : List Char} {bytes : List UInt8}
    (h : evaluateEscape cs = some (bytes, rest)) :
    evaluateInside ('\\' :: cs) = (evaluateInside rest).map (bytes ++ ·) := by
  rw [evaluateInside, if_neg (by decide), if_pos rfl]
  split
  case h_1 bytes' rest' h' =>
    rw [h] at h'
    cases h'
    rfl
  case h_2 h' =>
    rw [h] at h'
    cases h'

/-- A short escape stands for its character. -/
theorem evaluateInside_short {c d : Char} (h : shortEscapes.lookup c = some d) (cs : List Char) :
    evaluateInside ('\\' :: c :: cs) = (evaluateInside cs).map (charBytes [d] ++ ·) := by
  apply evaluateInside_escape
  simp only [evaluateEscape, h]

/-- A backslash before a character that no escape starts with stands for itself. -/
theorem evaluateInside_brace {c : Char} (h : c = '{' ∨ c = '}') (cs : List Char) :
    evaluateInside ('\\' :: c :: cs) = (evaluateInside cs).map (charBytes ['\\', c] ++ ·) := by
  apply evaluateInside_escape
  rcases h with rfl | rfl <;> rfl

/-- Three octal digits are read to their end, whatever follows them. -/
theorem evaluateByte_octal {n : Nat} (h : n < 0x20) (cs : List Char) :
    evaluateByte 8 3 (octalDigits n ++ cs) = some ([.ofNat n], cs) := by
  have hdigits : ∀ n < 0x20, leadingDigits 8 3 (octalDigits n) = octalDigits n ∧
      digitsValue 8 (octalDigits n) = n := by
    decide
  obtain ⟨hall, hvalue⟩ := hdigits n h
  have hleading : leadingDigits 8 3 (octalDigits n ++ cs) = octalDigits n :=
    calc leadingDigits 8 3 (octalDigits n ++ cs) = leadingDigits 8 3 (octalDigits n) := rfl
      _ = octalDigits n := hall
  have hnil : octalDigits n ≠ [] := by simp [octalDigits]
  simp only [evaluateByte, hleading, if_neg hnil, hvalue, List.drop_left]

/-- A control character is one byte, whatever follows its octal digits. -/
theorem evaluateInside_octal {n : Nat} (h : n < 0x20) (cs : List Char) :
    evaluateInside ('\\' :: (octalDigits n ++ cs)) =
      (evaluateInside cs).map ([.ofNat n] ++ ·) := by
  have hzero : octalDigits n ++ cs =
      '0' :: Nat.digitChar (n / 8) :: Nat.digitChar (n % 8) :: cs := by
    rw [(octalDigits_of_lt n h).1]
    rfl
  have hbyte := evaluateByte_octal h cs
  rw [hzero] at hbyte ⊢
  apply evaluateInside_escape
  -- The first digit is zero, which starts neither a short escape nor a hexadecimal one.
  have hshort : shortEscapes.lookup '0' = none := by decide
  have hu : ('0' : Char) ≠ 'u' := by decide
  have hx : ('0' : Char) ≠ 'x' := by decide
  simp only [evaluateEscape, hshort, hu, hx, false_and, if_false, hbyte, Option.some_or]

def slashBrace (c : Char) : List Char :=
  if c = '{' ∨ c = '}' then ['\\', c] else [c]

/-- An escaped character gives its bytes; before a brace the backslash is left too. -/
theorem evaluateInside_escapeDouble (c : Char) (cs : List Char) :
    evaluateInside (escapeDouble c ++ cs) =
      (evaluateInside cs).map (charBytes (slashBrace c) ++ ·) := by
  have hplain {c : Char} (hopen : c ≠ '{') (hclose : c ≠ '}') : slashBrace c = [c] :=
    if_neg (not_or.mpr ⟨hopen, hclose⟩)
  unfold escapeDouble
  -- The cases are those of the escape: short sequences, control characters and all others.
  split_ifs with h1 h2 h3 h4 h5 h6 h7
  · rw [h1]; exact evaluateInside_short (by decide) cs
  · rw [h2]; exact evaluateInside_short (by decide) cs
  · rw [h3]; exact evaluateInside_short (by decide) cs
  · rw [h4]; exact evaluateInside_short (by decide) cs
  · rw [h5]; exact evaluateInside_short (by decide) cs
  · simp only [List.mem_cons, List.not_mem_nil, or_false] at h6
    rcases h6 with rfl | rfl | rfl | rfl | rfl
    · exact evaluateInside_short (by decide) cs
    · exact evaluateInside_short (by decide) cs
    · exact evaluateInside_short (by decide) cs
    · exact evaluateInside_brace (Or.inl rfl) cs
    · exact evaluateInside_brace (Or.inr rfl) cs
  · have hc : charBytes [c] = [.ofNat c.toNat] := by
      rw [charBytes, List.flatMap_singleton, codePointBytes, if_pos (by omega)]
    rw [List.cons_append, evaluateInside_octal h7, hplain (by rintro rfl; revert h7; decide)
      (by rintro rfl; revert h7; decide), hc]
  · simp only [List.mem_cons, List.not_mem_nil, or_false, not_or] at h6
    -- An ordinary character begins neither an escape nor a variable.
    obtain ⟨hquote, hslash, hdollar, hopen, hclose⟩ := h6
    have hvariable : startsVariable c cs = false := by
      unfold startsVariable
      split <;> simp_all
    rw [List.cons_append, List.nil_append, evaluateInside, if_neg hquote, if_neg hslash,
      if_neg (by rw [hvariable]; decide), hplain hopen hclose, charBytes, List.flatMap_singleton]

/-- The inside of what is written for a text is evaluated to the bytes of the text, with a backslash
before each brace. -/
theorem evaluateInside_flatMap (cs : List Char) :
    evaluateInside (cs.flatMap escapeDouble ++ ['"']) = some (charBytes (cs.flatMap slashBrace)) := by
  induction cs with
  | nil => rw [List.flatMap_nil, List.nil_append, evaluateInside, if_pos rfl, if_pos rfl]; rfl
  | cons c cs ih =>
    rw [List.flatMap_cons, List.append_assoc, evaluateInside_escapeDouble, ih, Option.map_some,
      List.flatMap_cons, charBytes, charBytes, charBytes, List.flatMap_append]

/-- Only texts with a brace are changed. -/
theorem flatMap_slashBrace_eq_self_iff {cs : List Char} :
    cs.flatMap slashBrace = cs ↔ ∀ c ∈ cs, c ≠ '{' ∧ c ≠ '}' := by
  induction cs with
  | nil => simp
  | cons c cs ih =>
    rw [List.flatMap_cons, List.forall_mem_cons, ← not_or]
    by_cases hc : c = '{' ∨ c = '}'
    · have hslash : c ≠ '\\' := by
        rcases hc with rfl | rfl <;> decide
      rw [slashBrace, if_pos hc]
      constructor
      · intro h
        exact absurd (List.cons.inj h).1.symm hslash
      · intro h
        exact absurd hc h.1
    · rw [slashBrace, if_neg hc, List.singleton_append, List.cons_inj_right, ih]
      exact (and_iff_right hc).symm

/-- A text in double quotes evaluates to itself with a backslash before each brace. -/
theorem evaluateDoubleQuoted_eq (s : String) :
    evaluateDoubleQuoted (doubleQuoted s) =
      some (String.ofList (s.toList.flatMap slashBrace)).toUTF8 := by
  rw [evaluateDoubleQuoted, toList_doubleQuoted]
  simp only [evaluateInside_flatMap, Option.map_some, toByteArray_charBytes]

/-- PHP evaluates what is written for a text to the text with a backslash before each of its braces.
So the text is read back exactly if there is no brace in it. -/
theorem evaluate_doubleQuoted (s : String) :
    evaluateDoubleQuoted (doubleQuoted s) =
        some (String.ofList (s.toList.flatMap slashBrace)).toUTF8 ∧
      (evaluateDoubleQuoted (doubleQuoted s) = some s.toUTF8 ↔
        ∀ c ∈ s.toList, c ≠ '{' ∧ c ≠ '}') := by
  refine ⟨evaluateDoubleQuoted_eq s, ?_⟩
  have hbytes (t : String) : t.toUTF8 = s.toUTF8 ↔ t = s := String.toByteArray_inj
  rw [evaluateDoubleQuoted_eq, Option.some.injEq, hbytes, ← String.toList_inj,
    String.toList_ofList, flatMap_slashBrace_eq_self_iff]

/-- A text with braces is not read back: the backslashes before them stay. -/
theorem evaluate_braces :
    doubleQuoted "a\x7bb\x7d" = "\"a\\\x7bb\\\x7d\"" ∧
      evaluateDoubleQuoted (doubleQuoted "a\x7bb\x7d") = some "a\\\x7bb\\\x7d".toUTF8 ∧
      evaluateDoubleQuoted (doubleQuoted "a\x7bb\x7d") ≠ some "a\x7bb\x7d".toUTF8 := by
  have hvalue := evaluateDoubleQuoted_eq "a\x7bb\x7d"
  have hslashed : String.ofList ("a\x7bb\x7d".toList.flatMap slashBrace) = "a\\\x7bb\\\x7d" := by
    decide
  rw [hslashed] at hvalue
  refine ⟨by decide, hvalue, ?_⟩
  rw [hvalue]
  decide

example : evaluateDoubleQuoted "\"\\x41\\u\x7b42\x7d\\103\\q\"" = some "ABC\\q".toUTF8 := by
  decide +kernel

example : evaluateDoubleQuoted "\"a$b\"" = none := by
  decide +kernel

end SchemaMigration
