namespace SchemaMigration

def octalDigits (n : Nat) : List Char :=
  [n / 64 % 8, n / 8 % 8, n % 8].map Nat.digitChar

/-- One character between double quotes. A control character has its letter, or else three octal
digits; a character that would end the literal, start an escape or an interpolation, or bound
an interpolated expression, has a backslash before it. -/
def escapeDouble (c : Char) : List Char :=
  if c = '\n' then ['\\', 'n']
  else if c = '\r' then ['\\', 'r']
  else if c = '\t' then ['\\', 't']
  else if c = '\x0b' then ['\\', 'v']
  else if c = '\x0c' then ['\\', 'f']
  else if c ∈ ['"', '\\', '$', '{', '}'] then ['\\', c]
  else if c.toNat < 0x20 then '\\' :: octalDigits c.toNat
  else [c]

def escapeSingle (c : Char) : List Char :=
  if c = '\'' ∨ c = '\\' then ['\\', c] else [c]

def doubleQuoted (s : String) : String :=
  String.ofList ('"' :: s.toList.flatMap escapeDouble ++ ['"'])

def singleQuoted (s : String) : String :=
  String.ofList ('\'' :: s.toList.flatMap escapeSingle ++ ['\''])

end SchemaMigration
