import SchemaMigration.Proofs.IntegerText
import SchemaMigration.Proofs.LiteralText

namespace SchemaMigration

theorem ne_of_kind {α : Type} {p : α → Prop} {a b : α} (ha : p a) (hb : ¬p b) : a ≠ b := by
  intro h
  rw [h] at ha
  exact hb ha

def NotLedBy {α : Type} (p : α → Prop) (xs : List α) : Prop :=
  ∀ x ∈ xs.head?, ¬p x

theorem notLedBy_cons {α : Type} {p : α → Prop} {x : α} {xs : List α} (h : ¬p x) :
    NotLedBy p (x :: xs) := by
  intro y hy
  cases hy
  exact h

/-- A run of elements of a kind ends where an element of another kind stands. -/
theorem append_inj_of_run {α : Type} {p : α → Prop} {a b u v : List α} (ha : ∀ x ∈ a, p x)
    (hb : ∀ x ∈ b, p x) (hu : NotLedBy p u) (hv : NotLedBy p v) (h : a ++ u = b ++ v) :
    a = b ∧ u = v := by
  induction a generalizing b with
  | nil =>
    cases b with
    | nil => exact ⟨rfl, h⟩
    | cons y b =>
      rw [List.nil_append, List.cons_append] at h
      exact absurd (hb y List.mem_cons_self) (hu y (by rw [h, List.head?_cons]; rfl))
  | cons x a ih =>
    cases b with
    | nil =>
      rw [List.nil_append, List.cons_append] at h
      exact absurd (ha x List.mem_cons_self) (hv x (by rw [← h, List.head?_cons]; rfl))
    | cons y b =>
      obtain ⟨rfl, hrest⟩ := List.cons.inj h
      obtain ⟨rfl, huv⟩ := ih (fun z hz => ha z (List.mem_cons_of_mem x hz))
        (fun z hz => hb z (List.mem_cons_of_mem x hz)) hrest
      exact ⟨rfl, huv⟩

/-- Codes that can be cut off one by one are cut off up to a stop that none of them starts with. -/
theorem flatMap_append_inj {α : Type} (P Q : α → Prop) (follow : List Char → Prop)
    {code : α → List Char} {stop : List Char}
    (hcode : ∀ a b u v, P a → Q b → follow u → follow v → code a ++ u = code b ++ v →
      a = b ∧ u = v)
    (hstop : ∀ a u v, P a ∨ Q a → code a ++ u ≠ stop ++ v)
    (hfollow : ∀ a u, follow (code a ++ u)) (hend : ∀ u, follow (stop ++ u))
    {as bs : List α} (ha : ∀ a ∈ as, P a) (hb : ∀ b ∈ bs, Q b) {u v : List Char}
    (h : as.flatMap code ++ (stop ++ u) = bs.flatMap code ++ (stop ++ v)) :
    as = bs ∧ u = v := by
  have hfollows (cs : List α) (w : List Char) : follow (cs.flatMap code ++ (stop ++ w)) := by
    cases cs with
    | nil => exact hend w
    | cons c cs =>
      rw [List.flatMap_cons, List.append_assoc]
      exact hfollow c _
  -- The first code is cut off on both sides; a list that ends early would start with the stop.
  induction as generalizing bs with
  | nil =>
    cases bs with
    | nil => exact ⟨rfl, List.append_cancel_left h⟩
    | cons b bs =>
      rw [List.flatMap_nil, List.nil_append, List.flatMap_cons, List.append_assoc] at h
      exact absurd h.symm (hstop b _ _ (Or.inr (hb b List.mem_cons_self)))
  | cons a as ih =>
    cases bs with
    | nil =>
      rw [List.flatMap_nil, List.nil_append, List.flatMap_cons, List.append_assoc] at h
      exact absurd h (hstop a _ _ (Or.inl (ha a List.mem_cons_self)))
    | cons b bs =>
      rw [List.flatMap_cons, List.flatMap_cons, List.append_assoc, List.append_assoc] at h
      obtain ⟨rfl, hrest⟩ := hcode a b _ _ (ha a List.mem_cons_self) (hb b List.mem_cons_self)
        (hfollows as u) (hfollows bs v) h
      obtain ⟨rfl, huv⟩ := ih (fun c hc => ha c (List.mem_cons_of_mem a hc))
        (fun c hc => hb c (List.mem_cons_of_mem a hc)) hrest
      exact ⟨rfl, huv⟩

def readEscape : List Char → Option (Char × List Char)
  | '\\' :: 'n' :: u => some ('\n', u)
  | '\\' :: 'r' :: u => some ('\r', u)
  | '\\' :: 't' :: u => some ('\t', u)
  | '\\' :: 'v' :: u => some ('\x0b', u)
  | '\\' :: 'f' :: u => some ('\x0c', u)
  | '\\' :: '0' :: a :: b :: u => some (Char.ofNat (Nat.ofDigitChars 8 [a, b] 0), u)
  | '\\' :: c :: u => some (c, u)
  | c :: u => some (c, u)
  | [] => none

theorem octalDigits_of_lt : ∀ n < 0x20,
    octalDigits n = ['0', Nat.digitChar (n / 8), Nat.digitChar (n % 8)] ∧
      Nat.ofDigitChars 8 [Nat.digitChar (n / 8), Nat.digitChar (n % 8)] 0 = n := by
  decide

/-- The escape of a character is told from the text behind it. -/
theorem readEscape_escapeDouble (c : Char) (u : List Char) :
    readEscape (escapeDouble c ++ u) = some (c, u) := by
  unfold escapeDouble
  split_ifs with h1 h2 h3 h4 h5 h6 h7
  · rw [h1]; rfl
  · rw [h2]; rfl
  · rw [h3]; rfl
  · rw [h4]; rfl
  · rw [h5]; rfl
  · simp only [List.mem_cons, List.not_mem_nil, or_false] at h6
    rcases h6 with rfl | rfl | rfl | rfl | rfl <;> rfl
  · obtain ⟨hdigits, hn⟩ := octalDigits_of_lt c.toNat h7
    rw [hdigits]
    simp [readEscape, hn]
  · simp only [List.mem_cons, not_or] at h6
    simp [readEscape, h6]

theorem readEscape_escapeSingle (c : Char) (u : List Char) :
    readEscape (escapeSingle c ++ u) = some (c, u) := by
  unfold escapeSingle
  split
  case isTrue h => rcases h with rfl | rfl <;> rfl
  case isFalse h =>
    simp only [not_or] at h
    simp [readEscape, h]

/-- If escapes can be read back and none begins with the quote, quoted texts can be told apart, and
what follows them. -/
theorem quoted_append_inj {escape : Char → List Char} {quote : Char}
    (hread : ∀ c u, readEscape (escape c ++ u) = some (c, u))
    (hquote : ∀ c u v, escape c ++ u ≠ [quote] ++ v) {s t u v : List Char}
    (h : s.flatMap escape ++ quote :: u = t.flatMap escape ++ quote :: v) : s = t ∧ u = v := by
  have hcode (c d : Char) (u v : List Char) (hcd : escape c ++ u = escape d ++ v) :
      c = d ∧ u = v := by
    have hsome := congrArg readEscape hcd
    rw [hread, hread] at hsome
    exact Prod.mk.inj (Option.some.inj hsome)
  have hstop : s.flatMap escape ++ ([quote] ++ u) = t.flatMap escape ++ ([quote] ++ v) := h
  exact flatMap_append_inj (fun _ => True) (fun _ => True) (fun _ => True)
    (fun c d u v _ _ _ _ => hcode c d u v) (fun c u v _ => hquote c u v) (by simp) (by simp)
    (by simp) (by simp) hstop

theorem doubleQuoted_append_inj {s t : String} {u v : List Char}
    (h : (doubleQuoted s).toList ++ u = (doubleQuoted t).toList ++ v) : s = t ∧ u = v := by
  have hquote (c : Char) (u v : List Char) : escapeDouble c ++ u ≠ ['"'] ++ v := by
    unfold escapeDouble
    split_ifs <;> simp_all
  simp only [toList_doubleQuoted, List.cons_append, List.append_assoc] at h
  obtain ⟨hst, huv⟩ := quoted_append_inj readEscape_escapeDouble hquote (List.cons.inj h).2
  exact ⟨String.toList_inj.mp hst, huv⟩

theorem singleQuoted_append_inj {s t : String} {u v : List Char}
    (h : (singleQuoted s).toList ++ u = (singleQuoted t).toList ++ v) : s = t ∧ u = v := by
  have hquote (c : Char) (u v : List Char) : escapeSingle c ++ u ≠ ['\''] ++ v := by
    unfold escapeSingle
    split_ifs <;> simp_all
  simp only [toList_singleQuoted, List.cons_append, List.append_assoc] at h
  obtain ⟨hst, huv⟩ := quoted_append_inj readEscape_escapeSingle hquote (List.cons.inj h).2
  exact ⟨String.toList_inj.mp hst, huv⟩

def IsDigit (c : Char) : Prop :=
  c.isDigit = true

instance : DecidablePred IsDigit :=
  fun c => inferInstanceAs (Decidable (c.isDigit = true))

/-- A numeral is made of digits, behind a minus or not. -/
theorem kind_of_mem_int64Text {n : Int64} {c : Char} (h : c ∈ (int64Text n).toList) :
    c = '-' ∨ IsDigit c := by
  rw [toList_int64Text] at h
  split at h
  · exact (List.mem_cons.mp h).imp id isDigit_of_mem_toDigits
  · exact Or.inr (isDigit_of_mem_toDigits h)

theorem toDigits_eq_cons (n : Nat) : ∃ d ds, Nat.toDigits 10 n = d :: ds ∧ IsDigit d := by
  obtain ⟨d, ds, hds⟩ := List.exists_cons_of_ne_nil (Nat.toDigits_ne_nil (b := 10) (n := n))
  refine ⟨d, ds, hds, isDigit_of_mem_toDigits (n := n) ?_⟩
  rw [hds]
  exact List.mem_cons_self

theorem int64Text_eq_cons (n : Int64) :
    ∃ c cs, (int64Text n).toList = c :: cs ∧ (c = '-' ∨ IsDigit c) := by
  rw [toList_int64Text]
  split
  · exact ⟨'-', _, rfl, Or.inl rfl⟩
  · obtain ⟨d, ds, hds, hd⟩ := toDigits_eq_cons n.toInt.natAbs
    exact ⟨d, ds, hds, Or.inr hd⟩

/-- The text of an integer begins with a digit or with a minus. -/
theorem int64Text_append_ne (n : Int64) {c : Char} (hminus : c ≠ '-') (hdigit : ¬IsDigit c)
    (u v : List Char) : (int64Text n).toList ++ u ≠ c :: v := by
  intro h
  obtain ⟨d, ds, hds, hd⟩ := int64Text_eq_cons n
  rw [hds, List.cons_append] at h
  obtain ⟨rfl, _⟩ := List.cons.inj h
  rcases hd with hd | hd
  · exact hminus hd
  · exact hdigit hd

/-- A numeral that no digit follows is cut off in one way only. -/
theorem int64Text_append_inj {m n : Int64} {u v : List Char} (hu : NotLedBy IsDigit u)
    (hv : NotLedBy IsDigit v) (h : (int64Text m).toList ++ u = (int64Text n).toList ++ v) :
    m = n ∧ u = v := by
  have hdigits (k : Nat) : ∀ c ∈ Nat.toDigits 10 k, IsDigit c :=
    fun c hc => isDigit_of_mem_toDigits hc
  have hminus (k : Nat) (w w' : List Char) : '-' :: w ≠ Nat.toDigits 10 k ++ w' := by
    intro h
    obtain ⟨d, ds, hds, hd⟩ := toDigits_eq_cons k
    rw [hds, List.cons_append] at h
    rw [← (List.cons.inj h).1] at hd
    cases hd
  -- With equal signs two runs of digits are left, and a minus is no digit.
  have htexts : (int64Text m).toList = (int64Text n).toList ∧ u = v := by
    rw [toList_int64Text, toList_int64Text] at h ⊢
    split_ifs at h ⊢ with hm hn hn
    · obtain ⟨hmn, huv⟩ := append_inj_of_run (hdigits _) (hdigits _) hu hv (List.cons.inj h).2
      exact ⟨congrArg _ hmn, huv⟩
    · exact absurd h (hminus _ _ _)
    · exact absurd h.symm (hminus _ _ _)
    · exact append_inj_of_run (hdigits _) (hdigits _) hu hv h
  refine ⟨?_, htexts.2⟩
  have hread := congrArg readInt64? htexts.1
  rw [readInt64?_int64Text, readInt64?_int64Text] at hread
  exact Option.some.inj hread

namespace Literal

theorem toList_restSource (items : List Literal) :
    (restSource items).toList = items.flatMap fun l => ',' :: ' ' :: l.source.toList := by
  induction items with
  | nil => simp [restSource]
  | cons item rest ih => simp [restSource, ih]

theorem Plain.source_eq_cons {l : Literal} (h : l.Plain) :
    ∃ c cs, l.source.toList = c :: cs ∧ (c = '"' ∨ c = '[' ∨ c = '-' ∨ IsDigit c) := by
  cases h with
  | string s => exact ⟨'"', _, toList_doubleQuoted s, Or.inl rfl⟩
  | int n =>
    obtain ⟨c, cs, hcs, hc⟩ := int64Text_eq_cons n
    exact ⟨c, cs, hcs, Or.inr (Or.inr hc)⟩
  | list items _ => exact ⟨'[', _, toList_source_list items, Or.inr (Or.inl rfl)⟩

/-- No literal begins with the end of a list or of a call. -/
theorem Plain.source_append_ne {l : Literal} (h : l.Plain) {close : Char}
    (hclose : close = ']' ∨ close = ')') (u v : List Char) :
    l.source.toList ++ u ≠ close :: v := by
  intro heq
  obtain ⟨c, cs, hcs, hc⟩ := h.source_eq_cons
  rw [hcs, List.cons_append] at heq
  obtain ⟨rfl, _⟩ := List.cons.inj heq
  rcases hclose with rfl | rfl <;> rcases hc with hc | hc | hc | hc <;> cases hc

/-- The literal is cut off in one way only from texts in which no digit follows it. -/
def Readable (l : Literal) : Prop :=
  ∀ l' : Literal, l'.Plain → ∀ u v, NotLedBy IsDigit u → NotLedBy IsDigit v →
    l.source.toList ++ u = l'.source.toList ++ v → l = l' ∧ u = v

/-- Items that are readable one by one are readable up to the bracket that closes them. -/
theorem itemsSource_append_inj {close : Char} (hclose : close = ']' ∨ close = ')')
    {items items' : List Literal} (hitems : ∀ l ∈ items, l.Plain ∧ l.Readable)
    (hitems' : ∀ l ∈ items', l.Plain) {u v : List Char}
    (h : (itemsSource items).toList ++ close :: u = (itemsSource items').toList ++ close :: v) :
    items = items' ∧ u = v := by
  have hcomma : close ≠ ',' := by
    rcases hclose with rfl | rfl <;> decide
  have hdigit : ¬IsDigit close := by
    rcases hclose with rfl | rfl <;> decide
  have hrest {rest rest' : List Literal} (hr : ∀ l ∈ rest, l.Plain ∧ l.Readable)
      (hr' : ∀ l ∈ rest', l.Plain)
      (h : (restSource rest).toList ++ close :: u = (restSource rest').toList ++ close :: v) :
      rest = rest' ∧ u = v := by
    rw [toList_restSource, toList_restSource] at h
    have hstop : rest.flatMap (fun l => ',' :: ' ' :: l.source.toList) ++ ([close] ++ u) =
        rest'.flatMap (fun l => ',' :: ' ' :: l.source.toList) ++ ([close] ++ v) := h
    apply flatMap_append_inj (fun l => l.Plain ∧ l.Readable) Plain (NotLedBy IsDigit)
      _ _ _ _ hr hr' hstop
    · intro l l' u v hl hl' hu hv h
      exact hl.2 l' hl' u v hu hv (List.cons.inj (List.cons.inj h).2).2
    · intro l u v _ h
      exact hcomma (List.cons.inj h).1.symm
    · intro l u
      exact notLedBy_cons (by decide)
    · intro u
      exact notLedBy_cons hdigit
  -- Behind the first item stands a comma or the closing bracket, so a numeral ends there.
  have hfollow (rest : List Literal) (w : List Char) :
      NotLedBy IsDigit ((restSource rest).toList ++ close :: w) := by
    cases rest with
    | nil => exact notLedBy_cons hdigit
    | cons l rest =>
      rw [toList_restSource]
      exact notLedBy_cons (by decide)
  cases items with
  | nil =>
    cases items' with
    | nil => exact ⟨rfl, (List.cons.inj h).2⟩
    | cons l' rest' =>
      simp only [itemsSource, String.toList_append, List.append_assoc] at h
      exact absurd h.symm ((hitems' l' List.mem_cons_self).source_append_ne hclose _ _)
  | cons l rest =>
    cases items' with
    | nil =>
      simp only [itemsSource, String.toList_append, List.append_assoc] at h
      exact absurd h ((hitems l List.mem_cons_self).1.source_append_ne hclose _ _)
    | cons l' rest' =>
      simp only [itemsSource, String.toList_append, List.append_assoc] at h
      obtain ⟨rfl, htail⟩ := (hitems l List.mem_cons_self).2 l' (hitems' l' List.mem_cons_self) _ _
        (hfollow rest u) (hfollow rest' v) h
      obtain ⟨rfl, huv⟩ := hrest (fun k hk => hitems k (List.mem_cons_of_mem l hk))
        (fun k hk => hitems' k (List.mem_cons_of_mem l hk)) htail
      exact ⟨rfl, huv⟩

/-- Every plain literal is readable. -/
theorem Plain.readable {l : Literal} (h : l.Plain) : l.Readable := by
  -- Literals of different kinds differ in their first characters.
  induction h with
  | string s =>
    intro l' h' u v _ _ heq
    cases h' with
    | string t =>
      obtain ⟨rfl, huv⟩ := doubleQuoted_append_inj heq
      exact ⟨rfl, huv⟩
    | int n =>
      rw [source, toList_doubleQuoted] at heq
      exact absurd heq.symm (int64Text_append_ne n (by decide) (by decide) _ _)
    | list items' _ =>
      rw [source, toList_doubleQuoted, toList_source_list] at heq
      exact absurd (List.cons.inj heq).1 (by decide)
  | int n =>
    intro l' h' u v hu hv heq
    cases h' with
    | string t =>
      rw [source, source, toList_doubleQuoted] at heq
      exact absurd heq (int64Text_append_ne n (by decide) (by decide) _ _)
    | int m =>
      obtain ⟨rfl, huv⟩ := int64Text_append_inj hu hv heq
      exact ⟨rfl, huv⟩
    | list items' _ =>
      rw [source, toList_source_list] at heq
      exact absurd heq (int64Text_append_ne n (by decide) (by decide) _ _)
  | list items hitems ih =>
    intro l' h' u v _ _ heq
    rw [toList_source_list] at heq
    cases h' with
    | string t =>
      rw [source, toList_doubleQuoted] at heq
      exact absurd (List.cons.inj heq).1 (by decide)
    | int n => exact absurd heq.symm (int64Text_append_ne n (by decide) (by decide) _ _)
    | list items' hitems' =>
      rw [toList_source_list, List.cons_append, List.cons_append, List.append_assoc,
        List.append_assoc] at heq
      obtain ⟨rfl, huv⟩ := itemsSource_append_inj (Or.inl rfl) (fun l hl => ⟨hitems l hl, ih l hl⟩)
        hitems' (List.cons.inj heq).2
      exact ⟨rfl, huv⟩

/-- Plain literals are uniquely readable. Each of them has a text, and a text that starts with the
texts of two of them, and goes on behind both without a digit, starts with a single literal and
goes on in a single way. -/
theorem text_append_inj (l l' : Literal) (h : l.Plain) (h' : l'.Plain) :
    ∃ s s', l.text = .ok s ∧ l'.text = .ok s' ∧
      ∀ u v : String, NotLedBy IsDigit u.toList → NotLedBy IsDigit v.toList → s ++ u = s' ++ v →
        l = l' ∧ u = v := by
  refine ⟨l.source, l'.source, h.written.text_eq, h'.written.text_eq, ?_⟩
  intro u v hu hv heq
  have hchars : l.source.toList ++ u.toList = l'.source.toList ++ v.toList := by
    rw [← String.toList_append, heq, String.toList_append]
  obtain ⟨hl, huv⟩ := h.readable l' h' _ _ hu hv hchars
  exact ⟨hl, String.toList_inj.mp huv⟩

def nestedList : Literal :=
  .list [.string "7\x01], [\"", .list [.int Int64.minValue, .list []], .list []]

def flatList : Literal :=
  .list [.string "7\x01], [\"\", [-9223372036854775808, []], []"]

theorem plain_nestedList : nestedList.Plain := by
  unfold nestedList
  refine .list _ fun l hl => ?_
  simp only [List.mem_cons, List.not_mem_nil, or_false] at hl
  rcases hl with rfl | rfl | rfl
  · exact .string _
  · refine .list _ fun l hl => ?_
    simp only [List.mem_cons, List.not_mem_nil, or_false] at hl
    rcases hl with rfl | rfl
    · exact .int Int64.minValue
    · exact .list [] (by simp)
  · exact .list [] (by simp)

/-- The marks of a list within a text are not mistaken for those of a list. -/
theorem text_append_inj_nestedList :
    nestedList.Plain ∧ flatList.Plain ∧
      nestedList.text =
        .ok "[\"7\\001], [\\\"\", [-9223372036854775808, []], []]" ∧
      flatList.text =
        .ok "[\"7\\001], [\\\"\\\", [-9223372036854775808, []], []\"]" ∧
      ∃ s s', nestedList.text = .ok s ∧ flatList.text = .ok s' ∧
        ∀ u v : String, NotLedBy IsDigit u.toList → NotLedBy IsDigit v.toList →
          s ++ u = s' ++ v → nestedList = flatList ∧ u = v := by
  have hflat : flatList.Plain := plain_names ["7\x01], [\"\", [-9223372036854775808, []], []"]
  exact ⟨plain_nestedList, hflat, by decide +kernel, by decide +kernel,
    text_append_inj nestedList flatList plain_nestedList hflat⟩

end Literal

end SchemaMigration
