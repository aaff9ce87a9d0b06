import Mathlib.Data.List.Basic
import SchemaMigration.Source.Literal

namespace SchemaMigration

theorem toList_doubleQuoted (s : String) :
    (doubleQuoted s).toList = '"' :: (s.toList.flatMap escapeDouble ++ ['"']) := by
  rw [doubleQuoted, String.toList_ofList, List.cons_append]

theorem toList_singleQuoted (s : String) :
    (singleQuoted s).toList = '\'' :: (s.toList.flatMap escapeSingle ++ ['\'']) := by
  rw [singleQuoted, String.toList_ofList, List.cons_append]

namespace Literal

inductive Written : Literal → Prop
  | string (s : String) : Written (.string s)
  | int (n : Int64) : Written (.int n)
  | raw (source : String) : Written (.raw source)
  | list (items : List Literal) (h : ∀ l ∈ items, Written l) : Written (.list items)

/-- A literal made of texts and numbers alone, with no source that is given word for word. -/
inductive Plain : Literal → Prop
  | string (s : String) : Plain (.string s)
  | int (n : Int64) : Plain (.int n)
  | list (items : List Literal) (h : ∀ l ∈ items, Plain l) : Plain (.list items)

theorem Plain.written {l : Literal} (h : l.Plain) : l.Written := by
  induction h with
  | string s => exact .string s
  | int n => exact .int n
  | list items _ ih => exact .list items ih

theorem plain_names (names : List String) : (list (names.map string)).Plain := by
  apply Plain.list
  intro l hl
  obtain ⟨s, _, rfl⟩ := List.mem_map.mp hl
  exact .string s

mutual

def source : Literal → String
  | string s => doubleQuoted s
  | int n => int64Text n
  | raw source => source
  | list items => "[" ++ itemsSource items ++ "]"
  | bool _ => ""
  | null => ""

def itemsSource : List Literal → String
  | [] => ""
  | item :: rest => item.source ++ restSource rest

def restSource : List Literal → String
  | [] => ""
  | item :: rest => ", " ++ item.source ++ restSource rest

end

theorem toList_source_list (items : List Literal) :
    (list items).source.toList = '[' :: ((itemsSource items).toList ++ [']']) := by
  simp [source]

/-- The items of a list are joined in the way in which the arguments of a call are. -/
theorem itemsSource_eq_intercalate (items : List Literal) :
    itemsSource items = ", ".intercalate (items.map source) := by
  cases items with
  | nil => simp [itemsSource]
  | cons item rest =>
    rw [itemsSource]
    induction rest generalizing item with
    | nil => simp [restSource]
    | cons next rest ih =>
      rw [restSource, String.append_assoc, List.map_cons, List.map_cons,
        String.intercalate_cons_cons, ← List.map_cons, ← ih next, String.append_assoc]

theorem appendRest_eq (items : List Literal)
    (h : ∀ l ∈ items, ∀ out, l.appendTo out = (.ok (), out ++ l.source)) (out : String) :
    appendRest items out = (.ok (), out ++ restSource items) := by
  induction items generalizing out with
  | nil => simp [appendRest, restSource]
  | cons item rest ih =>
    have hitem := h item List.mem_cons_self (out ++ ", ")
    have hrest := ih (fun l hl => h l (List.mem_cons_of_mem item hl))
    simp only [appendRest, hitem, hrest, restSource, String.append_assoc]

/-- Items that have texts are appended with separators between them. -/
theorem appendItems_eq (items : List Literal)
    (h : ∀ l ∈ items, ∀ out, l.appendTo out = (.ok (), out ++ l.source)) (out : String) :
    appendItems items out = (.ok (), out ++ itemsSource items) := by
  cases items with
  | nil => simp [appendItems, itemsSource]
  | cons item rest =>
    have hitem := h item List.mem_cons_self out
    have hrest := appendRest_eq rest (fun l hl => h l (List.mem_cons_of_mem item hl))
    simp only [appendItems, hitem, hrest, itemsSource, String.append_assoc]

/-- A literal that has a text is appended to whatever was written before. -/
theorem Written.appendTo_eq {l : Literal} (h : l.Written) (out : String) :
    l.appendTo out = (.ok (), out ++ l.source) := by
  induction h generalizing out with
  | string s => rfl
  | int n => rfl
  | raw source => rfl
  | list items _ ih =>
    have hitems := appendItems_eq items (fun l hl out => ih l hl out) (out ++ "[")
    simp only [appendTo, hitems, source, String.append_assoc]

theorem Written.text_eq {l : Literal} (h : l.Written) : l.text = .ok l.source := by
  simp [text, h.appendTo_eq]

theorem texts_eq (ls : List Literal) (h : ∀ l ∈ ls, l.Written) :
    texts ls = .ok (ls.map source) := by
  induction ls with
  | nil => rfl
  | cons l ls ih =>
    have hl : l.text = .ok l.source := (h l List.mem_cons_self).text_eq
    have hls : texts ls = .ok (ls.map source) := ih fun l' hl' => h l' (List.mem_cons_of_mem l hl')
    unfold texts at hls
    rw [texts, List.mapM_cons, hl, hls]
    rfl

end Literal
end SchemaMigration
