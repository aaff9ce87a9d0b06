/-!
Finite maps from texts in which a key is set once and keeps its first value. The entries stand in
the order in which their keys were set.
-/

namespace SchemaMigration

variable {α : Type}

theorem mem_of_lookup_eq_some {entries : List (String × α)} {key : String} {value : α}
    (h : entries.lookup key = some value) : (key, value) ∈ entries := by
  obtain ⟨before, after, rfl, _⟩ := List.lookup_eq_some_iff.mp h
  exact List.mem_append_right before List.mem_cons_self

theorem isSome_lookup_iff {entries : List (String × α)} {key : String} :
    (entries.lookup key).isSome = true ↔ ∃ value, (key, value) ∈ entries := by
  rw [Option.isSome_iff_exists]
  constructor
  · rintro ⟨value, h⟩
    exact ⟨value, mem_of_lookup_eq_some h⟩
  · rintro ⟨value, hmem⟩
    apply Option.ne_none_iff_exists'.mp
    intro hnone
    have hne := List.lookup_eq_none_iff.mp hnone _ hmem
    exact absurd hne (by simp)

/-- Entries with one key and one value give that value, wherever they stand. -/
theorem lookup_eq_some_iff_mem {entries : List (String × α)} {key : String} {value : α}
    (h : ∀ v w, (key, v) ∈ entries → (key, w) ∈ entries → v = w) :
    entries.lookup key = some value ↔ (key, value) ∈ entries := by
  constructor
  · exact mem_of_lookup_eq_some
  · intro hmem
    obtain ⟨v, hv⟩ := Option.isSome_iff_exists.mp (isSome_lookup_iff.mpr ⟨value, hmem⟩)
    rw [hv, h v value (mem_of_lookup_eq_some hv) hmem]

/-- The order of such entries does not matter. -/
theorem lookup_eq_of_mem_iff {entries entries' : List (String × α)} {key : String}
    (h : ∀ v w, (key, v) ∈ entries → (key, w) ∈ entries → v = w)
    (hmem : ∀ v, (key, v) ∈ entries ↔ (key, v) ∈ entries') :
    entries.lookup key = entries'.lookup key := by
  apply Option.ext
  intro v
  rw [lookup_eq_some_iff_mem h, hmem v, lookup_eq_some_iff_mem]
  intro v w hv hw
  exact h v w ((hmem v).mpr hv) ((hmem w).mpr hw)

structure OnceMap (α : Type) where
  entries : List (String × α) := []
  nodup_keys : (entries.map Prod.fst).Nodup := by simp

namespace OnceMap

instance : Inhabited (OnceMap α) := ⟨{}⟩

def empty : OnceMap α := {}

def get? (m : OnceMap α) (key : String) : Option α :=
  m.entries.lookup key

def contains (m : OnceMap α) (key : String) : Bool :=
  (m.get? key).isSome

def size (m : OnceMap α) : Nat :=
  m.entries.length

def isEmpty (m : OnceMap α) : Bool :=
  m.entries.isEmpty

theorem get?_eq_none_iff {m : OnceMap α} {key : String} :
    m.get? key = none ↔ key ∉ m.entries.map Prod.fst := by
  rw [get?, List.lookup_eq_none_iff]
  constructor
  · intro h hk
    obtain ⟨e, he, rfl⟩ := List.mem_map.mp hk
    exact absurd (h e he) (by simp)
  · intro h e he
    exact bne_iff_ne.mpr fun hk => h (List.mem_map.mpr ⟨e, he, hk.symm⟩)

def insertIfNew (m : OnceMap α) (key : String) (value : α) : Bool × OnceMap α :=
  -- The answer says whether the key was new.
  match h : m.get? key with
  | some _ => (false, m)
  | none =>
    (true,
      { entries := m.entries ++ [(key, value)]
        nodup_keys := by
          -- The key is none of the earlier ones, which differ among themselves.
          have hk : key ∉ m.entries.map Prod.fst := get?_eq_none_iff.mp h
          rw [List.map_append, List.nodup_append]
          refine ⟨m.nodup_keys, by simp, ?_⟩
          rintro a ha b hb rfl
          rw [List.map_singleton, List.mem_singleton] at hb
          exact hk ((show a = key from hb) ▸ ha) })

/-- The map that keeps, of some entries, the first one for each key. -/
def ofList (entries : List (String × α)) : OnceMap α :=
  entries.foldl (fun m e => (m.insertIfNew e.1 e.2).2) empty

def sameEntries [DecidableEq α] (m n : OnceMap α) : Bool :=
  m.size == n.size && m.entries.all fun e => n.get? e.1 == some e.2

/-- Setting a key leaves the values of all keys that are set, its own among them. -/
theorem get?_insertIfNew (m : OnceMap α) (key k : String) (value : α) :
    (m.insertIfNew key value).2.get? k =
      (m.get? k).or (if k = key then some value else none) := by
  unfold insertIfNew
  split
  case h_1 old hm =>
    by_cases hk : k = key
    · subst hk; simp [hm]
    · simp [hk]
  case h_2 hm =>
    simp only [get?, List.lookup_append, List.lookup_cons, List.lookup_nil]
    by_cases hk : k = key
    · simp [hk]
    · simp [hk, beq_eq_false_iff_ne.mpr hk]

/-- The first entry for a key gives its value. -/
theorem get?_ofList (entries : List (String × α)) (k : String) :
    (ofList entries).get? k = entries.lookup k := by
  have go (m : OnceMap α) :
      (entries.foldl (fun m e => (m.insertIfNew e.1 e.2).2) m).get? k =
        (m.get? k).or (entries.lookup k) := by
    induction entries generalizing m with
    | nil => simp
    | cons e rest ih =>
      rw [List.foldl_cons, ih, get?_insertIfNew, Option.or_assoc, List.lookup_cons]
      by_cases hk : k = e.1
      · simp [hk]
      · simp [hk, beq_eq_false_iff_ne.mpr hk]
  exact go empty

end OnceMap

end SchemaMigration
