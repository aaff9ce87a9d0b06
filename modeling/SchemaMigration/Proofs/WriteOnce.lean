import SchemaMigration.Proofs.FirstEntries

namespace SchemaMigration

variable {α : Type}

inductive MapCall (α : Type) where
  | insert (key : String) (value : α)
  | get (key : String)
  | contains (key : String)

inductive MapAnswer (α : Type) where
  | isNew (b : Bool)
  | value (v? : Option α)
  | isSet (b : Bool)

namespace MapCall

def pair? : MapCall α → Option (String × α)
  | insert key value => some (key, value)
  | _ => none

def apply : MapCall α → OnceMap α → MapAnswer α × OnceMap α
  | insert key value, m => (.isNew (m.insertIfNew key value).1, (m.insertIfNew key value).2)
  | get key, m => (.value (m.get? key), m)
  | contains key, m => (.isSet (m.contains key), m)

def run : List (MapCall α) → OnceMap α → List (MapAnswer α) × OnceMap α
  | [], m => ([], m)
  | c :: cs, m =>
    let rest := run cs (c.apply m).2
    ((c.apply m).1 :: rest.1, rest.2)

def Sets (calls : List (MapCall α)) (key : String) : Prop :=
  ∃ value, insert key value ∈ calls

def FirstSets (calls : List (MapCall α)) (key : String) (value : α) : Prop :=
  ∃ before after, calls = before ++ insert key value :: after ∧ ¬Sets before key

def SetsBefore (calls : List (MapCall α)) (key key' : String) : Prop :=
  ∃ before after, calls = before ++ after ∧ Sets before key ∧ ¬Sets before key'

/-- The answer that is due to a call behind some other calls. -/
inductive Answers (before : List (MapCall α)) : MapCall α → MapAnswer α → Prop
  | insert {key : String} {value : α} {b : Bool} (h : b = true ↔ ¬Sets before key) :
    Answers before (.insert key value) (.isNew b)
  | get {key : String} {v? : Option α} (h : ∀ value, v? = some value ↔ FirstSets before key value) :
    Answers before (.get key) (.value v?)
  | contains {key : String} {b : Bool} (h : b = true ↔ ∃ value, FirstSets before key value) :
    Answers before (.contains key) (.isSet b)

theorem pair?_eq_some_iff {c : MapCall α} {key : String} {value : α} :
    c.pair? = some (key, value) ↔ c = insert key value := by
  cases c <;> simp [pair?]

theorem sets_iff {calls : List (MapCall α)} {key : String} :
    Sets calls key ↔ ∃ value, (key, value) ∈ calls.filterMap pair? := by
  simp [Sets, pair?_eq_some_iff]

/-- The first entry for a key is that of the first call that sets it. -/
theorem firstSets_iff {calls : List (MapCall α)} {key : String} {value : α} :
    FirstSets calls key value ↔ (calls.filterMap pair?).lookup key = some value := by
  rw [List.lookup_eq_some_iff]
  constructor
  · rintro ⟨before, after, rfl, hbefore⟩
    refine ⟨before.filterMap pair?, after.filterMap pair?, List.filterMap_append, ?_⟩
    rintro ⟨k, v⟩ hmem
    rw [bne_iff_ne]
    rintro rfl
    exact hbefore (sets_iff.mpr ⟨v, hmem⟩)
  · rintro ⟨entries, entries', hsplit, hentries⟩
    obtain ⟨front, back, rfl, rfl, hback⟩ := List.filterMap_eq_append_iff.mp hsplit
    obtain ⟨skipped, c, after, rfl, hskipped, hc, rfl⟩ := List.filterMap_eq_cons_iff.mp hback
    obtain rfl := pair?_eq_some_iff.mp hc
    refine ⟨front ++ skipped, after, by rw [List.append_assoc], ?_⟩
    -- A call before it either makes an entry for another key or makes none.
    rintro ⟨v, hv⟩
    rcases List.mem_append.mp hv with hv | hv
    · have hmem : (key, v) ∈ front.filterMap pair? := List.mem_filterMap.mpr ⟨_, hv, rfl⟩
      exact absurd (hentries _ hmem) (by simp)
    · exact absurd (hskipped _ hv) (by simp [pair?])

/-- Later calls do not change the order of keys that are set. -/
theorem SetsBefore.append {calls : List (MapCall α)} {key key' : String}
    (h : SetsBefore calls key key') (more : List (MapCall α)) :
    SetsBefore (calls ++ more) key key' := by
  obtain ⟨before, after, rfl, hkey, hkey'⟩ := h
  exact ⟨before, after ++ more, List.append_assoc _ _ _, hkey, hkey'⟩

section

variable (cs ds : List (MapCall α)) (m : OnceMap α)

theorem length_answers : (run cs m).1.length = cs.length := by
  induction cs generalizing m with
  | nil => rfl
  | cons c cs ih => exact congrArg (· + 1) (ih _)

theorem run_append :
    run (cs ++ ds) m = ((run cs m).1 ++ (run ds (run cs m).2).1, (run ds (run cs m).2).2) := by
  induction cs generalizing m with
  | nil => rfl
  | cons c cs ih =>
    rw [List.cons_append, run, ih]
    rfl

/-- Each call is answered by the map that the calls before it leave. -/
theorem getElem?_answers (c : MapCall α) :
    (run (cs ++ c :: ds) m).1[cs.length]? = some (c.apply (run cs m).2).1 := by
  rw [run_append, ← length_answers cs m, List.getElem?_append_right le_rfl, Nat.sub_self]
  rfl

end

/-- A call leaves a map that is made of one more entry, if the call has one. -/
theorem map_apply (c : MapCall α) (entries : List (String × α)) :
    (c.apply (OnceMap.ofList entries)).2 =
      OnceMap.ofList (entries ++ [c].filterMap pair?) := by
  cases c with
  | insert key value => exact (OnceMap.ofList_concat entries (key, value)).symm
  | get key => exact congrArg OnceMap.ofList (List.append_nil entries).symm
  | contains key => exact congrArg OnceMap.ofList (List.append_nil entries).symm

/-- Of a run only the calls that set a key have a part in the map. -/
theorem map_run (calls : List (MapCall α)) (entries : List (String × α)) :
    (run calls (OnceMap.ofList entries)).2 =
      OnceMap.ofList (entries ++ calls.filterMap pair?) := by
  induction calls generalizing entries with
  | nil => exact congrArg OnceMap.ofList (List.append_nil entries).symm
  | cons c cs ih =>
    change (run cs (c.apply (OnceMap.ofList entries)).2).2 = _
    rw [map_apply, ih, List.append_assoc, ← List.filterMap_append, List.singleton_append]

theorem map_run_empty (calls : List (MapCall α)) :
    (run calls .empty).2 = OnceMap.ofList (calls.filterMap pair?) :=
  map_run calls []

/-- The first call that sets a key decides its value. -/
theorem get?_run {calls : List (MapCall α)} {key : String} {value : α} :
    (run calls .empty).2.get? key = some value ↔ FirstSets calls key value := by
  rw [map_run_empty, OnceMap.get?_ofList, firstSets_iff]

theorem contains_run {calls : List (MapCall α)} {key : String} :
    (run calls .empty).2.contains key = true ↔ Sets calls key := by
  rw [map_run_empty, OnceMap.contains_ofList, sets_iff]

/-- After any run, a call is answered by what the run has set. -/
theorem answers_apply (calls : List (MapCall α)) (c : MapCall α) :
    Answers calls c (c.apply (run calls .empty).2).1 := by
  cases c with
  | insert key value =>
    apply Answers.insert
    rw [OnceMap.fst_insertIfNew, Bool.not_eq_true', ← Bool.not_eq_true, contains_run]
  | get key => exact .get fun value => get?_run
  | contains key =>
    apply Answers.contains
    rw [OnceMap.contains, Option.isSome_iff_exists]
    exact exists_congr fun value => get?_run

/-- A call does not change the value that a key has. -/
theorem get?_apply_of_get? {m : OnceMap α} {key : String} {value : α}
    (h : m.get? key = some value) (c : MapCall α) : (c.apply m).2.get? key = some value := by
  cases c with
  | insert key' value' =>
    change (m.insertIfNew key' value').2.get? key = some value
    rw [OnceMap.get?_insertIfNew, h, Option.some_or]
  | get key' => exact h
  | contains key' => exact h

/-- A value that has been set stays for the rest of the run. -/
theorem get?_run_of_get? {m : OnceMap α} {key : String} {value : α} (h : m.get? key = some value)
    (calls : List (MapCall α)) : (run calls m).2.get? key = some value := by
  induction calls generalizing m with
  | nil => exact h
  | cons c cs ih => exact ih (get?_apply_of_get? h c)

/-- The keys of a map stand in the order in which they were first set. -/
theorem pairwise_keys_run (calls : List (MapCall α)) :
    ((run calls .empty).2.entries.map Prod.fst).Pairwise (SetsBefore calls) := by
  induction calls using List.reverseRecOn with
  | nil => exact .nil
  | append_singleton calls c ih =>
    -- What a shorter run sets before something else, it sets before it in the longer run too.
    have hmore := ih.imp fun h => h.append [c]
    rw [run_append]
    cases c with
    | get key => exact hmore
    | contains key => exact hmore
    | insert key value =>
      change (((run calls .empty).2.insertIfNew key value).2.entries.map Prod.fst).Pairwise _
      rw [OnceMap.entries_insertIfNew]
      split
      case isTrue => exact hmore
      case isFalse hnew =>
        rw [List.map_append, List.map_singleton, List.pairwise_append]
        refine ⟨hmore, List.pairwise_singleton _ _, ?_⟩
        intro k hk k' hk'
        obtain rfl : key = k' := (List.mem_singleton.mp hk').symm
        -- The earlier keys are set by the calls before this one, which do not set the new key.
        exact ⟨calls, [insert key value], rfl,
          contains_run.mp (OnceMap.contains_iff_mem_keys.mpr hk),
          fun h => hnew (contains_run.mpr h)⟩

/-- In a run of calls to an empty map, a call that sets a key answers that the key is new exactly if
no call before it sets this key, and a call that looks a key up finds the value of the first call
before it that sets the key. So it is with the map in the end: the first call for each key has set
its value, which no further call changes, and a key is set exactly if it has a value. The entries
are these, one for each key, in the order of the first calls for their keys, and there are as many
of them as keys that are set. The maps that two runs end with are the same exactly if all keys have
the same values in both, which is so if the entries of one are those of the other in any order. -/
theorem run_writes_once [DecidableEq α] (calls : List (MapCall α)) :
    let m := (run calls .empty).2
    (∀ c later, ∃ answer, (run (calls ++ c :: later) .empty).1[calls.length]? = some answer ∧
        Answers calls c answer) ∧
      (∀ key value, m.get? key = some value ↔ FirstSets calls key value) ∧
      (∀ later key value, m.get? key = some value →
        (run (calls ++ later) .empty).2.get? key = some value) ∧
      (∀ key, m.contains key = true ↔ ∃ value, m.get? key = some value) ∧
      (∀ key value, (key, value) ∈ m.entries ↔ FirstSets calls key value) ∧
      (m.entries.map Prod.fst).Nodup ∧
      (m.entries.map Prod.fst).Pairwise (SetsBefore calls) ∧
      m.size = ((calls.filterMap pair?).map Prod.fst).toFinset.card ∧
      ∀ calls', let m' := (run calls' .empty).2
        (m.sameEntries m' = true ↔ ∀ key, m.get? key = m'.get? key) ∧
          (m.sameEntries m' = true ↔ m.entries.Perm m'.entries) := by
  intro m
  have hsame (n : OnceMap α) : m.sameEntries n = true ↔ ∀ key, m.get? key = n.get? key :=
    ⟨OnceMap.get?_eq_of_sameEntries, OnceMap.sameEntries_of_get?_eq⟩
  refine ⟨?_, fun key value => get?_run, ?_, ?_, ?_, m.nodup_keys, pairwise_keys_run calls, ?_, ?_⟩
  · intro c later
    exact ⟨_, getElem?_answers calls later .empty c, answers_apply calls c⟩
  · intro later key value h
    rw [run_append]
    exact get?_run_of_get? h later
  · intro key
    rw [OnceMap.contains, Option.isSome_iff_exists]
  · intro key value
    exact OnceMap.mem_entries_iff.trans get?_run
  · rw [← OnceMap.size_ofList, ← map_run_empty]
  · intro calls'
    exact ⟨hsame _, (hsame _).trans OnceMap.perm_entries_iff.symm⟩

end MapCall

end SchemaMigration
