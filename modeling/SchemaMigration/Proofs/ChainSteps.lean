import SchemaMigration.Proofs.ModifierChain

namespace SchemaMigration

inductive ChainStep where
  | set (k : Modifier) (args : List Literal)
  | remove (k : Modifier)

namespace ChainStep

def kind : ChainStep → Modifier
  | set k _ => k
  | remove k => k

def args? : ChainStep → Option (List Literal)
  | set _ args => some args
  | remove _ => none

def apply : ChainStep → ColumnDefinition → Option (List Literal) × ColumnDefinition
  -- Only a call that is removed gives its arguments.
  | set k args, d => (none, d.set k args)
  | remove k, d => d.remove k

theorem eq_set_of_args? {s : ChainStep} {args : List Literal} (h : s.args? = some args) :
    s = .set s.kind args := by
  cases s with
  | set k args' =>
    cases h
    rfl
  | remove k => cases h

/-- A step decides on the call of its kind and leaves the others alone. -/
theorem modifier?_apply (s : ChainStep) (d : ColumnDefinition) (k : Modifier) :
    (s.apply d).2.modifier? k = if k = s.kind then s.args? else d.modifier? k := by
  cases s <;> rfl

theorem method_apply (s : ChainStep) (d : ColumnDefinition) : (s.apply d).2.method = d.method := by
  cases s <;> rfl

theorem args_apply (s : ChainStep) (d : ColumnDefinition) : (s.apply d).2.args = d.args := by
  cases s <;> rfl

/-- What a step gives depends on the call of its kind alone. -/
theorem result_apply (s : ChainStep) {d d' : ColumnDefinition}
    (h : d.modifier? s.kind = d'.modifier? s.kind) : (s.apply d).1 = (s.apply d').1 := by
  cases s with
  | set k args => rfl
  | remove k => exact h

end ChainStep

def LastSets (steps : List ChainStep) (k : Modifier) (args : List Literal) : Prop :=
  ∃ before after, steps = before ++ .set k args :: after ∧ ∀ s ∈ after, s.kind ≠ k

/-- The last step of a kind decides whether it is chained, and with what. -/
theorem lastSets_iff {steps : List ChainStep} {k : Modifier} {args : List Literal} :
    LastSets steps k args ↔
      (steps.filter (·.kind = k)).getLast?.bind ChainStep.args? = some args := by
  simp only [Option.bind_eq_some_iff, getLast?_filter_eq_some_iff, LastSets]
  constructor
  · rintro ⟨before, after, hsplit, hafter⟩
    have hkind : (ChainStep.set k args).kind = k := rfl
    exact ⟨.set k args, ⟨before, after, hsplit, by simpa, by simpa using hafter⟩, rfl⟩
  · rintro ⟨s, ⟨before, after, hsplit, hkind, hafter⟩, hargs⟩
    have hs : s = .set k args := of_decide_eq_true hkind ▸ ChainStep.eq_set_of_args? hargs
    exact ⟨before, after, hs ▸ hsplit, by simpa using hafter⟩

namespace ColumnDefinition

def afterSteps (method : String) (args : List Literal) (steps : List ChainStep) :
    ColumnDefinition :=
  steps.foldl (fun d s => (s.apply d).2) { method, args }

/-- A declaration is told by its method, its arguments and what it has of each kind of call. -/
theorem eq_of_modifier?_eq {d d' : ColumnDefinition} (hmethod : d.method = d'.method)
    (hargs : d.args = d'.args) (h : ∀ k, d.modifier? k = d'.modifier? k) : d = d' := by
  obtain ⟨method, args, modifier?⟩ := d
  obtain ⟨method', args', modifier?'⟩ := d'
  obtain rfl : method = method' := hmethod
  obtain rfl : args = args' := hargs
  obtain rfl : modifier? = modifier?' := funext h
  rfl

/-- Steps of different kinds can trade places. -/
theorem apply_comm {s s' : ChainStep} (h : s.kind ≠ s'.kind) (d : ColumnDefinition) :
    (s'.apply (s.apply d).2).2 = (s.apply (s'.apply d).2).2 := by
  apply eq_of_modifier?_eq
  · simp only [ChainStep.method_apply]
  · simp only [ChainStep.args_apply]
  · intro k
    simp only [ChainStep.modifier?_apply]
    by_cases hk : k = s.kind
    · rw [if_pos hk, if_pos hk, if_neg (hk ▸ h)]
    · rw [if_neg hk, if_neg hk]

section

variable (method : String) (args : List Literal) (steps : List ChainStep)

theorem afterSteps_append_single (s : ChainStep) :
    afterSteps method args (steps ++ [s]) = (s.apply (afterSteps method args steps)).2 := by
  simp [afterSteps]

/-- The steps touch the chained calls alone. -/
theorem method_afterSteps : (afterSteps method args steps).method = method := by
  induction steps using List.reverseRecOn with
  | nil => rfl
  | append_singleton steps s ih => rw [afterSteps_append_single, ChainStep.method_apply, ih]

theorem args_afterSteps : (afterSteps method args steps).args = args := by
  induction steps using List.reverseRecOn with
  | nil => rfl
  | append_singleton steps s ih => rw [afterSteps_append_single, ChainStep.args_apply, ih]

/-- After some steps there is the call of a kind that the last step of the kind leaves. -/
theorem modifier?_afterSteps (k : Modifier) :
    (afterSteps method args steps).modifier? k =
      (steps.filter (·.kind = k)).getLast?.bind ChainStep.args? := by
  induction steps using List.reverseRecOn with
  | nil => rfl
  | append_singleton steps s ih =>
    rw [afterSteps_append_single, ChainStep.modifier?_apply, List.filter_append]
    by_cases hk : k = s.kind
    · simp [hk]
    · simp [hk, Ne.symm hk, ih]

end

/-- The kinds of the calls increase, as they are declared and as they are listed. -/
theorem pairwise_modifiers (d : ColumnDefinition) :
    (d.modifiers.map Prod.fst).Pairwise fun k k' =>
      Modifier.all.idxOf k < Modifier.all.idxOf k' ∧ k.ctorIdx < k'.ctorIdx := by
  have hall : Modifier.all.Pairwise fun k k' =>
      Modifier.all.idxOf k < Modifier.all.idxOf k' ∧ k.ctorIdx < k'.ctorIdx := by
    decide
  exact hall.sublist d.modifiers_sublist

theorem has_iff {d : ColumnDefinition} {k : Modifier} :
    d.has k = true ↔ k ∈ d.modifiers.map Prod.fst := by
  simp [has, Option.isSome_iff_exists, mem_modifiers]

/-- A new declaration that has gone through some steps keeps its method and its arguments, and lists
the kinds whose last step sets a call, with the arguments of that step. Each kind stands once, in
the order of the kinds. To look a call up and to remove it gives the arguments in that list. So
nothing but the last step of each kind counts: two runs that agree on these end in one declaration,
and two steps of different kinds lead to one declaration in either order, and give the same. -/
theorem modifiers_afterSteps (method : String) (args : List Literal) (steps : List ChainStep) :
    let d := afterSteps method args steps
    d.method = method ∧ d.args = args ∧
      (∀ k ls, (k, ls) ∈ d.modifiers ↔ LastSets steps k ls) ∧
      ((d.modifiers.map Prod.fst).Pairwise fun k k' =>
        Modifier.all.idxOf k < Modifier.all.idxOf k' ∧ k.ctorIdx < k'.ctorIdx) ∧
      (∀ k ls, d.modifier? k = some ls ↔ (k, ls) ∈ d.modifiers) ∧
      (∀ k, d.has k = true ↔ k ∈ d.modifiers.map Prod.fst) ∧
      (∀ k ls, (d.remove k).1 = some ls ↔ (k, ls) ∈ d.modifiers) ∧
      (∀ steps', (∀ k ls, LastSets steps' k ls ↔ LastSets steps k ls) →
        afterSteps method args steps' = d) ∧
      ∀ s s' : ChainStep, s.kind ≠ s'.kind →
        (s'.apply (s.apply d).2).2 = (s.apply (s'.apply d).2).2 ∧
          (s'.apply (s.apply d).2).1 = (s'.apply d).1 ∧
          (s.apply (s'.apply d).2).1 = (s.apply d).1 := by
  have hlast (steps : List ChainStep) (k : Modifier) (ls : List Literal) :
      (afterSteps method args steps).modifier? k = some ls ↔ LastSets steps k ls := by
    rw [modifier?_afterSteps, lastSets_iff]
  refine ⟨method_afterSteps method args steps, args_afterSteps method args steps,
    fun k ls => mem_modifiers.trans (hlast steps k ls), pairwise_modifiers _,
    fun k ls => mem_modifiers.symm, fun k => has_iff, fun k ls => mem_modifiers.symm, ?_, ?_⟩
  · intro steps' hsteps
    apply eq_of_modifier?_eq
    · rw [method_afterSteps, method_afterSteps]
    · rw [args_afterSteps, args_afterSteps]
    · intro k
      apply Option.ext
      intro ls
      rw [hlast, hlast, hsteps]
  · intro s s' hkind
    refine ⟨apply_comm hkind _, s'.result_apply ?_, s.result_apply ?_⟩
    · rw [ChainStep.modifier?_apply, if_neg (Ne.symm hkind)]
    · rw [ChainStep.modifier?_apply, if_neg hkind]

end ColumnDefinition

end SchemaMigration
