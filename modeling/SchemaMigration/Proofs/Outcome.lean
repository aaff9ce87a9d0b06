import Mathlib.Data.List.Forall2

namespace SchemaMigration

variable {ε α β : Type}

theorem bind_eq_ok_iff {x : Except ε α} {f : α → Except ε β} {b : β} :
    x >>= f = .ok b ↔ ∃ a, x = .ok a ∧ f a = .ok b := by
  cases x with
  | error e => simp [bind, Except.bind]
  | ok a => simp [bind, Except.bind]

theorem bind_eq_error_iff {x : Except ε α} {f : α → Except ε β} {e : ε} :
    x >>= f = .error e ↔ x = .error e ∨ ∃ a, x = .ok a ∧ f a = .error e := by
  cases x with
  | error e' => simp [bind, Except.bind]
  | ok a => simp [bind, Except.bind]

theorem mapError_eq_ok_iff {δ : Type} {x : Except ε α} {f : ε → δ} {a : α} :
    x.mapError f = .ok a ↔ x = .ok a := by
  cases x <;> simp [Except.mapError]

theorem mapError_eq_error_iff {δ : Type} {x : Except ε α} {f : ε → δ} {d : δ} :
    x.mapError f = .error d ↔ ∃ e, x = .error e ∧ d = f e := by
  cases x <;> simp [Except.mapError, eq_comm]

/-- Lists that are related element by element are so at each place. -/
theorem getElem?_of_forall₂ {R : α → β → Prop} {xs : List α} {ys : List β}
    (h : List.Forall₂ R xs ys) {i : Nat} {x : α} (hx : xs[i]? = some x) :
    ∃ y, ys[i]? = some y ∧ R x y := by
  obtain ⟨hi, rfl⟩ := List.getElem?_eq_some_iff.mp hx
  have hi' : i < ys.length := h.length_eq ▸ hi
  exact ⟨ys[i], List.getElem?_eq_getElem hi', h.get hi hi'⟩

theorem exists_mem_of_forall₂ {R : α → β → Prop} {xs : List α} {ys : List β}
    (h : List.Forall₂ R xs ys) : ∀ x ∈ xs, ∃ y ∈ ys, R x y := by
  intro x hx
  obtain ⟨i, hi⟩ := List.mem_iff_getElem?.mp hx
  obtain ⟨y, hy, hxy⟩ := getElem?_of_forall₂ h hi
  exact ⟨y, List.mem_of_getElem? hy, hxy⟩

/-- A list of computations succeeds with the results of its elements, in order. -/
theorem mapM_eq_ok_iff {f : α → Except ε β} {xs : List α} {ys : List β} :
    xs.mapM f = .ok ys ↔ List.Forall₂ (fun x y => f x = .ok y) xs ys := by
  induction xs generalizing ys with
  | nil => cases ys <;> simp [pure, Except.pure]
  | cons x xs ih =>
    rw [List.mapM_cons, bind_eq_ok_iff]
    constructor
    · rintro ⟨y, hy, h⟩
      obtain ⟨ys', hys, h⟩ := bind_eq_ok_iff.mp h
      cases h
      exact .cons hy (ih.mp hys)
    · intro h
      cases h with
      | cons hy hys => exact ⟨_, hy, bind_eq_ok_iff.mpr ⟨_, ih.mpr hys, rfl⟩⟩

/-- A list of computations fails with the error of its first element that fails. -/
theorem mapM_eq_error_iff {f : α → Except ε β} {xs : List α} {e : ε} :
    xs.mapM f = .error e ↔
      ∃ before x after, xs = before ++ x :: after ∧ (∃ ys, before.mapM f = .ok ys) ∧
        f x = .error e := by
  induction xs with
  | nil => simp [pure, Except.pure]
  | cons x xs ih =>
    rw [List.mapM_cons, bind_eq_error_iff]
    constructor
    · rintro (hx | ⟨y, hy, h⟩)
      · exact ⟨[], x, xs, rfl, ⟨[], rfl⟩, hx⟩
      · obtain h | ⟨ys, _, h⟩ := bind_eq_error_iff.mp h
        · obtain ⟨before, z, after, rfl, ⟨zs, hzs⟩, hz⟩ := ih.mp h
          refine ⟨x :: before, z, after, rfl, ⟨y :: zs, ?_⟩, hz⟩
          rw [mapM_eq_ok_iff] at hzs ⊢
          exact .cons hy hzs
        · cases h
    · rintro ⟨before, z, after, hxs, ⟨ys, hys⟩, hz⟩
      cases before with
      | nil =>
        cases hxs
        exact Or.inl hz
      | cons b before =>
        cases hxs
        rw [mapM_eq_ok_iff] at hys
        cases hys with
        | cons hy hys =>
          refine Or.inr ⟨_, hy, bind_eq_error_iff.mpr (Or.inl ?_)⟩
          exact ih.mpr ⟨before, z, after, rfl, ⟨_, mapM_eq_ok_iff.mpr hys⟩, hz⟩

/-- Computations on the chosen elements of a list fail with the error of the first of these that
fails, wherever the others stand. -/
theorem mapM_filter_eq_error_iff {f : α → Except ε β} {p : α → Bool} {xs : List α} {e : ε} :
    (xs.filter p).mapM f = .error e ↔
      ∃ before x after, xs = before ++ x :: after ∧ (∃ ys, (before.filter p).mapM f = .ok ys) ∧
        p x = true ∧ f x = .error e := by
  rw [mapM_eq_error_iff]
  constructor
  · rintro ⟨before, x, after, hsplit, hbefore, hx⟩
    obtain ⟨front, back, rfl, rfl, hback⟩ := List.filter_eq_append_iff.mp hsplit
    obtain ⟨skipped, rest, rfl, hskipped, hp, rfl⟩ := List.filter_eq_cons_iff.mp hback
    refine ⟨front ++ skipped, x, rest, by rw [List.append_assoc], ?_, hp, hx⟩
    have hnone : skipped.filter p = [] := List.filter_eq_nil_iff.mpr hskipped
    rw [List.filter_append, hnone, List.append_nil]
    exact hbefore
  · rintro ⟨before, x, after, rfl, hbefore, hp, hx⟩
    refine ⟨before.filter p, x, after.filter p, ?_, hbefore, hx⟩
    rw [List.filter_append, List.filter_cons, if_pos hp]

/-- What is done to each result of a list of computations can be done in the end. -/
theorem mapM_map_result {γ : Type} (f : α → Except ε β) (g : β → γ) (xs : List α) :
    (xs.mapM fun x => (f x).map g) = (xs.mapM f).map (List.map g) := by
  induction xs with
  | nil => rfl
  | cons x xs ih =>
    rw [List.mapM_cons, List.mapM_cons, ih]
    cases f x with
    | error e => rfl
    | ok y =>
      cases xs.mapM f with
      | error e => rfl
      | ok ys => rfl

/-- What holds of each result holds of all of them. -/
theorem forall_mem_of_mapM_eq_ok {f : α → Except ε β} {xs : List α} {ys : List β} {P : β → Prop}
    (h : xs.mapM f = .ok ys) (hP : ∀ x ∈ xs, ∀ y, f x = .ok y → P y) : ∀ y ∈ ys, P y := by
  intro y hy
  obtain ⟨x, hx, hxy⟩ := exists_mem_of_forall₂ (mapM_eq_ok_iff.mp h).flip y hy
  exact hP x hx y hxy

theorem exists_of_mapM_eq_ok {f : α → Except ε β} {xs : List α} {ys : List β}
    (h : xs.mapM f = .ok ys) : ∀ x ∈ xs, ∃ y, f x = .ok y := by
  intro x hx
  obtain ⟨y, _, hxy⟩ := exists_mem_of_forall₂ (mapM_eq_ok_iff.mp h) x hx
  exact ⟨y, hxy⟩

/-- A list of computations succeeds if and only if each of them does. -/
theorem exists_mapM_eq_ok_iff {f : α → Except ε β} {xs : List α} :
    (∃ ys, xs.mapM f = .ok ys) ↔ ∀ x ∈ xs, ∃ y, f x = .ok y := by
  constructor
  · rintro ⟨ys, hys⟩
    exact exists_of_mapM_eq_ok hys
  · intro h
    cases hys : xs.mapM f with
    | ok ys => exact ⟨ys, rfl⟩
    | error e =>
      obtain ⟨before, x, after, rfl, _, hx⟩ := mapM_eq_error_iff.mp hys
      obtain ⟨y, hy⟩ := h x (List.mem_append_right before List.mem_cons_self)
      rw [hx] at hy
      cases hy

/-- What each step preserves, a run preserves. -/
theorem foldlM_invariant {f : β → α → Except ε β} {xs : List α} {b b' : β} (P : β → Prop)
    (h : xs.foldlM f b = .ok b') (hb : P b)
    (hstep : ∀ b x b', P b → f b x = .ok b' → P b') : P b' := by
  induction xs generalizing b with
  | nil =>
    cases h
    exact hb
  | cons x xs ih =>
    rw [List.foldlM_cons] at h
    obtain ⟨c, hc, h⟩ := bind_eq_ok_iff.mp h
    exact ih h (hstep b x c hb hc)

theorem exists_of_foldlM_eq_error {f : β → α → Except ε β} {xs : List α} {b : β} {e : ε}
    (h : xs.foldlM f b = .error e) : ∃ x ∈ xs, ∃ b, f b x = .error e := by
  induction xs generalizing b with
  | nil => cases h
  | cons x xs ih =>
    rw [List.foldlM_cons] at h
    obtain hx | ⟨c, _, h⟩ := bind_eq_error_iff.mp h
    · exact ⟨x, List.mem_cons_self, b, hx⟩
    · obtain ⟨y, hy, hrest⟩ := ih h
      exact ⟨y, List.mem_cons_of_mem x hy, hrest⟩

/-- Lists of computations that agree on each element of the list have the same result. -/
theorem mapM_congr {f g : α → Except ε β} {xs : List α} (h : ∀ x ∈ xs, f x = g x) :
    xs.mapM f = xs.mapM g := by
  induction xs with
  | nil => rfl
  | cons x xs ih =>
    rw [List.mapM_cons, List.mapM_cons, h x List.mem_cons_self,
      ih fun y hy => h y (List.mem_cons_of_mem x hy)]

/-- A computation fails with the first of some errors, and it succeeds if there are none. -/
def FailsWithFirst (x : Except ε α) (es : List ε) : Prop :=
  match x with
  | .ok _ => es = []
  | .error e => es.head? = some e

namespace FailsWithFirst

/-- The error is the first of the list. -/
theorem error_iff {x : Except ε α} {es : List ε} (h : FailsWithFirst x es) (e : ε) :
    x = .error e ↔ es.head? = some e := by
  cases x with
  | error e' =>
    have hhead : es.head? = some e' := h
    rw [hhead, Option.some.injEq, Except.error.injEq]
  | ok a =>
    have hnone : es = [] := h
    simp [hnone]

theorem failed_iff {x : Except ε α} {es : List ε} (h : FailsWithFirst x es) :
    (∃ e, x = .error e) ↔ es ≠ [] := by
  simp only [h.error_iff, ← Option.isSome_iff_exists, List.isSome_head?]

theorem map {x : Except ε α} {es : List ε} (h : FailsWithFirst x es) (f : α → β) :
    FailsWithFirst (x.map f) es := by
  cases x with
  | error e => exact h
  | ok a => exact h

/-- Of two computations the second one is not run if the first one fails. -/
theorem bind {x : Except ε α} {f : α → Except ε β} {es fs : List ε} (hx : FailsWithFirst x es)
    (hf : ∀ a, x = .ok a → FailsWithFirst (f a) fs) : FailsWithFirst (x >>= f) (es ++ fs) := by
  cases x with
  | error e =>
    have hhead : es.head? = some e := hx
    change (es ++ fs).head? = some e
    rw [List.head?_append, hhead, Option.some_or]
  | ok a =>
    have hnone : es = [] := hx
    rw [hnone, List.nil_append]
    exact hf a rfl

/-- A run over a list fails with the first fault of the elements, in order. -/
theorem mapM {f : α → Except ε β} {faults : α → List ε}
    (h : ∀ x, FailsWithFirst (f x) (faults x)) (xs : List α) :
    FailsWithFirst (xs.mapM f) (xs.flatMap faults) := by
  induction xs with
  | nil => rfl
  | cons x xs ih =>
    rw [List.mapM_cons, List.flatMap_cons]
    apply (h x).bind
    intro y _
    rw [← List.append_nil (xs.flatMap faults)]
    exact ih.bind fun ys _ => rfl

theorem foldlM {f : β → α → Except ε β} {faults : α → List ε}
    (h : ∀ b x, FailsWithFirst (f b x) (faults x)) (xs : List α) (b : β) :
    FailsWithFirst (xs.foldlM f b) (xs.flatMap faults) := by
  induction xs generalizing b with
  | nil => rfl
  | cons x xs ih =>
    rw [List.foldlM_cons, List.flatMap_cons]
    exact (h b x).bind fun c _ => ih c

end FailsWithFirst

end SchemaMigration
