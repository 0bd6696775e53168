/-
# Theory.Outcome -- fallible computations read back

A fallible operation is a chain of guards, look-ups and writes in `Except`.  Its
specification lemma is the list of the facts that a successful call went
through: `bind_eq_ok` splits a chain at one step, and `ensure_eq_ok`,
`required_eq_ok` read a guard and a look-up.
-/
import Mathlib

namespace Tit.Theory

set_option autoImplicit false

universe u v

variable {ε : Type u} {α β : Type v}

/-- Go on only when `condition` holds. -/
def ensure (condition : Prop) [Decidable condition] (error : ε) : Except ε PUnit.{v + 1} :=
  if condition then .ok ⟨⟩ else .error error

/-- The value of a look-up that must have found something. -/
def required (found : Option α) (error : ε) : Except ε α :=
  match found with
  | some value => .ok value
  | none => .error error

theorem bind_eq_ok {first : Except ε α} {next : α → Except ε β} {result : β} :
    (first >>= next) = .ok result ↔ ∃ value, first = .ok value ∧ next value = .ok result := by
  cases first with
  | error _ => exact ⟨nofun, fun ⟨_, failed, _⟩ => nomatch failed⟩
  | ok value =>
      refine ⟨fun rest => ⟨value, rfl, rest⟩, ?_⟩
      rintro ⟨_, same, rest⟩
      cases same
      exact rest

@[simp] theorem ok_bind (value : α) (next : α → Except ε β) :
    ((Except.ok value : Except ε α) >>= next) = next value := rfl

@[simp] theorem error_bind (error : ε) (next : α → Except ε β) :
    ((Except.error error : Except ε α) >>= next) = .error error := rfl

@[simp] theorem pure_eq_ok (value : α) : (pure value : Except ε α) = .ok value := rfl

theorem ensure_eq_ok {condition : Prop} [Decidable condition] {error : ε}
    {done : PUnit.{v + 1}} :
    ensure condition error = .ok done ↔ condition := by
  unfold ensure
  split <;> simp_all

theorem ensure_of {condition : Prop} [Decidable condition] (holds : condition) (error : ε) :
    ensure condition error = .ok (⟨⟩ : PUnit.{v + 1}) := if_pos holds

theorem ensure_of_not {condition : Prop} [Decidable condition] (fails : ¬condition) (error : ε) :
    (ensure condition error : Except ε PUnit.{v + 1}) = .error error := if_neg fails

theorem required_eq_ok {found : Option α} {error : ε} {value : α} :
    required found error = .ok value ↔ found = some value := by
  cases found <;> simp [required]

@[simp] theorem required_some (value : α) (error : ε) :
    required (some value) error = .ok value := rfl

@[simp] theorem required_none (error : ε) :
    (required none error : Except ε α) = .error error := rfl

theorem map_eq_ok {f : α → β} {first : Except ε α} {result : β} :
    first.map f = .ok result ↔ ∃ value, first = .ok value ∧ f value = result := by
  cases first <;> simp [Except.map]

theorem ok_of_toOption {result : Except ε α} {value : α} (found : result.toOption = some value) :
    result = .ok value := by
  cases result with
  | error error => cases found
  | ok value' => exact congrArg Except.ok (Option.some.inj found)

/-- A chain fails at its first step or behind it. -/
theorem bind_eq_error {first : Except ε α} {next : α → Except ε β} {error : ε} :
    (first >>= next) = .error error ↔
      first = .error error ∨ ∃ value, first = .ok value ∧ next value = .error error := by
  cases first with
  | error error' =>
      refine ⟨fun failed => .inl (congrArg Except.error (Except.error.inj failed)), ?_⟩
      rintro (failed | ⟨_, same, -⟩)
      · exact congrArg Except.error (Except.error.inj failed)
      · cases same
  | ok value =>
      refine ⟨fun failed => .inr ⟨value, rfl, failed⟩, ?_⟩
      rintro (failed | ⟨_, same, failed⟩)
      · cases failed
      · cases same
        exact failed

theorem ensure_eq_error {condition : Prop} [Decidable condition] {error error' : ε} :
    (ensure condition error : Except ε PUnit.{v + 1}) = .error error' ↔
      ¬condition ∧ error = error' := by
  unfold ensure
  split <;> simp_all

theorem required_eq_error {found : Option α} {error error' : ε} :
    required found error = .error error' ↔ found = none ∧ error = error' := by
  cases found <;> simp [required]

/-- The results of a traversal are the results of its elements. -/
theorem mem_of_mapM {f : α → Option β} {inputs : List α} {results : List β}
    (made : inputs.mapM f = some results) {result : β} :
    result ∈ results ↔ ∃ input ∈ inputs, f input = some result := by
  induction inputs generalizing results with
  | nil =>
      cases made
      simp
  | cons input inputs ih =>
      simp only [List.mapM_cons, Option.bind_eq_bind, Option.bind_eq_some_iff, Option.pure_def,
        Option.some.injEq] at made
      obtain ⟨first, here, rest, later, rfl⟩ := made
      simp only [List.mem_cons, ih later, exists_eq_or_imp, here, Option.some.injEq]
      exact or_congr_left eq_comm

/-- A traversal succeeds when each of its elements does. -/
theorem mapM_of {f : α → Option β} {inputs : List α}
    (each : ∀ input ∈ inputs, ∃ result, f input = some result) :
    ∃ results, inputs.mapM f = some results := by
  induction inputs with
  | nil => exact ⟨[], rfl⟩
  | cons input inputs ih =>
      obtain ⟨first, here⟩ := each input List.mem_cons_self
      obtain ⟨rest, later⟩ := ih fun other member => each other (List.mem_cons_of_mem _ member)
      exact ⟨first :: rest, by simp [List.mapM_cons, here, later]⟩

/-- The state after a transaction: a failed one is rolled back. -/
def committed (before : α) (result : Except ε α) : α :=
  match result with
  | .ok after => after
  | .error _ => before

theorem committed_eq_or (before : α) (result : Except ε α) :
    committed before result = before ∨ result = .ok (committed before result) := by
  cases result with
  | error e => exact Or.inl rfl
  | ok after => exact Or.inr rfl

end Tit.Theory
