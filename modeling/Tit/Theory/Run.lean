/-
# Theory.Run -- partial steps, runs and what holds along them

A system is a partial step function: `step s a = none` says that the action `a`
is not enabled in `s`.  `run` executes a list of actions, `Always good` says that
every state on the way is good, and `Meets guard` says that every step taken is
taken in a state that allows it.  `Meets` is a condition on the steps of the run
alone, each read in the state *before* it.

`always_of_meets` is the invariant rule: an invariant that every allowed step
keeps makes every state of an allowed run good.  `always_iff_meets` adds the
converse for a guard that is exact, that is, for one whose violation shows at once.
-/
import Tit.Theory.Outcome
import Mathlib.Data.List.Induction

namespace Tit.Theory

set_option autoImplicit false

universe u v

variable {S : Type u} {A : Type v} {step : S → A → Option S}

/-- Execute the actions in order; `none` once one of them is not enabled. -/
def run (step : S → A → Option S) : S → List A → Option S
  | s, [] => some s
  | s, a :: as =>
      match step s a with
      | some s' => run step s' as
      | none => none

/-- Every state that a prefix of the actions reaches is good. -/
def Always (step : S → A → Option S) (good : S → Prop) : S → List A → Prop
  | s, [] => good s
  | s, a :: as => good s ∧ ∀ s', step s a = some s' → Always step good s' as

/-- Every action is taken in a state that allows it. -/
def Meets (step : S → A → Option S) (guard : S → A → Prop) : S → List A → Prop
  | _, [] => True
  | s, a :: as => (∀ s', step s a = some s' → guard s a ∧ Meets step guard s' as)

theorem Always.now {good : S → Prop} {s : S} {as : List A} (always : Always step good s as) :
    good s := by
  cases as with
  | nil => exact always
  | cons a as => exact always.1

theorem Always.final {good : S → Prop} {s s' : S} {as : List A}
    (always : Always step good s as) (ran : run step s as = some s') : good s' := by
  induction as generalizing s with
  | nil =>
      cases ran
      exact always
  | cons a as ih =>
      simp only [run] at ran
      split at ran
      · exact ih (always.2 _ ‹_›) ran
      · cases ran

theorem Always.mono {good fine : S → Prop} (weaker : ∀ s, good s → fine s) {s : S} {as : List A}
    (always : Always step good s as) : Always step fine s as := by
  induction as generalizing s with
  | nil => exact weaker s always
  | cons a as ih => exact ⟨weaker s always.1, fun s' next => ih (always.2 s' next)⟩

theorem always_of_forall {good : S → Prop} (all : ∀ s, good s) (s : S) (as : List A) :
    Always step good s as := by
  induction as generalizing s with
  | nil => exact all s
  | cons a as ih => exact ⟨all s, fun s' _ => ih s'⟩

/-- A guard that every action of the run meets in any state. -/
theorem meets_of_forall {guard : S → A → Prop} {as : List A} (all : ∀ a ∈ as, ∀ s, guard s a)
    (s : S) : Meets step guard s as := by
  induction as generalizing s with
  | nil => trivial
  | cons a as ih =>
      intro s' _
      exact ⟨all a List.mem_cons_self s,
        ih (fun a member => all a (List.mem_cons_of_mem _ member)) s'⟩

/-- The invariant rule along a run. -/
theorem always_of_meets {inv : S → Prop} {guard : S → A → Prop}
    (keeps : ∀ s a s', inv s → guard s a → step s a = some s' → inv s')
    {s : S} {as : List A} (start : inv s) (meets : Meets step guard s as) :
    Always step inv s as := by
  induction as generalizing s with
  | nil => exact start
  | cons a as ih =>
      refine ⟨start, fun s' next => ?_⟩
      obtain ⟨allowed, rest⟩ := meets s' next
      exact ih (keeps s a s' start allowed next) rest

/-- An invariant that every step keeps holds along every run. -/
theorem always_of_steps {inv : S → Prop} (keeps : ∀ s a s', inv s → step s a = some s' → inv s')
    {s : S} (start : inv s) (as : List A) : Always step inv s as := by
  induction as generalizing s with
  | nil => exact start
  | cons a as ih => exact ⟨start, fun s' next => ih (keeps s a s' start next)⟩

/-- **An exact guard**: when a step that the guard forbids leads to a bad state,
the runs whose states are all good are the runs that meet the guard. -/
theorem always_iff_meets {inv good : S → Prop} {guard : S → A → Prop}
    (keeps : ∀ s a s', inv s → guard s a → step s a = some s' → inv s')
    (sound : ∀ s, inv s → good s)
    (exposed : ∀ s a s', inv s → step s a = some s' → good s' → guard s a)
    {s : S} {as : List A} (start : inv s) :
    Always step good s as ↔ Meets step guard s as := by
  constructor
  · intro always
    induction as generalizing s with
    | nil => trivial
    | cons a as ih =>
        intro s' next
        have after := always.2 s' next
        have allowed := exposed s a s' start next after.now
        exact ⟨allowed, ih (keeps s a s' start allowed next) after⟩
  · intro meets
    exact (always_of_meets keeps start meets).mono sound

/-- Two guards that agree where the invariant holds and a third guard is met. -/
theorem meets_iff_meets {inv : S → Prop} {given guard guard' : S → A → Prop}
    (keeps : ∀ s a s', inv s → given s a → step s a = some s' → inv s')
    (agree : ∀ s a s', inv s → given s a → step s a = some s' → (guard s a ↔ guard' s a))
    {s : S} {as : List A} (start : inv s) (meets : Meets step given s as) :
    Meets step guard s as ↔ Meets step guard' s as := by
  induction as generalizing s with
  | nil => exact Iff.rfl
  | cons a as ih =>
      refine forall_congr' fun s' => forall_congr' fun next => ?_
      obtain ⟨here, later⟩ := meets s' next
      exact and_congr (agree s a s' start here next) (ih (keeps s a s' start here next) later)

/-! ## The states of a run -/

/-- The run was in this state, after some of its actions. -/
def Visited (step : S → A → Option S) (s : S) (as : List A) (v : S) : Prop :=
  ∃ before after, as = before ++ after ∧ run step s before = some v

theorem run_append (s : S) (as bs : List A) :
    run step s (as ++ bs) = (run step s as).bind fun s' => run step s' bs := by
  induction as generalizing s with
  | nil => rfl
  | cons a as ih =>
      rw [List.cons_append, run, run]
      cases step s a with
      | none => rfl
      | some s' => exact ih s'

/-- An invariant may speak of the states that the run was in. -/
theorem inv_of_visits {inv : (S → Prop) → S → Prop}
    (keeps : ∀ visited s a s', visited s → visited s' → inv visited s → step s a = some s' →
      inv visited s')
    {s : S} (start : ∀ visited, inv visited s) (as : List A) {s' : S}
    (ran : run step s as = some s') : inv (Visited step s as) s' := by
  have upTo : ∀ before after, as = before ++ after → ∀ v, run step s before = some v →
      inv (Visited step s as) v := by
    intro before
    induction before using List.reverseRecOn with
    | nil =>
        intro after split v ran
        cases ran
        exact start _
    | append_singleton before a ih =>
        intro after split v ran
        have visited : Visited step s as v := ⟨before ++ [a], after, split, ran⟩
        rw [run_append] at ran
        obtain ⟨u, first, last⟩ := Option.bind_eq_some_iff.mp ran
        rw [List.append_assoc] at split
        have next : step u a = some v := by
          rw [run] at last
          split at last
          · rename_i u' stepped
            cases last
            exact stepped
          · cases last
        exact keeps _ u a v ⟨before, _, split, first⟩ visited (ih _ split u first) next
  exact upTo as [] (List.append_nil as).symm s' ran

end Tit.Theory
