/-
# Theory.Chronicle -- subjects that are what their events tell

A log holds the events of many subjects, each event being of one subject at most.  A `LifeCycle`
says which event may come first in the history of a subject, which may come next, and what the
subject then shows.  `Tells` relates a log to a store of subjects: the history of every subject is a
run of the life cycle that ends in what the store shows of it, and a subject that the store does not
have has no history.  A transaction keeps the relation when it appends an event together with the
change that the event stands for (`Tells.snoc`), or events of no subject and no change
(`historyOf_other`).
-/
import Tit.Theory.Run

namespace Tit.Theory

set_option autoImplicit false

universe u v w

/-- The events that may begin a life and those that may go on with it. -/
structure LifeCycle (E : Type u) (L : Type v) where
  first : E → Option L
  next : L → E → Option L

namespace LifeCycle

variable {E : Type u} {L : Type v} (cycle : LifeCycle E L)

/-- One event; before the first one there is no life. -/
def advance (before : Option L) (e : E) : Option (Option L) :=
  (before.elim (cycle.first e) (cycle.next · e)).map some

theorem advance_none (e : E) : cycle.advance none e = (cycle.first e).map some := rfl

theorem advance_some (l : L) (e : E) : cycle.advance (some l) e = (cycle.next l e).map some := rfl

variable {cycle} {events : List E} {l : L}

/-- No event takes a life back. -/
theorem advance_ne_none {before : Option L} {e : E} : cycle.advance before e ≠ some none := by
  unfold advance
  cases before.elim (cycle.first e) (cycle.next · e) with
  | none => nofun
  | some l => nofun

theorem run_append_one (events : List E) (e : E) :
    run cycle.advance none (events ++ [e]) =
      (run cycle.advance none events).bind (cycle.advance · e) := by
  rw [run_append]
  congr 1
  funext before
  rw [run]
  cases cycle.advance before e with
  | none => rfl
  | some after => rfl

/-- Only the empty history leaves no life. -/
theorem eq_nil_of_run (ran : run cycle.advance none events = some none) : events = [] := by
  rcases List.eq_nil_or_concat events with rfl | ⟨earlier, e, rfl⟩
  · rfl
  · rw [List.concat_eq_append, run_append_one, Option.bind_eq_some_iff] at ran
    obtain ⟨before, -, last⟩ := ran
    exact absurd last advance_ne_none

/-- What every event has in common with the life it belongs to. -/
theorem constant_of_run {A : Type w} {given : E → A} {kept : L → A}
    (first : ∀ {e l}, cycle.first e = some l → given e = kept l)
    (next : ∀ {l e l'}, cycle.next l e = some l' → given e = kept l ∧ kept l' = kept l)
    (ran : run cycle.advance none events = some (some l)) : ∀ e ∈ events, given e = kept l := by
  induction events using List.reverseRecOn generalizing l with
  | nil => cases ran
  | append_singleton earlier e ih =>
      rw [run_append_one, Option.bind_eq_some_iff] at ran
      obtain ⟨before, start, last⟩ := ran
      intro e' member
      cases before with
      | none =>
          -- the first event
          obtain rfl := eq_nil_of_run start
          obtain rfl := List.mem_singleton.mp member
          rw [advance_none, Option.map_eq_some_iff] at last
          obtain ⟨l', born, same⟩ := last
          obtain rfl := Option.some.inj same
          exact first born
      | some before =>
          rw [advance_some, Option.map_eq_some_iff] at last
          obtain ⟨l', went, same⟩ := last
          obtain rfl := Option.some.inj same
          obtain ⟨here, stays⟩ := next went
          rcases List.mem_append.mp member with older | latest
          · rw [ih start e' older, stays]
          · rw [List.mem_singleton.mp latest, here, stays]

end LifeCycle

section Tells

variable {E : Type u} {L : Type v} {K : Type w} [DecidableEq K]

/-- The events of a subject, in the order of the log. -/
def historyOf (subject : E → Option K) (log : List E) (k : K) : List E :=
  log.filter fun e => decide (subject e = some k)

variable {subject : E → Option K} {log : List E} {row : E} {k : K}

theorem mem_historyOf {e : E} : e ∈ historyOf subject log k ↔ e ∈ log ∧ subject e = some k := by
  unfold historyOf
  rw [List.mem_filter, decide_eq_true_iff]

theorem historyOf_own (own : subject row = some k) :
    historyOf subject (log ++ [row]) k = historyOf subject log k ++ [row] := by
  unfold historyOf
  rw [List.filter_append, List.filter_cons_of_pos (by simpa using own), List.filter_nil]

theorem historyOf_other (other : subject row ≠ some k) :
    historyOf subject (log ++ [row]) k = historyOf subject log k := by
  unfold historyOf
  rw [List.filter_append, List.filter_cons_of_neg (by simpa using other), List.filter_nil,
    List.append_nil]

/-- **Every subject is what its events tell.** -/
def Tells (cycle : LifeCycle E L) (subject : E → Option K) (log : List E)
    (lives : K → Option L) : Prop :=
  ∀ k, run cycle.advance none (historyOf subject log k) = some (lives k)

variable {cycle : LifeCycle E L} {lives lives' : K → Option L}

namespace Tells

theorem empty : Tells cycle subject [] fun _ => none := fun _ => rfl

/-- One event more, with the change it stands for. -/
theorem snoc (tells : Tells cycle subject log lives) (own : subject row = some k)
    (here : cycle.advance (lives k) row = some (lives' k))
    (others : ∀ other, other ≠ k → lives' other = lives other) :
    Tells cycle subject (log ++ [row]) lives' := by
  intro other
  by_cases same : other = k
  · subst same
    rw [historyOf_own own, LifeCycle.run_append_one, tells other]
    exact here
  · have apart : subject row ≠ some other := by
      rw [own]
      exact fun h => same (Option.some.inj h).symm
    rw [historyOf_other apart, tells other, others other same]

/-- A subject that is not there has no events. -/
theorem eq_nil (tells : Tells cycle subject log lives) (missing : lives k = none) :
    historyOf subject log k = [] := by
  have ran := tells k
  rw [missing] at ran
  exact LifeCycle.eq_nil_of_run ran

theorem exists_life (tells : Tells cycle subject log lives) {e : E} (logged : e ∈ log)
    (own : subject e = some k) : ∃ l, lives k = some l := by
  cases found : lives k with
  | some l => exact ⟨l, rfl⟩
  | none =>
      have member : e ∈ historyOf subject log k := mem_historyOf.mpr ⟨logged, own⟩
      rw [tells.eq_nil found] at member
      cases member

end Tells

end Tells

end Tit.Theory
