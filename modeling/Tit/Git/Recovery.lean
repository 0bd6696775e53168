/-
# Git.Recovery -- recover_incomplete_pushes, run alone

Recovery reads the incomplete intents once and settles them oldest first.  For each it
compares the references of the repository with both snapshots; `settlement` is the
`match` of `recover_intent`, and a combination it does not name is an error that leaves
every later intent unsettled.

An intent is `Recoverable` when its repository opens, its combination is named and, if
it is to be completed, the store can record it.  Settling one intent changes neither the
references nor what the store thinks of another intent, so `recoverIntents_split` says
what a whole call does: it settles the recoverable intents that come before the first
one that is not, and then stops there with the rest untouched.
-/
import Tit.Git.Disk

namespace Tit.Git

open Tit.Theory Tit.Store Tit.Store.Database

set_option autoImplicit false

/-- The arms of the `match` in `recover_intent`. -/
inductive Settlement where
  | abandon
  | complete
  | removeAndAbandon
  deriving DecidableEq, Repr

def settlement (i : GitOperationIntent) (atInitial atProposed : Bool) : Option Settlement :=
  match i.state, atInitial, atProposed with
  | .pending, true, _ => some .abandon
  | .pending, false, false => if i.initialRefs.length = 1 then some .abandon else none
  | .promoted, false, true => some .complete
  | .promoted, true, _ => some .removeAndAbandon
  | .promoted, false, false =>
      if i.initialRefs.length = 1 then some .removeAndAbandon else none
  | _, _, _ => none

/-- The state that an arm leaves the intent in. -/
def Settlement.state : Settlement → IntentState
  | .abandon => .abandoned
  | .complete => .completed
  | .removeAndAbandon => .abandoned

namespace Disk

def settle (disk : Disk) (i : GitOperationIntent) : Settlement → Disk × Option ReceivePackError
  | .abandon => disk.inStore (disk.db.abandonGitIntent i.id)
  | .complete => disk.inStore (disk.db.completeGitIntent i.id)
  | .removeAndAbandon =>
      (disk.removePack i.repositoryPath i.packName).inStore (disk.db.abandonGitIntent i.id)

def quarantined (i : GitOperationIntent) : Bool :=
  decide (i.quarantinePath = ⟨i.repositoryPath, i.id⟩)

/-- `recover_intent`: what was written before an error stays. -/
def recoverIntent (disk : Disk) (i : GitOperationIntent) : Disk × Option ReceivePackError :=
  match disk.git i.repositoryPath with
  | none => (disk, some .repository)
  | some git =>
      match settlement i (git.refsMatch i.initialRefs) (git.refsMatch i.proposedRefs) with
      | none => (disk, some (.mixedRecovery i.id))
      | some arm =>
          match disk.settle i arm with
          | (disk, some error) => (disk, some error)
          | (disk, none) =>
              if quarantined i then (disk, none) else (disk, some .recoveryData)

def recoverIntents : Disk → List GitOperationIntent → Disk × Option ReceivePackError
  | disk, [] => (disk, none)
  | disk, i :: rest =>
      match disk.recoverIntent i with
      | (disk, none) => recoverIntents disk rest
      | (disk, some error) => (disk, some error)

def recoverIncompletePushes (disk : Disk) : Disk × Option ReceivePackError :=
  disk.recoverIntents disk.db.incompleteGitIntents

/-! ## What one intent needs -/

/-- The arm that `recover_intent` takes for the row. -/
def arm (disk : Disk) (i : GitOperationIntent) : Option Settlement :=
  (disk.git i.repositoryPath).bind fun git =>
    settlement i (git.refsMatch i.initialRefs) (git.refsMatch i.proposedRefs)

/-- The combination is named, and a completion can be recorded. -/
def Recoverable (disk : Disk) (i : GitOperationIntent) : Prop :=
  ∃ arm, disk.arm i = some arm ∧ (arm = .complete → Mergeable disk.db i)

theorem promoted_of_complete {disk : Disk} {i : GitOperationIntent}
    (taken : disk.arm i = some .complete) : i.state = .promoted := by
  obtain ⟨git, -, named⟩ := Option.bind_eq_some_iff.mp taken
  unfold settlement at named
  split at named
  all_goals first | assumption | (split at named <;> cases named) | cases named

/-- Which arm is taken depends on the references alone. -/
theorem SameRefs.arm {disk disk' : Disk} (same : SameRefs disk disk') (i : GitOperationIntent) :
    disk'.arm i = disk.arm i := by
  unfold Disk.arm
  cases before : disk.git i.repositoryPath with
  | none => rw [same.closed before]
  | some git =>
      obtain ⟨git', after, equal, -⟩ := same.forth before
      rw [after, Option.bind_some, Option.bind_some, GitRepository.refsMatch_congr equal,
        GitRepository.refsMatch_congr equal]

/-! ## One intent -/

/-- The packs that an arm deletes. -/
def removes (disk : Disk) (i : GitOperationIntent) (path : RepositoryPath) (p : PackName) : Prop :=
  disk.arm i = some .removeAndAbandon ∧ i.repositoryPath = path ∧ i.packName = some p

/-- What one settled intent leaves behind. -/
structure Recovered (disk disk' : Disk) (i : GitOperationIntent) (arm : Settlement) : Prop where
  sameRefs : SameRefs disk disk'
  settled : Settled disk.db disk'.db i arm.state
  consistent : Consistent disk'.db
  events : eventsOf disk'.db.repositoryEvents i.id =
    if arm = .complete then disk.db.pushViews i ++ disk.db.mergeViews i else []
  packs : ∀ path git', disk'.git path = some git' → ∃ git, disk.git path = some git ∧
    ∀ p, p ∈ git'.packs ↔ p ∈ git.packs ∧
      ¬(arm = .removeAndAbandon ∧ i.repositoryPath = path ∧ i.packName = some p)

theorem settle_recovered {disk : Disk} {i : GitOperationIntent} (consistent : Consistent disk.db)
    (member : i ∈ disk.db.gitOperationIntents) (incomplete : i.incomplete = true)
    {arm : Settlement} (promoted : arm = .complete → i.state = .promoted)
    (mergeable : arm = .complete → Mergeable disk.db i) :
    ∃ disk', disk.settle i arm = (disk', none) ∧ Recovered disk disk' i arm := by
  have unlogged := consistent.unlogged member (not_completed_of_incomplete incomplete)
  cases arm with
  | abandon =>
      obtain ⟨db', ok⟩ := abandonGitIntent_succeeds member incomplete
      obtain ⟨j, hj, same, -, settled, events, -⟩ := abandon_settled ok
      obtain rfl := eq_of_id hj member same
      refine ⟨_, inStore_ok ok, ⟨fun _ => rfl, fun _ => rfl⟩, settled, consistent.abandon ok, ?_, ?_⟩
      · rw [events, unlogged, if_neg (by decide)]
      · exact fun path git' found => ⟨git', found, fun p => by simp⟩
  | complete =>
      obtain ⟨db', ok⟩ := consistent.completes member (promoted rfl) (mergeable rfl)
      obtain ⟨j, hj, same, -, -, settled, events, -⟩ := complete_settled ok
      obtain rfl := eq_of_id hj member same
      refine ⟨_, inStore_ok ok, ⟨fun _ => rfl, fun _ => rfl⟩, settled, consistent.complete ok, ?_, ?_⟩
      · rw [events, unlogged, if_pos rfl, List.nil_append]
      · exact fun path git' found => ⟨git', found, fun p => by simp⟩
  | removeAndAbandon =>
      obtain ⟨db', ok⟩ := abandonGitIntent_succeeds member incomplete
      obtain ⟨j, hj, same, -, settled, events, -⟩ := abandon_settled ok
      obtain rfl := eq_of_id hj member same
      have kept := removePack_sameRefs disk j.repositoryPath j.packName
      refine ⟨_, inStore_ok ok, ⟨kept.refs, kept.loose⟩, settled, consistent.abandon ok, ?_, ?_⟩
      · rw [events, unlogged, if_neg (by decide)]
      · intro path git' found
        have removed : (disk.removePack j.repositoryPath j.packName).git path = some git' := found
        obtain ⟨git, before, packs⟩ := removePack_packs removed
        exact ⟨git, before, fun p => by simp [packs p]⟩

/-- A recoverable intent is settled. -/
theorem recoverIntent_recovered {disk : Disk} {i : GitOperationIntent}
    (consistent : Consistent disk.db) (member : i ∈ disk.db.gitOperationIntents)
    (incomplete : i.incomplete = true) (recoverable : disk.Recoverable i) :
    ∃ disk' arm, disk.arm i = some arm ∧ disk.recoverIntent i = (disk', none) ∧
      Recovered disk disk' i arm := by
  obtain ⟨arm, taken, mergeable⟩ := recoverable
  have promoted : arm = .complete → i.state = .promoted := fun same =>
    promoted_of_complete (same ▸ taken)
  obtain ⟨disk', settles, recovered⟩ :=
    settle_recovered consistent member incomplete promoted mergeable
  refine ⟨disk', arm, taken, ?_, recovered⟩
  obtain ⟨git, opened, named⟩ := Option.bind_eq_some_iff.mp taken
  have checked : quarantined i = true := decide_eq_true (consistent.quarantine i member)
  unfold recoverIntent
  rw [opened]
  dsimp only
  rw [named]
  dsimp only
  rw [settles]
  dsimp only
  rw [if_pos checked]

/-- An intent that is not recoverable is left as it is. -/
theorem recoverIntent_blocked {disk : Disk} {i : GitOperationIntent}
    (member : i ∈ disk.db.gitOperationIntents) (blocked : ¬disk.Recoverable i) :
    ∃ error, disk.recoverIntent i = (disk, some error) := by
  unfold recoverIntent
  cases opened : disk.git i.repositoryPath with
  | none => exact ⟨_, rfl⟩
  | some git =>
      dsimp only
      cases named : settlement i (git.refsMatch i.initialRefs) (git.refsMatch i.proposedRefs) with
      | none => exact ⟨_, rfl⟩
      | some arm =>
          have taken : disk.arm i = some arm := Option.bind_eq_some_iff.mpr ⟨git, opened, named⟩
          have unmergeable : arm = .complete ∧ ¬Mergeable disk.db i := by
            by_contra fine
            rw [not_and_not_right] at fine
            exact blocked ⟨arm, taken, fine⟩
          obtain ⟨rfl, unmergeable⟩ := unmergeable
          cases result : disk.db.completeGitIntent i.id with
          | ok db' =>
              obtain ⟨j, hj, same, -, mergeable, -⟩ := complete_settled result
              rw [eq_of_id hj member same] at mergeable
              exact absurd mergeable unmergeable
          | error error =>
              have failed : disk.settle i .complete = (disk, some (.store error)) :=
                inStore_error result
              dsimp only
              rw [failed]
              exact ⟨_, rfl⟩

/-- Settling one intent does not change whether another can be settled. -/
theorem Recovered.recoverable {disk disk' : Disk} {i j : GitOperationIntent} {arm : Settlement}
    (recovered : Recovered disk disk' i arm) (other : j.id ≠ i.id) :
    disk'.Recoverable j ↔ disk.Recoverable j := by
  unfold Recoverable
  rw [recovered.sameRefs.arm j, recovered.settled.mergeable other]

/-! ## A list of intents -/

/-- Rows of the store that are not settled yet, each once. -/
structure Listed (disk : Disk) (rows : List GitOperationIntent) : Prop where
  stored : ∀ i ∈ rows, i ∈ disk.db.gitOperationIntents ∧ i.incomplete = true
  distinct : rows.Pairwise fun i j => i.id ≠ j.id

theorem listed_incomplete (disk : Disk) : disk.Listed disk.db.incompleteGitIntents :=
  ⟨fun _ hi => mem_incompleteGitIntents.mp hi, incompleteGitIntents_distinct disk.db⟩

/-- The identifier belongs to none of the rows. -/
def Unnamed (rows : List GitOperationIntent) (id : Identifier) : Prop := ∀ i ∈ rows, id ≠ i.id

theorem Listed.unnamed {disk : Disk} {i : GitOperationIntent} {rest : List GitOperationIntent}
    (listed : disk.Listed (i :: rest)) : Unnamed rest i.id := fun _ later =>
  List.rel_of_pairwise_cons listed.distinct later

/-- What the settlement of all the rows leaves behind. -/
structure AllRecovered (disk disk' : Disk) (rows : List GitOperationIntent) : Prop where
  sameRefs : SameRefs disk disk'
  consistent : Consistent disk'.db
  settled : ∀ i ∈ rows, ∃ arm, disk.arm i = some arm ∧
    { i with state := arm.state } ∈ disk'.db.gitOperationIntents ∧
    eventsOf disk'.db.repositoryEvents i.id =
      if arm = .complete then disk.db.pushViews i ++ disk.db.mergeViews i else []
  others : ∀ j : GitOperationIntent, Unnamed rows j.id →
    (j ∈ disk'.db.gitOperationIntents ↔ j ∈ disk.db.gitOperationIntents)
  origin : ∀ j ∈ disk'.db.gitOperationIntents,
    (j ∈ disk.db.gitOperationIntents ∧ Unnamed rows j.id) ∨
      ∃ i ∈ rows, ∃ arm, disk.arm i = some arm ∧ j = { i with state := arm.state }
  otherEvents : ∀ id, Unnamed rows id →
    eventsOf disk'.db.repositoryEvents id = eventsOf disk.db.repositoryEvents id
  packs : ∀ path git', disk'.git path = some git' → ∃ git, disk.git path = some git ∧
    ∀ p, p ∈ git'.packs ↔ p ∈ git.packs ∧ ¬∃ i ∈ rows, disk.removes i path p
  recoverable : ∀ j : GitOperationIntent, Unnamed rows j.id →
    (disk'.Recoverable j ↔ disk.Recoverable j)

theorem AllRecovered.nil {disk : Disk} (consistent : Consistent disk.db) :
    AllRecovered disk disk [] where
  sameRefs := SameRefs.refl disk
  consistent := consistent
  settled := nofun
  others _ _ := Iff.rfl
  origin j hj := Or.inl ⟨hj, nofun⟩
  otherEvents _ _ := rfl
  packs path git' found := ⟨git', found, fun p => by simp⟩
  recoverable _ _ := Iff.rfl

/-- What a completion would write is not changed by the settlement of another intent. -/
theorem Recovered.views {disk disk' : Disk} {i j : GitOperationIntent} {arm : Settlement}
    (recovered : Recovered disk disk' i arm) (other : j.id ≠ i.id) :
    disk'.db.pushViews j ++ disk'.db.mergeViews j = disk.db.pushViews j ++ disk.db.mergeViews j := by
  unfold pushViews mergeViews managedRepository
  rw [recovered.settled.repositories, recovered.settled.mergeOf j.id other]

theorem AllRecovered.cons {disk disk₁ disk' : Disk} {i : GitOperationIntent}
    {rows : List GitOperationIntent} {arm : Settlement} (taken : disk.arm i = some arm)
    (first : Recovered disk disk₁ i arm) (rest : AllRecovered disk₁ disk' rows)
    (apart : Unnamed rows i.id) : AllRecovered disk disk' (i :: rows) := by
  have arms : ∀ j, disk₁.arm j = disk.arm j := first.sameRefs.arm
  have own : ({ i with state := arm.state } : GitOperationIntent) ∈ disk₁.db.gitOperationIntents :=
    (first.settled.rows _).mpr (Or.inr rfl)
  have split : ∀ {id}, Unnamed (i :: rows) id → id ≠ i.id ∧ Unnamed rows id := fun unnamed =>
    ⟨unnamed i List.mem_cons_self, fun j hj => unnamed j (List.mem_cons_of_mem _ hj)⟩
  refine ⟨first.sameRefs.trans rest.sameRefs, rest.consistent, ?_, ?_, ?_, ?_, ?_, ?_⟩
  · intro j hj
    rcases List.mem_cons.mp hj with rfl | later
    · have kept : ({ j with state := arm.state } : GitOperationIntent) ∈
          disk'.db.gitOperationIntents := (rest.others { j with state := arm.state } apart).mpr own
      refine ⟨arm, taken, kept, ?_⟩
      rw [rest.otherEvents j.id apart, first.events]
    · obtain ⟨arm', taken', member, events⟩ := rest.settled j later
      refine ⟨arm', (arms j).symm.trans taken', member, ?_⟩
      rw [events, first.views (apart j later).symm]
  · intro j unnamed
    obtain ⟨other, later⟩ := split unnamed
    rw [rest.others j later, first.settled.rows j]
    refine ⟨?_, fun member => Or.inl ⟨member, other⟩⟩
    rintro (⟨member, -⟩ | rfl)
    · exact member
    · exact absurd rfl other
  · intro j hj
    rcases rest.origin j hj with ⟨before, unnamed⟩ | ⟨k, hk, arm', taken', rfl⟩
    · rcases (first.settled.rows j).mp before with ⟨member, other⟩ | rfl
      · exact Or.inl ⟨member, List.forall_mem_cons.mpr ⟨other, unnamed⟩⟩
      · exact Or.inr ⟨i, List.mem_cons_self, arm, taken, rfl⟩
    · exact Or.inr ⟨k, List.mem_cons_of_mem _ hk, arm', (arms k).symm.trans taken', rfl⟩
  · intro id unnamed
    obtain ⟨other, later⟩ := split unnamed
    rw [rest.otherEvents id later, first.settled.events id other]
  · intro path git' found
    obtain ⟨git₁, found₁, packs⟩ := rest.packs path git' found
    obtain ⟨git, before, packs₁⟩ := first.packs path git₁ found₁
    refine ⟨git, before, fun p => ?_⟩
    have removed : ∀ j, disk₁.removes j path p ↔ disk.removes j path p := fun j => by
      unfold removes
      rw [arms j]
    have here : disk.removes i path p ↔
        arm = .removeAndAbandon ∧ i.repositoryPath = path ∧ i.packName = some p := by
      unfold removes
      rw [taken, Option.some.injEq]
    rw [packs p, packs₁ p, ← here, and_assoc]
    refine and_congr_right fun _ => ?_
    simp only [removed, List.mem_cons, exists_eq_or_imp, not_or]
  · intro j unnamed
    obtain ⟨other, later⟩ := split unnamed
    rw [rest.recoverable j later, first.recoverable other]

/-- The rows that remain are still to be settled. -/
theorem Listed.rest {disk disk₁ : Disk} {i : GitOperationIntent} {rest : List GitOperationIntent}
    {arm : Settlement} (listed : disk.Listed (i :: rest)) (first : Recovered disk disk₁ i arm) :
    disk₁.Listed rest := by
  refine ⟨fun j hj => ?_, listed.distinct.of_cons⟩
  obtain ⟨member, incomplete⟩ := listed.stored j (List.mem_cons_of_mem _ hj)
  exact ⟨(first.settled.rows j).mpr (Or.inl ⟨member, (listed.unnamed j hj).symm⟩), incomplete⟩

/-- **What recovery does**: it settles the recoverable intents up to the first one that
is not, and ends there. -/
theorem recoverIntents_split {disk : Disk} {rows : List GitOperationIntent}
    (consistent : Consistent disk.db) (listed : disk.Listed rows) :
    ∃ before after disk' error, rows = before ++ after ∧ (∀ i ∈ before, disk.Recoverable i) ∧
      AllRecovered disk disk' before ∧ disk.recoverIntents rows = (disk', error) ∧
      ((after = [] ∧ error = none) ∨
        ∃ i rest, after = i :: rest ∧ ¬disk.Recoverable i ∧ error ≠ none) := by
  induction rows generalizing disk with
  | nil =>
      exact ⟨[], [], disk, none, rfl, nofun, AllRecovered.nil consistent, rfl, Or.inl ⟨rfl, rfl⟩⟩
  | cons i rest ih =>
      obtain ⟨member, incomplete⟩ := listed.stored i List.mem_cons_self
      by_cases recoverable : disk.Recoverable i
      · obtain ⟨disk₁, arm, taken, recovers, first⟩ :=
          recoverIntent_recovered consistent member incomplete recoverable
        obtain ⟨before, after, disk', error, same, settled, all, result, ends⟩ :=
          ih first.consistent (listed.rest first)
        have apart : ∀ j ∈ rest, j.id ≠ i.id := fun j hj => (listed.unnamed j hj).symm
        have mine : ∀ j ∈ before, j ∈ rest := fun j hj => same ▸ List.mem_append_left _ hj
        have continued : disk.recoverIntents (i :: rest) = (disk', error) := by
          rw [recoverIntents, recovers]
          exact result
        refine ⟨i :: before, after, disk', error, by rw [same]; rfl, ?_,
          all.cons taken first fun j hj => (apart j (mine j hj)).symm, continued, ?_⟩
        · intro j hj
          rcases List.mem_cons.mp hj with rfl | later
          · exact recoverable
          · exact (first.recoverable (apart j (mine j later))).mp (settled j later)
        · refine ends.imp_right ?_
          rintro ⟨j, rest', rfl, blocked, failed⟩
          have later : j ∈ rest := same ▸ List.mem_append_right _ List.mem_cons_self
          exact ⟨j, rest', rfl, fun fine => blocked ((first.recoverable (apart j later)).mpr fine),
            failed⟩
      · obtain ⟨error, failed⟩ := recoverIntent_blocked member recoverable
        have ended : disk.recoverIntents (i :: rest) = (disk, some error) := by
          rw [recoverIntents, failed]
        exact ⟨[], i :: rest, disk, some error, rfl, nofun, AllRecovered.nil consistent, ended,
          Or.inr ⟨i, rest, rfl, recoverable, nofun⟩⟩

/-- When every incomplete intent is recoverable, recovery settles them all. -/
theorem recoverIncompletePushes_succeeds {disk : Disk} (consistent : Consistent disk.db)
    (recoverable : ∀ i ∈ disk.db.gitOperationIntents, i.incomplete = true → disk.Recoverable i) :
    ∃ disk', disk.recoverIncompletePushes = (disk', none) ∧
      AllRecovered disk disk' disk.db.incompleteGitIntents := by
  obtain ⟨before, after, disk', error, same, -, all, result, ends⟩ :=
    recoverIntents_split consistent disk.listed_incomplete
  rcases ends with ⟨rfl, rfl⟩ | ⟨i, rest, rfl, blocked, -⟩
  · rw [List.append_nil] at same
    exact ⟨disk', result, same ▸ all⟩
  · have member : i ∈ disk.db.incompleteGitIntents :=
      same ▸ List.mem_append_right _ List.mem_cons_self
    obtain ⟨stored, incomplete⟩ := mem_incompleteGitIntents.mp member
    exact absurd (recoverable i stored incomplete) blocked

end Disk

end Tit.Git
