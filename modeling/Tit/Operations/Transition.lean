/-
# Operations.Transition -- what a step can do

`Transition w a w'` lists the steps of the system: for each, the stage it starts from,
what it was given by the store or the repository, and the world after it.  Every step is
one of them (`step_transition`), and the invariants are kept by cases on it.
-/
import Tit.Operations.System

namespace Tit.Operations

open Tit.Theory Tit.Store Tit.Git

set_option autoImplicit false

variable {graph : ObjectGraph}

/-- Recovery reads a reference, or takes up an intent; nothing is written. -/
inductive Looks (disk : Disk) : Recovery → Recovery → Prop where
  | take {i : GitOperationIntent} {rest : List GitOperationIntent}
      (opens : (disk.git i.repositoryPath).isSome = true) :
      Looks disk (.listed (i :: rest)) (.initial i i.initialRefs rest)
  | initialSame {i : GitOperationIntent} {e : RefName × ObjectId} {left : RefSnapshot}
      {rest : List GitOperationIntent} (same : reads disk i e = some true) :
      Looks disk (.initial i (e :: left) rest) (.initial i left rest)
  | initialOther {i : GitOperationIntent} {e : RefName × ObjectId} {left : RefSnapshot}
      {rest : List GitOperationIntent} (other : reads disk i e = some false) :
      Looks disk (.initial i (e :: left) rest) (.proposed i false i.proposedRefs rest)
  | initialEnd {i : GitOperationIntent} {rest : List GitOperationIntent} :
      Looks disk (.initial i [] rest) (.proposed i true i.proposedRefs rest)
  | proposedSame {i : GitOperationIntent} {atInitial : Bool} {e : RefName × ObjectId}
      {left : RefSnapshot} {rest : List GitOperationIntent} (same : reads disk i e = some true) :
      Looks disk (.proposed i atInitial (e :: left) rest) (.proposed i atInitial left rest)
  | proposedOther {i : GitOperationIntent} {atInitial : Bool} {e : RefName × ObjectId}
      {left : RefSnapshot} {rest : List GitOperationIntent} {at' : Recovery}
      (other : reads disk i e = some false)
      (decides : decided i atInitial false rest = .continues at') :
      Looks disk (.proposed i atInitial (e :: left) rest) at'
  | proposedEnd {i : GitOperationIntent} {atInitial : Bool} {rest : List GitOperationIntent}
      {at' : Recovery} (decides : decided i atInitial true rest = .continues at') :
      Looks disk (.proposed i atInitial [] rest) at'

/-- The mode after the push lane ends. -/
def ModeAfter (before after : Mode) : Prop :=
  after = before ∨ (before = .starting ∧ (after = .up ∨ after = .down))

inductive Transition : World graph → Action graph → World graph → Prop where
  | startPush {w : World graph} {push : Push} (up : w.mode = .up) (idle : w.push = .idle)
      (initial : validatesInitial w.disk push = true) :
      Transition w (.startPush push) { w with push := .validated push }
  | beginPush {w : World graph} {push : Push} {db : Database} (stage : w.push = .validated push)
      (ok : w.disk.db.beginGitIntent push.intent = .ok db) :
      Transition w .pushNext { w with disk := { w.disk with db }, push := .indexing push }
  | place {w : World graph} {push : Push} {git : GitRepository} (stage : w.push = .indexing push)
      (opened : w.disk.git push.path = some git) (valid : graph.validates git push = true) :
      Transition w .pushNext { w with
        disk := (w.disk.place push.path push.pack).1
        push := .marking push (w.disk.place push.path push.pack).2 }
  | placeFails {w : World graph} {push : Push} (stage : w.push = .indexing push) :
      Transition w (.pushFails true) { w with
        disk := (w.disk.place push.path push.pack).1, push := .failing }
  | markPush {w : World graph} {push : Push} {packName : Option PackName} {db : Database}
      (stage : w.push = .marking push packName)
      (ok : w.disk.db.markGitObjectsPromoted push.id packName = .ok db) :
      Transition w .pushNext { w with disk := { w.disk with db }, push := .committing push }
  | movePush {w : World graph} {push : Push} {git : GitRepository}
      (stage : w.push = .committing push) (opened : w.disk.git push.path = some git)
      (initial : git.refsMatch push.commands.initial = true) :
      Transition w .pushNext { w with
        disk := w.disk.setGit push.path (git.applied push.commands)
        push := .completing push, committed := push.id :: w.committed }
  | completePush {w : World graph} {push : Push} {db : Database}
      (stage : w.push = .completing push) (ok : w.disk.db.completeGitIntent push.id = .ok db) :
      Transition w .pushNext { w with disk := { w.disk with db }, push := .idle }
  /-- The push lane ends, or goes to its recovery. -/
  | stopPush {w : World graph} {a : Action graph} {stage : PushStage} {mode : Mode}
      (stops : stage = .idle ∨ stage = .failing) (after : ModeAfter w.mode mode) :
      Transition w a { w with push := stage, mode }
  | list {w : World graph} (stage : w.push = .failing) :
      Transition w .pushNext { w with push := .recovering (.listed w.disk.db.incompleteGitIntents) }
  | look {w : World graph} {at' next : Recovery} (stage : w.push = .recovering at')
      (looks : Looks w.disk at' next) :
      Transition w .pushNext { w with push := .recovering next }
  | remove {w : World graph} {i : GitOperationIntent} {rest : List GitOperationIntent}
      (stage : w.push = .recovering (.removing i rest)) :
      Transition w .pushNext { w with
        disk := w.disk.removePack i.repositoryPath i.packName
        push := .recovering (.settling i false rest) }
  /-- The intent is settled; the lane ends when its quarantine path is wrong. -/
  | settle {w : World graph} {i : GitOperationIntent} {completes : Bool}
      {rest : List GitOperationIntent} {db : Database} {stage' : PushStage} {mode : Mode}
      (stage : w.push = .recovering (.settling i completes rest))
      (ok : (if completes then w.disk.db.completeGitIntent i.id
        else w.disk.db.abandonGitIntent i.id) = .ok db)
      (next : stage' = .recovering (.listed rest) ∨
        (stage' = .idle ∧ Disk.quarantined i = false))
      (after : ModeAfter w.mode mode) :
      Transition w .pushNext { w with disk := { w.disk with db }, push := stage', mode }
  | startMerge {w : World graph} {m : Merge graph} (up : w.mode = .up) (idle : w.merge = .idle)
      (read : readsMerge w.disk m = true) :
      Transition w (.startMerge m) { w with merge := .read m }
  | beginMerge {w : World graph} {m : Merge graph} {db : Database} {stage' : MergeStage graph}
      (stage : w.merge = .read m)
      (ok : w.disk.db.beginPullRequestMerge m.request m.intent = .ok db)
      (next : (m.request.method = .mergeCommit ∧ stage' = .writing m) ∨
        (m.request.method = .fastForward ∧ stage' = .marking m)) :
      Transition w .mergeNext { w with disk := { w.disk with db }, merge := stage' }
  | write {w : World graph} {m : Merge graph} (stage : w.merge = .writing m) :
      Transition w .mergeNext { w with disk := writeObjects w.disk m, merge := .marking m }
  | markMerge {w : World graph} {m : Merge graph} {db : Database} (stage : w.merge = .marking m)
      (ok : w.disk.db.markGitObjectsPromoted m.id none = .ok db) :
      Transition w .mergeNext { w with disk := { w.disk with db }, merge := .committing m }
  | moveMerge {w : World graph} {m : Merge graph} {git : GitRepository}
      (stage : w.merge = .committing m) (opened : w.disk.git m.path = some git)
      (initial : git.refsMatch m.commands.initial = true) :
      Transition w .mergeNext { w with
        disk := w.disk.setGit m.path (git.applied m.commands)
        merge := .completing m true, committed := m.id :: w.committed }
  | refuse {w : World graph} {a : Action graph} {m : Merge graph}
      (stage : w.merge = .committing m) :
      Transition w a { w with merge := .refused m }
  | refusedAtTarget {w : World graph} {m : Merge graph} {git : GitRepository}
      (stage : w.merge = .refused m) (opened : w.disk.git m.path = some git)
      (same : git.refs m.request.baseRef = some m.request.newTarget) :
      Transition w .mergeNext { w with merge := .completing m false }
  | giveUp {w : World graph} {a : Action graph} {m : Merge graph}
      (stage : w.merge = .refused m ∨ w.merge = .writing m) :
      Transition w a { w with merge := .abandoning m }
  | completeMerge {w : World graph} {m : Merge graph} {moved : Bool} {db : Database}
      (stage : w.merge = .completing m moved) (ok : w.disk.db.completeGitIntent m.id = .ok db) :
      Transition w .mergeNext (returns { w with disk := { w.disk with db } } m moved)
  | abandonMerge {w : World graph} {m : Merge graph} {db : Database}
      (stage : w.merge = .abandoning m) (ok : w.disk.db.abandonGitIntent m.id = .ok db) :
      Transition w .mergeNext (returns { w with disk := { w.disk with db } } m false)
  /-- A transaction of the merge fails. -/
  | storeFails {w : World graph} {m : Merge graph}
      (stage : w.merge = .read m ∨ w.merge = .marking m ∨ w.merge = .refused m ∨
        (∃ moved, w.merge = .completing m moved ∧
          ∀ db, w.disk.db.completeGitIntent m.id ≠ .ok db) ∨ w.merge = .abandoning m) :
      Transition w .mergeNext (returns w m false)
  | mergeFails {w : World graph} {m : Merge graph} :
      Transition w .mergeFails (returns w m false)
  | setState {w : World graph} {request : PullRequests.SetState} {db : Database}
      (ok : w.disk.db.setPullRequestState request.owner request.repository request.number
        request.actor request.state request.changedAt = .ok db)
      (unmerged : request.state ≠ .merged) :
      Transition w (.setState request) { w with disk := { w.disk with db } }
  | unchanged {w : World graph} {a : Action graph} : Transition w a w
  | crash {w : World graph} :
      Transition w .crash { w with mode := .down, push := .idle, merge := .idle }
  | boot {w : World graph} (down : w.mode = .down) :
      Transition w .boot { w with mode := .starting, push := .failing }

/-! ## Every step is one of them -/

theorem endRecovery_eq (w : World graph) (succeeded : Bool) :
    ∃ mode, ModeAfter w.mode mode ∧ endRecovery w succeeded = { w with push := .idle, mode } := by
  unfold endRecovery
  split
  · rename_i starting
    refine ⟨_, Or.inr ⟨starting, ?_⟩, rfl⟩
    cases succeeded
    · exact Or.inr rfl
    · exact Or.inl rfl
  · exact ⟨w.mode, Or.inl rfl, rfl⟩

theorem endRecovery_transition (w : World graph) (a : Action graph) (succeeded : Bool) :
    Transition w a (endRecovery w succeeded) := by
  obtain ⟨mode, after, same⟩ := endRecovery_eq w succeeded
  rw [same]
  exact .stopPush (Or.inl rfl) after

/-- A step of recovery that only reads. -/
theorem look_transition {w : World graph} {at' : Recovery} {outcome : Outcome}
    (stage : w.push = .recovering at') (reading : recoveryStep w.disk at' = (w.disk, outcome))
    (looks : ∀ next, outcome = .continues next → Looks w.disk at' next) :
    Transition w .pushNext (recoverNext w at') := by
  unfold recoverNext
  rw [reading]
  cases outcome with
  | continues next => exact .look stage (looks next rfl)
  | succeeded => exact endRecovery_transition w _ true
  | failed => exact endRecovery_transition w _ false

theorem lost_transition {w : World graph} {at' : Recovery} (stage : w.push = .recovering at')
    (reading : recoveryStep w.disk at' = (w.disk, .failed)) :
    Transition w .pushNext (recoverNext w at') :=
  look_transition stage reading nofun

theorem recoverNext_transition {w : World graph} {at' : Recovery}
    (stage : w.push = .recovering at') : Transition w .pushNext (recoverNext w at') := by
  cases at' with
  | listed rest =>
      cases rest with
      | nil => exact look_transition stage rfl nofun
      | cons i rest =>
          cases opened : w.disk.git i.repositoryPath with
          | none => exact lost_transition stage (by rw [recoveryStep, opened])
          | some git =>
              refine look_transition stage (by rw [recoveryStep, opened]) ?_
              rintro next ⟨⟩
              exact .take (by rw [opened]; rfl)
  | initial i left rest =>
      cases left with
      | nil =>
          refine look_transition stage rfl ?_
          rintro next ⟨⟩
          exact .initialEnd
      | cons e left =>
          cases read : reads w.disk i e with
          | none => exact lost_transition stage (by rw [recoveryStep, read])
          | some same =>
              cases same with
              | false =>
                  refine look_transition stage (by rw [recoveryStep, read]) ?_
                  rintro next ⟨⟩
                  exact .initialOther read
              | true =>
                  refine look_transition stage (by rw [recoveryStep, read]) ?_
                  rintro next ⟨⟩
                  exact .initialSame read
  | proposed i atInitial left rest =>
      cases left with
      | nil => exact look_transition stage rfl fun next decides => .proposedEnd decides
      | cons e left =>
          cases read : reads w.disk i e with
          | none => exact lost_transition stage (by rw [recoveryStep, read])
          | some same =>
              cases same with
              | false =>
                  exact look_transition stage (by rw [recoveryStep, read]) fun next decides =>
                    .proposedOther read decides
              | true =>
                  refine look_transition stage (by rw [recoveryStep, read]) ?_
                  rintro next ⟨⟩
                  exact .proposedSame read
  | removing i rest => exact .remove stage
  | settling i completes rest =>
      cases result : (if completes then w.disk.db.completeGitIntent i.id
          else w.disk.db.abandonGitIntent i.id) with
      | error error =>
          refine lost_transition stage ?_
          rw [recoveryStep, settles, Disk.inStore_error result]
      | ok db =>
          unfold recoverNext
          rw [recoveryStep, settles, Disk.inStore_ok result]
          dsimp only
          cases checked : Disk.quarantined i with
          | true => exact .settle stage result (Or.inl rfl) (Or.inl rfl)
          | false =>
              obtain ⟨mode, after, same⟩ :=
                endRecovery_eq { w with disk := { w.disk with db } } false
              rw [if_neg nofun, afterRecovery, same]
              exact .settle stage result (Or.inr ⟨rfl, checked⟩) after

theorem pushNext_transition {w w' : World graph} (next : pushNext w = some w') :
    Transition w .pushNext w' := by
  unfold pushNext at next
  split at next
  · cases next
  · rename_i push stage
    split at next
    · rename_i db ok
      cases next
      exact .beginPush stage ok
    · cases next
      exact .stopPush (Or.inl rfl) (Or.inl rfl)
  · rename_i push stage
    split at next
    · cases next
      exact .stopPush (Or.inr rfl) (Or.inl rfl)
    · rename_i git opened
      split at next
      · rename_i valid
        cases next
        exact .place stage opened valid
      · cases next
        exact .stopPush (Or.inr rfl) (Or.inl rfl)
  · rename_i push packName stage
    cases next
    unfold pushStores
    split
    · exact .markPush stage ‹_›
    · exact .stopPush (Or.inr rfl) (Or.inl rfl)
  · rename_i push stage
    split at next
    · cases next
      exact .stopPush (Or.inr rfl) (Or.inl rfl)
    · rename_i disk moves
      cases next
      obtain ⟨git, opened, initial, rfl⟩ := Disk.moveRefs_eq_some.mp moves
      exact .movePush stage opened initial
  · rename_i push stage
    cases next
    unfold pushStores
    split
    · exact .completePush stage ‹_›
    · exact .stopPush (Or.inr rfl) (Or.inl rfl)
  · rename_i stage
    cases next
    exact .list stage
  · rename_i at' stage
    cases next
    exact recoverNext_transition stage

theorem pushFails_transition {w w' : World graph} {placed : Bool}
    (next : pushFails w placed = some w') : Transition w (.pushFails placed) w' := by
  unfold pushFails at next
  split at next
  · cases next
  · cases next
    exact .stopPush (Or.inl rfl) (Or.inl rfl)
  · rename_i push stage
    split at next
    · cases next
      exact .stopPush (Or.inr rfl) (Or.inl rfl)
    · split at next
      · rename_i both
        obtain ⟨rfl, -⟩ := Bool.and_eq_true_iff.mp both
        cases next
        exact .placeFails stage
      · cases next
        exact .stopPush (Or.inr rfl) (Or.inl rfl)
  · cases next
    exact .stopPush (Or.inr rfl) (Or.inl rfl)
  · cases next
    exact .stopPush (Or.inr rfl) (Or.inl rfl)
  · cases next
    exact .stopPush (Or.inr rfl) (Or.inl rfl)
  · cases next
    exact endRecovery_transition w _ false
  · cases next
    exact endRecovery_transition w _ false

theorem mergeNext_transition {w w' : World graph} (next : mergeNext w = some w') :
    Transition w .mergeNext w' := by
  unfold mergeNext at next
  split at next
  · cases next
  · rename_i m stage
    cases next
    unfold mergeStores
    split
    · rename_i db ok
      refine .beginMerge stage ok ?_
      cases method : m.request.method with
      | fastForward => exact Or.inr ⟨rfl, if_neg nofun⟩
      | mergeCommit => exact Or.inl ⟨rfl, if_pos rfl⟩
    · exact .storeFails (Or.inl stage)
  · rename_i m stage
    cases next
    exact .write stage
  · rename_i m stage
    cases next
    unfold mergeStores
    split
    · exact .markMerge stage ‹_›
    · exact .storeFails (Or.inr (Or.inl stage))
  · rename_i m stage
    split at next
    · cases next
      exact .refuse stage
    · rename_i disk moves
      cases next
      obtain ⟨git, opened, initial, rfl⟩ := Disk.moveRefs_eq_some.mp moves
      exact .moveMerge stage opened initial
  · rename_i m stage
    split at next
    · cases next
      exact .storeFails (Or.inr (Or.inr (Or.inl stage)))
    · rename_i git opened
      split at next
      · rename_i same
        cases next
        exact .refusedAtTarget stage opened same
      · cases next
        exact .giveUp (Or.inl stage)
  · rename_i m moved stage
    cases next
    unfold mergeStores
    split
    · exact .completeMerge stage ‹_›
    · rename_i error failed
      refine .storeFails (Or.inr (Or.inr (Or.inr (Or.inl ⟨moved, stage, ?_⟩))))
      intro db ok
      rw [failed] at ok
      cases ok
  · rename_i m stage
    cases next
    unfold mergeStores
    split
    · exact .abandonMerge stage ‹_›
    · exact .storeFails (Or.inr (Or.inr (Or.inr (Or.inr stage))))

theorem mergeFails_transition {w w' : World graph} (next : mergeFails w = some w') :
    Transition w .mergeFails w' := by
  unfold mergeFails at next
  split at next
  · cases next
  · rename_i m stage
    cases next
    exact .giveUp (Or.inr stage)
  · rename_i m stage
    cases next
    exact .refuse stage
  all_goals
    cases next
    exact .mergeFails

/-- **Every step of the system is a transition.** -/
theorem step_transition {w w' : World graph} {a : Action graph} (next : step w a = some w') :
    Transition w a w' := by
  cases a with
  | startPush push =>
      simp only [step] at next
      split at next
      · rename_i up idle
        split at next
        · cases next
          exact .startPush up idle ‹_›
        · cases next
      · cases next
  | pushNext => exact pushNext_transition next
  | pushFails placed => exact pushFails_transition next
  | startRecovery =>
      simp only [step] at next
      split at next
      · cases next
        exact .stopPush (Or.inr rfl) (Or.inl rfl)
      · cases next
  | startMerge m =>
      simp only [step] at next
      split at next
      · rename_i up idle
        split at next
        · cases next
          exact .startMerge up idle ‹_›
        · cases next
      · cases next
  | mergeNext => exact mergeNext_transition next
  | mergeFails => exact mergeFails_transition next
  | setState request =>
      simp only [step] at next
      split at next
      · split at next
        · rename_i valid
          simp only [Bool.and_eq_true, decide_eq_true_eq] at valid
          cases next
          cases result : w.disk.db.setPullRequestState request.owner request.repository
              request.number request.actor request.state request.changedAt with
          | ok db => exact .setState result valid.2
          | error error => exact .unchanged
        · cases next
      · cases next
  | crash =>
      cases next
      exact .crash
  | boot =>
      simp only [step] at next
      split at next
      · cases next
        exact .boot ‹_›
      · cases next

end Tit.Operations
