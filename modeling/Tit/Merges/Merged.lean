/-
# Merges.Merged -- what holds of every merged pull request

What the lanes of the server have noted (`Noted`) makes every completion of a merge one that was
done: the reference transaction of the merge was committed, or its base reference was found at
the new target.  Recovery is no exception, since it completes an intent only after it has seen
every reference of the intent at its proposed value.
-/
import Tit.Git.Ancestry
import Tit.Merges.Provenance
import Tit.Operations.WellFormed

namespace Tit.Merges

open Tit.Theory Tit.Store Tit.Git Tit.Operations

set_option autoImplicit false

variable {library : Library} {graph : ObjectGraph}

/-! ## What was done -/

/-- The reference of the intent was found at the value. -/
def Seen (found : List Finding) (id : Identifier) (path : RepositoryPath)
    (entry : RefName × ObjectId) : Prop :=
  ∃ f ∈ found, f.id = id ∧ f.path = path ∧ f.entry = entry

/-- A reference transaction has moved the base, or the base was found at the new target. -/
def Done (moves : List Move) (found : List Finding) (b : Begun library graph) : Prop :=
  (∃ move ∈ moves, move.path = b.merge.path ∧ move.commands = b.merge.commands) ∨
    Seen found b.merge.id b.merge.path (b.merge.request.baseRef, b.merge.request.newTarget)

theorem Seen.grow {found : List Finding} (new : List Finding) {id : Identifier}
    {path : RepositoryPath} {entry : RefName × ObjectId} (seen : Seen found id path entry) :
    Seen (new ++ found) id path entry := by
  obtain ⟨f, hf, same⟩ := seen
  exact ⟨f, List.mem_append_right _ hf, same⟩

theorem Done.grow {moves : List Move} {found : List Finding} (newMoves : List Move)
    (newFound : List Finding) {b : Begun library graph} (done : Done moves found b) :
    Done (newMoves ++ moves) (newFound ++ found) b := by
  rcases done with ⟨move, hmove, same⟩ | seen
  · exact Or.inl ⟨move, List.mem_append_right _ hmove, same⟩
  · exact Or.inr (seen.grow newFound)

theorem seen_finding {disk : Disk} {path : RepositoryPath} {git : GitRepository}
    (opened : disk.git path = some git) (id : Identifier) {entry : RefName × ObjectId}
    (there : valueAt git entry.1 = entry.2) (found : List Finding) :
    Seen (findingOf disk path id entry ++ found) id path entry := by
  refine ⟨⟨id, path, entry, git, there⟩, List.mem_append_left _ ?_, rfl, rfl, rfl⟩
  simp [findingOf, opened, there]

theorem moveOf_eq {disk : Disk} {path : RepositoryPath} {git : GitRepository}
    {commands : Commands} (opened : disk.git path = some git)
    (matched : git.refsMatch commands.initial = true) :
    moveOf disk path commands = [⟨path, commands, git, matched⟩] := by
  simp [moveOf, opened, matched]

/-- A reference is as the snapshot says exactly if its value is the one of the snapshot. -/
theorem valueAt_of_refsMatch {git : GitRepository} {e : RefName × ObjectId}
    (same : git.refsMatch [e] = true) : valueAt git e.1 = e.2 := by
  have target := GitRepository.refsMatch_iff.mp same e List.mem_cons_self
  unfold valueAt
  rw [target]
  unfold Database.target
  by_cases null : e.2.isNull = true
  · rw [if_pos null]
    exact (ObjectId.isNull_iff.mp null).symm
  · rw [if_neg null]
    rfl

/-! ## What the push lane has noted -/

/-- The intent is stored, but for how far it has come. -/
def Listed (db : Database) (i : GitOperationIntent) : Prop :=
  ∃ j ∈ db.gitOperationIntents, SameIntent j i

theorem Listed.keeps {db db' : Database} {i : GitOperationIntent} (listed : Listed db i)
    (keeps : Keeps db db') : Listed db' i := by
  obtain ⟨j, hj, same⟩ := listed
  obtain ⟨j', hj', same'⟩ := keeps.intents j hj
  exact ⟨j', hj', same'.trans same⟩

/-- The intents that recovery still has to do with. -/
def intentsOf : Recovery → List GitOperationIntent
  | .listed rest => rest
  | .initial i _ rest | .proposed i _ _ rest | .removing i rest | .settling i _ rest => i :: rest

/-- What recovery has seen of the intent that it is at. -/
def SeenSoFar (found : List Finding) : Recovery → Prop
  | .proposed i _ left _ =>
      ∀ e ∈ i.proposedRefs, e ∈ left ∨ Seen found i.id i.repositoryPath e
  | .settling i completes _ =>
      completes = true → ∀ e ∈ i.proposedRefs, Seen found i.id i.repositoryPath e
  | _ => True

structure RecoveryNoted (db : Database) (found : List Finding) (at' : Recovery) : Prop where
  listed : ∀ i ∈ intentsOf at', Listed db i
  seen : SeenSoFar found at'

section Recovery

variable {db db' : Database} {found : List Finding} {at' next : Recovery}

theorem RecoveryNoted.keeps (noted : RecoveryNoted db found at') (keeps : Keeps db db')
    (new : List Finding) : RecoveryNoted db' (new ++ found) at' where
  listed i hi := (noted.listed i hi).keeps keeps
  seen := by
    have seen := noted.seen
    cases at' with
    | proposed i atInitial left rest =>
        exact fun e he => (seen e he).imp_right (Seen.grow new)
    | settling i completes rest => exact fun yes e he => (seen yes e he).grow new
    | _ => trivial

/-- Recovery completes an intent only if it is at its proposed values. -/
theorem decided_eq {i : GitOperationIntent} {atInitial atProposed : Bool}
    {rest : List GitOperationIntent}
    (decides : decided i atInitial atProposed rest = .continues next) :
    (next = .settling i true rest ∧ atProposed = true) ∨ next = .settling i false rest ∨
      next = .removing i rest := by
  unfold decided at decides
  split at decides
  · cases decides
  · cases decides
    exact Or.inr (Or.inl rfl)
  · rename_i completes
    cases decides
    refine Or.inl ⟨rfl, ?_⟩
    unfold settlement at completes
    split at completes
    · cases completes
    · split at completes <;> cases completes
    · rfl
    · cases completes
    · split at completes <;> cases completes
    · cases completes
  · cases decides
    exact Or.inr (Or.inr rfl)

theorem RecoveryNoted.looks {disk : Disk} (noted : RecoveryNoted disk.db found at')
    (looks : Looks disk at' next) :
    RecoveryNoted disk.db (recoveryFound disk at' ++ found) next := by
  cases looks with
  | take opens => exact ⟨noted.listed, trivial⟩
  | initialSame same => exact ⟨noted.listed, trivial⟩
  | initialOther other => exact ⟨noted.listed, fun e he => Or.inl he⟩
  | initialEnd => exact ⟨noted.listed, fun e he => Or.inl he⟩
  | @proposedSame i atInitial e left rest same =>
      refine ⟨noted.listed, fun d hd => ?_⟩
      rcases noted.seen d hd with waits | seen
      · rcases List.mem_cons.mp waits with rfl | later
        · unfold reads at same
          obtain ⟨git, opened, here⟩ := Option.map_eq_some_iff.mp same
          exact Or.inr (seen_finding opened i.id (valueAt_of_refsMatch here) found)
        · exact Or.inl later
      · exact Or.inr (seen.grow _)
  | proposedOther other decides =>
      rcases decided_eq decides with ⟨-, no⟩ | rfl | rfl
      · cases no
      · exact ⟨noted.listed, nofun⟩
      · exact ⟨noted.listed, trivial⟩
  | @proposedEnd i atInitial rest at' decides =>
      rcases decided_eq decides with ⟨rfl, -⟩ | rfl | rfl
      · exact ⟨noted.listed, fun _ e he => (noted.seen e he).elim nofun id⟩
      · exact ⟨noted.listed, nofun⟩
      · exact ⟨noted.listed, trivial⟩

end Recovery

/-- A push has its intent stored, and no merge has that intent. -/
def PushNoted (db : Database) (begun : List (Begun library graph)) (found : List Finding) :
    PushStage → Prop
  | .indexing push | .marking push _ | .committing push | .completing push =>
      (∃ i ∈ db.gitOperationIntents, i.id = push.id) ∧ ∀ b ∈ begun, b.merge.id ≠ push.id
  | .recovering at' => RecoveryNoted db found at'
  | .idle | .validated _ | .failing => True

/-! ## What the merge lane and the reading have noted -/

def MergeNoted (db : Database) (plan : Option (Plan library graph))
    (begun : List (Begun library graph)) (done : Begun library graph → Prop) :
    MergeStage graph → Prop
  | .idle => True
  | .read m => ∃ q, plan = some q ∧ q.merge = m ∧ Planned db m q.headRef
  | .writing m | .marking m | .committing m | .refused m | .abandoning m =>
      ∃ b ∈ begun, b.merge = m
  | .completing m _ => ∃ b ∈ begun, b.merge = m ∧ done b

/-- The pull request of the call is still there. -/
def ReadingNoted (db : Database) : Option Reading → Prop
  | none => True
  | some reading => ∃ p ∈ db.pullRequests, p.repositoryId = reading.call.repositoryId ∧
      p.number = reading.call.pullRequest.number ∧ p.headRef = reading.call.pullRequest.headRef

structure Noted (w : World library graph) : Prop where
  sound : Sound w.server.disk.db w.begun (Done w.moves w.found)
  reading : ReadingNoted w.server.disk.db w.reading
  push : PushNoted w.server.disk.db w.begun w.found w.server.push
  merge : MergeNoted w.server.disk.db w.plan w.begun (Done w.moves w.found) w.server.merge

section Keeping

variable {db db' : Database} {begun : List (Begun library graph)} {found : List Finding}

theorem ReadingNoted.keeps {reading : Option Reading} (noted : ReadingNoted db reading)
    (keeps : Keeps db db') : ReadingNoted db' reading := by
  cases reading with
  | none => trivial
  | some reading =>
      obtain ⟨p, hp, repository, number, head⟩ := noted
      obtain ⟨p', hp', -, repository', number', head'⟩ := keeps.rows p hp
      exact ⟨p', hp', repository'.trans repository, number'.trans number, head'.trans head⟩

theorem stored_id (keeps : Keeps db db') {id : Identifier}
    (stored : ∃ i ∈ db.gitOperationIntents, i.id = id) :
    ∃ i ∈ db'.gitOperationIntents, i.id = id := by
  obtain ⟨i, hi, own⟩ := stored
  obtain ⟨i', hi', same⟩ := keeps.intents i hi
  exact ⟨i', hi', same.id.trans own⟩

theorem PushNoted.keeps {stage : PushStage} (noted : PushNoted db begun found stage)
    (keeps : Keeps db db') (new : List Finding) : PushNoted db' begun (new ++ found) stage := by
  cases stage with
  | indexing push => exact noted.imp_left (stored_id keeps)
  | marking push packName => exact noted.imp_left (stored_id keeps)
  | committing push => exact noted.imp_left (stored_id keeps)
  | completing push => exact noted.imp_left (stored_id keeps)
  | recovering at' => exact RecoveryNoted.keeps noted keeps new
  | _ => trivial

/-- A merge that is begun takes an intent that no push has. -/
theorem PushNoted.begin {stage : PushStage} (noted : PushNoted db begun found stage)
    (b : Begun library graph) (fresh : ∀ i ∈ db.gitOperationIntents, i.id ≠ b.merge.id) :
    PushNoted db (b :: begun) found stage := by
  have apart : ∀ {id : Identifier}, ((∃ i ∈ db.gitOperationIntents, i.id = id) ∧
      ∀ c ∈ begun, c.merge.id ≠ id) → ∀ c ∈ b :: begun, c.merge.id ≠ id := by
    rintro id ⟨⟨i, hi, own⟩, others⟩
    exact List.forall_mem_cons.mpr ⟨fun same => fresh i hi (own.trans same.symm), others⟩
  cases stage with
  | indexing push => exact ⟨noted.1, apart noted⟩
  | marking push packName => exact ⟨noted.1, apart noted⟩
  | committing push => exact ⟨noted.1, apart noted⟩
  | completing push => exact ⟨noted.1, apart noted⟩
  | recovering at' => exact noted
  | _ => trivial

theorem MergeNoted.keeps {plan : Option (Plan library graph)}
    {done done' : Begun library graph → Prop} {stage : MergeStage graph}
    (noted : MergeNoted db plan begun done stage) (keeps : Keeps db db')
    (weaker : ∀ b ∈ begun, done b → done' b) : MergeNoted db' plan begun done' stage := by
  cases stage with
  | idle => trivial
  | read m =>
      obtain ⟨q, planned, same, pullRequest⟩ := noted
      exact ⟨q, planned, same, pullRequest.keeps keeps⟩
  | completing m moved =>
      obtain ⟨b, hb, same, ended⟩ := noted
      exact ⟨b, hb, same, weaker b hb ended⟩
  | _ => exact noted

end Keeping

/-! ## Steps of the server -/

section Server

variable {w : World library graph}

/-- A step that begins no merge; `keeps` and `sound` are about its transaction. -/
theorem Noted.next {a : Operations.Action graph} {server : Operations.World graph}
    (noted : Noted w) (none : newBegun w a = [])
    (keeps : Keeps w.server.disk.db server.disk.db)
    (sound : Sound server.disk.db w.begun (Done w.moves w.found))
    (push : PushNoted server.disk.db w.begun (newFound w a ++ w.found) server.push)
    (merge : MergeNoted server.disk.db w.plan w.begun
      (Done (newMoves w a ++ w.moves) (newFound w a ++ w.found)) server.merge) :
    Noted (noting w a server) := by
  unfold noting
  rw [none, List.nil_append]
  refine ⟨sound.mono fun b _ done => done.grow _ _, ?_, push, merge⟩
  show ReadingNoted server.disk.db (if isCrash a then Option.none else w.reading)
  split
  · trivial
  · exact noted.reading.keeps keeps

/-- A step without a transaction. -/
theorem Noted.quiet {a : Operations.Action graph} {server : Operations.World graph}
    (noted : Noted w) (none : newBegun w a = []) (same : server.disk.db = w.server.disk.db)
    (push : PushNoted w.server.disk.db w.begun (newFound w a ++ w.found) server.push)
    (merge : MergeNoted w.server.disk.db w.plan w.begun
      (Done (newMoves w a ++ w.moves) (newFound w a ++ w.found)) server.merge) :
    Noted (noting w a server) := by
  refine noted.next none ?_ ?_ ?_ ?_
  · rw [same]
    exact .refl _
  · rw [same]
    exact noted.sound
  · rw [same]
    exact push
  · rw [same]
    exact merge

/-- What a step does not touch stays noted. -/
theorem Noted.pushStays {a : Operations.Action graph} {db : Database} (noted : Noted w)
    (keeps : Keeps w.server.disk.db db) :
    PushNoted db w.begun (newFound w a ++ w.found) w.server.push :=
  noted.push.keeps keeps _

theorem Noted.mergeStays {a : Operations.Action graph} {db : Database} (noted : Noted w)
    (keeps : Keeps w.server.disk.db db) :
    MergeNoted db w.plan w.begun (Done (newMoves w a ++ w.moves) (newFound w a ++ w.found))
      w.server.merge :=
  noted.merge.keeps keeps fun _ _ done => done.grow _ _

/-- A transaction that neither begins a merge nor completes an intent. -/
theorem Noted.stores {db : Database} (noted : Noted w) (operation : PullRequests.Operation)
    (other : ∀ merge intent, operation ≠ .beginMerge merge intent)
    (other' : ∀ id, operation ≠ .completeGitIntent id)
    (ok : operation.transact w.server.disk.db = .ok db) :
    Keeps w.server.disk.db db ∧ Sound db w.begun (Done w.moves w.found) :=
  ⟨transact_keeps operation ok, noted.sound.transact operation other other' ok⟩

/-- The completion of an intent: its merge, if it has one, was done. -/
theorem Noted.completes {db : Database} {id : Identifier} (noted : Noted w)
    (ok : w.server.disk.db.completeGitIntent id = .ok db)
    (ended : ∀ b ∈ w.begun, b.merge.id = id → Done w.moves w.found b) :
    Keeps w.server.disk.db db ∧ Sound db w.begun (Done w.moves w.found) :=
  ⟨transact_keeps (.completeGitIntent id) ok, noted.sound.complete ok ended⟩

/-- The merges with the intent that recovery completes were done. -/
theorem Noted.recovered {i : GitOperationIntent} {rest : List GitOperationIntent}
    (noted : Noted w) (stage : w.server.push = .recovering (.settling i true rest)) :
    ∀ b ∈ w.begun, b.merge.id = i.id → Done w.moves w.found b := by
  intro b hb own
  have lane := noted.push
  rw [stage] at lane
  obtain ⟨j, hj, same⟩ := lane.listed i List.mem_cons_self
  obtain ⟨k, hk, of⟩ := noted.sound.stored b hb
  obtain rfl : k = j := Table.eq_of_key hk hj (of.id.trans (own.trans same.id.symm))
  have entry : (b.merge.request.baseRef, b.merge.request.newTarget) ∈ i.proposedRefs := by
    rw [← same.proposed, of.proposed]
    exact List.mem_cons_self
  obtain ⟨f, hf, id, path, value⟩ := lane.seen rfl _ entry
  exact Or.inr ⟨f, hf, id.trans own.symm, path.trans (same.path.symm.trans of.path), value⟩

theorem noted_transition {a : Operations.Action graph} {server : Operations.World graph}
    (noted : Noted w) (allowed : permitted a = true) (none : newBegun w a = [])
    (transition : Transition w.server a server) : Noted (noting w a server) := by
  have still := Keeps.refl w.server.disk.db
  cases transition with
  | startPush up idle initial =>
      exact noted.quiet none rfl trivial (noted.mergeStays still)
  | @beginPush push db stage ok =>
      obtain ⟨keeps, sound⟩ := noted.stores (.beginGitIntent push.intent)
        (fun _ _ h => by cases h) (fun _ h => by cases h) ok
      obtain ⟨intents, inserted, rfl⟩ := Database.beginGitIntent_eq_ok ok
      refine noted.next none keeps sound ⟨⟨_, (Table.mem_insert inserted).mpr (Or.inr rfl), rfl⟩,
        fun b hb same => ?_⟩ (noted.mergeStays keeps)
      obtain ⟨i, hi, of⟩ := noted.sound.stored b hb
      exact Table.insert_fresh inserted i hi (Schema.clash_of_key _ _ (of.id.trans same))
  | place stage opened valid =>
      have lane := noted.push
      rw [stage] at lane
      exact noted.quiet none (Disk.place_db _ _ _) lane (noted.mergeStays still)
  | placeFails stage =>
      exact noted.quiet none (Disk.place_db _ _ _) trivial (noted.mergeStays still)
  | @markPush push packName db stage ok =>
      obtain ⟨keeps, sound⟩ := noted.stores (.markObjectsPromoted push.id packName)
        (fun _ _ h => by cases h) (fun _ h => by cases h) ok
      have lane := noted.push
      rw [stage] at lane
      exact noted.next none keeps sound (lane.imp_left (stored_id keeps)) (noted.mergeStays keeps)
  | movePush stage opened initial =>
      have lane := noted.push
      rw [stage] at lane
      exact noted.quiet none rfl lane (noted.mergeStays still)
  | @completePush push db stage ok =>
      have lane := noted.push
      rw [stage] at lane
      obtain ⟨keeps, sound⟩ := noted.completes ok fun b hb same => absurd same (lane.2 b hb)
      exact noted.next none keeps sound trivial (noted.mergeStays keeps)
  | stopPush stops after =>
      refine noted.quiet none rfl ?_ (noted.mergeStays still)
      rcases stops with rfl | rfl <;> trivial
  | list stage =>
      refine noted.quiet none rfl ⟨fun i hi => ?_, trivial⟩ (noted.mergeStays still)
      exact ⟨i, (Database.mem_incompleteGitIntents.mp hi).1, .refl i⟩
  | @look at' next stage looks =>
      have lane := noted.push
      rw [stage] at lane
      refine noted.quiet none rfl ?_ (noted.mergeStays still)
      have found : newFound w .pushNext = recoveryFound w.server.disk at' := by
        simp only [newFound, stage]
      rw [found]
      exact RecoveryNoted.looks lane looks
  | @remove i rest stage =>
      have lane := noted.push
      rw [stage] at lane
      exact noted.quiet none rfl ⟨lane.listed, nofun⟩ (noted.mergeStays still)
  | @settle i completes rest db stage' mode stage ok next after =>
      have lane := noted.push
      rw [stage] at lane
      have stored : Keeps w.server.disk.db db ∧ Sound db w.begun (Done w.moves w.found) := by
        cases completes with
        | true => exact noted.completes ok (noted.recovered stage)
        | false =>
            exact noted.stores (.abandonGitIntent i.id) (fun _ _ h => by cases h)
              (fun _ h => by cases h) ok
      obtain ⟨keeps, sound⟩ := stored
      refine noted.next none keeps sound ?_ (noted.mergeStays keeps)
      rcases next with rfl | ⟨rfl, -⟩
      · exact ⟨fun j hj => (lane.listed j (List.mem_cons_of_mem _ hj)).keeps keeps, trivial⟩
      · trivial
  | startMerge up idle read => cases allowed
  | @beginMerge m db stage' stage ok next =>
      -- The step would have been noted.
      have lane := noted.merge
      rw [stage] at lane
      obtain ⟨plan, planned, rfl, -⟩ := lane
      have began : (w.server.disk.db.beginPullRequestMerge plan.merge.request
          plan.merge.intent).toOption.isSome = true := by
        rw [ok]
        rfl
      simp [newBegun, stage, planned, began] at none
  | write stage =>
      have lane := noted.merge
      rw [stage] at lane
      exact noted.quiet none (writeObjects_db _ _) (noted.pushStays still) lane
  | @markMerge m db stage ok =>
      obtain ⟨keeps, sound⟩ := noted.stores (.markObjectsPromoted m.id Option.none)
        (fun _ _ h => by cases h) (fun _ h => by cases h) ok
      have lane := noted.merge
      rw [stage] at lane
      exact noted.next none keeps sound (noted.pushStays keeps) lane
  | @moveMerge m git stage opened initial =>
      have lane := noted.merge
      rw [stage] at lane
      obtain ⟨b, hb, rfl⟩ := lane
      refine noted.quiet none rfl (noted.pushStays still) ⟨b, hb, rfl, ?_⟩
      have moved : newMoves w .mergeNext = [⟨b.merge.path, b.merge.commands, git, initial⟩] := by
        simp only [newMoves, stage]
        exact moveOf_eq opened initial
      rw [moved]
      exact Or.inl ⟨_, List.mem_cons_self, rfl, rfl⟩
  | refuse stage =>
      have lane := noted.merge
      rw [stage] at lane
      exact noted.quiet none rfl (noted.pushStays still) lane
  | @refusedAtTarget m git stage opened same =>
      have lane := noted.merge
      rw [stage] at lane
      obtain ⟨b, hb, rfl⟩ := lane
      refine noted.quiet none rfl (noted.pushStays still) ⟨b, hb, rfl, ?_⟩
      have found : newFound w .mergeNext = findingOf w.server.disk b.merge.path b.merge.id
          (b.merge.request.baseRef, b.merge.request.newTarget) := by
        simp only [newFound, stage]
      rw [found]
      refine Or.inr (seen_finding opened _ ?_ _)
      unfold valueAt
      rw [same, Option.getD_some]
  | giveUp stage =>
      have lane := noted.merge
      rcases stage with stage | stage <;>
        · rw [stage] at lane
          exact noted.quiet none rfl (noted.pushStays still) lane
  | @completeMerge m moved db stage ok =>
      have lane := noted.merge
      rw [stage] at lane
      obtain ⟨b, hb, rfl, ended⟩ := lane
      obtain ⟨keeps, sound⟩ := noted.completes ok fun c hc same => by
        obtain rfl := noted.sound.distinct c hc b hb same
        exact ended
      exact noted.next none keeps sound (noted.pushStays keeps) trivial
  | @abandonMerge m db stage ok =>
      obtain ⟨keeps, sound⟩ := noted.stores (.abandonGitIntent m.id)
        (fun _ _ h => by cases h) (fun _ h => by cases h) ok
      exact noted.next none keeps sound (noted.pushStays keeps) trivial
  | storeFails stage => exact noted.quiet none rfl (noted.pushStays still) trivial
  | mergeFails => exact noted.quiet none rfl (noted.pushStays still) trivial
  | @setState request db ok unmerged =>
      have requested : request.state =
          PullRequests.requestedState (decide (request.state = .closed)) := by
        cases state : request.state with
        | merged => exact absurd state unmerged
        | «open» => rfl
        | closed => rfl
      rw [requested] at ok
      obtain ⟨keeps, sound⟩ := noted.stores (.setState request.owner request.repository
        request.number request.actor (decide (request.state = .closed)) request.changedAt)
        (fun _ _ h => by cases h) (fun _ h => by cases h) ok
      exact noted.next none keeps sound (noted.pushStays keeps) (noted.mergeStays keeps)
  | unchanged =>
      exact noted.quiet none rfl (noted.pushStays still) (noted.mergeStays still)
  | crash => exact noted.quiet none rfl trivial trivial
  | boot down => exact noted.quiet none rfl trivial (noted.mergeStays still)

end Server

/-! ## Every step -/

section Steps

variable {w w' : World library graph}

/-- The step that begins a merge. -/
theorem noted_begin {m : Merge graph} {plan : Plan library graph} {db : Database}
    {stage' : MergeStage graph} (noted : Noted w) (stage : w.server.merge = .read m)
    (planned : w.plan = some plan) (same : plan.merge = m)
    (ok : w.server.disk.db.beginPullRequestMerge m.request m.intent = .ok db)
    (next : stage' = .writing m ∨ stage' = .marking m) :
    Noted (noting w .mergeNext
      { w.server with disk := { w.server.disk with db }, merge := stage' }) := by
  subst same
  have began : (w.server.disk.db.beginPullRequestMerge plan.merge.request
      plan.merge.intent).toOption.isSome = true := by
    rw [ok]
    rfl
  have lane := noted.merge
  rw [stage] at lane
  obtain ⟨q, planned', own, pullRequest⟩ := lane
  obtain rfl : plan = q := Option.some.inj (planned.symm.trans planned')
  have begun : newBegun w .mergeNext = [{ plan with db := w.server.disk.db, began }] := by
    simp [newBegun, stage, planned, began]
  have found : newFound w .mergeNext = [] := by simp only [newFound, stage]
  have moves : newMoves w .mergeNext = [] := by simp only [newMoves, stage]
  have keeps := transact_keeps (.beginMerge plan.merge.request plan.merge.intent) ok
  obtain ⟨sound, fresh⟩ :=
    noted.sound.begin { plan with db := w.server.disk.db, began } pullRequest ok
  unfold noting
  rw [begun, found, moves]
  refine ⟨sound, noted.reading.keeps keeps, ?_, ?_⟩
  · exact (noted.push.begin { plan with db := w.server.disk.db, began } fresh).keeps keeps []
  · rcases next with rfl | rfl
    · exact ⟨_, List.mem_cons_self, rfl⟩
    · exact ⟨_, List.mem_cons_self, rfl⟩

theorem noted_server {a : Operations.Action graph} (noted : Noted w)
    (stepped : stepServer w a = some w') : Noted w' := by
  unfold stepServer at stepped
  split at stepped
  · rename_i allowed
    obtain ⟨server, next, rfl⟩ := Option.map_eq_some_iff.mp stepped
    by_cases none : newBegun w a = []
    · exact noted_transition noted allowed none (step_transition next)
    · -- The merge lane is about to begin what was planned.
      unfold newBegun at none
      split at none
      · rename_i m plan stage planned
        split at none
        · rename_i began
          have lane := noted.merge
          rw [stage] at lane
          obtain ⟨q, planned', own, -⟩ := lane
          obtain rfl : plan = q := Option.some.inj (planned.symm.trans planned')
          obtain ⟨db, ok⟩ : ∃ db, w.server.disk.db.beginPullRequestMerge plan.merge.request
              plan.merge.intent = .ok db := by
            cases result : w.server.disk.db.beginPullRequestMerge plan.merge.request
                plan.merge.intent with
            | ok db => exact ⟨db, rfl⟩
            | error error =>
                rw [result] at began
                cases began
          rw [own] at ok
          simp only [Operations.step, mergeNext, stage, mergeStores, ok, Option.some.injEq] at next
          subst next
          refine noted_begin noted stage planned own ok ?_
          split
          · exact Or.inl rfl
          · exact Or.inr rfl
        · exact absurd rfl none
      · exact absurd rfl none
  · cases stepped

/-- The reading goes on, and the rest is as it was. -/
theorem Noted.reads (noted : Noted w) {reading : Option Reading}
    (call : ReadingNoted w.server.disk.db reading) : Noted { w with reading } :=
  ⟨noted.sound, call, noted.push, noted.merge⟩

theorem noted_prepare {m : Merge graph} (noted : Noted w) (stepped : prepare w m = some w') :
    Noted w' := by
  unfold prepare at stepped
  split at stepped
  · rename_i call base head git there reading
    split at stepped
    · cases stepped
    · rename_i git' opened
      split at stepped
      · rename_i prepares
        obtain ⟨plan, planned, rfl⟩ := Option.map_eq_some_iff.mp stepped
        unfold planFor at planned
        split at planned
        · cases planned
          have seen := noted.reading
          rw [reading] at seen
          obtain ⟨p, hp, repository, number, headRef⟩ := seen
          obtain ⟨-, -, request, repositoryId⟩ := prepares
          refine ⟨noted.sound, trivial, noted.push, _, rfl, rfl, p, hp, ?_, ?_, headRef⟩
          · exact repository.trans repositoryId.symm
          · rw [request]
            exact number
        · cases planned
      · cases stepped
  · cases stepped

theorem noted_step {a : Action graph} (noted : Noted w) (stepped : step w a = some w') :
    Noted w' := by
  cases a with
  | operations a => exact noted_server noted stepped
  | readDetail owner repository number actor method =>
      simp only [step, readDetail] at stepped
      split at stepped
      · rename_i access up free settled accessed
        split at stepped
        · split at stepped
          · cases stepped
          · rename_i p found
            split at stepped
            · cases stepped
            · split at stepped
              · cases stepped
                obtain ⟨hp, repository, number⟩ := Database.mem_of_numbered found
                exact noted.reads ⟨p, hp, repository, rfl, rfl⟩
              · cases stepped
        · cases stepped
      · cases stepped
  | readRights =>
      simp only [step, readRights] at stepped
      split at stepped
      · rename_i call reading
        split at stepped
        · cases stepped
          have seen := noted.reading
          rw [reading] at seen
          exact noted.reads seen
        · cases stepped
      · cases stepped
  | readBase =>
      simp only [step, readBase] at stepped
      split at stepped
      · rename_i call reading
        split at stepped
        · cases stepped
        · cases stepped
          have seen := noted.reading
          rw [reading] at seen
          exact noted.reads seen
      · cases stepped
  | readHead =>
      simp only [step, readHead] at stepped
      split at stepped
      · rename_i call base reading
        split at stepped
        · cases stepped
        · split at stepped
          · cases stepped
          · cases stepped
            have seen := noted.reading
            rw [reading] at seen
            exact noted.reads seen
      · cases stepped
  | prepare m => exact noted_prepare noted stepped
  | giveUp =>
      cases stepped
      exact noted.reads trivial
  | transact operation =>
      simp only [step] at stepped
      split at stepped
      · rename_i allowed
        cases stepped
        unfold withDb
        rcases committed_eq_or w.server.disk.db (operation.transact w.server.disk.db) with same | ok
        · rw [same]
          exact noted
        · have other : ∀ merge intent, operation ≠ .beginMerge merge intent := by
            rintro merge intent rfl
            cases allowed
          have other' : ∀ id, operation ≠ .completeGitIntent id := by
            rintro id rfl
            cases allowed
          obtain ⟨keeps, sound⟩ := noted.stores operation other other' ok
          exact ⟨sound, noted.reading.keeps keeps, noted.push.keeps keeps [],
            noted.merge.keeps keeps fun _ _ done => done⟩
      · cases stepped

end Steps

/-! ## Where the lists come from -/

/-- The repository was like this in one of the worlds. -/
def HadRepository (visited : World library graph → Prop) (path : RepositoryPath)
    (git : GitRepository) : Prop :=
  ∃ v, visited v ∧ v.server.disk.git path = some git

/-- One step took the repository from the state before the commands to the one after them. -/
def Moved (visited : World library graph → Prop) (move : Move) : Prop :=
  ∃ v v' a, visited v ∧ visited v' ∧ step v (.operations a) = some v' ∧
    v.server.disk.git move.path = some move.before ∧
    v'.server.disk.git move.path = some (move.before.applied move.commands)

structure Witnessed (visited : World library graph → Prop) (w : World library graph) : Prop where
  reading : ∀ call base head git there, w.reading = some (.headed call base head git there) →
    HadRepository visited call.path git
  plan : ∀ q, w.plan = some q →
    HadRepository visited q.merge.path q.headIn ∧ HadRepository visited q.merge.path q.comparedIn
  begun : ∀ b ∈ w.begun, (HadRepository visited b.merge.path b.headIn ∧
    HadRepository visited b.merge.path b.comparedIn) ∧ ∃ v, visited v ∧ v.server.disk.db = b.db
  moves : ∀ move ∈ w.moves, Moved visited move
  found : ∀ f ∈ w.found, HadRepository visited f.path f.git

section Witnessed

variable {visited : World library graph → Prop} {w w' : World library graph}

theorem moved_of_moveRefs {disk disk' : Disk} {path : RepositoryPath} {commands : Commands}
    (moves : disk.moveRefs path commands = some disk') {move : Move}
    (member : move ∈ moveOf disk path commands) :
    disk.git move.path = some move.before ∧
      disk'.git move.path = some (move.before.applied move.commands) := by
  unfold moveOf at member
  split at member
  · cases member
  · rename_i git opened
    split at member
    · rename_i matched
      obtain rfl := List.mem_singleton.mp member
      have applies : git.applyRefTransaction commands = some (git.applied commands) := by
        unfold GitRepository.applyRefTransaction
        rw [if_pos matched]
      rw [Disk.moveRefs, opened, Option.bind_some, applies] at moves
      cases moves
      exact ⟨opened, Disk.setGit_same ..⟩
    · cases member

/-- Every new reference transaction is one that this step commits. -/
theorem newMoves_moved {a : Operations.Action graph} {server : Operations.World graph}
    (next : Operations.step w.server a = some server) {move : Move}
    (member : move ∈ newMoves w a) :
    w.server.disk.git move.path = some move.before ∧
      server.disk.git move.path = some (move.before.applied move.commands) := by
  unfold newMoves at member
  split at member
  · split at member
    · rename_i m stage
      simp only [Operations.step, mergeNext, stage] at next
      cases moved : w.server.disk.moveRefs m.path m.commands with
      | none =>
          unfold moveOf at member
          split at member
          · cases member
          · rename_i git opened
            split at member
            · rename_i matched
              rw [Disk.moveRefs, opened, Option.bind_some, GitRepository.applyRefTransaction,
                if_pos matched] at moved
              cases moved
            · cases member
      | some disk =>
          rw [moved] at next
          cases next
          exact moved_of_moveRefs moved member
    · cases member
  · split at member
    · rename_i push stage
      simp only [Operations.step, pushNext, stage] at next
      cases moved : w.server.disk.moveRefs push.path push.commands with
      | none =>
          unfold moveOf at member
          split at member
          · cases member
          · rename_i git opened
            split at member
            · rename_i matched
              rw [Disk.moveRefs, opened, Option.bind_some, GitRepository.applyRefTransaction,
                if_pos matched] at moved
              cases moved
            · cases member
      | some disk =>
          rw [moved] at next
          cases next
          exact moved_of_moveRefs moved member
    · cases member
  · cases member

theorem findingOf_had {disk : Disk} {path : RepositoryPath} {id : Identifier}
    {entry : RefName × ObjectId} {f : Finding} (member : f ∈ findingOf disk path id entry) :
    disk.git f.path = some f.git := by
  unfold findingOf at member
  split at member
  · cases member
  · rename_i git opened
    split at member
    · obtain rfl := List.mem_singleton.mp member
      exact opened
    · cases member

theorem newFound_had {a : Operations.Action graph} {f : Finding} (member : f ∈ newFound w a) :
    w.server.disk.git f.path = some f.git := by
  unfold newFound at member
  split at member
  · split at member
    · exact findingOf_had member
    · cases member
  · split at member
    · rename_i at' stage
      unfold recoveryFound at member
      split at member
      · exact findingOf_had member
      · cases member
    · cases member
  · cases member

theorem newBegun_db {a : Operations.Action graph} {b : Begun library graph}
    (member : b ∈ newBegun w a) :
    b.db = w.server.disk.db ∧ w.plan = some b.toPlan := by
  unfold newBegun at member
  split at member
  · rename_i m plan stage planned
    split at member
    · obtain rfl := List.mem_singleton.mp member
      exact ⟨rfl, planned⟩
    · cases member
  · cases member

theorem Witnessed.server {a : Operations.Action graph} (witnessed : Witnessed visited w)
    (before : visited w) (after : visited w') (stepped : stepServer w a = some w') :
    Witnessed visited w' := by
  have whole : step w (.operations a) = some w' := stepped
  unfold stepServer at stepped
  split at stepped
  · obtain ⟨server, next, rfl⟩ := Option.map_eq_some_iff.mp stepped
    refine ⟨?_, witnessed.plan, ?_, ?_, ?_⟩
    · intro call base head git there reading
      unfold noting at reading
      dsimp only at reading
      split at reading
      · cases reading
      · exact witnessed.reading call base head git there reading
    · intro b hb
      rcases List.mem_append.mp hb with new | old
      · obtain ⟨db, planned⟩ := newBegun_db new
        exact ⟨witnessed.plan _ planned, w, before, db.symm⟩
      · exact witnessed.begun b old
    · intro move hmove
      rcases List.mem_append.mp hmove with new | old
      · obtain ⟨first, last⟩ := newMoves_moved next new
        exact ⟨w, _, a, before, after, whole, first, last⟩
      · exact witnessed.moves move old
    · intro f hf
      rcases List.mem_append.mp hf with new | old
      · exact ⟨w, before, newFound_had new⟩
      · exact witnessed.found f old
  · cases stepped

/-- A reading that is not at the head. -/
theorem Witnessed.reads (witnessed : Witnessed visited w) {reading : Option Reading}
    (early : ∀ call base head git there, reading ≠ some (.headed call base head git there)) :
    Witnessed visited { w with reading } :=
  ⟨fun call base head git there same => absurd same (early call base head git there),
    witnessed.plan, witnessed.begun, witnessed.moves, witnessed.found⟩

theorem Witnessed.prepare {m : Merge graph} (witnessed : Witnessed visited w) (before : visited w)
    (stepped : prepare w m = some w') : Witnessed visited w' := by
  unfold Merges.prepare at stepped
  split at stepped
  · rename_i call base head git there reading
    split at stepped
    · cases stepped
    · rename_i git' opened
      split at stepped
      · rename_i prepares
        obtain ⟨plan, planned, rfl⟩ := Option.map_eq_some_iff.mp stepped
        refine ⟨(fun _ _ _ _ _ same => by cases same), fun q same => ?_, witnessed.begun,
          witnessed.moves, witnessed.found⟩
        obtain rfl : plan = q := Option.some.inj same
        have path : m.path = call.path := congrArg RepositoryPath.managed prepares.2.2.2
        unfold planFor at planned
        split at planned
        · cases planned
          refine ⟨?_, w, before, ?_⟩
          · show HadRepository visited m.path git
            rw [path]
            exact witnessed.reading _ _ _ _ _ reading
          · show w.server.disk.git m.path = some git'
            rw [path]
            exact opened
        · cases planned
      · cases stepped
  · cases stepped

theorem witnessed_step (visited : World library graph → Prop) (w : World library graph)
    (a : Action graph) (w' : World library graph) (before : visited w) (after : visited w')
    (witnessed : Witnessed visited w) (stepped : step w a = some w') : Witnessed visited w' := by
  cases a with
  | operations a => exact witnessed.server before after stepped
  | readDetail owner repository number actor method =>
      simp only [step, readDetail] at stepped
      split at stepped
      · split at stepped
        · split at stepped
          · cases stepped
          · split at stepped
            · cases stepped
            · split at stepped
              · cases stepped
                exact witnessed.reads fun _ _ _ _ _ same => by cases same
              · cases stepped
        · cases stepped
      · cases stepped
  | readRights =>
      simp only [step, readRights] at stepped
      split at stepped
      · split at stepped
        · cases stepped
          exact witnessed.reads fun _ _ _ _ _ same => by cases same
        · cases stepped
      · cases stepped
  | readBase =>
      simp only [step, readBase] at stepped
      split at stepped
      · split at stepped
        · cases stepped
        · cases stepped
          exact witnessed.reads fun _ _ _ _ _ same => by cases same
      · cases stepped
  | readHead =>
      simp only [step, readHead] at stepped
      split at stepped
      · rename_i call base reading
        split at stepped
        · cases stepped
        · rename_i git opened
          split at stepped
          · cases stepped
          · cases stepped
            refine ⟨fun _ _ _ _ _ same => ?_, witnessed.plan, witnessed.begun, witnessed.moves,
              witnessed.found⟩
            cases same
            exact ⟨w, before, opened⟩
      · cases stepped
  | prepare m => exact witnessed.prepare before stepped
  | giveUp =>
      cases stepped
      exact witnessed.reads fun _ _ _ _ _ same => by cases same
  | transact operation =>
      simp only [step] at stepped
      split at stepped
      · cases stepped
        exact ⟨witnessed.reading, witnessed.plan, witnessed.begun, witnessed.moves,
          witnessed.found⟩
      · cases stepped

end Witnessed

/-! ## The start -/

theorem Fresh.recorded (start : Fresh library graph) :
    PullRequests.Recorded start.server.disk.db where
  history := ⟨fun p hp => absurd hp (start.noPullRequest p),
    fun v hv => absurd hv (start.noReview v)⟩
  owned r hr := absurd hr (start.noRevision r)
  intents i pending := absurd pending.1 (start.noIntent i)

theorem Fresh.noted (start : Fresh library graph) : Noted start.toWorld where
  sound :=
    { recorded := start.recorded
      stored := by
        rw [start.noBegun]
        nofun
      distinct := by
        rw [start.noBegun]
        nofun
      rows := fun m hm => absurd hm (start.noMerge m)
      merged := fun p hp => absurd hp (start.noPullRequest p) }
  reading := by
    rw [start.noReading]
    trivial
  push := by
    rw [start.idlePush]
    trivial
  merge := by
    rw [start.idleMerge]
    trivial

theorem Fresh.witnessed (start : Fresh library graph) (visited : World library graph → Prop) :
    Witnessed visited start.toWorld where
  reading := by
    rw [start.noReading]
    nofun
  plan := by
    rw [start.noPlan]
    nofun
  begun := by
    rw [start.noBegun]
    nofun
  moves := by
    rw [start.noMove]
    nofun
  found := by
    rw [start.noFinding]
    nofun

/-! ## Every merged pull request -/

/-- The new target is the one for the method, and the two commits are in its relation. -/
def TargetOf (library : Library) (objects : Objects) (request : NewPullRequestMerge) : Prop :=
  ∃ c, comparison ReadLimits.default objects library.toGix request.oldTarget
      request.headTarget = .ok c ∧
    match request.method with
    | .fastForward => c.mergeability = .fastForward ∧ request.newTarget = request.headTarget ∧
        IsAncestor ReadLimits.default objects request.oldTarget request.headTarget
    | .mergeCommit => c.mergeability = .clean ∧
        ∃ commit, commit.parents = [request.oldTarget, request.headTarget] ∧
          request.newTarget = library.commitId commit

theorem mergeCommit_parents {base head : ObjectId} {actor : String} {createdAt : Int}
    {message : Bytes} {commit : Commit}
    (ok : mergeCommit library base head actor createdAt message = .ok commit) :
    commit.parents = [base, head] := by
  unfold mergeCommit at ok
  obtain ⟨conflicts, -, ok⟩ := bind_eq_ok.mp ok
  obtain ⟨_, -, ok⟩ := bind_eq_ok.mp ok
  obtain ⟨tree, -, ok⟩ := bind_eq_ok.mp ok
  cases ok
  rfl

theorem targetOf_newTarget {objects : Objects} {request : NewPullRequestMerge} {message : Bytes}
    (prepared : newTarget library objects request message = some request.newTarget) :
    TargetOf library objects request := by
  unfold newTarget at prepared
  split at prepared
  · cases prepared
  · rename_i c compared
    refine ⟨c, compared, ?_⟩
    split at prepared
    · rename_i method mergeability
      rw [method]
      exact ⟨mergeability, (Option.some.inj prepared).symm,
        comparison_fastForward compared mergeability⟩
    · rename_i method mergeability
      rw [method]
      obtain ⟨commit, made, same⟩ := Option.map_eq_some_iff.mp prepared
      refine ⟨mergeability, commit, ?_, same.symm⟩
      cases written : mergeCommit library request.oldTarget request.headTarget request.actor
          request.createdAt message with
      | error error =>
          rw [written] at made
          cases made
      | ok commit' =>
          rw [written] at made
          cases made
          exact mergeCommit_parents written
    · cases prepared

/-- What a merge had read and done, for a pull request and its last revision. -/
structure MergedAs (visited : World library graph → Prop) (w : World library graph)
    (p : PullRequest) (r : PullRequestRevision) (b : Begun library graph) : Prop where
  repository : b.merge.path = .managed p.repositoryId
  baseRef : b.merge.request.baseRef = p.baseRef
  base : b.merge.request.oldTarget = r.baseObjectId
  head : b.merge.request.headTarget = r.headObjectId
  /-- When the merge read it, the head was at the head of the revision. -/
  headRead : b.headIn.refs p.headRef = some r.headObjectId ∧
    HadRepository visited (.managed p.repositoryId) b.headIn
  /-- When the intent was stored, the actor was an owner or a maintainer. -/
  rights : (∃ v, visited v ∧ v.server.disk.db = b.db) ∧
    ∃ access, b.db.repositoryIssueAccess b.merge.request.owner b.merge.request.repository
        (some b.merge.request.actor) = .ok access ∧ access.repository.id = p.repositoryId ∧
      (access.role = some .owner ∨ access.role = some .maintainer)
  target : ∃ git, HadRepository visited (.managed p.repositoryId) git ∧
    TargetOf library (objectsOf library graph git) b.merge.request
  /-- One reference transaction moved the base, or the base was found at the new target. -/
  done : (∃ move ∈ w.moves, move.path = b.merge.path ∧ move.commands = b.merge.commands ∧
      Moved visited move) ∨
    ∃ f ∈ w.found, f.id = b.merge.id ∧ HadRepository visited (.managed p.repositoryId) f.git ∧
      valueAt f.git p.baseRef = b.merge.request.newTarget

theorem MergedBy.mergedAs {visited : World library graph → Prop} {w : World library graph}
    {p : PullRequest} {r : PullRequestRevision} {b : Begun library graph} (by' : MergedBy p b)
    (witnessed : Witnessed visited w) (member : b ∈ w.begun) (done : Done w.moves w.found b)
    (last : PullRequests.LastRevision w.server.disk.db p r) : MergedAs visited w p r b := by
  have path : b.merge.path = .managed p.repositoryId := by
    rw [Merge.path, by'.repository]
  have head : b.merge.request.headTarget = r.headObjectId := by
    rw [← by'.head, last.head]
  obtain ⟨⟨headIn, comparedIn⟩, stored⟩ := witnessed.begun b member
  rw [path] at headIn comparedIn
  refine ⟨path, by'.baseRef.symm, by'.base.symm.trans last.base, head, ⟨?_, headIn⟩,
    ⟨stored, ?_⟩, ⟨b.comparedIn, comparedIn, targetOf_newTarget b.prepared⟩, ?_⟩
  · rw [by'.headRef, b.head, head]
  · obtain ⟨db, ok⟩ : ∃ db, b.db.beginPullRequestMerge b.merge.request b.merge.intent = .ok db := by
      have began := b.began
      cases result : b.db.beginPullRequestMerge b.merge.request b.merge.intent with
      | ok db => exact ⟨db, rfl⟩
      | error error =>
          rw [result] at began
          cases began
    obtain ⟨access, accessed, managed, role⟩ := Database.beginPullRequestMerge_maintains ok
    have same : b.merge.repositoryId = access.repository.id := Option.some.inj managed
    exact ⟨access, accessed, same.symm.trans by'.repository.symm, role⟩
  · rcases done with ⟨move, hmove, at', commands⟩ | ⟨f, hf, id, at', entry⟩
    · exact Or.inl ⟨move, hmove, at', commands, witnessed.moves move hmove⟩
    · refine Or.inr ⟨f, hf, id, ?_, ?_⟩
      · rw [← path, ← at']
        exact witnessed.found f hf
      · have there := f.there
        rw [entry] at there
        rw [by'.baseRef]
        exact there

/-- **A merged pull request was merged as its last revision says**: the merge had read the head
of that revision and the rights of its actor, came to the target for its method from the relation
of the two commits, and moved the base from the base of the revision to that target, or found it
there. -/
theorem merged_as_revised (start : Fresh library graph) (as : List (Action graph))
    {w : World library graph} (ran : run step start.toWorld as = some w) :
    ∀ p ∈ w.server.disk.db.pullRequests, p.state = .merged →
      ∃ r b, PullRequests.LastRevision w.server.disk.db p r ∧
        MergedAs (Visited step start.toWorld as) w p r b := by
  intro p hp merged
  have noted : Noted w := (always_of_steps (fun _ _ _ noted stepped => noted_step noted stepped)
    start.noted as).final ran
  have witnessed := inv_of_visits witnessed_step start.witnessed as ran
  obtain ⟨b, hb, by', done⟩ := noted.sound.merged p hp merged
  obtain ⟨r, last⟩ := noted.sound.recorded.history.revisions p hp
  exact ⟨r, b, last, by'.mergedAs witnessed hb done last⟩

/-! Pole: `main` is at commit 1 and `topic` at commit 2, with commit 3 between them.  While the
merge of `topic` is under way, two pushes move `main` to 3 and on to 2, where the merge finds it.
No reference transaction has moved `main` from 1 to 2. -/

def threeCommits : Library where
  mergeBase _ _ := .ok (some ⟨1⟩)
  hunks _ _ := []
  conflicts _ _ := .ok false
  contents id :=
    if id = ⟨1⟩ then some (.commit 1 (.ok (⟨10⟩, [], [])))
    else if id = ⟨2⟩ then some (.commit 1 (.ok (⟨10⟩, [⟨3⟩], [])))
    else if id = ⟨3⟩ then some (.commit 1 (.ok (⟨10⟩, [⟨1⟩], [])))
    else if id = ⟨10⟩ then some (.tree 0 (.ok []))
    else none
  mergedTree _ _ := .ok ⟨10⟩
  commitId _ := ⟨99⟩

def unlinked : ObjectGraph := ⟨fun _ => [], fun _ => []⟩

def mainBranch : RefName := asciiBytes "refs/heads/main"

def topicBranch : RefName := asciiBytes "refs/heads/topic"

def mainAndTopic : GitRepository where
  refs name :=
    if name = mainBranch then some ⟨1⟩ else if name = topicBranch then some ⟨2⟩ else none
  packs := []
  loose := [⟨1⟩, ⟨2⟩, ⟨3⟩, ⟨10⟩]

def aliceAlone : Fresh threeCommits unlinked where
  server :=
    { disk := ⟨Database.oneRepository, fun path =>
        if path = .managed 1 then some mainAndTopic else none⟩
      mode := .up, push := .idle, merge := .idle, committed := [], returned := [] }
  reading := none
  plan := none
  begun := []
  moves := []
  found := []
  idlePush := rfl
  idleMerge := rfl
  noReading := rfl
  noPlan := rfl
  noBegun := rfl
  noMove := rfl
  noFinding := rfl
  noPullRequest := Table.not_mem_empty
  noRevision := Table.not_mem_empty
  noReview := Table.not_mem_empty
  noIntent := Table.not_mem_empty
  noMerge := Table.not_mem_empty

def topicIntent : NewPullRequestRefIntent where
  id := 1
  pullRequestId := 7
  owner := "alice"
  repository := "tit"
  actor := "alice"
  title := "t"
  body := ""
  baseRef := mainBranch
  headRef := topicBranch
  baseObjectId := ⟨1⟩
  headObjectId := ⟨2⟩
  createdAt := 0

def mergeTopic : Merge unlinked where
  id := 8
  repositoryId := 1
  request :=
    { owner := "alice", repository := "tit", number := 1, revision := 1, actor := "alice"
      method := .fastForward, baseRef := mainBranch, oldTarget := ⟨1⟩, headTarget := ⟨2⟩
      newTarget := ⟨2⟩, createdAt := 1 }
  written := []
  branch := by decide
  moves := by decide
  target := rfl
  linked := nofun

def pushMain (id : Identifier) (old new : ObjectId) (moves : old ≠ new) : Push where
  id := id
  repository := 1
  actor := "alice"
  commands := .single mainBranch old new moves (by decide)
  pack := none
  createdAt := 1

def pushing (push : Push) : List (Action unlinked) :=
  .operations (.startPush push) :: List.replicate 5 (.operations .pushNext)

/-- The merge is prepared, stored and marked, and then waits for its reference transaction. -/
def overtaken : List (Action unlinked) :=
  [.transact (.beginOpen topicIntent), .transact (.completeRefIntent 1),
    .readDetail "alice" "tit" 1 "alice" .fastForward, .readRights, .readBase, .readHead,
    .prepare mergeTopic, .operations .mergeNext, .operations .mergeNext] ++
  pushing (pushMain 2 ⟨1⟩ ⟨3⟩ (by decide)) ++ pushing (pushMain 3 ⟨3⟩ ⟨2⟩ (by decide)) ++
  List.replicate 3 (.operations .mergeNext)

/-- The pull request is merged, and no command took its base away to its head or to the merge
commit. -/
def mergedElsewhere (w : World threeCommits unlinked) : Bool :=
  w.server.disk.db.pullRequests.rows.any fun p =>
    decide (p.state = .merged ∧ p.baseObjectId = ⟨1⟩ ∧ p.headObjectId = ⟨2⟩) &&
      w.moves.all fun move => move.commands.list.all fun c =>
        !decide (c.old = ⟨1⟩ ∧ (c.new = ⟨2⟩ ∨ c.new = ⟨99⟩))

theorem overtaken_ends :
    (run step aliceAlone.toWorld overtaken).any mergedElsewhere = true := by
  decide

/-- The theorem at this run. -/
theorem overtaken_as_revised : ∃ w, run step aliceAlone.toWorld overtaken = some w ∧
    ∃ p ∈ w.server.disk.db.pullRequests, p.state = .merged ∧
      ∃ r b, PullRequests.LastRevision w.server.disk.db p r ∧
        MergedAs (Visited step aliceAlone.toWorld overtaken) w p r b := by
  obtain ⟨w, ran, ended⟩ := (Option.any_eq_true _ _).mp overtaken_ends
  obtain ⟨p, hp, facts⟩ := List.any_eq_true.mp ended
  have merged : p.state = .merged := (of_decide_eq_true (Bool.and_eq_true _ _ ▸ facts).1).1
  exact ⟨w, ran, p, Table.mem_rows.mp hp, merged,
    merged_as_revised aliceAlone overtaken ran p (Table.mem_rows.mp hp) merged⟩

/-- Not every merged pull request was merged by a transaction from its base to its head, or to a
merge commit of the two. -/
theorem not_always_moved :
    ¬∀ (library : Library) (graph : ObjectGraph) (start : Fresh library graph)
      (as : List (Action graph)) (w : World library graph), run step start.toWorld as = some w →
      ∀ p ∈ w.server.disk.db.pullRequests, p.state = .merged →
        ∃ r, PullRequests.LastRevision w.server.disk.db p r ∧
          ∃ move ∈ w.moves, move.path = .managed p.repositoryId ∧
            ∃ c ∈ move.commands.list, c.name = p.baseRef ∧ c.old = r.baseObjectId ∧
              (c.new = r.headObjectId ∨
                ∃ commit, commit.parents = [r.baseObjectId, r.headObjectId] ∧
                  c.new = library.commitId commit) := by
  intro all
  obtain ⟨w, ran, ended⟩ := (Option.any_eq_true _ _).mp overtaken_ends
  obtain ⟨p, hp, facts⟩ := List.any_eq_true.mp ended
  obtain ⟨here, moves⟩ := (Bool.and_eq_true _ _ ▸ facts)
  obtain ⟨merged, base, head⟩ := of_decide_eq_true here
  obtain ⟨r, last, move, hmove, -, c, hc, -, old, new⟩ :=
    all threeCommits unlinked aliceAlone overtaken w ran p (Table.mem_rows.mp hp) merged
  have apart := List.all_eq_true.mp (List.all_eq_true.mp moves move hmove) c hc
  rw [Bool.not_eq_true', decide_eq_false_iff_not] at apart
  refine apart ⟨old.trans (last.base.symm.trans base), ?_⟩
  rcases new with head' | ⟨commit, -, named⟩
  · exact Or.inl (head'.trans (last.head.symm.trans head))
  · exact Or.inr named

end Tit.Merges
