/-
# Git.ReceivePack -- one push, alone

`finish` runs a push from the comparison of its old values to the end of its intent.
A fault stands for the one step of the push that fails: what the indexing, the
validation of the objects and the policy decide is the fault `index`, and `place` is a
failure of the indexing after the pack was renamed.  After an error the push recovers
the incomplete intents of the whole instance and reports the error.

A push is `Upright` when an Ok means that it took effect and was recorded, and an error
that it left no trace.  `upright_iff` says when it is: not when the completion fails,
since recovery then completes the push whose error is reported; not behind an older
intent that recovery cannot settle; and not when a pack was renamed but not recorded.
-/
import Tit.Git.Recovery

namespace Tit.Git

open Tit.Theory Tit.Store Tit.Store.Database

set_option autoImplicit false

structure Push where
  id : Identifier
  repository : Identifier
  actor : String
  commands : Commands
  /-- The received pack; none when it is missing, empty or without objects. -/
  pack : Option PackName
  createdAt : Int

namespace Push

def path (push : Push) : RepositoryPath := .managed push.repository

def intent (push : Push) : NewGitOperationIntent where
  id := push.id
  repositoryPath := push.path
  actor := push.actor
  initialRefs := push.commands.initial
  proposedRefs := push.commands.proposed
  eventPayload := push.commands.proposed
  quarantinePath := ⟨push.path, push.id⟩
  createdAt := push.createdAt

/-- The row of the push, once it was begun. -/
def row (push : Push) (state : IntentState) (packName : Option PackName) : GitOperationIntent :=
  { gitIntentRow push.intent with state, packName }

end Push

/-- The steps of a push that can fail. -/
inductive PushStep where
  | validate
  | begin
  | index
  | place
  | mark
  | refs
  | complete
  deriving DecidableEq, Repr

namespace Disk

/-- The part of `finish` after the intent was begun.  Its response cannot fail: the lines
are shorter than the commands they answer. -/
def attempt (disk : Disk) (push : Push) (fault : Option PushStep) :
    Disk × Option ReceivePackError :=
  if fault = some .index then (disk, some .failed)
  else
    match disk.place push.path push.pack with
    | (disk, packName) =>
        if fault = some .place ∨ fault = some .mark then (disk, some .failed)
        else
          match disk.inStore (disk.db.markGitObjectsPromoted push.id packName) with
          | (disk, some error) => (disk, some error)
          | (disk, none) =>
              if fault = some .refs then (disk, some .failed)
              else
                match disk.moveRefs push.path push.commands with
                | none => (disk, some .refTransaction)
                | some disk =>
                    if fault = some .complete then (disk, some .failed)
                    else disk.inStore (disk.db.completeGitIntent push.id)

/-- `ReceivePack::finish`. -/
def finish (disk : Disk) (push : Push) (fault : Option PushStep) :
    Disk × Option ReceivePackError :=
  match disk.git push.path with
  | none => (disk, some .repository)
  | some git =>
      if fault = some .validate then (disk, some .failed)
      else if ¬git.refsMatch push.commands.initial then (disk, some .staleRef)
      else if fault = some .begin then (disk, some .failed)
      else
        match disk.db.beginGitIntent push.intent with
        | .error error => (disk, some (.store error))
        | .ok db =>
            match attempt { disk with db } push fault with
            | (disk, none) => (disk, none)
            | (disk, some error) =>
                match disk.recoverIncompletePushes with
                | (disk, none) => (disk, some error)
                | (disk, some error') => (disk, some error')

/-! ## What a push promises -/

/-- Every reference is at its new value, and the push and one event for each command, in
their order, were recorded. -/
structure TookEffect (disk' : Disk) (push : Push) : Prop where
  refs : ∃ git', disk'.git push.path = some git' ∧
    git'.refsMatch push.commands.proposed = true
  completed : ∃ i ∈ disk'.db.gitOperationIntents, i.id = push.id ∧ i.state = .completed
  events : eventsOf disk'.db.repositoryEvents push.id =
    pushView :: refViews 1 (push.commands.initial.zip push.commands.proposed)

/-- Every reference has the value it had, the intent of the push is abandoned without
events, and no pack was added. -/
structure LeftNoTrace (disk disk' : Disk) (push : Push) : Prop where
  refs : ∀ git, disk.git push.path = some git → ∃ git', disk'.git push.path = some git' ∧
    (∀ c ∈ push.commands.list, git'.refs c.name = git.refs c.name) ∧
    ∀ p ∈ git'.packs, p ∈ git.packs
  abandoned : ∀ i ∈ disk'.db.gitOperationIntents, i.id = push.id →
    i ∈ disk.db.gitOperationIntents ∨
      (i.state = .abandoned ∧ eventsOf disk'.db.repositoryEvents push.id = [])

def Upright (disk : Disk) (push : Push) (fault : Option PushStep) : Prop :=
  match disk.finish push fault with
  | (disk', none) => TookEffect disk' push
  | (disk', some _) => LeftNoTrace disk disk' push

/-! ## When a push keeps it -/

/-- The intent is listed before the other one. -/
def precedes (i : GitOperationIntent) (createdAt : Int) (id : Identifier) : Prop :=
  i.incomplete = true ∧ createdBefore i.createdAt createdAt i.id id = true

/-- Nothing that recovery lists up to this point stops it. -/
def Unblocked (disk : Disk) (createdAt : Int) (id : Identifier) : Prop :=
  ∀ k ∈ disk.db.gitOperationIntents, precedes k createdAt id → disk.Recoverable k

/-- Another intent makes recovery delete the pack that the push renames. -/
def Swept (disk : Disk) (push : Push) : Prop :=
  ∀ p, (disk.place push.path push.pack).2 = some p →
    ∃ j ∈ disk.db.gitOperationIntents, j.incomplete = true ∧ disk.removes j push.path p ∧
      disk.Unblocked j.createdAt j.id

/-- The push gets as far as its intent. -/
structure Begins (disk : Disk) (push : Push) : Prop where
  initial : ∃ git, disk.git push.path = some git ∧ git.refsMatch push.commands.initial = true
  fresh : ∀ i ∈ disk.db.gitOperationIntents, i.id ≠ push.id
  actor : 1 ≤ push.actor.length ∧ push.actor.length ≤ 256
  since : 0 ≤ push.createdAt

/-- The condition on the store for each step that may fail. -/
def Sound (disk : Disk) (push : Push) : Option PushStep → Prop
  | none | some .validate | some .begin => True
  | some .index | some .refs => disk.Unblocked push.createdAt push.id
  | some .place | some .mark => disk.Unblocked push.createdAt push.id ∧ disk.Swept push
  | some .complete => False

/-! ## The order of recovery -/

theorem createdBefore_iff {createdAt createdAt' : Int} {id id' : Identifier} :
    createdBefore createdAt createdAt' id id' = true ↔
      createdAt < createdAt' ∨ (createdAt = createdAt' ∧ id.toNat ≤ id'.toNat) := decide_eq_true_iff

theorem incompleteGitIntents_ordered (db : Database) :
    db.incompleteGitIntents.Pairwise fun i j => precedes i j.createdAt j.id := by
  have ordered : db.incompleteGitIntents.Pairwise fun i j =>
      createdBefore i.createdAt j.createdAt i.id j.id = true := by
    unfold incompleteGitIntents
    have total : Std.Total fun i j : GitOperationIntent =>
        createdBefore i.createdAt j.createdAt i.id j.id = true := by
      refine ⟨fun i j => ?_⟩
      rw [createdBefore_iff, createdBefore_iff]
      omega
    have trans : IsTrans GitOperationIntent fun i j =>
        createdBefore i.createdAt j.createdAt i.id j.id = true := by
      refine ⟨fun i j k first second => ?_⟩
      rw [createdBefore_iff] at first second ⊢
      omega
    exact List.pairwise_insertionSort _ _
  refine ordered.imp_of_mem ?_
  intro i j hi _ before
  exact ⟨(mem_incompleteGitIntents.mp hi).2, before⟩

theorem precedes_antisymm {i j : GitOperationIntent} (first : precedes i j.createdAt j.id)
    (second : precedes j i.createdAt i.id) : i.id = j.id := by
  have forth := createdBefore_iff.mp first.2
  have back := createdBefore_iff.mp second.2
  apply BitVec.eq_of_toNat_eq
  omega

/-- An intent is reached when everything up to it, and it, is recoverable. -/
theorem reached_iff {disk : Disk} {before after : List GitOperationIntent}
    (same : disk.db.incompleteGitIntents = before ++ after)
    (recoverable : ∀ i ∈ before, disk.Recoverable i)
    (ends : after = [] ∨ ∃ h rest, after = h :: rest ∧ ¬disk.Recoverable h)
    {i : GitOperationIntent} (member : i ∈ disk.db.gitOperationIntents)
    (incomplete : i.incomplete = true) :
    i ∈ before ↔ disk.Unblocked i.createdAt i.id := by
  have ordered := incompleteGitIntents_ordered disk.db
  rw [same] at ordered
  have listed : ∀ {k}, k ∈ disk.db.gitOperationIntents → k.incomplete = true →
      k ∈ before ∨ k ∈ after := fun hk incomplete =>
    List.mem_append.mp (same ▸ mem_incompleteGitIntents.mpr ⟨hk, incomplete⟩)
  constructor
  · intro reached k hk first
    rcases listed hk first.1 with early | late
    · exact recoverable k early
    · have second := (List.pairwise_append.mp ordered).2.2 i reached k late
      have equal := eq_of_id hk member (precedes_antisymm first second)
      exact recoverable k (equal ▸ reached)
  · intro unblocked
    rcases listed member incomplete with early | late
    · exact early
    · rcases ends with rfl | ⟨h, rest, rfl, blocked⟩
      · cases late
      · have stored : h ∈ disk.db.gitOperationIntents :=
          (mem_incompleteGitIntents.mp (same ▸ List.mem_append_right _ List.mem_cons_self)).1
        have first : precedes h i.createdAt i.id := by
          rcases List.mem_cons.mp late with rfl | later
          · exact ⟨incomplete, createdBefore_iff.mpr (Or.inr ⟨rfl, le_rfl⟩)⟩
          · exact List.rel_of_pairwise_cons (List.pairwise_append.mp ordered).2.1 later
        exact absurd (unblocked h stored first) blocked

/-! ## A push between its intent and its references -/

/-- The second disk is the first with the row of the push, and with the pack that the
push has placed. -/
structure Begun (disk disk₁ : Disk) (push : Push) (own : GitOperationIntent)
    (placed : Option PackName) : Prop where
  sameRefs : SameRefs disk disk₁
  consistent : Consistent disk₁.db
  db : ∃ gitOperationIntents, disk₁.db = { disk.db with gitOperationIntents }
  rows : ∀ j, j ∈ disk₁.db.gitOperationIntents ↔ j ∈ disk.db.gitOperationIntents ∨ j = own
  fresh : ∀ j ∈ disk.db.gitOperationIntents, j.id ≠ push.id
  packs : ∀ path git₁, disk₁.git path = some git₁ → ∃ git, disk.git path = some git ∧
    ∀ p, p ∈ git₁.packs ↔ p ∈ git.packs ∨ (path = push.path ∧ placed = some p)
  new : ∀ git p, disk.git push.path = some git → placed = some p → p ∉ git.packs

theorem begins_iff {disk : Disk} {push : Push} :
    (∃ db, disk.db.beginGitIntent push.intent = .ok db) ↔
      (∀ i ∈ disk.db.gitOperationIntents, i.id ≠ push.id) ∧
        (1 ≤ push.actor.length ∧ push.actor.length ≤ 256) ∧ 0 ≤ push.createdAt := by
  constructor
  · rintro ⟨db, ok⟩
    obtain ⟨intents, rfl, rows, fresh⟩ := beginGitIntent_rows ok
    have row : gitIntentRow push.intent ∈ intents := (rows _).mpr (Or.inr rfl)
    have checked := intents.checked _ row
    simp only [Schema.check, Bool.and_eq_true, decide_eq_true_eq, lengthBetween_iff] at checked
    exact ⟨fresh, checked⟩
  · rintro ⟨fresh, actor, since⟩
    obtain ⟨intents, inserted⟩ := Table.insert_of (t := disk.db.gitOperationIntents)
      (r := gitIntentRow push.intent) (by
        simp only [Schema.check, Bool.and_eq_true, decide_eq_true_eq, lengthBetween_iff]
        exact ⟨actor, since⟩)
      fun j hj clash => fresh j hj (of_decide_eq_true clash)
    unfold beginGitIntent
    simp only [bind_eq_ok, sqlite_eq_ok, pure_eq_ok]
    exact ⟨_, intents, inserted, rfl⟩

theorem begin_begun {disk : Disk} {push : Push} {db : Database} (consistent : Consistent disk.db)
    (ok : disk.db.beginGitIntent push.intent = .ok db) :
    Begun disk { disk with db } push (push.row .pending none) none := by
  obtain ⟨intents, rfl, rows, fresh⟩ := beginGitIntent_rows ok
  refine ⟨⟨fun _ => rfl, fun _ => rfl⟩, consistent.begin ok rfl rfl rfl, ⟨intents, rfl⟩, rows,
    fresh, ?_, nofun⟩
  intro path git found
  exact ⟨git, found, fun p => by simp⟩

section Begun

variable {disk disk₁ : Disk} {push : Push} {state : IntentState}
  {packName placed : Option PackName}

theorem Begun.own (begun : Begun disk disk₁ push (push.row state packName) placed) :
    push.row state packName ∈ disk₁.db.gitOperationIntents :=
  (begun.rows _).mpr (Or.inr rfl)

/-- Whether another intent can be settled is as before the push. -/
theorem Begun.recoverable (begun : Begun disk disk₁ push (push.row state packName) placed)
    (j : GitOperationIntent) : disk₁.Recoverable j ↔ disk.Recoverable j := by
  obtain ⟨intents, same⟩ := begun.db
  unfold Recoverable
  rw [begun.sameRefs.arm j, same]
  exact Iff.rfl

theorem Begun.place (begun : Begun disk disk₁ push (push.row state packName) none) :
    Begun disk (disk₁.place push.path push.pack).1 push (push.row state packName)
      (disk₁.place push.path push.pack).2 := by
  have db := disk₁.place_db push.path push.pack
  refine ⟨begun.sameRefs.trans (disk₁.place_sameRefs _ _), ?_, ?_, ?_, begun.fresh, ?_, ?_⟩
  · rw [db]
    exact begun.consistent
  · rw [db]
    exact begun.db
  · rw [db]
    exact begun.rows
  · intro path git₂ found
    obtain ⟨git₁, found₁, packs₁⟩ := place_packs found
    obtain ⟨git, before, packs⟩ := begun.packs path git₁ found₁
    refine ⟨git, before, fun p => ?_⟩
    rw [packs₁ p, packs p]
    simp
  · intro git p found placed
    obtain ⟨git₁, found₁, -⟩ := begun.sameRefs.forth found
    obtain ⟨git', before, packs⟩ := begun.packs push.path git₁ found₁
    obtain rfl : git = git' := Option.some.inj (found.symm.trans before)
    rcases disk₁.place_cases push.path push.pack with same | ⟨git', q, opened, -, absent, result⟩
    · rw [same] at placed
      cases placed
    · rw [result] at placed
      obtain rfl := Option.some.inj placed
      obtain rfl : git₁ = git' := Option.some.inj (found₁.symm.trans opened)
      exact fun member => absent ((packs q).mpr (Or.inl member))

theorem Begun.mark (begun : Begun disk disk₁ push (push.row .pending none) placed)
    (packName : Option PackName) :
    ∃ db, disk₁.db.markGitObjectsPromoted push.id packName = .ok db ∧
      Begun disk { disk₁ with db } push (push.row .promoted packName) placed := by
  obtain ⟨db, ok⟩ := markGitObjectsPromoted_succeeds begun.own rfl packName
  have marked : disk₁.db.markGitObjectsPromoted push.id packName = .ok db := ok
  obtain ⟨i, hi, same, -, intents, rfl, rows⟩ := markGitObjectsPromoted_rows marked
  obtain rfl := eq_of_id hi begun.own same
  obtain ⟨before, tables⟩ := begun.db
  refine ⟨_, ok, begun.sameRefs.withDb _, begun.consistent.mark marked, ⟨intents, ?_⟩, ?_,
    begun.fresh, begun.packs, begun.new⟩
  · rw [tables]
  · intro j
    have split := rows j
    rw [begun.rows j] at split
    refine split.trans (or_congr_left ?_)
    constructor
    · rintro ⟨stored | rfl, other⟩
      · exact stored
      · exact absurd rfl other
    · intro stored
      exact ⟨Or.inl stored, begun.fresh j stored⟩

/-- The arm that recovery takes for the push while its references are not moved. -/
theorem Begun.arm (begun : Begun disk disk₁ push (push.row state packName) placed)
    (initial : ∃ git, disk.git push.path = some git ∧
      git.refsMatch push.commands.initial = true) :
    disk₁.arm (push.row state packName) =
      settlement (push.row state packName) true false := by
  obtain ⟨git, opened, matched⟩ := initial
  rw [begun.sameRefs.arm]
  unfold Disk.arm
  have apart : git.refsMatch push.commands.proposed = false := by
    rw [Bool.eq_false_iff]
    intro proposed
    have other := GitRepository.not_initial_of_proposed proposed
    rw [matched] at other
    cases other
  have path : (push.row state packName).repositoryPath = push.path := rfl
  have initial : (push.row state packName).initialRefs = push.commands.initial := rfl
  have proposed : (push.row state packName).proposedRefs = push.commands.proposed := rfl
  rw [path, opened, Option.bind_some, initial, proposed, matched, apart]

theorem Begun.reached (begun : Begun disk disk₁ push (push.row state packName) placed)
    (recoverable : disk₁.Recoverable (push.row state packName)) (createdAt : Int)
    (id : Identifier) : disk₁.Unblocked createdAt id ↔ disk.Unblocked createdAt id := by
  unfold Unblocked
  constructor
  · intro unblocked k hk first
    exact (begun.recoverable k).mp (unblocked k ((begun.rows k).mpr (Or.inl hk)) first)
  · intro unblocked k hk first
    rcases (begun.rows k).mp hk with stored | rfl
    · exact (begun.recoverable k).mpr (unblocked k stored first)
    · exact recoverable

/-- **After a failed step**: the push leaves no trace just when recovery reaches its
intent, and some intent that recovery reaches makes it delete the placed pack. -/
theorem Begun.left_iff (begun : Begun disk disk₁ push (push.row state packName) placed)
    (incomplete : (push.row state packName).incomplete = true)
    (initial : ∃ git, disk.git push.path = some git ∧
      git.refsMatch push.commands.initial = true) :
    LeftNoTrace disk disk₁.recoverIncompletePushes.1 push ↔
      disk.Unblocked push.createdAt push.id ∧
        ∀ p, placed = some p → ∃ j ∈ disk₁.db.gitOperationIntents, j.incomplete = true ∧
          disk₁.removes j push.path p ∧ disk.Unblocked j.createdAt j.id := by
  obtain ⟨git, opened, matched⟩ := initial
  have taken := begun.arm ⟨git, opened, matched⟩
  obtain ⟨arm, named, abandons⟩ : ∃ arm,
      settlement (push.row state packName) true false = some arm ∧ arm.state = .abandoned := by
    rcases incomplete_iff.mp incomplete with pending | promoted
    · obtain rfl : state = .pending := pending
      exact ⟨.abandon, rfl, rfl⟩
    · obtain rfl : state = .promoted := promoted
      exact ⟨.removeAndAbandon, rfl, rfl⟩
  have uncompleted : arm ≠ .complete := by
    rintro rfl
    cases abandons
  rw [named] at taken
  have recoverable : disk₁.Recoverable (push.row state packName) :=
    ⟨arm, taken, fun same => absurd same uncompleted⟩
  obtain ⟨before, after, disk', error, same, fine, all, result, ends⟩ :=
    recoverIntents_split begun.consistent disk₁.listed_incomplete
  have stops : after = [] ∨ ∃ h rest, after = h :: rest ∧ ¬disk₁.Recoverable h :=
    ends.imp And.left fun ⟨h, rest, split, blocked, _⟩ => ⟨h, rest, split, blocked⟩
  have reached : ∀ {i}, i ∈ disk₁.db.gitOperationIntents → i.incomplete = true →
      (i ∈ before ↔ disk.Unblocked i.createdAt i.id) := fun hi incomplete =>
    (reached_iff same fine stops hi incomplete).trans (begun.reached recoverable _ _)
  have stored : ∀ i ∈ before, i ∈ disk₁.db.gitOperationIntents ∧ i.incomplete = true :=
    fun i hi => mem_incompleteGitIntents.mp (same ▸ List.mem_append_left _ hi)
  have mine : push.row state packName ∈ before ↔ disk.Unblocked push.createdAt push.id :=
    reached begun.own incomplete
  have ended : disk₁.recoverIncompletePushes.1 = disk' := congrArg Prod.fst result
  rw [ended, ← mine]
  obtain ⟨git₁, found₁, refs₁, -⟩ := begun.sameRefs.forth opened
  obtain ⟨git', found', refs', -⟩ := all.sameRefs.forth found₁
  obtain ⟨git₂, again, packs'⟩ := all.packs _ git' found'
  obtain rfl : git₁ = git₂ := Option.some.inj (found₁.symm.trans again)
  obtain ⟨git₂, again, packs₁⟩ := begun.packs _ git₁ found₁
  obtain rfl : git = git₂ := Option.some.inj (opened.symm.trans again)
  constructor
  · intro left
    refine ⟨?_, fun p place => ?_⟩
    · by_contra missed
      have unnamed : Unnamed before (push.row state packName).id := fun i hi clash =>
        missed (eq_of_id begun.own (stored i hi).1 clash ▸ hi)
      have kept := (all.others _ unnamed).mpr begun.own
      rcases left.abandoned _ kept rfl with old | ⟨abandoned, -⟩
      · exact begun.fresh _ old rfl
      · have listed := incomplete_iff.mp incomplete
        rw [abandoned] at listed
        rcases listed with pending | promoted
        · cases pending
        · cases promoted
    · obtain ⟨git₂, again, -, older⟩ := left.refs git opened
      obtain rfl : git' = git₂ := Option.some.inj (found'.symm.trans again)
      have there : p ∈ git₁.packs := (packs₁ p).mpr (Or.inr ⟨rfl, place⟩)
      have gone : p ∉ git'.packs := fun member => begun.new git p opened place (older p member)
      rw [packs' p, not_and_not_right] at gone
      obtain ⟨j, hj, removed⟩ := gone there
      obtain ⟨member, listed⟩ := stored j hj
      exact ⟨j, member, listed, removed, (reached member listed).mp hj⟩
  · rintro ⟨reach, sweeps⟩
    refine ⟨fun git₂ again => ?_, fun i hi id => Or.inr ?_⟩
    · obtain rfl : git = git₂ := Option.some.inj (opened.symm.trans again)
      refine ⟨git', found', fun c _ => by rw [refs', refs₁], fun p member => ?_⟩
      obtain ⟨there, unremoved⟩ := (packs' p).mp member
      rcases (packs₁ p).mp there with older | ⟨-, place⟩
      · exact older
      · obtain ⟨j, hj, listed, removed, unblocked⟩ := sweeps p place
        exact absurd ⟨j, (reached hj listed).mpr unblocked, removed⟩ unremoved
    · obtain ⟨arm', taken', member, events⟩ := all.settled _ reach
      obtain rfl : arm = arm' := Option.some.inj (taken.symm.trans taken')
      rw [if_neg uncompleted] at events
      have settled : i = { push.row state packName with state := arm.state } :=
        eq_of_id hi member id
      refine ⟨?_, events⟩
      rw [settled]
      exact abandons

end Begun

/-! ## The attempt -/

section Attempt

variable {disk disk₁ : Disk} {push : Push}

theorem attempt_placed (fault : PushStep) (after : fault = .place ∨ fault = .mark) :
    disk₁.attempt push (some fault) = ((disk₁.place push.path push.pack).1, some .failed) := by
  unfold attempt
  rcases after with rfl | rfl
  · simp
  · simp

/-- The attempt up to the references. -/
theorem attempt_marked (begun : Begun disk disk₁ push (push.row .pending none) none)
    (fault : Option PushStep)
    (later : fault ≠ some .index ∧ fault ≠ some .place ∧ fault ≠ some .mark) :
    ∃ disk₂, Begun disk disk₂ push
        (push.row .promoted (disk₁.place push.path push.pack).2)
        (disk₁.place push.path push.pack).2 ∧
      disk₁.attempt push fault =
        if fault = some .refs then (disk₂, some .failed)
        else
          match disk₂.moveRefs push.path push.commands with
          | none => (disk₂, some .refTransaction)
          | some disk₃ =>
              if fault = some .complete then (disk₃, some .failed)
              else disk₃.inStore (disk₃.db.completeGitIntent push.id) := by
  obtain ⟨index, place, mark⟩ := later
  obtain ⟨db, marks, marked⟩ := begun.place.mark (disk₁.place push.path push.pack).2
  refine ⟨_, marked, ?_⟩
  unfold attempt
  rw [if_neg index]
  dsimp only
  rw [if_neg (not_or.mpr ⟨place, mark⟩), inStore_ok marks]

/-- The references of a push that nothing disturbs move. -/
theorem Begun.moves {own : GitOperationIntent} {placed : Option PackName}
    (begun : Begun disk disk₁ push own placed)
    (initial : ∃ git, disk.git push.path = some git ∧
      git.refsMatch push.commands.initial = true) :
    ∃ git : GitRepository, disk₁.moveRefs push.path push.commands =
      some (disk₁.setGit push.path (git.applied push.commands)) := by
  obtain ⟨git, opened, matched⟩ := initial
  obtain ⟨git₁, found, refs, -⟩ := begun.sameRefs.forth opened
  refine ⟨git₁, moveRefs_eq_some.mpr ⟨git₁, found, ?_, rfl⟩⟩
  rw [GitRepository.refsMatch_congr refs]
  exact matched

/-- Its completion is recorded, with the events of a push. -/
theorem Begun.completes {packName placed : Option PackName}
    (begun : Begun disk disk₁ push (push.row .promoted packName) placed)
    (consistent : Consistent disk.db) (managed : ∃ r ∈ disk.db.repositories, r.id = push.repository)
    (git : GitRepository) :
    ∃ db, disk₁.db.completeGitIntent push.id = .ok db ∧
      TookEffect { disk₁.setGit push.path (git.applied push.commands) with db } push := by
  have unmerged : ∀ m ∈ disk₁.db.pullRequestMergeIntents, m.intentId ≠ push.id := by
    obtain ⟨intents, tables⟩ := begun.db
    rw [tables]
    intro m hm clash
    obtain ⟨i, hi, same, -⟩ := consistent.merges m hm
    exact begun.fresh i hi (same.trans clash)
  obtain ⟨db, ok⟩ := begun.consistent.completes begun.own rfl (mergeable_of_none unmerged)
  have completes : disk₁.db.completeGitIntent push.id = .ok db := ok
  obtain ⟨i, hi, same, -, -, settled, events, -⟩ := complete_settled completes
  obtain rfl := eq_of_id hi begun.own same
  refine ⟨db, completes, ⟨_, setGit_same _ _ _, git.applied_proposed _⟩, ?_, ?_⟩
  · exact ⟨_, (settled.rows _).mpr (Or.inr rfl), rfl, rfl⟩
  · have unlogged : eventsOf disk₁.db.repositoryEvents push.id = [] :=
      begun.consistent.unlogged begun.own nofun
    have merge : disk₁.db.mergeViews (push.row .promoted packName) = [] := by
      have none : disk₁.db.mergeOf push.id = none := by
        rw [Option.eq_none_iff_forall_ne_some]
        rintro ⟨m, p, r⟩ found
        obtain ⟨⟨hm, id⟩, -⟩ := mergeOf_eq_some.mp found
        exact unmerged m hm id
      have own : (push.row .promoted packName).id = push.id := rfl
      unfold mergeViews
      rw [own, none]
    have stored : disk₁.db.managedRepository push.path = some push.repository := by
      obtain ⟨r, hr, id⟩ := managed
      obtain ⟨intents, tables⟩ := begun.db
      have found : disk₁.db.repositories.get push.repository = some r := by
        rw [tables]
        exact Table.get_eq_some.mpr ⟨hr, id⟩
      show Option.filter _ (some push.repository) = _
      rw [Option.filter_some, found]
      rfl
    have pushed : disk₁.db.pushViews (push.row .promoted packName) =
        pushView :: refViews 1 (push.commands.initial.zip push.commands.proposed) := by
      have path : (push.row .promoted packName).repositoryPath = push.path := rfl
      unfold pushViews
      rw [path, stored]
      rfl
    rw [unlogged, merge, pushed, List.nil_append, List.append_nil] at events
    exact events

end Attempt

/-! ## The exact condition -/

theorem left_same (disk : Disk) (push : Push) : LeftNoTrace disk disk push :=
  ⟨fun git found => ⟨git, found, fun _ _ => rfl, fun _ member => member⟩,
    fun _ hi _ => Or.inl hi⟩

/-- A push that does not get to its intent changes nothing. -/
theorem finish_refused {disk : Disk} {push : Push} {fault : Option PushStep}
    (refused : disk.Begins push → fault = some .validate ∨ fault = some .begin) :
    ∃ error, disk.finish push fault = (disk, some error) := by
  unfold finish
  cases opened : disk.git push.path with
  | none => exact ⟨_, rfl⟩
  | some git =>
      dsimp only
      split
      · exact ⟨_, rfl⟩
      · rename_i validates
        split
        · exact ⟨_, rfl⟩
        · rename_i matched
          split
          · exact ⟨_, rfl⟩
          · rename_i unfailed
            split
            · exact ⟨_, rfl⟩
            · rename_i db ok
              obtain ⟨fresh, actor, since⟩ := begins_iff.mp ⟨db, ok⟩
              have begins : disk.Begins push :=
                ⟨⟨git, opened, not_not.mp matched⟩, fresh, actor, since⟩
              rcases refused begins with rfl | rfl
              · exact absurd rfl validates
              · exact absurd rfl unfailed

/-- Otherwise the attempt decides, and recovery runs after its error. -/
theorem finish_begun {disk : Disk} {push : Push} (begins : disk.Begins push)
    (fault : Option PushStep) (later : fault ≠ some .validate ∧ fault ≠ some .begin) :
    ∃ db, disk.db.beginGitIntent push.intent = .ok db ∧
      ∀ disk₁ error, attempt { disk with db } push fault = (disk₁, error) →
        match error with
        | none => disk.finish push fault = (disk₁, none)
        | some _ => ∃ error', disk.finish push fault =
            (disk₁.recoverIncompletePushes.1, some error') := by
  obtain ⟨git, opened, matched⟩ := begins.initial
  obtain ⟨db, ok⟩ := begins_iff.mpr ⟨begins.fresh, begins.actor, begins.since⟩
  refine ⟨db, ok, fun disk₁ error result => ?_⟩
  unfold finish
  rw [opened]
  dsimp only
  rw [if_neg later.1, if_neg (not_not.mpr matched), if_neg later.2, ok]
  dsimp only
  rw [result]
  cases error with
  | none => rfl
  | some error =>
      dsimp only
      cases recovers : disk₁.recoverIncompletePushes with
      | mk disk' error' =>
          cases error' with
          | none => exact ⟨error, rfl⟩
          | some error' => exact ⟨error', rfl⟩

theorem upright_of_error {disk disk' : Disk} {push : Push} {fault : Option PushStep}
    {error : ReceivePackError} (result : disk.finish push fault = (disk', some error)) :
    Upright disk push fault ↔ LeftNoTrace disk disk' push := by
  unfold Upright
  rw [result]

section Faults

variable {disk : Disk} {push : Push}

/-- A step after the beginning fails: recovery runs on the disk that the attempt leaves. -/
theorem upright_failed (consistent : Consistent disk.db) (begins : disk.Begins push)
    (fault : PushStep) (later : fault ≠ .validate ∧ fault ≠ .begin) (state : IntentState)
    (packName placed : Option PackName) (incomplete : (push.row state packName).incomplete = true)
    (attempts : ∀ db, Begun disk { disk with db } push (push.row .pending none) none →
      ∃ disk₂ error, attempt { disk with db } push (some fault) = (disk₂, some error) ∧
        Begun disk disk₂ push (push.row state packName) placed) :
    ∃ disk₂, Begun disk disk₂ push (push.row state packName) placed ∧
      (Upright disk push (some fault) ↔ disk.Unblocked push.createdAt push.id ∧
        ∀ p, placed = some p → ∃ j ∈ disk₂.db.gitOperationIntents, j.incomplete = true ∧
          disk₂.removes j push.path p ∧ disk.Unblocked j.createdAt j.id) := by
  have apart : some fault ≠ some .validate ∧ some fault ≠ some .begin :=
    ⟨fun same => later.1 (Option.some.inj same), fun same => later.2 (Option.some.inj same)⟩
  obtain ⟨db, ok, ends⟩ := finish_begun begins _ apart
  obtain ⟨disk₂, error, result, begun⟩ := attempts db (begin_begun consistent ok)
  obtain ⟨error', finished⟩ := ends disk₂ (some error) result
  refine ⟨disk₂, begun, ?_⟩
  rw [upright_of_error finished]
  exact begun.left_iff incomplete begins.initial

theorem place_withDb (disk : Disk) (db : Database) (path : RepositoryPath)
    (pack : Option PackName) :
    (({ disk with db } : Disk).place path pack).2 = (disk.place path pack).2 := by
  unfold place
  dsimp only
  split
  · split <;> rfl
  · rfl

theorem upright_index (consistent : Consistent disk.db) (begins : disk.Begins push) :
    Upright disk push (some .index) ↔ disk.Unblocked push.createdAt push.id := by
  obtain ⟨disk₂, -, left⟩ := upright_failed consistent begins .index ⟨nofun, nofun⟩ .pending none
    none rfl fun db begun => ⟨_, _, by rw [attempt, if_pos rfl], begun⟩
  rw [left]
  exact and_iff_left nofun

/-- The pack was renamed, and is not recorded: only another intent can make recovery
delete it. -/
theorem upright_placed (consistent : Consistent disk.db) (begins : disk.Begins push)
    {fault : PushStep} (after : fault = .place ∨ fault = .mark) :
    Upright disk push (some fault) ↔
      disk.Unblocked push.createdAt push.id ∧ disk.Swept push := by
  have later : fault ≠ .validate ∧ fault ≠ .begin := by
    rcases after with rfl | rfl
    · exact ⟨nofun, nofun⟩
    · exact ⟨nofun, nofun⟩
  obtain ⟨disk₂, begun, left⟩ := upright_failed consistent begins fault later .pending none
    (disk.place push.path push.pack).2 rfl fun db begun =>
      ⟨_, _, attempt_placed fault after, place_withDb disk db push.path push.pack ▸ begun.place⟩
  rw [left]
  refine and_congr_right fun _ => forall_congr' fun p => imp_congr_right fun _ => ?_
  have own : disk₂.arm (push.row .pending none) = some .abandon := begun.arm begins.initial
  constructor
  · rintro ⟨j, hj, incomplete, removed, unblocked⟩
    rcases (begun.rows j).mp hj with stored | rfl
    · refine ⟨j, stored, incomplete, ?_, unblocked⟩
      exact ⟨(begun.sameRefs.arm j).symm.trans removed.1, removed.2⟩
    · have clash := own.symm.trans removed.1
      cases clash
  · rintro ⟨j, hj, incomplete, removed, unblocked⟩
    refine ⟨j, (begun.rows j).mpr (Or.inl hj), incomplete, ?_, unblocked⟩
    exact ⟨(begun.sameRefs.arm j).trans removed.1, removed.2⟩

/-- The pack is recorded when the references are to move, so recovery deletes it. -/
theorem upright_refs (consistent : Consistent disk.db) (begins : disk.Begins push) :
    Upright disk push (some .refs) ↔ disk.Unblocked push.createdAt push.id := by
  obtain ⟨disk₂, begun, left⟩ := upright_failed consistent begins .refs ⟨nofun, nofun⟩ .promoted
    (disk.place push.path push.pack).2 (disk.place push.path push.pack).2 rfl (by
      intro db begun
      obtain ⟨disk₂, marked, result⟩ := attempt_marked begun (some .refs) ⟨nofun, nofun, nofun⟩
      rw [if_pos rfl] at result
      exact ⟨disk₂, _, result, place_withDb disk db push.path push.pack ▸ marked⟩)
  rw [left]
  refine and_iff_left_of_imp fun unblocked p placed => ?_
  refine ⟨_, begun.own, rfl, ⟨begun.arm begins.initial, rfl, placed⟩, unblocked⟩

/-- The references have moved, and recovery does not move them back. -/
theorem upright_complete (consistent : Consistent disk.db) (begins : disk.Begins push) :
    ¬Upright disk push (some .complete) := by
  obtain ⟨db, ok, ends⟩ := finish_begun begins (some .complete) ⟨nofun, nofun⟩
  have begun := begin_begun consistent ok
  obtain ⟨disk₂, marked, result⟩ := attempt_marked begun (some .complete) ⟨nofun, nofun, nofun⟩
  obtain ⟨git₂, moves⟩ := marked.moves begins.initial
  rw [if_neg nofun, moves] at result
  dsimp only at result
  rw [if_pos rfl] at result
  obtain ⟨error, finished⟩ := ends _ _ result
  rw [upright_of_error finished]
  intro left
  obtain ⟨git, opened, matched⟩ := begins.initial
  obtain ⟨git', found, unmoved, -⟩ := left.refs git opened
  have moved : Consistent (disk₂.setGit push.path (git₂.applied push.commands)).db :=
    marked.consistent
  obtain ⟨before, after, disk', error, -, -, all, recovers, -⟩ :=
    recoverIntents_split moved (listed_incomplete _)
  have ended : (disk₂.setGit push.path
      (git₂.applied push.commands)).recoverIncompletePushes.1 = disk' :=
    congrArg Prod.fst recovers
  rw [ended] at found
  obtain ⟨git₃, again, kept, -⟩ := all.sameRefs.back found
  rw [setGit_same, Option.some.injEq] at again
  obtain ⟨c, hc⟩ := List.exists_mem_of_ne_nil _ push.commands.nonempty
  have new : git'.refs c.name = target c.new := by
    rw [kept, ← again]
    exact git₂.applied_of_mem hc
  have old : git.refs c.name = target c.old := GitRepository.refsMatch_initial.mp matched c hc
  have same : target c.old = target c.new := by rw [← old, ← unmoved c hc, new]
  exact push.commands.changes c hc (GitRepository.target_injective same)

theorem upright_unfailed (consistent : Consistent disk.db) (begins : disk.Begins push)
    (managed : ∃ r ∈ disk.db.repositories, r.id = push.repository) :
    Upright disk push none := by
  obtain ⟨db, ok, ends⟩ := finish_begun begins none ⟨nofun, nofun⟩
  have begun := begin_begun consistent ok
  obtain ⟨disk₂, marked, result⟩ := attempt_marked begun none ⟨nofun, nofun, nofun⟩
  obtain ⟨git₂, moves⟩ := marked.moves begins.initial
  obtain ⟨db', completes, effect⟩ := marked.completes consistent managed git₂
  rw [if_neg nofun, moves] at result
  dsimp only at result
  rw [if_neg nofun, setGit_db, inStore_ok completes] at result
  have finished : disk.finish push none = (_, none) := ends _ _ result
  unfold Upright
  rw [finished]
  exact effect

/-- **A push alone is upright just when** it does not get to its intent, or the step that
fails finds the store as `Sound` asks. -/
theorem upright_iff {fault : Option PushStep} (consistent : Consistent disk.db)
    (managed : ∃ r ∈ disk.db.repositories, r.id = push.repository) :
    Upright disk push fault ↔ (disk.Begins push → disk.Sound push fault) := by
  by_cases early : disk.Begins push → fault = some .validate ∨ fault = some .begin
  · obtain ⟨error, result⟩ := finish_refused early
    rw [upright_of_error result]
    refine ⟨fun _ begins => ?_, fun _ => left_same disk push⟩
    rcases early begins with rfl | rfl
    · trivial
    · trivial
  · obtain ⟨begins, later⟩ := Classical.not_imp.mp early
    rw [forall_prop_of_true begins]
    cases fault with
    | none => exact iff_true_intro (upright_unfailed consistent begins managed)
    | some fault =>
        cases fault with
        | validate => exact absurd (Or.inl rfl) later
        | begin => exact absurd (Or.inr rfl) later
        | index => exact upright_index consistent begins
        | place => exact upright_placed consistent begins (Or.inl rfl)
        | mark => exact upright_placed consistent begins (Or.inr rfl)
        | refs => exact upright_refs consistent begins
        | complete => exact iff_false_intro (upright_complete consistent begins)

end Faults

end Disk

/-! Pole: alice pushes one commit to the branch of her repository, and the completion of
the intent fails. -/

def mainBranch : RefName := asciiBytes "refs/heads/main"

def Commands.single (name : RefName) (old new : ObjectId) (moves : old ≠ new)
    (named : (isTag name).isSome = true) : Commands where
  list := [⟨old, new, name⟩]
  nonempty := nofun
  count := show 1 ≤ 256 by decide
  changes := by
    intro c hc
    rw [List.mem_singleton.mp hc]
    exact moves
  named := by
    intro c hc
    rw [List.mem_singleton.mp hc]
    exact named
  distinct := List.pairwise_singleton _ _

def mainRepository : GitRepository where
  refs name := if name = mainBranch then some ⟨1⟩ else none
  packs := []
  loose := [⟨1⟩]

def Disk.oneRepository : Disk where
  db := Database.oneRepository
  git path := if path = .managed 1 then some mainRepository else none

def pushToMain : Push where
  id := 5
  repository := 1
  actor := "alice"
  commands := .single mainBranch ⟨1⟩ ⟨2⟩ (by decide) (by decide)
  pack := some 7
  createdAt := 1

theorem consistent_of_empty {db : Database} (intents : ∀ i, i ∉ db.gitOperationIntents)
    (merges : ∀ m, m ∉ db.pullRequestMergeIntents) (recorded : ∀ e, e ∉ db.gitOperationEvents)
    (logged : ∀ e ∈ db.repositoryEvents, e.sourceIntentId = none) : Consistent db := by
  refine ⟨fun i hi => absurd hi (intents i), fun i hi => absurd hi (intents i),
    fun e he => absurd he (recorded e), fun id some => absurd ?_ some,
    fun m hm => absurd hm (merges m)⟩
  unfold eventsOf
  rw [List.map_eq_nil_iff, List.filter_eq_nil_iff]
  intro e he
  rw [logged e he]
  simp

theorem Disk.oneRepository_consistent : Consistent Disk.oneRepository.db :=
  consistent_of_empty (fun _ => Table.not_mem_empty _) (fun _ => Table.not_mem_empty _)
    (fun _ => Table.not_mem_empty _) fun _ he => absurd he (Table.not_mem_empty _)

theorem pushToMain_upright : Disk.Upright Disk.oneRepository pushToMain none :=
  (Disk.upright_iff Disk.oneRepository_consistent
    ⟨_, List.mem_cons_self, rfl⟩).mpr fun _ => trivial

/-- The push is reported as failed, and its reference has moved. -/
theorem failed_push_took_effect :
    (Disk.oneRepository.finish pushToMain (some .complete)).2 = some .failed ∧
      ((Disk.oneRepository.finish pushToMain (some .complete)).1.git (.managed 1)).map
        (·.refs mainBranch) = some (some ⟨2⟩) ∧
      ¬Disk.Upright Disk.oneRepository pushToMain (some .complete) := by
  refine ⟨by decide, by decide, ?_⟩
  refine Disk.upright_complete Disk.oneRepository_consistent ⟨?_, ?_, by decide, by decide⟩
  · exact ⟨mainRepository, rfl, by decide⟩
  · exact fun _ hi => absurd hi (Table.not_mem_empty _)

end Tit.Git
