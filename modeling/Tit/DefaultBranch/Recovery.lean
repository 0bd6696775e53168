/-
# DefaultBranch.Recovery -- is every interrupted change settled?

`Sound` is the invariant of the states between calls: every intent records the stored
branch, `HEAD` is at one of its two branches, and the change can be completed when
`HEAD` is at the proposed one; where there is no intent, `HEAD` is at the stored
branch.  From a sound state `recover` succeeds and leaves no intent
(`recoverIntents_sound`).

The invariant needs one condition, when `HEAD` is moved: the text
`owner/name:branch` that the completion writes to the audit history has at most 512
characters.  A branch name may have 1024 bytes, so it can be longer, and then the
change can neither be completed nor abandoned.
-/
import Tit.DefaultBranch.System

namespace Tit.DefaultBranch

open Tit.Theory Tit.Store

set_option autoImplicit false

/-! ## What a run is meant to keep -/

/-- `recover` run now succeeds, leaves no intent, and leaves every stored branch where
`HEAD` points. -/
structure Recovers (w : World) : Prop where
  succeeds : (recover w).2 = none
  empty : ∀ intent, intent ∉ (recover w).1.db.repositoryDefaultBranchIntents
  agrees : ∀ d ∈ (recover w).1.db.repositoryDefaultBranches,
    (recover w).1.head d.repositoryId = some (some d.refName)

/-- One intent for each repository, and `HEAD` at one of its two branches. -/
structure Bracketed (w : World) : Prop where
  single : ∀ i ∈ w.db.repositoryDefaultBranchIntents, ∀ j ∈ w.db.repositoryDefaultBranchIntents,
    i.repositoryId = j.repositoryId → i = j
  head : ∀ i ∈ w.db.repositoryDefaultBranchIntents,
    w.head i.repositoryId = some (some i.previousRefName) ∨
      w.head i.repositoryId = some (some i.proposedRefName)

def Good (w : World) : Prop := Bracketed w ∧ Recovers w

/-! ## The condition -/

/-- The audit target of the change fits its column. -/
def Fits (db : Database) (intent : RepositoryDefaultBranchIntent) : Prop :=
  ∀ repository owner, db.repositories.get intent.repositoryId = some repository →
    db.namespaces.get repository.ownerNamespaceId = some owner →
    Database.targetLength owner.slug repository.slug intent.proposedRefName ≤ 512

/-- `HEAD` is moved only to a branch whose change can be recorded. -/
def FitsAudit (w : World) : Action → Prop
  | .setHead found =>
      ∀ call intent, w.callAt .setting = some call → resolveBranch call.branch found = true →
        w.db.repositoryDefaultBranchIntents.get call.intentId = some intent →
        intent.previousRefName = intent.proposedRefName ∨ Fits w.db intent
  | _ => True

/-! ## The invariant -/

structure IntentSound (w : World) (i : RepositoryDefaultBranchIntent) : Prop where
  stored : ∃ d ∈ w.db.repositoryDefaultBranches, d.repositoryId = i.repositoryId ∧
    d.refName = i.previousRefName
  repository : ∃ r, w.db.repositories.get i.repositoryId = some r ∧
    ∃ n, w.db.namespaces.get r.ownerNamespaceId = some n
  actor : 1 ≤ i.actor.length ∧ i.actor.length ≤ 40
  head : w.head i.repositoryId = some (some i.previousRefName) ∨
    (w.head i.repositoryId = some (some i.proposedRefName) ∧ Fits w.db i)

structure Sound (w : World) : Prop where
  intents : ∀ i ∈ w.db.repositoryDefaultBranchIntents, IntentSound w i
  settled : ∀ d ∈ w.db.repositoryDefaultBranches,
    (∀ i ∈ w.db.repositoryDefaultBranchIntents, i.repositoryId ≠ d.repositoryId) →
      w.head d.repositoryId = some (some d.refName)

/-- The intent of the call under way, and where `HEAD` is at this stage. -/
def CallSound (w : World) (call : Call) : Prop :=
  ∃ i ∈ w.db.repositoryDefaultBranchIntents, i.id = call.intentId ∧
    i.repositoryId = call.repositoryId ∧ i.proposedRefName = call.branch ∧
    w.head i.repositoryId =
      some (some (if call.stage = .completing then i.proposedRefName else i.previousRefName))

structure Inv (w : World) : Prop where
  sound : Sound w
  call : ∀ call, w.call = some call → CallSound w call

theorem single_intent {db : Database} {i j : RepositoryDefaultBranchIntent}
    (hi : i ∈ db.repositoryDefaultBranchIntents) (hj : j ∈ db.repositoryDefaultBranchIntents)
    (same : i.repositoryId = j.repositoryId) : i = j :=
  Table.eq_of_clash hi hj (decide_eq_true (Or.inr same))

theorem Sound.bracketed {w : World} (sound : Sound w) : Bracketed w :=
  ⟨fun _ hi _ hj => single_intent hi hj, fun i hi => (sound.intents i hi).head.imp_right And.left⟩

theorem Sound.withCall {w : World} (sound : Sound w) (call : Option Call) :
    Sound { w with call } :=
  ⟨fun i hi => ⟨(sound.intents i hi).stored, (sound.intents i hi).repository,
    (sound.intents i hi).actor, (sound.intents i hi).head⟩, sound.settled⟩

/-! ## One intent -/

/-- The state after intent `i` is settled: it is gone, and the stored branch of its
repository is `branch`. -/
structure SettledTo (w w' : World) (i : RepositoryDefaultBranchIntent) (branch : String) :
    Prop where
  head : w'.head = w.head
  call : w'.call = w.call
  repositories : w'.db.repositories = w.db.repositories
  namespaces : w'.db.namespaces = w.db.namespaces
  intents : ∀ j, j ∈ w'.db.repositoryDefaultBranchIntents ↔
    j ∈ w.db.repositoryDefaultBranchIntents ∧ j.id ≠ i.id
  branches : ∀ d, d ∈ w'.db.repositoryDefaultBranches ↔
    ∃ e ∈ w.db.repositoryDefaultBranches,
      d = if e.repositoryId = i.repositoryId then { e with refName := branch } else e

theorem abandon_settles {w : World} {db' : Database} {i : RepositoryDefaultBranchIntent}
    (stored : ∃ d ∈ w.db.repositoryDefaultBranches, d.repositoryId = i.repositoryId ∧
      d.refName = i.previousRefName)
    (ok : w.db.abandonRepositoryDefaultBranch i.id = .ok db') :
    SettledTo w { w with db := db' } i i.previousRefName := by
  obtain rfl := Database.abandonRepositoryDefaultBranch_eq_ok ok
  refine ⟨rfl, rfl, rfl, rfl, fun j => by simp, fun d => ?_⟩
  obtain ⟨e, he, same, previous⟩ := stored
  have unchanged : ∀ e' ∈ w.db.repositoryDefaultBranches,
      (if e'.repositoryId = i.repositoryId then { e' with refName := i.previousRefName } else e')
        = e' := by
    intro e' he'
    split
    · rename_i here
      obtain rfl : e' = e := Table.eq_of_key he' he (here.trans same.symm)
      rw [← previous]
    · rfl
  constructor
  · intro hd
    exact ⟨d, hd, (unchanged d hd).symm⟩
  · rintro ⟨e', he', rfl⟩
    rw [unchanged e' he']
    exact he'

theorem complete_settles {w : World} {db' : Database} {i : RepositoryDefaultBranchIntent}
    (member : i ∈ w.db.repositoryDefaultBranchIntents)
    (ok : w.db.completeRepositoryDefaultBranch i.id = .ok db') :
    SettledTo w { w with db := db' } i i.proposedRefName := by
  obtain ⟨i', repository, owner, branches, auditEvents, found, foundRepository, -, updated, -,
    rfl⟩ := Database.completeRepositoryDefaultBranch_eq_ok ok
  obtain rfl : i = i' := Option.some.inj ((Table.get_of_mem member).symm.trans found)
  obtain ⟨-, id⟩ := Table.get_eq_some.mp foundRepository
  simp only [Schema.key] at id
  refine ⟨rfl, rfl, rfl, rfl, fun j => by simp, fun d => ?_⟩
  rw [Table.mem_update updated]
  simp only [decide_eq_true_eq, id]

/-- Settling an intent keeps the invariant, when `HEAD` is where the stored branch
now is. -/
theorem SettledTo.sound {w w' : World} {i : RepositoryDefaultBranchIntent} {branch : String}
    (settled : SettledTo w w' i branch) (sound : Sound w)
    (member : i ∈ w.db.repositoryDefaultBranchIntents)
    (head : w.head i.repositoryId = some (some branch)) : Sound w' := by
  have elsewhere : ∀ j ∈ w'.db.repositoryDefaultBranchIntents,
      j ∈ w.db.repositoryDefaultBranchIntents ∧ j.repositoryId ≠ i.repositoryId := by
    intro j hj
    obtain ⟨hj, other⟩ := (settled.intents j).mp hj
    refine ⟨hj, fun same => other ?_⟩
    rw [single_intent hj member same]
  refine ⟨?_, ?_⟩
  · intro j hj
    obtain ⟨hj, other⟩ := elsewhere j hj
    obtain ⟨⟨d, hd, same, previous⟩, repository, actor, at'⟩ := sound.intents j hj
    refine ⟨⟨d, (settled.branches d).mpr ⟨d, hd, ?_⟩, same, previous⟩, ?_, actor, ?_⟩
    · rw [if_neg (same ▸ other)]
    · rw [settled.repositories, settled.namespaces]
      exact repository
    · unfold Fits
      rw [settled.head, settled.repositories, settled.namespaces]
      exact at'
  · intro d hd unintended
    obtain ⟨e, he, rfl⟩ := (settled.branches d).mp hd
    rw [settled.head]
    by_cases here : e.repositoryId = i.repositoryId
    · rw [if_pos here]
      simp only [here, head]
    · rw [if_neg here] at unintended ⊢
      refine sound.settled e he fun j hj same => ?_
      by_cases this : j.id = i.id
      · obtain rfl : j = i := Table.eq_of_key hj member this
        exact here same.symm
      · exact unintended j ((settled.intents j).mpr ⟨hj, this⟩) same

theorem abandon_sound {w : World} (sound : Sound w) {i : RepositoryDefaultBranchIntent}
    (member : i ∈ w.db.repositoryDefaultBranchIntents)
    (head : w.head i.repositoryId = some (some i.previousRefName)) :
    ∃ db', w.db.abandonRepositoryDefaultBranch i.id = .ok db' ∧
      Sound { w with db := db' } ∧ SettledTo w { w with db := db' } i i.previousRefName := by
  obtain ⟨db', ok⟩ := Database.abandonRepositoryDefaultBranch_succeeds member
  have settled := abandon_settles (sound.intents i member).stored ok
  exact ⟨db', ok, settled.sound sound member head, settled⟩

theorem complete_sound {w : World} (sound : Sound w) {i : RepositoryDefaultBranchIntent}
    (member : i ∈ w.db.repositoryDefaultBranchIntents)
    (head : w.head i.repositoryId = some (some i.proposedRefName)) (fits : Fits w.db i) :
    ∃ db', w.db.completeRepositoryDefaultBranch i.id = .ok db' ∧
      Sound { w with db := db' } ∧ SettledTo w { w with db := db' } i i.proposedRefName := by
  obtain ⟨⟨d, hd, same, -⟩, ⟨r, foundRepository, n, foundOwner⟩, actor, -⟩ :=
    sound.intents i member
  have id := (Table.get_eq_some.mp foundRepository).2
  obtain ⟨db', ok⟩ := Database.completeRepositoryDefaultBranch_succeeds member foundRepository
    foundOwner ⟨d, hd, same.trans id.symm⟩ actor (fits r n foundRepository foundOwner)
  have settled := complete_settles member ok
  exact ⟨db', ok, settled.sound sound member head, settled⟩

/-- **From a sound state every intent is settled.** -/
theorem settle_sound {w : World} (sound : Sound w) {i : RepositoryDefaultBranchIntent}
    (member : i ∈ w.db.repositoryDefaultBranchIntents) :
    ∃ w' branch, settle w i = .ok w' ∧ Sound w' ∧ SettledTo w w' i branch := by
  unfold settle
  rcases (sound.intents i member).head with previous | ⟨proposed, fits⟩
  · obtain ⟨db', ok, sound', settled⟩ := abandon_sound sound member previous
    refine ⟨_, _, ?_, sound', settled⟩
    rw [previous, required_some, ok_bind, if_pos rfl, ok]
    rfl
  · by_cases same : i.proposedRefName = i.previousRefName
    · obtain ⟨db', ok, sound', settled⟩ := abandon_sound sound member (same ▸ proposed)
      refine ⟨_, _, ?_, sound', settled⟩
      rw [proposed, required_some, ok_bind, if_pos (by rw [same]), ok]
      rfl
    · obtain ⟨db', ok, sound', settled⟩ := complete_sound sound member proposed fits
      refine ⟨_, _, ?_, sound', settled⟩
      rw [proposed, required_some, ok_bind, if_neg (by simpa using same), if_pos rfl, ok]
      rfl

/-! ## All intents -/

/-- **Recovery settles every intent it is given.** -/
theorem recoverIntents_sound {w : World} (sound : Sound w)
    {intents : List RepositoryDefaultBranchIntent}
    (listed : ∀ i ∈ intents, i ∈ w.db.repositoryDefaultBranchIntents)
    (distinct : intents.Pairwise fun i j => i.id ≠ j.id) :
    (recoverIntents w intents).2 = none ∧ Sound (recoverIntents w intents).1 ∧
      (recoverIntents w intents).1.head = w.head ∧
      (recoverIntents w intents).1.call = w.call ∧
      ∀ j, j ∈ (recoverIntents w intents).1.db.repositoryDefaultBranchIntents ↔
        j ∈ w.db.repositoryDefaultBranchIntents ∧ ∀ i ∈ intents, j.id ≠ i.id := by
  induction intents generalizing w with
  | nil => exact ⟨rfl, sound, rfl, rfl, fun j => by simp [recoverIntents]⟩
  | cons i rest ih =>
      obtain ⟨w', branch, ok, sound', settled⟩ := settle_sound sound (listed i List.mem_cons_self)
      obtain ⟨first, distinct⟩ := List.pairwise_cons.mp distinct
      have later : ∀ j ∈ rest, j ∈ w'.db.repositoryDefaultBranchIntents := fun j hj =>
        (settled.intents j).mpr ⟨listed j (List.mem_cons_of_mem i hj), (first j hj).symm⟩
      obtain ⟨none, sound'', head, call, left⟩ := ih sound' later distinct
      have unfolded : recoverIntents w (i :: rest) = recoverIntents w' rest := by
        simp only [recoverIntents, ok]
      rw [unfolded]
      refine ⟨none, sound'', head.trans settled.head, call.trans settled.call, fun j => ?_⟩
      rw [left j, settled.intents j, and_assoc, List.forall_mem_cons]

theorem Sound.recovers {w : World} (sound : Sound w) : Recovers w := by
  have listed : ∀ i ∈ w.db.incompleteRepositoryDefaultBranches,
      i ∈ w.db.repositoryDefaultBranchIntents := fun i =>
    Database.mem_incompleteRepositoryDefaultBranches.mp
  obtain ⟨none, sound', -, -, left⟩ := recoverIntents_sound sound listed
    w.db.incompleteRepositoryDefaultBranches_distinct
  have empty : ∀ j, j ∉ (recover w).1.db.repositoryDefaultBranchIntents := by
    intro j hj
    obtain ⟨hj, apart⟩ := (left j).mp hj
    exact apart j (Database.mem_incompleteRepositoryDefaultBranches.mpr hj) rfl
  exact ⟨none, empty, fun d hd => sound'.settled d hd fun i hi => absurd hi (empty i)⟩

/-! ## Steps -/

theorem callAt_eq_some {w : World} {stage : Stage} {call : Call}
    (at' : w.callAt stage = some call) : w.call = some call ∧ call.stage = stage := by
  unfold World.callAt at at'
  rw [Option.filter_eq_some_iff] at at'
  exact ⟨at'.1, of_decide_eq_true at'.2⟩

theorem Inv.idle {w : World} (sound : Sound w) (idle : w.call = none) : Inv w :=
  ⟨sound, fun call same => by rw [idle] at same; cases same⟩

/-- A request that is refused changes nothing; one that is accepted leaves an intent
of a repository whose `HEAD` is at the stored branch. -/
theorem beginUpdate_inv {w w' : World} (sound : Sound w) {request : Request} {found : Bool}
    (ok : beginUpdate w request found = .ok w') : Inv w' := by
  unfold beginUpdate at ok
  simp only [bind_eq_ok, fromStore_eq_ok, required_eq_ok, ensure_eq_ok, pure_eq_ok,
    Except.ok.injEq] at ok
  obtain ⟨_, -, _, -, _, -, ⟨repositoryId, previous⟩, settings, head, foundHead, _, -, _, at', db,
    begun, rfl⟩ := ok
  obtain ⟨n, hn, r, hr, intents, owned, slug, inside, stored, actor, inserted, rfl⟩ :=
    Database.beginRepositoryDefaultBranch_eq_ok begun
  have sameRepository : repositoryId = r.id := by
    unfold Database.repositorySettings at settings
    simp only [bind_eq_ok, pure_eq_ok, Except.ok.injEq, Prod.mk.injEq] at settings
    obtain ⟨access, accessed, _, -, branch, -, rfl, -⟩ := settings
    obtain ⟨n', hn', r', hr', owned', slug', inside', id, -, -⟩ :=
      Database.repositoryIssueAccess_eq_ok accessed
    obtain rfl : n' = n := Table.eq_of_clash hn' hn
      (decide_eq_true (Or.inr (Or.inl (owned'.trans owned.symm))))
    obtain rfl : r' = r := Table.eq_of_clash hr' hr
      (decide_eq_true (Or.inr ⟨inside'.trans inside.symm, slug'.trans slug.symm⟩))
    exact id
  subst sameRepository
  subst at'
  obtain ⟨d, foundStored, branch⟩ := Option.map_eq_some_iff.mp stored
  obtain ⟨hd, id⟩ := Table.get_eq_some.mp foundStored
  simp only [Schema.key] at id
  have new := (Table.mem_insert inserted).mpr (Or.inr rfl)
  refine ⟨⟨?_, ?_⟩, ?_⟩
  · intro i hi
    rcases (Table.mem_insert inserted).mp hi with old | rfl
    · exact ⟨(sound.intents i old).stored, (sound.intents i old).repository,
        (sound.intents i old).actor, (sound.intents i old).head⟩
    · exact ⟨⟨d, hd, id, branch⟩,
        ⟨r, Table.get_of_mem hr, n, inside ▸ Table.get_of_mem hn⟩, actor, Or.inl foundHead⟩
  · intro e he unintended
    exact sound.settled e he fun i hi => unintended i ((Table.mem_insert inserted).mpr (Or.inl hi))
  · rintro call same
    cases same
    exact ⟨_, new, rfl, rfl, rfl, foundHead⟩

/-- Moving `HEAD` keeps the invariant when the change can be recorded. -/
theorem setHead_inv {w : World} (inv : Inv w) {call : Call} {found : Bool}
    (at' : w.callAt .setting = some call) (fits : FitsAudit w (.setHead found)) :
    Inv (setHead w call found) := by
  obtain ⟨called, stage⟩ := callAt_eq_some at'
  obtain ⟨i, hi, id, repository, branch, head⟩ := inv.call call called
  unfold setHead
  split
  · rename_i resolves
    have fits := fits call i at' resolves (id ▸ Table.get_of_mem hi)
    have moved : Function.update w.head call.repositoryId (some (some call.branch)) i.repositoryId
        = some (some i.proposedRefName) := by
      rw [repository, Function.update_self, branch]
    have elsewhere : ∀ other, other ≠ i.repositoryId →
        Function.update w.head call.repositoryId (some (some call.branch)) other = w.head other :=
      fun other ne => Function.update_of_ne (repository ▸ ne) _ _
    refine ⟨⟨?_, ?_⟩, ?_⟩
    · intro j hj
      obtain ⟨stored, repository', actor, at''⟩ := inv.sound.intents j hj
      refine ⟨stored, repository', actor, ?_⟩
      by_cases same : j.repositoryId = i.repositoryId
      · obtain rfl : j = i := single_intent hj hi same
        rcases fits with previous | fits
        · exact Or.inl (by rw [previous]; exact moved)
        · exact Or.inr ⟨moved, fits⟩
      · dsimp only
        rw [elsewhere _ same]
        exact at''
    · intro d hd unintended
      dsimp only
      rw [elsewhere _ (unintended i hi).symm]
      exact inv.sound.settled d hd unintended
    · rintro call' same
      cases same
      exact ⟨i, hi, id, repository, branch, by rw [if_pos rfl]; exact moved⟩
  · refine ⟨inv.sound.withCall _, ?_⟩
    rintro call' same
    cases same
    rw [stage, if_neg (by decide)] at head
    exact ⟨i, hi, id, repository, branch, head⟩

theorem complete_inv {w : World} (inv : Inv w) {call : Call}
    (at' : w.callAt .completing = some call) :
    Sound { w with
      db := committed w.db (w.db.completeRepositoryDefaultBranch call.intentId), call := none } := by
  obtain ⟨called, stage⟩ := callAt_eq_some at'
  obtain ⟨i, hi, id, -, -, head⟩ := inv.call call called
  rw [if_pos stage] at head
  rcases committed_eq_or w.db (w.db.completeRepositoryDefaultBranch call.intentId) with
    failed | ok
  · rw [failed]
    exact inv.sound.withCall none
  · rw [← id] at ok
    have settled := complete_settles hi ok
    rw [← id]
    exact (settled.sound inv.sound hi head).withCall none

theorem abandon_inv {w : World} (inv : Inv w) {call : Call}
    (at' : w.callAt .abandoning = some call) :
    Sound { w with
      db := committed w.db (w.db.abandonRepositoryDefaultBranch call.intentId), call := none } := by
  obtain ⟨called, stage⟩ := callAt_eq_some at'
  obtain ⟨i, hi, id, -, -, head⟩ := inv.call call called
  rw [stage, if_neg (by decide)] at head
  obtain ⟨db', ok, sound, -⟩ := abandon_sound inv.sound hi head
  rw [← id, ok]
  exact sound.withCall none

/-- **What one step preserves.** -/
theorem step_inv (w : World) (action : Action) (w' : World) (inv : Inv w)
    (fits : FitsAudit w action) (next : step w action = some w') : Inv w' := by
  cases action with
  | update request found =>
      simp only [step] at next
      split at next
      · cases next
        rcases committed_eq_or w (beginUpdate w request found) with failed | ok
        · rw [failed]
          exact inv
        · exact beginUpdate_inv inv.sound ok
      · cases next
  | setHead found =>
      obtain ⟨call, at', rfl⟩ := Option.map_eq_some_iff.mp next
      exact setHead_inv inv at' fits
  | setHeadFails =>
      obtain ⟨call, at', rfl⟩ := Option.map_eq_some_iff.mp next
      obtain ⟨called, stage⟩ := callAt_eq_some at'
      obtain ⟨i, hi, id, repository, branch, head⟩ := inv.call call called
      refine ⟨inv.sound.withCall _, ?_⟩
      rintro call' same
      cases same
      rw [stage, if_neg (by decide)] at head
      exact ⟨i, hi, id, repository, branch, head⟩
  | complete =>
      obtain ⟨call, at', rfl⟩ := Option.map_eq_some_iff.mp next
      exact Inv.idle (complete_inv inv at') rfl
  | completeFails =>
      obtain ⟨call, -, rfl⟩ := Option.map_eq_some_iff.mp next
      exact Inv.idle (inv.sound.withCall none) rfl
  | abandon =>
      obtain ⟨call, at', rfl⟩ := Option.map_eq_some_iff.mp next
      exact Inv.idle (abandon_inv inv at') rfl
  | abandonFails =>
      obtain ⟨call, -, rfl⟩ := Option.map_eq_some_iff.mp next
      exact Inv.idle (inv.sound.withCall none) rfl
  | crash =>
      cases next
      exact Inv.idle (inv.sound.withCall none) rfl
  | recover limit =>
      simp only [step] at next
      split at next
      · rename_i idle
        cases next
        have sublist := List.take_sublist limit w.db.incompleteRepositoryDefaultBranches
        obtain ⟨-, sound, -, call, -⟩ := recoverIntents_sound inv.sound
          (fun i hi => Database.mem_incompleteRepositoryDefaultBranches.mp (sublist.subset hi))
          (w.db.incompleteRepositoryDefaultBranches_distinct.sublist sublist)
        exact Inv.idle sound (call.trans idle)
      · cases next

/-! ## The condition is exact -/

/-- A step of recovery leaves `HEAD`, the repositories and the other intents alone. -/
theorem settle_frame {w w' : World} {i : RepositoryDefaultBranchIntent}
    (ok : settle w i = .ok w') :
    w'.head = w.head ∧ w'.db.repositories = w.db.repositories ∧
      w'.db.namespaces = w.db.namespaces ∧
      ∀ j ∈ w.db.repositoryDefaultBranchIntents, j.id ≠ i.id →
        j ∈ w'.db.repositoryDefaultBranchIntents := by
  unfold settle at ok
  rw [bind_eq_ok] at ok
  obtain ⟨head, -, ok⟩ := ok
  split at ok
  · simp only [bind_eq_ok, fromStore_eq_ok, pure_eq_ok, Except.ok.injEq] at ok
    obtain ⟨db', abandoned, rfl⟩ := ok
    obtain rfl := Database.abandonRepositoryDefaultBranch_eq_ok abandoned
    exact ⟨rfl, rfl, rfl, fun j hj other => by simpa using ⟨hj, other⟩⟩
  · split at ok
    · simp only [bind_eq_ok, fromStore_eq_ok, pure_eq_ok, Except.ok.injEq] at ok
      obtain ⟨db', completed, rfl⟩ := ok
      obtain ⟨_, _, _, _, _, -, -, -, -, -, rfl⟩ :=
        Database.completeRepositoryDefaultBranch_eq_ok completed
      exact ⟨rfl, rfl, rfl, fun j hj other => by simpa using ⟨hj, other⟩⟩
    · cases ok

/-- A recovery that succeeds has settled each of its intents, from a state with the
same `HEAD` and the same repositories. -/
theorem recoverIntents_settles {w : World} {intents : List RepositoryDefaultBranchIntent}
    (succeeds : (recoverIntents w intents).2 = none)
    (distinct : intents.Pairwise fun i j => i.id ≠ j.id)
    {i : RepositoryDefaultBranchIntent} (listed : i ∈ intents)
    (member : i ∈ w.db.repositoryDefaultBranchIntents) :
    ∃ v v', settle v i = .ok v' ∧ v.head = w.head ∧ v.db.repositories = w.db.repositories ∧
      v.db.namespaces = w.db.namespaces ∧ i ∈ v.db.repositoryDefaultBranchIntents := by
  induction intents generalizing w with
  | nil => cases listed
  | cons first rest ih =>
      obtain ⟨apart, distinct⟩ := List.pairwise_cons.mp distinct
      simp only [recoverIntents] at succeeds
      split at succeeds
      · rename_i w' ok
        rcases List.mem_cons.mp listed with rfl | later
        · exact ⟨w, w', ok, rfl, rfl, rfl, member⟩
        · obtain ⟨head, repositories, namespaces, kept⟩ := settle_frame ok
          obtain ⟨v, v', settled, sameHead, sameRepositories, sameNamespaces, member'⟩ :=
            ih succeeds distinct later (kept i member (apart i later).symm)
          exact ⟨v, v', settled, sameHead.trans head, sameRepositories.trans repositories,
            sameNamespaces.trans namespaces, member'⟩
      · cases succeeds

/-- An intent that recovery settles at its proposed branch fits the audit history. -/
theorem Recovers.fits {w : World} (recovers : Recovers w) {i : RepositoryDefaultBranchIntent}
    (member : i ∈ w.db.repositoryDefaultBranchIntents)
    (head : w.head i.repositoryId = some (some i.proposedRefName))
    (moved : i.previousRefName ≠ i.proposedRefName) : Fits w.db i := by
  obtain ⟨v, v', settled, sameHead, repositories, namespaces, member'⟩ :=
    recoverIntents_settles recovers.succeeds w.db.incompleteRepositoryDefaultBranches_distinct
      (Database.mem_incompleteRepositoryDefaultBranches.mpr member) member
  unfold settle at settled
  rw [sameHead, head, required_some, ok_bind, if_neg (by simpa using moved.symm), if_pos rfl]
    at settled
  simp only [bind_eq_ok, fromStore_eq_ok] at settled
  obtain ⟨db', completed, -⟩ := settled
  intro repository owner foundRepository foundOwner
  exact Database.completeRepositoryDefaultBranch_fits member' (repositories ▸ foundRepository)
    (namespaces ▸ foundOwner) completed

theorem step_exposed (w : World) (action : Action) (w' : World) (inv : Inv w)
    (next : step w action = some w') (good : Good w') : FitsAudit w action := by
  cases action with
  | setHead found =>
      intro call i at' resolves foundIntent
      obtain ⟨called, -⟩ := callAt_eq_some at'
      obtain ⟨i', hi', id, repository, branch, -⟩ := inv.call call called
      obtain ⟨hi, id'⟩ := Table.get_eq_some.mp foundIntent
      obtain rfl : i = i' := Table.eq_of_key hi hi' (id'.trans id.symm)
      by_cases same : i.previousRefName = i.proposedRefName
      · exact Or.inl same
      · refine Or.inr ?_
        simp only [step, at', Option.map_some, Option.some.injEq] at next
        subst next
        have recovers := good.2
        unfold setHead at recovers
        rw [if_pos resolves] at recovers
        refine recovers.fits hi ?_ same
        simp only [repository, Function.update_self, branch]
  | _ => trivial

theorem Settled.inv (start : Settled) : Inv start.toWorld :=
  Inv.idle ⟨fun i hi => absurd hi (start.empty i), fun d hd _ => start.agrees d hd⟩ start.idle

def longBranch : String := "refs/heads/" ++ String.ofList (List.replicate 600 'a')

theorem replicate_utf8ByteSize (n : Nat) :
    (String.ofList (List.replicate n 'a')).utf8ByteSize = n := by
  induction n with
  | zero => rfl
  | succ n ih =>
      have one : 'a'.utf8Size = 1 := by decide
      rw [List.replicate_succ, String.ofList_cons, String.utf8ByteSize_append, ih,
        String.utf8ByteSize_singleton, one, Nat.add_comm]

theorem longBranch_length : longBranch.length = 611 := by
  have stem : "refs/heads/".length = 11 := by decide
  rw [longBranch, String.length_append, stem, String.length_ofList, List.length_replicate]

theorem longBranch_stem : longBranch.toList.take 11 = "refs/heads/".toList := by
  have stem : "refs/heads/".toList.length = 11 := by decide
  rw [longBranch, String.toList_append, ← stem, List.take_left']
  rfl

theorem longBranch_resolves : resolveBranch longBranch true = true := by
  have size : longBranch.utf8ByteSize = 611 := by
    have stem : "refs/heads/".utf8ByteSize = 11 := by decide
    rw [longBranch, String.utf8ByteSize_append, replicate_utf8ByteSize, stem]
  simp only [resolveBranch, longBranch_stem, size, decide_true, Bool.true_and, Bool.and_true,
    decide_eq_true_eq]
  decide

theorem longBranch_check : branchCheck longBranch = true := by
  simp only [branchCheck, longBranch_stem, decide_true, Bool.and_true, lengthBetween_iff,
    longBranch_length]
  decide

/-- One repository at its stored branch. -/
def oneRepository : Settled where
  db := Database.oneRepository
  head id := if id = 1 then some (some "refs/heads/main") else none
  call := none
  idle := rfl
  empty := fun _ => Table.not_mem_empty _
  agrees := by
    intro d hd
    obtain rfl := List.mem_singleton.mp hd
    rfl

def toBranch (branch : String) : Request where
  intentId := 1
  owner := "alice"
  repository := "tit"
  actor := "alice"
  defaultBranch := branch
  changedAt := 1

def moveTo (branch : String) : List Action := [.update (toBranch branch) true, .setHead true]

def change (branch : String) : NewDefaultBranchIntent where
  id := 1
  owner := "alice"
  slug := "tit"
  actor := "alice"
  previousBranch := "refs/heads/main"
  defaultBranch := branch
  changedAt := 1

/-- The state in which `HEAD` is about to be moved. -/
def begun (intents : Table RepositoryDefaultBranchIntent) (branch : String) : World :=
  { oneRepository.toWorld with
    db := { oneRepository.db with repositoryDefaultBranchIntents := intents }
    call := some { intentId := 1, repositoryId := 1, branch, stage := .setting } }

/-- The request is accepted. -/
theorem oneRepository_begins {branch : String} (valid : branchCheck branch = true)
    (resolves : resolveBranch branch true = true) :
    ∃ intents, Database.defaultBranchIntentRow 1 (change branch) ∈ intents ∧
      step oneRepository.toWorld (.update (toBranch branch) true) = some (begun intents branch) := by
  have accessed : oneRepository.db.repositoryIssueAccess "alice" "tit" (some "alice") =
      .ok Database.aliceAccess := by decide
  have stored : oneRepository.db.repositoryDefaultBranches.get Database.aliceAccess.repository.id =
      some { repositoryId := 1, refName := "refs/heads/main" } := by decide
  have settings : oneRepository.db.repositorySettings "alice" "tit" "alice" =
      .ok (1, "refs/heads/main") := by decide
  have alice : validateUsername "alice" = true := by decide
  have tit : validateSlug "tit" = true := by decide
  have free : ∀ i ∈ oneRepository.db.repositoryDefaultBranchIntents,
      i.id ≠ (change branch).id ∧ i.repositoryId ≠ Database.aliceAccess.repository.id :=
    fun i hi => absurd hi (oneRepository.empty i)
  obtain ⟨intents, inserted, began⟩ := Database.beginRepositoryDefaultBranch_succeeds
    accessed (by decide) stored rfl valid Int.one_nonneg free
  refine ⟨intents, (Table.mem_insert inserted).mpr (Or.inr rfl), ?_⟩
  have ok : beginUpdate oneRepository.toWorld (toBranch branch) true =
      .ok (begun intents branch) := by
    unfold beginUpdate
    simp only [bind_eq_ok, fromStore_eq_ok, required_eq_ok, ensure_eq_ok, pure_eq_ok]
    exact ⟨⟨⟩, alice, ⟨⟩, tit, ⟨⟩, alice, _, settings, _, rfl, ⟨⟩, resolves, ⟨⟩, rfl, _, began,
      rfl⟩
  simp only [step, oneRepository.idle, ok, committed]

end Tit.DefaultBranch
