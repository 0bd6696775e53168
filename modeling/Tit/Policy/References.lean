/-
# Policy.References -- which references a push may move

A push moves references in three steps: `validate_proposed_objects` says what each command does,
`validate_policy` asks the policy about each command with its change, or refuses every forced move
where there is no policy, and `apply_ref_transaction` moves all references at once, if each is still
where its command says.

With a policy, only writers move references, only maintainers move the default branch, and nobody
deletes it.  With and without one, a branch that stays moves forward (`moved_lawfully`).
-/
import Tit.Git.Validation
import Tit.Store.Access

namespace Tit.Policy

open Tit.Theory Tit.Store Tit.Git

set_option autoImplicit false

inductive PushRefusal where
  | objects (error : ProposalError)
  | nonFastForward
  | refPolicy
  | policy (error : PolicyError)
  | refTransaction
  deriving DecidableEq, Repr

/-! ## The three steps -/

section Steps

variable (db : Database)

/-- The loop of `validate_policy`. -/
def authorizeChanges (actor owner repository : String) :
    List (RefCommand × RefChange) → Except PushRefusal Unit
  | [] => .ok ()
  | (c, change) :: rest =>
      match authorizeRefChange db actor owner repository c.name change with
      | .ok _ => authorizeChanges actor owner repository rest
      | .error .denied =>
          if change = .force then .error .nonFastForward else .error .refPolicy
      | .error error => .error (.policy error)

/-- `validate_policy`; without a policy there is no owner and no repository to ask about. -/
def validatePolicy (context : Option (String × String)) (actor : String)
    (commands : List RefCommand) (changes : List RefChange) : Except PushRefusal Unit :=
  match context with
  | none => if .force ∈ changes then .error .nonFastForward else .ok ()
  | some (owner, repository) =>
      authorizeChanges db actor owner repository (commands.zip changes)

/-- The references after a push. -/
def movePushed (context : Option (String × String)) (actor : String) (objects : CombinedObjects)
    (git : GitRepository) (commands : Commands) : Except PushRefusal GitRepository := do
  let changes ← (validateProposedObjects objects commands.list).mapError .objects
  validatePolicy db context actor commands.list changes
  required (git.applyRefTransaction commands) .refTransaction

end Steps

/-! ## What is allowed -/

/-- The role of the pusher is one of these. -/
def HasRole (db : Database) (actor owner repository : String) (roles : List Role) : Prop :=
  ∃ record role, db.repositoryAuthorization owner repository (some actor) = .ok record ∧
    record.role = some role ∧ role ∈ roles

/-- What one command does is allowed: a writer moves it, and the default branch is moved by a
maintainer and is not deleted. -/
structure Authorized (db : Database) (actor owner repository : String) (c : RefCommand)
    (change : RefChange) : Prop where
  writer : HasRole db actor owner repository [.owner, .maintainer, .writer]
  forward : change ≠ .force
  protects : ∀ branch, db.repositoryDefaultBranch owner repository = .ok branch →
    c.name = branch.toByteArray.data.toList →
      change ≠ .delete ∧ HasRole db actor owner repository [.owner, .maintainer]

section Lawful

variable {db : Database} {context : Option (String × String)} {actor owner repository : String}
  {objects : CombinedObjects} {git git' : GitRepository} {commands : Commands} {c : RefCommand}
  {change : RefChange}

theorem role_of_write {record : RepositoryAuthorizationRecord}
    (found : db.repositoryAuthorization owner repository (some actor) = .ok record)
    (allowed : allows record .write = true) :
    HasRole db actor owner repository [.owner, .maintainer, .writer] := by
  unfold allows at allowed
  simp only [Bool.and_eq_true, decide_eq_true_eq] at allowed
  obtain ⟨-, owner | maintainer | writer⟩ := allowed
  · exact ⟨record, .owner, found, owner, by simp⟩
  · exact ⟨record, .maintainer, found, maintainer, by simp⟩
  · exact ⟨record, .writer, found, writer, by simp⟩

theorem role_of_maintain {record : RepositoryAuthorizationRecord}
    (found : db.repositoryAuthorization owner repository (some actor) = .ok record)
    (allowed : allows record .maintain = true) :
    HasRole db actor owner repository [.owner, .maintainer] := by
  unfold allows at allowed
  simp only [Bool.and_eq_true, decide_eq_true_eq] at allowed
  obtain ⟨-, owner | maintainer⟩ := allowed
  · exact ⟨record, .owner, found, owner, by simp⟩
  · exact ⟨record, .maintainer, found, maintainer, by simp⟩

theorem authorizeRefChange_authorized {record : RepositoryRecord}
    (ok : authorizeRefChange db actor owner repository c.name change = .ok record) :
    Authorized db actor owner repository c change := by
  unfold authorizeRefChange at ok
  simp only [bind_eq_ok, fromStore_eq_ok, ensure_eq_ok] at ok
  obtain ⟨access, found, _, writes, branch, stored, _, allowed, -⟩ := ok
  rw [not_or, not_or] at allowed
  obtain ⟨forward, keeps, maintains⟩ := allowed
  refine ⟨role_of_write found writes, forward, fun branch' stored' isDefault => ?_⟩
  rw [stored] at stored'
  cases stored'
  rw [decide_eq_true isDefault] at keeps maintains
  refine ⟨fun deletes => keeps ⟨rfl, deletes⟩, role_of_maintain found ?_⟩
  by_contra refused
  exact maintains ⟨rfl, refused⟩

theorem authorizeChanges_authorized {pairs : List (RefCommand × RefChange)}
    (ok : authorizeChanges db actor owner repository pairs = .ok ()) :
    ∀ pair ∈ pairs, Authorized db actor owner repository pair.1 pair.2 := by
  induction pairs with
  | nil => nofun
  | cons pair rest ih =>
      obtain ⟨c, change⟩ := pair
      rw [authorizeChanges] at ok
      split at ok
      · rename_i record allowed
        rw [List.forall_mem_cons]
        exact ⟨authorizeRefChange_authorized allowed, ih ok⟩
      · split at ok
        · cases ok
        · cases ok
      · cases ok

/-- The commands and their changes go together. -/
theorem classified_of_mem {commands : List RefCommand} {changes : List RefChange}
    (classified : List.Forall₂ objects.Classified commands changes) (member : c ∈ commands) :
    ∃ change, (c, change) ∈ commands.zip changes ∧ change ∈ changes ∧ objects.Classified c change := by
  induction classified with
  | nil => cases member
  | cons here later ih =>
      rcases List.mem_cons.mp member with rfl | member
      · exact ⟨_, List.mem_cons_self, List.mem_cons_self, here⟩
      · obtain ⟨change, pair, listed, classified⟩ := ih member
        exact ⟨change, List.mem_cons_of_mem _ pair, List.mem_cons_of_mem _ listed, classified⟩

/-- What is known of a command of a push that has moved the references. -/
theorem command_lawful (ok : movePushed db context actor objects git commands = .ok git')
    (member : c ∈ commands.list) :
    ∃ change, objects.Classified c change ∧ change ≠ .force ∧
      (c.new.isNull = false → objects.Admissible c) ∧ git.refs c.name = Database.target c.old ∧
      git' = git.applied commands ∧
      ∀ owner repository, context = some (owner, repository) →
        Authorized db actor owner repository c change := by
  obtain ⟨changes, valid, ok⟩ := bind_eq_ok.mp ok
  obtain ⟨⟨⟩, policy, ok⟩ := bind_eq_ok.mp ok
  have valid' : validateProposedObjects objects commands.list = .ok changes := by
    cases answer : validateProposedObjects objects commands.list with
    | error error =>
        rw [answer] at valid
        cases valid
    | ok found =>
        rw [answer] at valid
        cases valid
        rfl
  obtain ⟨admissible, classified⟩ := validateProposedObjects_eq_ok.mp valid'
  obtain ⟨change, pair, listed, here⟩ := classified_of_mem classified member
  have applied := required_eq_ok.mp ok
  unfold GitRepository.applyRefTransaction at applied
  split at applied
  · rename_i matches'
    cases applied
    refine ⟨change, here, ?_, admissible c member,
      GitRepository.refsMatch_initial.mp matches' c member, rfl, ?_⟩
    · unfold validatePolicy at policy
      cases context with
      | none =>
          dsimp only at policy
          split at policy
          · cases policy
          · rename_i none
            rintro rfl
            exact none listed
      | some context =>
          exact (authorizeChanges_authorized policy (c, change) pair).forward
    · rintro owner repository rfl
      exact authorizeChanges_authorized policy (c, change) pair
  · cases applied

theorem movePushed_of {changes : List RefChange}
    (valid : validateProposedObjects objects commands.list = .ok changes)
    (allowed : validatePolicy db context actor commands.list changes = .ok ())
    (current : git.refsMatch commands.initial = true) :
    movePushed db context actor objects git commands = .ok (git.applied commands) := by
  unfold movePushed GitRepository.applyRefTransaction
  rw [valid, if_pos current]
  simp only [Except.mapError, ok_bind, allowed, required_some]

/-- **What a push moves**, by any list of commands: with a policy only writers move references, and
the default branch is moved by maintainers only and stays; with and without one, a branch that is
there before and after is at a commit with the old value for an ancestor. -/
theorem movePushed_lawful (ok : movePushed db context actor objects git commands = .ok git') :
    (∀ owner repository, context = some (owner, repository) →
      ∀ name, git'.refs name ≠ git.refs name →
        HasRole db actor owner repository [.owner, .maintainer, .writer] ∧
        ∀ branch, db.repositoryDefaultBranch owner repository = .ok branch →
          name = branch.toByteArray.data.toList →
            git'.refs name ≠ none ∧ HasRole db actor owner repository [.owner, .maintainer]) ∧
    ∀ name old new, isTag name = some false → git.refs name = some old →
      git'.refs name = some new →
        objects.Ancestor new old ∧ (new = old ∨ ∃ links, objects.Readable new .commit links) := by
  obtain ⟨first, firstMember⟩ := List.exists_mem_of_ne_nil _ commands.nonempty
  obtain ⟨-, -, -, -, -, rfl, -⟩ := command_lawful ok firstMember
  constructor
  · intro owner repository policy name moved
    obtain ⟨c, member, rfl⟩ : ∃ c ∈ commands.list, c.name = name := by
      by_contra absent
      refine moved (git.applied_of_not_mem fun c member same => absent ⟨c, member, same⟩)
    obtain ⟨change, classified, -, -, -, -, authorized⟩ := command_lawful ok member
    have authorized := authorized owner repository policy
    refine ⟨authorized.writer, fun branch stored isDefault => ?_⟩
    obtain ⟨keeps, maintainer⟩ := authorized.protects branch stored isDefault
    refine ⟨fun deleted => keeps ?_, maintainer⟩
    rw [git.applied_of_mem member] at deleted
    unfold Database.target at deleted
    split at deleted
    · rename_i null
      unfold CombinedObjects.Classified at classified
      rwa [if_pos null] at classified
    · cases deleted
  · intro name old new branch before after
    by_cases moved : ∃ c ∈ commands.list, c.name = name
    · obtain ⟨c, member, rfl⟩ := moved
      obtain ⟨change, classified, forward, admissible, matches', -, -⟩ := command_lawful ok member
      rw [git.applied_of_mem member] at after
      rw [before] at matches'
      have oldIs : c.old.isNull = false ∧ c.old = old := by
        unfold Database.target at matches'
        split at matches'
        · cases matches'
        · rename_i some
          cases matches'
          exact ⟨Bool.eq_false_iff.mpr some, rfl⟩
      have newIs : c.new.isNull = false ∧ c.new = new := by
        unfold Database.target at after
        split at after
        · cases after
        · rename_i some
          cases after
          exact ⟨Bool.eq_false_iff.mpr some, rfl⟩
      obtain ⟨oldSome, rfl⟩ := oldIs
      obtain ⟨newSome, rfl⟩ := newIs
      refine ⟨?_, Or.inr ((admissible newSome).branch branch)⟩
      unfold CombinedObjects.Classified at classified
      rw [newSome, oldSome, branch] at classified
      simp only [Bool.false_eq_true, if_false, Option.some.injEq] at classified
      rcases classified with ⟨-, path⟩ | ⟨forced, -⟩
      · exact path
      · exact absurd forced forward
    · rw [git.applied_of_not_mem fun c member same => moved ⟨c, member, same⟩, before] at after
      cases after
      exact ⟨.refl, Or.inl rfl⟩

end Lawful

/-! ## Pole: `refs/heads/main` of `tit` is the default branch, and `topic` another one -/

def mainName : RefName := "refs/heads/main".toByteArray.data.toList

def topicName : RefName := "refs/heads/topic".toByteArray.data.toList

/-- One command, which deletes the branch. -/
def deletion (name : RefName) (named : (isTag name).isSome = true) : Commands where
  list := [{ old := ⟨5⟩, new := .null, name }]
  nonempty := nofun
  count := by
    rw [List.length_singleton]
    decide
  changes := by
    intro c member
    rw [List.mem_singleton.mp member]
    nofun
  named := by simpa using named
  distinct := by simp

def fiveAt (name : RefName) : GitRepository where
  refs n := if n = name then some ⟨5⟩ else none
  packs := []
  loose := []

def noObjects : CombinedObjects := ⟨fun _ => .ok none, none⟩

/-- The owner deletes a branch that is not the default branch. -/
theorem topic_deleted :
    movePushed .oneRepository (some ("alice", "tit")) "alice" noObjects (fiveAt topicName)
      (deletion topicName (by decide)) =
        .ok ((fiveAt topicName).applied (deletion topicName (by decide))) ∧
    ∀ name, ((fiveAt topicName).applied (deletion topicName (by decide))).refs name ≠
      (fiveAt topicName).refs name →
        HasRole .oneRepository "alice" "alice" "tit" [.owner, .maintainer, .writer] := by
  have ok : movePushed .oneRepository (some ("alice", "tit")) "alice" noObjects (fiveAt topicName)
      (deletion topicName (by decide)) =
        .ok ((fiveAt topicName).applied (deletion topicName (by decide))) :=
    @movePushed_of _ _ _ _ _ _ [.delete] rfl (by decide) (by decide)
  exact ⟨ok, fun name moved => ((movePushed_lawful ok).1 "alice" "tit" rfl name moved).1⟩

/-- Without a policy nobody is asked: an account that is none deletes the default branch. -/
theorem unasked_deletion :
    Database.oneRepository.repositoryDefaultBranch "alice" "tit" = .ok "refs/heads/main" ∧
    ¬HasRole .oneRepository "mallory" "alice" "tit" [.owner, .maintainer, .writer] ∧
    ∃ git', movePushed .oneRepository none "mallory" noObjects (fiveAt mainName)
        (deletion mainName (by decide)) = .ok git' ∧
      (fiveAt mainName).refs mainName = some ⟨5⟩ ∧ git'.refs mainName = none := by
  refine ⟨by decide, ?_, (fiveAt mainName).applied (deletion mainName (by decide)), ?_,
    by decide, by decide⟩
  · rintro ⟨record, role, found, holds, -⟩
    have nobody : (Database.oneRepository.repositoryAuthorization "alice" "tit"
        (some "mallory")).map (fun record => record.role) = .ok none := by decide
    rw [found] at nobody
    have same : record.role = none := Except.ok.inj nobody
    rw [holds] at same
    cases same
  · exact @movePushed_of _ _ _ _ _ _ [.delete] rfl (by decide) (by decide)

end Tit.Policy
