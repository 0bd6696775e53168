/-
# Directory.Creation -- a new repository, on the disk and in the database

`RepositoryService::create` makes the bare repository under a pending name, gives it its final name
and only then stores it; when a step fails it removes the directory again and notes the failure.
Creations run beside each other, any step may fail and the process may stop after any step.

A stored repository always has its directory, whole (`stored_has_directory`).  As long as the
process does not stop and no removal fails, no other directory is left behind
(`no_directory_left`).  The identifiers of creations on their way differ: they are 128 random bits.
-/
import Tit.Store.Access
import Tit.Store.Directory
import Tit.Theory.Run
import Mathlib.Logic.Function.Basic

namespace Tit.Creation

open Tit.Theory Tit.Store Tit.Store.Database

set_option autoImplicit false

structure RepositoryCreation where
  actor : String
  owner : String
  slug : String
  objectFormat : ObjectFormat
  correlationId : String
  createdAt : Int

/-- A directory that is to be a bare repository. -/
inductive BareRepository where
  | unfinished
  | whole (format : ObjectFormat)
  deriving DecidableEq, Repr

/-- The directory of the repositories: `.pending-ID.git` and `ID.git`. -/
structure Root where
  pending : Identifier → Option BareRepository
  final : Identifier → Option BareRepository

/-- What `create` does next; `removing true` is the directory with the final name. -/
inductive Stage where
  | entered
  | creating
  | moving
  | canonicalizing
  | storing
  | removing (final : Bool)
  | failed
  deriving DecidableEq, Repr

structure Call where
  creation : RepositoryCreation
  id : Identifier
  stage : Stage

/-- A call that has returned is `none`. -/
structure World where
  db : Database
  root : Root
  calls : List (Option Call)

/-- A failure of the file system may leave something of the directory. -/
inductive Outcome where
  | works
  | fails (leaves : Bool)

inductive Action where
  | create (creation : RepositoryCreation) (id : Identifier)
  | proceed (call : Nat) (outcome : Outcome)
  | crash
  /-- A transaction of another part of the program. -/
  | transaction (db : Database)

def Call.newRepository (call : Call) : NewRepository where
  id := call.id
  owner := call.creation.owner
  slug := call.creation.slug
  objectFormat := call.creation.objectFormat
  defaultBranch := "refs/heads/main"
  createdAt := call.creation.createdAt
  origin := .created
  initialReferences := []
  actor := call.creation.actor
  correlationId := call.creation.correlationId

def Call.failure (call : Call) : NewAuditEvent where
  action := "repository.create"
  actor := call.creation.actor
  target := call.creation.owner ++ "/" ++ call.creation.slug
  outcome := .failure
  correlationId := call.creation.correlationId
  createdAt := call.creation.createdAt

def Root.setPending (root : Root) (id : Identifier) (found : Option BareRepository) : Root :=
  { root with pending := Function.update root.pending id found }

def Root.setFinal (root : Root) (id : Identifier) (found : Option BareRepository) : Root :=
  { root with final := Function.update root.final id found }

/-- `remove_created_repository`. -/
def Root.remove (root : Root) (id : Identifier) (final : Bool) : Outcome → Root
  | .works => if final then root.setFinal id none else root.setPending id none
  | .fails leaves =>
      -- a part of the directory may be gone
      if leaves then
        if final then root.setFinal id ((root.final id).map fun _ => .unfinished)
        else root.setPending id ((root.pending id).map fun _ => .unfinished)
      else root

namespace World

def withCall (w : World) (i : Nat) (call : Call) (stage : Stage) : World :=
  { w with calls := w.calls.set i (some { call with stage }) }

def ended (w : World) (i : Nat) : World := { w with calls := w.calls.set i none }

/-- The next step of `create_inner`, or of `create` after it has failed. -/
def proceed (w : World) (i : Nat) (call : Call) (outcome : Outcome) : World :=
  match call.stage, outcome with
  | .entered, .fails _ => w.withCall i call .failed
  | .entered, .works =>
      if (w.root.pending call.id).isSome || (w.root.final call.id).isSome then
        w.withCall i call .failed
      else w.withCall i call .creating
  | .creating, .works =>
      let root := w.root.setPending call.id (some (.whole call.creation.objectFormat))
      { w with root }.withCall i call .moving
  | .creating, .fails leaves =>
      let root := w.root.setPending call.id (if leaves then some .unfinished else none)
      { w with root }.withCall i call (.removing false)
  | .moving, .works =>
      let root := (w.root.setFinal call.id (w.root.pending call.id)).setPending call.id none
      { w with root }.withCall i call .canonicalizing
  | .moving, .fails _ => w.withCall i call (.removing false)
  | .canonicalizing, .works => w.withCall i call .storing
  | .canonicalizing, .fails _ => w.withCall i call (.removing true)
  | .storing, .works =>
      match w.db.createRepository call.newRepository with
      | .ok db => { w with db }.ended i
      | .error _ => w.withCall i call (.removing true)
  | .storing, .fails _ => w.withCall i call (.removing true)
  | .removing final, outcome =>
      { w with root := w.root.remove call.id final outcome }.withCall i call .failed
  | .failed, _ =>
      { w with db := committed w.db (w.db.insertAuditEvent call.failure) }.ended i

end World

/-- No other transaction stores a repository or removes one, or changes its object format. -/
def KeepsRepositories (db db' : Database) : Prop :=
  (∀ r ∈ db.repositories.rows, ∃ r' ∈ db'.repositories.rows,
    r'.id = r.id ∧ r'.objectFormat = r.objectFormat) ∧
  ∀ r' ∈ db'.repositories.rows, ∃ r ∈ db.repositories.rows,
    r.id = r'.id ∧ r.objectFormat = r'.objectFormat

instance (db db' : Database) : Decidable (KeepsRepositories db db') :=
  inferInstanceAs (Decidable (_ ∧ _))

/-- The identifier is not that of a call on its way. -/
def World.Fresh (w : World) (id : Identifier) : Prop :=
  ∀ call : Call, some call ∈ w.calls → call.id ≠ id

instance (w : World) (id : Identifier) : Decidable (w.Fresh id) :=
  decidable_of_iff
      (∀ slot ∈ w.calls, slot.all (fun call : Call => decide (call.id ≠ id)) = true) <| by
    constructor
    · intro all call member
      exact of_decide_eq_true (all _ member)
    · rintro fresh (_ | call) member
      · rfl
      · exact decide_eq_true (fresh call member)

def step (w : World) : Action → Option World
  | .create creation id =>
      if validateUsername creation.owner && validateSlug creation.slug then
        if w.Fresh id then some { w with calls := w.calls ++ [some ⟨creation, id, .entered⟩] }
        else none
      else some w
  | .proceed i outcome =>
      match w.calls[i]? with
      | some (some call) => some (w.proceed i call outcome)
      | _ => none
  | .crash => some { w with calls := w.calls.map fun _ => none }
  | .transaction db => if KeepsRepositories w.db db then some { w with db } else none

/-! ## What holds in every state -/

/-- No repository is stored under the identifier. -/
def Unstored (db : Database) (id : Identifier) : Prop := ∀ r ∈ db.repositories, r.id ≠ id

/-- What a call on its way knows of its directories. -/
def Call.Fits (db : Database) (root : Root) (call : Call) : Prop :=
  match call.stage with
  | .entered | .failed => True
  | .creating => Unstored db call.id ∧ root.pending call.id = none ∧ root.final call.id = none
  | .moving => Unstored db call.id ∧
      root.pending call.id = some (.whole call.creation.objectFormat) ∧ root.final call.id = none
  | .canonicalizing | .storing => Unstored db call.id ∧ root.pending call.id = none ∧
      root.final call.id = some (.whole call.creation.objectFormat)
  | .removing final => Unstored db call.id ∧
      if final then root.pending call.id = none else root.final call.id = none

structure Inv (w : World) : Prop where
  stored : ∀ r ∈ w.db.repositories, w.root.final r.id = some (.whole r.objectFormat)
  fits : ∀ call : Call, some call ∈ w.calls → call.Fits w.db w.root
  apart : ∀ (i j : Nat) (call call' : Call), w.calls[i]? = some (some call) →
    w.calls[j]? = some (some call') → call.id = call'.id → i = j

section Steps

variable {w w' : World} {i : Nat} {call other : Call} {db' : Database} {root' : Root}
  {stage : Stage} {id : Identifier} {found : Option BareRepository}

theorem Call.Fits.frame (fits : other.Fits w.db w.root)
    (unstored : Unstored w.db other.id → Unstored db' other.id)
    (pending : root'.pending other.id = w.root.pending other.id)
    (final : root'.final other.id = w.root.final other.id) : other.Fits db' root' := by
  unfold Call.Fits at fits ⊢
  cases stage : other.stage with
  | entered => trivial
  | failed => trivial
  | creating =>
      rw [stage] at fits
      exact ⟨unstored fits.1, pending.trans fits.2.1, final.trans fits.2.2⟩
  | moving =>
      rw [stage] at fits
      exact ⟨unstored fits.1, pending.trans fits.2.1, final.trans fits.2.2⟩
  | canonicalizing =>
      rw [stage] at fits
      exact ⟨unstored fits.1, pending.trans fits.2.1, final.trans fits.2.2⟩
  | storing =>
      rw [stage] at fits
      exact ⟨unstored fits.1, pending.trans fits.2.1, final.trans fits.2.2⟩
  | removing last =>
      rw [stage] at fits
      cases last with
      | true => exact ⟨unstored fits.1, pending.trans fits.2⟩
      | false => exact ⟨unstored fits.1, final.trans fits.2⟩

/-- A step of one call: it changes nothing of the others. -/
structure OnlyOf (id : Identifier) (db db' : Database) (root root' : Root) : Prop where
  pending : ∀ other, other ≠ id → root'.pending other = root.pending other
  final : ∀ other, other ≠ id → root'.final other = root.final other
  unstored : ∀ other, other ≠ id → Unstored db other → Unstored db' other

theorem Inv.put (inv : Inv w) (there : w.calls[i]? = some (some call))
    (only : OnlyOf call.id w.db db' w.root root')
    (stored : ∀ r ∈ db'.repositories, root'.final r.id = some (.whole r.objectFormat))
    {slot : Option Call} (same : ∀ next, slot = some next → next.id = call.id)
    (fits : ∀ next, slot = some next → next.Fits db' root') :
    Inv ⟨db', root', w.calls.set i slot⟩ where
  stored := stored
  fits := by
    intro other member
    obtain ⟨j, found⟩ := List.mem_iff_getElem?.mp member
    rw [List.getElem?_set] at found
    split at found
    · split at found
      · exact fits other (Option.some.inj found)
      · cases found
    · rename_i away
      have mine := inv.fits other (List.mem_of_getElem? found)
      have different : other.id ≠ call.id := fun equal =>
        away (inv.apart i j call other there found equal.symm)
      exact mine.frame (only.unstored _ different) (only.pending _ different)
        (only.final _ different)
  apart := by
    have back : ∀ (j : Nat) (other : Call), (w.calls.set i slot)[j]? = some (some other) →
        ∃ before : Call, w.calls[j]? = some (some before) ∧ before.id = other.id := by
      intro j other found
      rw [List.getElem?_set] at found
      split at found
      · rename_i here
        split at found
        · subst here
          exact ⟨call, there, (same other (Option.some.inj found)).symm⟩
        · cases found
      · exact ⟨other, found, rfl⟩
    intro j k first second found found' equal
    obtain ⟨before, old, one⟩ := back j first found
    obtain ⟨before', old', two⟩ := back k second found'
    exact inv.apart j k before before' old old' (one.trans (equal.trans two.symm))

theorem onlyOf_setPending : OnlyOf id w.db w.db w.root (w.root.setPending id found) where
  pending := fun _ other => Function.update_of_ne other _ _
  final := fun _ _ => rfl
  unstored := fun _ _ unstored => unstored

theorem onlyOf_setFinal : OnlyOf id w.db w.db w.root (w.root.setFinal id found) where
  pending := fun _ _ => rfl
  final := fun _ other => Function.update_of_ne other _ _
  unstored := fun _ _ unstored => unstored

/-- What is done under an identifier that is not stored leaves the stored directories alone. -/
theorem Inv.stored_setFinal (inv : Inv w) (unstored : Unstored w.db id) :
    ∀ r ∈ w.db.repositories,
      (w.root.setFinal id found).final r.id = some (.whole r.objectFormat) := by
  intro r member
  exact (Function.update_of_ne (unstored r member) _ _).trans (inv.stored r member)

theorem Inv.withCall (inv : Inv w) (there : w.calls[i]? = some (some call))
    (fits : ({ call with stage } : Call).Fits w.db w.root) : Inv (w.withCall i call stage) :=
  inv.put there ⟨fun _ _ => rfl, fun _ _ => rfl, fun _ _ unstored => unstored⟩ inv.stored
    (by rintro _ ⟨⟩; rfl) (by rintro _ ⟨⟩; exact fits)

/-- The transaction stores one more repository, under the identifier. -/
theorem createRepository_stored
    (ok : w.db.createRepository call.newRepository = .ok db') :
    ∃ row : Repository, row.id = call.id ∧ row.objectFormat = call.creation.objectFormat ∧
      ∀ r, r ∈ db'.repositories ↔ r ∈ w.db.repositories ∨ r = row := by
  simp only [createRepository, bind_eq_ok, uniqueAs_eq_ok] at ok
  obtain ⟨ownerId, -, _, -, repositories, inserted, branches, -, db₁, event, db₂, references,
    audit⟩ := ok
  obtain ⟨events, -, rfl⟩ := insertDomainEvent_eq_ok.mp event
  cases references
  obtain ⟨audits, -, rfl⟩ := insertAuditEvent_eq_ok.mp audit
  exact ⟨_, rfl, rfl, fun r => Table.mem_insert inserted⟩

theorem failure_repositories :
    (committed w.db (w.db.insertAuditEvent call.failure)).repositories = w.db.repositories := by
  cases noted : w.db.insertAuditEvent call.failure with
  | error error => rfl
  | ok db =>
      obtain ⟨audits, -, rfl⟩ := insertAuditEvent_eq_ok.mp noted
      rfl

theorem Inv.begin (inv : Inv w) {creation : RepositoryCreation} (fresh : w.Fresh id) :
    Inv { w with calls := w.calls ++ [some ⟨creation, id, .entered⟩] } where
  stored := inv.stored
  fits := by
    intro call member
    rcases List.mem_append.mp member with old | new
    · exact inv.fits call old
    · cases List.mem_singleton.mp new
      trivial
  apart := by
    have old : ∀ (j : Nat) (call : Call), j < w.calls.length →
        (w.calls ++ [some ⟨creation, id, .entered⟩])[j]? = some (some call) →
        w.calls[j]? = some (some call) := by
      intro j call before found
      rwa [List.getElem?_append_left before] at found
    have last : ∀ (j : Nat) (call : Call), ¬ j < w.calls.length →
        (w.calls ++ [some ⟨creation, id, .entered⟩])[j]? = some (some call) →
        call.id = id ∧ j = w.calls.length := by
      intro j call after found
      have bound := (List.getElem?_eq_some_iff.mp found).1
      rw [List.length_append, List.length_singleton] at bound
      have here : j = w.calls.length := by omega
      subst here
      simp at found
      exact ⟨by rw [← found], rfl⟩
    intro j k first second found found' equal
    by_cases before : j < w.calls.length
    · by_cases before' : k < w.calls.length
      · exact inv.apart j k first second (old j first before found)
          (old k second before' found') equal
      · have mine := List.mem_of_getElem? (old j first before found)
        exact absurd (equal.trans (last k second before' found').1) (fresh first mine)
    · by_cases before' : k < w.calls.length
      · have mine := List.mem_of_getElem? (old k second before' found')
        exact absurd (equal.symm.trans (last j first before found).1) (fresh second mine)
      · exact (last j first before found).2.trans (last k second before' found').2.symm

theorem Inv.proceed (inv : Inv w) (there : w.calls[i]? = some (some call)) (outcome : Outcome) :
    Inv (w.proceed i call outcome) := by
  have mine := inv.fits call (List.mem_of_getElem? there)
  unfold Call.Fits at mine
  unfold World.proceed
  cases stage : call.stage with
  | entered =>
      cases outcome with
      | works =>
          dsimp only
          split
          · exact inv.withCall there trivial
          · rename_i vacant
            simp only [Bool.or_eq_true, not_or, Option.not_isSome_iff_eq_none] at vacant
            refine inv.withCall there ⟨?_, vacant.1, vacant.2⟩
            intro r member same
            have whole := inv.stored r member
            rw [same, vacant.2] at whole
            cases whole
      | fails leaves => exact inv.withCall there trivial
  | creating =>
      rw [stage] at mine
      obtain ⟨unstored, free, free'⟩ := mine
      cases outcome with
      | works =>
          exact inv.put there onlyOf_setPending inv.stored (by rintro _ ⟨⟩; rfl)
            (by rintro _ ⟨⟩; exact ⟨unstored, Function.update_self .., free'⟩)
      | fails leaves =>
          exact inv.put there onlyOf_setPending inv.stored (by rintro _ ⟨⟩; rfl)
            (by rintro _ ⟨⟩; exact ⟨unstored, free'⟩)
  | moving =>
      rw [stage] at mine
      obtain ⟨unstored, made, free⟩ := mine
      cases outcome with
      | works =>
          have only : OnlyOf call.id w.db w.db w.root
              ((w.root.setFinal call.id (w.root.pending call.id)).setPending call.id none) :=
            ⟨fun _ other => Function.update_of_ne other _ _,
              fun _ other => Function.update_of_ne other _ _, fun _ _ same => same⟩
          apply inv.put there only (inv.stored_setFinal unstored)
          · rintro _ ⟨⟩
            rfl
          · rintro _ ⟨⟩
            exact ⟨unstored, Function.update_self .., (Function.update_self ..).trans made⟩
      | fails leaves => exact inv.withCall there ⟨unstored, free⟩
  | canonicalizing =>
      rw [stage] at mine
      obtain ⟨unstored, free, made⟩ := mine
      cases outcome with
      | works => exact inv.withCall there ⟨unstored, free, made⟩
      | fails leaves => exact inv.withCall there ⟨unstored, free⟩
  | storing =>
      rw [stage] at mine
      obtain ⟨unstored, free, made⟩ := mine
      cases outcome with
      | works =>
          dsimp only
          split
          · rename_i db' created
            obtain ⟨row, same, format, rows⟩ := createRepository_stored created
            refine inv.put there ⟨fun _ _ => rfl, fun _ _ => rfl, ?_⟩ ?_ (by rintro _ ⟨⟩)
              (by rintro _ ⟨⟩)
            · intro other different unstored' r member
              rcases (rows r).mp member with old | rfl
              · exact unstored' r old
              · exact fun equal => different (equal.symm.trans same)
            · intro r member
              rcases (rows r).mp member with old | rfl
              · exact inv.stored r old
              · rw [same, format]
                exact made
          · exact inv.withCall there ⟨unstored, free⟩
      | fails leaves => exact inv.withCall there ⟨unstored, free⟩
  | removing final =>
      rw [stage] at mine
      obtain ⟨unstored, -⟩ := mine
      have only : OnlyOf call.id w.db w.db w.root (w.root.remove call.id final outcome) ∧
          ∀ r ∈ w.db.repositories, (w.root.remove call.id final outcome).final r.id =
            some (.whole r.objectFormat) := by
        unfold Root.remove
        cases outcome with
        | works =>
            cases final with
            | true => exact ⟨onlyOf_setFinal, inv.stored_setFinal unstored⟩
            | false => exact ⟨onlyOf_setPending, inv.stored⟩
        | fails leaves =>
            cases leaves with
            | true =>
                cases final with
                | true => exact ⟨onlyOf_setFinal, inv.stored_setFinal unstored⟩
                | false => exact ⟨onlyOf_setPending, inv.stored⟩
            | false =>
                exact ⟨⟨fun _ _ => rfl, fun _ _ => rfl, fun _ _ same => same⟩, inv.stored⟩
      exact inv.put there only.1 only.2 (by rintro _ ⟨⟩; rfl) (by rintro _ ⟨⟩; trivial)
  | failed =>
      refine inv.put there ⟨fun _ _ => rfl, fun _ _ => rfl, ?_⟩ ?_ (by rintro _ ⟨⟩)
        (by rintro _ ⟨⟩)
      · intro other _ unstored r member
        rw [failure_repositories] at member
        exact unstored r member
      · intro r member
        rw [failure_repositories] at member
        exact inv.stored r member

theorem step_inv {action : Action} (inv : Inv w) (next : step w action = some w') : Inv w' := by
  cases action with
  | create creation id =>
      simp only [step] at next
      split at next
      · split at next
        · rename_i fresh
          cases next
          exact inv.begin fresh
        · cases next
      · cases next
        exact inv
  | proceed i outcome =>
      simp only [step] at next
      split at next
      · rename_i call there
        cases next
        exact inv.proceed there outcome
      · cases next
  | crash =>
      cases next
      have gone : ∀ call : Call, some call ∉ w.calls.map fun _ => none := by simp
      exact ⟨inv.stored, fun call member => absurd member (gone call),
        fun i j call _ here => absurd (List.mem_of_getElem? here) (gone call)⟩
  | transaction db =>
      simp only [step] at next
      split at next
      · rename_i keeps
        cases next
        have unstored : ∀ id, Unstored w.db id → Unstored db id := by
          intro id unstored r member same
          obtain ⟨old, before, equal, -⟩ := keeps.2 r member
          exact unstored old before (equal.trans same)
        refine ⟨?_, fun call member => (inv.fits call member).frame (unstored _) rfl rfl,
          inv.apart⟩
        intro r member
        obtain ⟨old, before, same, format⟩ := keeps.2 r member
        rw [← same, ← format]
        exact inv.stored old before
      · cases next

end Steps

/-- A database and its directories, with no creation on its way. -/
structure Settled (w : World) : Prop where
  stored : ∀ r ∈ w.db.repositories, w.root.final r.id = some (.whole r.objectFormat)
  idle : ∀ call : Call, some call ∉ w.calls

theorem Settled.inv {w : World} (settled : Settled w) : Inv w where
  stored := settled.stored
  fits := fun call member => absurd member (settled.idle call)
  apart := fun _ _ call _ here => absurd (List.mem_of_getElem? here) (settled.idle call)

/-- A stored repository has its directory, whole and of its object format, after every step of
every run: also when steps fail and the process stops between any two. -/
theorem stored_has_directory {w : World} (settled : Settled w) (actions : List Action) :
    Always step (fun w => ∀ r ∈ w.db.repositories,
      w.root.final r.id = some (.whole r.objectFormat)) w actions :=
  Always.mono (fun _ inv => inv.stored)
    (always_of_steps (fun _ _ _ inv next => step_inv inv next) settled.inv actions)

def oneDirectory : World where
  db := Database.oneRepository
  root := ⟨fun _ => none, fun id => if id = 1 then some (.whole .sha1) else none⟩
  calls := []

theorem oneDirectory_settled : Settled oneDirectory where
  stored := by
    intro r member
    cases List.mem_singleton.mp member
    rfl
  idle := fun _ => List.not_mem_nil

def nextRepository : RepositoryCreation where
  actor := "alice"
  owner := "alice"
  slug := "next"
  objectFormat := .sha256
  correlationId := "c"
  createdAt := 5

/-- Two creations of one name beside each other: the second is refused and cleans up. -/
def createdTwice : List Action :=
  [.create nextRepository 2, .create nextRepository 3] ++ List.replicate 5 (.proceed 0 .works) ++
    List.replicate 7 (.proceed 1 .works)

theorem stored_has_directory_createdTwice :
    ((run step oneDirectory createdTwice).map fun w =>
      (w.db.repositories.rows.length, w.root.final 2, w.root.final 3)) =
        some (2, some (.whole .sha256), none) ∧
    Always step (fun w => ∀ r ∈ w.db.repositories,
      w.root.final r.id = some (.whole r.objectFormat)) oneDirectory createdTwice :=
  ⟨by decide +kernel, stored_has_directory oneDirectory_settled createdTwice⟩

/-! ## What is left behind -/

/-- The process goes on, and a directory that is to be removed is removed. -/
def Cleans (w : World) : Action → Prop
  | .crash => False
  | .proceed i (.fails _) =>
      ∀ (call : Call) (final : Bool), w.calls[i]? = some (some call) →
        call.stage ≠ .removing final
  | _ => True

/-- The creation on its way that a directory with the pending name belongs to. -/
def Stage.HoldsPending (stage : Stage) : Prop := stage = .moving ∨ stage = .removing false

def Stage.HoldsFinal (stage : Stage) : Prop :=
  stage = .canonicalizing ∨ stage = .storing ∨ stage = .removing true

/-- Every directory is that of a stored repository or of a creation on its way. -/
structure Tidy (w : World) : Prop where
  pending : ∀ id, w.root.pending id ≠ none →
    ∃ call : Call, some call ∈ w.calls ∧ call.id = id ∧ call.stage.HoldsPending
  final : ∀ id, w.root.final id ≠ none → Unstored w.db id →
    ∃ call : Call, some call ∈ w.calls ∧ call.id = id ∧ call.stage.HoldsFinal

section Left

variable {w w' : World} {i : Nat} {call : Call} {db' : Database} {root' : Root} {stage : Stage}

/-- The directories of other identifiers keep their creations. -/
theorem kept_of_other {slot : Option Call} {other : Call} (there : w.calls[i]? = some (some call))
    (member : some other ∈ w.calls) (different : other.id ≠ call.id) :
    some other ∈ w.calls.set i slot := by
  obtain ⟨j, found⟩ := List.mem_iff_getElem?.mp member
  have away : i ≠ j := by
    rintro rfl
    cases there.symm.trans found
    exact different rfl
  apply List.mem_iff_getElem?.mpr
  exact ⟨j, (List.getElem?_set_ne away).trans found⟩

theorem Tidy.put (tidy : Tidy w) (there : w.calls[i]? = some (some call))
    (only : OnlyOf call.id w.db db' w.root root')
    (back : ∀ id, Unstored db' id → Unstored w.db id) {slot : Option Call}
    (pending : root'.pending call.id ≠ none →
      ∃ next, slot = some next ∧ next.id = call.id ∧ next.stage.HoldsPending)
    (final : root'.final call.id ≠ none → Unstored db' call.id →
      ∃ next, slot = some next ∧ next.id = call.id ∧ next.stage.HoldsFinal) :
    Tidy ⟨db', root', w.calls.set i slot⟩ where
  pending := by
    intro id held
    by_cases same : id = call.id
    · subst same
      obtain ⟨next, rfl, same, holds⟩ := pending held
      exact ⟨next, List.mem_set (List.getElem?_eq_some_iff.mp there).1 _, same, holds⟩
    · have held' : w.root.pending id ≠ none := only.pending id same ▸ held
      obtain ⟨other, member, rfl, holds⟩ := tidy.pending id held'
      exact ⟨other, kept_of_other there member same, rfl, holds⟩
  final := by
    intro id held unstored
    by_cases same : id = call.id
    · subst same
      obtain ⟨next, rfl, same, holds⟩ := final held unstored
      exact ⟨next, List.mem_set (List.getElem?_eq_some_iff.mp there).1 _, same, holds⟩
    · have held' : w.root.final id ≠ none := only.final id same ▸ held
      obtain ⟨other, member, rfl, holds⟩ := tidy.final id held' (back id unstored)
      exact ⟨other, kept_of_other there member same, rfl, holds⟩

theorem Tidy.own_pending (tidy : Tidy w) (inv : Inv w) (there : w.calls[i]? = some (some call))
    (held : w.root.pending call.id ≠ none) : call.stage.HoldsPending := by
  obtain ⟨other, member, same, holds⟩ := tidy.pending call.id held
  obtain ⟨j, found⟩ := List.mem_iff_getElem?.mp member
  cases inv.apart j i other call found there same
  cases found.symm.trans there
  exact holds

theorem Tidy.own_final (tidy : Tidy w) (inv : Inv w) (there : w.calls[i]? = some (some call))
    (held : w.root.final call.id ≠ none) (unstored : Unstored w.db call.id) :
    call.stage.HoldsFinal := by
  obtain ⟨other, member, same, holds⟩ := tidy.final call.id held unstored
  obtain ⟨j, found⟩ := List.mem_iff_getElem?.mp member
  cases inv.apart j i other call found there same
  cases found.symm.trans there
  exact holds

theorem Tidy.withCall (tidy : Tidy w) (there : w.calls[i]? = some (some call))
    (pending : w.root.pending call.id ≠ none → stage.HoldsPending)
    (final : w.root.final call.id ≠ none → Unstored w.db call.id → stage.HoldsFinal) :
    Tidy (w.withCall i call stage) :=
  tidy.put there ⟨fun _ _ => rfl, fun _ _ => rfl, fun _ _ unstored => unstored⟩
    (fun _ unstored => unstored) (fun held => ⟨_, rfl, rfl, pending held⟩)
    (fun held unstored => ⟨_, rfl, rfl, final held unstored⟩)

theorem Tidy.proceed (tidy : Tidy w) (inv : Inv w) (there : w.calls[i]? = some (some call))
    (outcome : Outcome) (cleans : Cleans w (.proceed i outcome)) :
    Tidy (w.proceed i call outcome) := by
  have mine := inv.fits call (List.mem_of_getElem? there)
  have pendingOwn := tidy.own_pending inv there
  have finalOwn := tidy.own_final inv there
  unfold Call.Fits at mine
  unfold World.proceed
  cases stage : call.stage with
  | entered =>
      rw [stage] at pendingOwn finalOwn
      simp only [Stage.HoldsPending, Stage.HoldsFinal, reduceCtorEq, or_false, imp_false]
        at pendingOwn finalOwn
      cases outcome with
      | works =>
          dsimp only
          split
          · exact tidy.withCall there (fun held => absurd held pendingOwn)
              (fun held unstored => absurd unstored (finalOwn held))
          · exact tidy.withCall there (fun held => absurd held pendingOwn)
              (fun held unstored => absurd unstored (finalOwn held))
      | fails leaves =>
          exact tidy.withCall there (fun held => absurd held pendingOwn)
            (fun held unstored => absurd unstored (finalOwn held))
  | creating =>
      rw [stage] at mine
      obtain ⟨unstored, -, free⟩ := mine
      cases outcome with
      | works =>
          exact tidy.put there onlyOf_setPending (fun _ unstored => unstored)
            (fun _ => ⟨_, rfl, rfl, .inl rfl⟩) (fun held => absurd free held)
      | fails leaves =>
          exact tidy.put there onlyOf_setPending (fun _ unstored => unstored)
            (fun _ => ⟨_, rfl, rfl, .inr rfl⟩) (fun held => absurd free held)
  | moving =>
      rw [stage] at mine
      obtain ⟨unstored, made, free⟩ := mine
      cases outcome with
      | works =>
          have only : OnlyOf call.id w.db w.db w.root
              ((w.root.setFinal call.id (w.root.pending call.id)).setPending call.id none) :=
            ⟨fun _ other => Function.update_of_ne other _ _,
              fun _ other => Function.update_of_ne other _ _, fun _ _ same => same⟩
          exact tidy.put there only (fun _ unstored => unstored)
            (fun held => absurd (Function.update_self ..) held)
            (fun _ _ => ⟨_, rfl, rfl, .inl rfl⟩)
      | fails leaves =>
          exact tidy.withCall there (fun _ => .inr rfl) (fun held => absurd free held)
  | canonicalizing =>
      rw [stage] at mine
      obtain ⟨unstored, free, made⟩ := mine
      cases outcome with
      | works =>
          exact tidy.withCall there (fun held => absurd free held) (fun _ _ => .inr (.inl rfl))
      | fails leaves =>
          exact tidy.withCall there (fun held => absurd free held) (fun _ _ => .inr (.inr rfl))
  | storing =>
      rw [stage] at mine
      obtain ⟨unstored, free, made⟩ := mine
      cases outcome with
      | works =>
          dsimp only
          split
          · rename_i db' created
            obtain ⟨row, same, -, rows⟩ := createRepository_stored created
            have back : ∀ id, Unstored db' id → Unstored w.db id :=
              fun id unstored r member => unstored r ((rows r).mpr (.inl member))
            have only : OnlyOf call.id w.db db' w.root w.root := by
              refine ⟨fun _ _ => rfl, fun _ _ => rfl, ?_⟩
              intro other different unstored' r member
              rcases (rows r).mp member with old | rfl
              · exact unstored' r old
              · exact fun equal => different (equal.symm.trans same)
            exact tidy.put there only back (fun held => absurd free held)
              (fun _ unstored' => absurd same (unstored' row ((rows row).mpr (.inr rfl))))
          · exact tidy.withCall there (fun held => absurd free held) (fun _ _ => .inr (.inr rfl))
      | fails leaves =>
          exact tidy.withCall there (fun held => absurd free held) (fun _ _ => .inr (.inr rfl))
  | removing final =>
      rw [stage] at mine
      obtain ⟨unstored, free⟩ := mine
      cases outcome with
      | works =>
          cases final with
          | true =>
              exact tidy.put there onlyOf_setFinal (fun _ unstored => unstored)
                (fun held => absurd free held) (fun held => absurd (Function.update_self ..) held)
          | false =>
              exact tidy.put there onlyOf_setPending (fun _ unstored => unstored)
                (fun held => absurd (Function.update_self ..) held) (fun held => absurd free held)
      | fails leaves => exact absurd stage (cleans call final there)
  | failed =>
      rw [stage] at pendingOwn finalOwn
      simp only [Stage.HoldsPending, Stage.HoldsFinal, reduceCtorEq, or_false, imp_false]
        at pendingOwn finalOwn
      have same : ∀ id, Unstored (committed w.db (w.db.insertAuditEvent call.failure)) id ↔
          Unstored w.db id := by
        intro id
        unfold Unstored
        rw [failure_repositories]
      exact tidy.put there ⟨fun _ _ => rfl, fun _ _ => rfl, fun _ _ => (same _).mpr⟩
        (fun _ => (same _).mp) (fun held => absurd held pendingOwn)
        (fun held unstored => absurd ((same _).mp unstored) (finalOwn held))

theorem step_tidy {action : Action} (tidy : Tidy w) (inv : Inv w) (cleans : Cleans w action)
    (next : step w action = some w') : Tidy w' := by
  cases action with
  | create creation id =>
      simp only [step] at next
      split at next
      · split at next
        · cases next
          constructor
          · intro other held
            obtain ⟨call, member, rest⟩ := tidy.pending other held
            exact ⟨call, List.mem_append_left _ member, rest⟩
          · intro other held unstored
            obtain ⟨call, member, rest⟩ := tidy.final other held unstored
            exact ⟨call, List.mem_append_left _ member, rest⟩
        · cases next
      · cases next
        exact tidy
  | proceed i outcome =>
      simp only [step] at next
      split at next
      · rename_i call there
        cases next
        exact tidy.proceed inv there outcome cleans
      · cases next
  | crash => exact cleans.elim
  | transaction db =>
      simp only [step] at next
      split at next
      · rename_i keeps
        cases next
        refine ⟨tidy.pending, fun id held unstored => tidy.final id held ?_⟩
        intro r member same
        obtain ⟨now, after, equal, -⟩ := keeps.1 r member
        exact unstored now after (equal.trans same)
      · cases next

end Left

/-- When the process goes on and every removal works, no step of no run leaves a directory that
belongs neither to a stored repository nor to a creation on its way. -/
theorem no_directory_left {w : World} (settled : Settled w)
    (pending : ∀ id, w.root.pending id = none)
    (final : ∀ id, w.root.final id ≠ none → ¬ Unstored w.db id) {actions : List Action}
    (cleans : Meets step Cleans w actions) : Always step Tidy w actions := by
  have tidy : Tidy w := ⟨fun id held => absurd (pending id) held,
    fun id held unstored => absurd unstored (final id held)⟩
  have both : Always step (fun w => Inv w ∧ Tidy w) w actions := by
    apply always_of_meets _ ⟨settled.inv, tidy⟩ cleans
    intro w action w' inv guard next
    exact ⟨step_inv inv.1 next, step_tidy inv.2 inv.1 guard next⟩
  exact Always.mono (fun _ inv => inv.2) both

theorem no_directory_left_createdTwice : Always step Tidy oneDirectory createdTwice := by
  apply no_directory_left oneDirectory_settled
  · intro id
    rfl
  · intro id held unstored
    have here : id = 1 := by
      by_contra away
      exact held (if_neg away)
    exact unstored _ (List.mem_singleton.mpr rfl) here.symm
  · simp [createdTwice, Meets, Cleans]

end Tit.Creation
