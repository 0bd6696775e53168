/-
# Git.Disk -- the two places that a push or a merge writes to

The database and the repositories, and the writes that a push makes outside of the
store: it renames its pack into the repository, unless a pack of that name is there
already, and it moves its references.  `SameRefs` says that two disks differ at most in
their database and their packs.
-/
import Tit.Git.Intents

namespace Tit.Git

open Tit.Theory Tit.Store Tit.Store.Database

set_option autoImplicit false

inductive ReceivePackError where
  | staleRef
  | repository
  | refTransaction
  | recoveryData
  | mixedRecovery (id : Identifier)
  | store (error : StoreError)
  | failed
  deriving DecidableEq, Repr

structure Disk where
  db : Database
  git : RepositoryPath → Option GitRepository

namespace Disk

/-- A transaction of the store. -/
def inStore (disk : Disk) (result : Except StoreError Database) :
    Disk × Option ReceivePackError :=
  match result with
  | .ok db => ({ disk with db }, none)
  | .error error => (disk, some (.store error))

def setGit (disk : Disk) (path : RepositoryPath) (git : GitRepository) : Disk :=
  { disk with git := Function.update disk.git path (some git) }

/-- The end of `index_and_validate_pack`: the pack that was renamed into place. -/
def place (disk : Disk) (path : RepositoryPath) (pack : Option PackName) :
    Disk × Option PackName :=
  match disk.git path, pack with
  | some git, some p =>
      if p ∈ git.packs then (disk, none)
      else (disk.setGit path { git with packs := p :: git.packs }, some p)
  | _, _ => (disk, none)

/-- `apply_ref_transaction` in a repository that opens. -/
def moveRefs (disk : Disk) (path : RepositoryPath) (commands : Commands) : Option Disk :=
  (disk.git path).bind fun git =>
    (git.applyRefTransaction commands).map fun git => disk.setGit path git

def removePack (disk : Disk) (path : RepositoryPath) (packName : Option PackName) : Disk :=
  { disk with
    git := fun p =>
      if p = path then (disk.git p).map (·.removePromotedPack packName) else disk.git p }

theorem inStore_ok {disk : Disk} {result : Except StoreError Database} {db : Database}
    (ok : result = .ok db) : disk.inStore result = ({ disk with db }, none) := by
  rw [ok]
  rfl

theorem inStore_error {disk : Disk} {result : Except StoreError Database} {error : StoreError}
    (failed : result = .error error) : disk.inStore result = (disk, some (.store error)) := by
  rw [failed]
  rfl

@[simp] theorem setGit_db (disk : Disk) (path : RepositoryPath) (git : GitRepository) :
    (disk.setGit path git).db = disk.db := rfl

@[simp] theorem setGit_same (disk : Disk) (path : RepositoryPath) (git : GitRepository) :
    (disk.setGit path git).git path = some git := Function.update_self ..

theorem setGit_other {disk : Disk} {path path' : RepositoryPath} (git : GitRepository)
    (other : path' ≠ path) : (disk.setGit path git).git path' = disk.git path' :=
  Function.update_of_ne other ..

/-! ## Disks with the same references -/

structure SameRefs (disk disk' : Disk) : Prop where
  refs : ∀ path, (disk'.git path).map (·.refs) = (disk.git path).map (·.refs)
  loose : ∀ path, (disk'.git path).map (·.loose) = (disk.git path).map (·.loose)

theorem SameRefs.refl (disk : Disk) : SameRefs disk disk := ⟨fun _ => rfl, fun _ => rfl⟩

theorem SameRefs.trans {disk disk' disk'' : Disk} (first : SameRefs disk disk')
    (second : SameRefs disk' disk'') : SameRefs disk disk'' :=
  ⟨fun path => (second.refs path).trans (first.refs path),
    fun path => (second.loose path).trans (first.loose path)⟩

theorem SameRefs.withDb {disk disk' : Disk} (same : SameRefs disk disk') (db : Database) :
    SameRefs disk { disk' with db } := ⟨same.refs, same.loose⟩

/-- The repository of one disk in the other. -/
theorem SameRefs.forth {disk disk' : Disk} (same : SameRefs disk disk') {path : RepositoryPath}
    {git : GitRepository} (found : disk.git path = some git) :
    ∃ git', disk'.git path = some git' ∧ git'.refs = git.refs ∧ git'.loose = git.loose := by
  have refs := same.refs path
  have loose := same.loose path
  rw [found, Option.map_some] at refs loose
  obtain ⟨git', after, equal⟩ := Option.map_eq_some_iff.mp refs
  rw [after, Option.map_some, Option.some.injEq] at loose
  exact ⟨git', after, equal, loose⟩

theorem SameRefs.back {disk disk' : Disk} (same : SameRefs disk disk') {path : RepositoryPath}
    {git' : GitRepository} (found : disk'.git path = some git') :
    ∃ git, disk.git path = some git ∧ git'.refs = git.refs ∧ git'.loose = git.loose := by
  have refs := same.refs path
  rw [found, Option.map_some] at refs
  obtain ⟨git, before, -⟩ := Option.map_eq_some_iff.mp refs.symm
  obtain ⟨git'', after, equal⟩ := same.forth before
  rw [found, Option.some.injEq] at after
  exact ⟨git, before, after ▸ equal⟩

theorem SameRefs.closed {disk disk' : Disk} (same : SameRefs disk disk') {path : RepositoryPath}
    (missing : disk.git path = none) : disk'.git path = none := by
  have refs := same.refs path
  rwa [missing, Option.map_none, Option.map_eq_none_iff] at refs

theorem removePack_sameRefs (disk : Disk) (path : RepositoryPath) (packName : Option PackName) :
    SameRefs disk (disk.removePack path packName) := by
  refine ⟨fun p => ?_, fun p => ?_⟩
  all_goals
    unfold removePack
    dsimp only
    split
    · cases disk.git p with
      | none => rfl
      | some git => simp
    · rfl

theorem removePack_packs {disk : Disk} {path : RepositoryPath} {packName : Option PackName}
    {path' : RepositoryPath} {git' : GitRepository}
    (found : (disk.removePack path packName).git path' = some git') :
    ∃ git, disk.git path' = some git ∧
      ∀ p, p ∈ git'.packs ↔ p ∈ git.packs ∧ ¬(path = path' ∧ packName = some p) := by
  unfold removePack at found
  dsimp only at found
  split at found
  · rename_i here
    obtain ⟨git, before, rfl⟩ := Option.map_eq_some_iff.mp found
    refine ⟨git, before, fun p => ?_⟩
    rw [GitRepository.mem_removePromotedPack]
    refine and_congr_right fun _ => not_congr ?_
    exact ⟨fun named => ⟨here.symm, named⟩, And.right⟩
  · rename_i elsewhere
    refine ⟨git', found, fun p => (and_iff_left ?_).symm⟩
    rintro ⟨here, -⟩
    exact elsewhere here.symm

/-- The pack is placed when there is none of its name. -/
theorem place_cases (disk : Disk) (path : RepositoryPath) (pack : Option PackName) :
    disk.place path pack = (disk, none) ∨
      ∃ git p, disk.git path = some git ∧ pack = some p ∧ p ∉ git.packs ∧
        disk.place path pack = (disk.setGit path { git with packs := p :: git.packs }, some p) := by
  unfold place
  split
  · rename_i git p found
    split
    · exact Or.inl rfl
    · exact Or.inr ⟨git, p, found, rfl, ‹_›, rfl⟩
  · exact Or.inl rfl

@[simp] theorem place_db (disk : Disk) (path : RepositoryPath) (pack : Option PackName) :
    (disk.place path pack).1.db = disk.db := by
  rcases disk.place_cases path pack with same | ⟨git, p, -, -, -, placed⟩
  · rw [same]
  · rw [placed]
    rfl

theorem place_sameRefs (disk : Disk) (path : RepositoryPath) (pack : Option PackName) :
    SameRefs disk (disk.place path pack).1 := by
  rcases disk.place_cases path pack with same | ⟨git, p, found, -, -, placed⟩
  · rw [same]
    exact SameRefs.refl disk
  · rw [placed]
    refine ⟨fun path' => ?_, fun path' => ?_⟩
    all_goals
      by_cases here : path' = path
      · rw [here, setGit_same, found]
        rfl
      · rw [setGit_other _ here]

/-- The packs after a placement. -/
theorem place_packs {disk : Disk} {path : RepositoryPath} {pack : Option PackName}
    {path' : RepositoryPath} {git' : GitRepository}
    (found : (disk.place path pack).1.git path' = some git') :
    ∃ git, disk.git path' = some git ∧ ∀ p, p ∈ git'.packs ↔
      p ∈ git.packs ∨ (path' = path ∧ (disk.place path pack).2 = some p) := by
  rcases disk.place_cases path pack with same | ⟨git, q, before, -, -, placed⟩
  · rw [same] at found ⊢
    exact ⟨git', found, fun p => by simp⟩
  · rw [placed] at found ⊢
    by_cases here : path' = path
    · rw [here, setGit_same, Option.some.injEq] at found
      subst found
      refine ⟨git, here ▸ before, fun p => ?_⟩
      rw [List.mem_cons, or_comm, Option.some.injEq, eq_comm]
      simp [here]
    · rw [setGit_other _ here] at found
      exact ⟨git', found, fun p => by simp [here]⟩

theorem moveRefs_eq_some {disk disk' : Disk} {path : RepositoryPath} {commands : Commands} :
    disk.moveRefs path commands = some disk' ↔
      ∃ git, disk.git path = some git ∧ git.refsMatch commands.initial = true ∧
        disk' = disk.setGit path (git.applied commands) := by
  unfold moveRefs
  simp only [Option.bind_eq_some_iff, Option.map_eq_some_iff,
    GitRepository.applyRefTransaction_eq_some]
  constructor
  · rintro ⟨git, found, git', ⟨initial, rfl⟩, rfl⟩
    exact ⟨git, found, initial, rfl⟩
  · rintro ⟨git, found, initial, rfl⟩
    exact ⟨git, found, _, ⟨initial, rfl⟩, rfl⟩

end Disk

end Tit.Git
