/-
# Git.Repository -- references, packs and reference transactions

A bare repository as the pushes and merges see it: the value of each reference, the
packs under `objects/pack` and the loose objects.  A list of commands that
`parse_commands` accepts is a `Commands`; a reference transaction compares every old
value and then sets every new one, or does nothing.
-/
import Tit.Store.GitCompletion

namespace Tit.Git

open Tit.Theory Tit.Store

set_option autoImplicit false

structure GitRepository where
  refs : RefName → Option ObjectId
  packs : List PackName
  loose : List ObjectId

structure RefCommand where
  old : ObjectId
  new : ObjectId
  name : RefName
  deriving DecidableEq, Repr

def maxCommands : Nat := 256

/-- What `parse_commands` accepts. -/
structure Commands where
  list : List RefCommand
  nonempty : list ≠ []
  count : list.length ≤ maxCommands
  changes : ∀ c ∈ list, c.old ≠ c.new
  named : ∀ c ∈ list, (isTag c.name).isSome = true
  distinct : list.Pairwise fun c d => c.name ≠ d.name

namespace Commands

/-- `serialize_refs` of the old and of the new values. -/
def initial (commands : Commands) : RefSnapshot := commands.list.map fun c => (c.name, c.old)

def proposed (commands : Commands) : RefSnapshot := commands.list.map fun c => (c.name, c.new)

theorem eq_of_name (commands : Commands) {c d : RefCommand} (hc : c ∈ commands.list)
    (hd : d ∈ commands.list) (same : c.name = d.name) : c = d := by
  have forth : commands.list.Pairwise fun a b => a ≠ b → a.name ≠ b.name := by
    refine commands.distinct.imp ?_
    intro a b apart _
    exact apart
  have back : commands.list.Pairwise fun a b => b ≠ a → b.name ≠ a.name := by
    refine commands.distinct.imp ?_
    intro a b apart _
    exact apart.symm
  by_contra different
  exact List.Pairwise.forall_of_forall_of_flip (fun _ _ ne => absurd rfl ne) forth back hc hd
    different same

end Commands

/-! ## Snapshots -/

namespace GitRepository

def refsMatch (git : GitRepository) (expected : RefSnapshot) : Bool :=
  expected.all fun (name, id) =>
    if id.isNull then (git.refs name).isNone else decide (git.refs name = some id)

theorem refsMatch_iff {git : GitRepository} {expected : RefSnapshot} :
    git.refsMatch expected = true ↔ ∀ e ∈ expected, git.refs e.1 = Database.target e.2 := by
  unfold refsMatch
  rw [List.all_eq_true]
  refine forall_congr' fun e => forall_congr' fun _ => ?_
  unfold Database.target
  dsimp only
  by_cases null : e.2.isNull = true
  · rw [if_pos null, if_pos null, Option.isNone_iff_eq_none]
  · rw [if_neg null, if_neg null, decide_eq_true_eq]

theorem target_injective {id id' : ObjectId} (same : Database.target id = Database.target id') :
    id = id' := by
  unfold Database.target at same
  split at same <;> split at same <;> simp_all

theorem refsMatch_initial {git : GitRepository} {commands : Commands} :
    git.refsMatch commands.initial = true ↔
      ∀ c ∈ commands.list, git.refs c.name = Database.target c.old := by
  rw [refsMatch_iff]
  exact List.forall_mem_map

theorem refsMatch_proposed {git : GitRepository} {commands : Commands} :
    git.refsMatch commands.proposed = true ↔
      ∀ c ∈ commands.list, git.refs c.name = Database.target c.new := by
  rw [refsMatch_iff]
  exact List.forall_mem_map

/-- No repository is at the old and at the new values at once. -/
theorem not_initial_of_proposed {git : GitRepository} {commands : Commands}
    (proposed : git.refsMatch commands.proposed = true) :
    git.refsMatch commands.initial = false := by
  rw [Bool.eq_false_iff]
  intro initial
  obtain ⟨c, hc⟩ := List.exists_mem_of_ne_nil _ commands.nonempty
  have old := refsMatch_initial.mp initial c hc
  have new := refsMatch_proposed.mp proposed c hc
  exact commands.changes c hc (target_injective (old.symm.trans new))

/-! ## Transactions -/

/-- The references after the commands. -/
def applied (git : GitRepository) (commands : Commands) : GitRepository :=
  { git with
    refs := fun name =>
      match commands.list.find? fun c => decide (c.name = name) with
      | some c => Database.target c.new
      | none => git.refs name }

/-- `apply_ref_transaction`: every old value is compared first. -/
def applyRefTransaction (git : GitRepository) (commands : Commands) : Option GitRepository :=
  if git.refsMatch commands.initial then some (git.applied commands) else none

theorem applied_of_mem (git : GitRepository) {commands : Commands} {c : RefCommand}
    (member : c ∈ commands.list) : (git.applied commands).refs c.name = Database.target c.new := by
  unfold applied
  dsimp only
  cases found : commands.list.find? fun d => decide (d.name = c.name) with
  | none =>
      have absent := List.find?_eq_none.mp found c member
      simp at absent
  | some d =>
      have hd := List.mem_of_find?_eq_some found
      have same : d.name = c.name := by simpa using List.find?_some found
      rw [commands.eq_of_name hd member same]

theorem applied_of_not_mem (git : GitRepository) {commands : Commands} {name : RefName}
    (absent : ∀ c ∈ commands.list, c.name ≠ name) :
    (git.applied commands).refs name = git.refs name := by
  unfold applied
  dsimp only
  rw [List.find?_eq_none.mpr]
  intro c hc
  simpa using absent c hc

theorem applyRefTransaction_eq_some {git git' : GitRepository} {commands : Commands} :
    git.applyRefTransaction commands = some git' ↔
      git.refsMatch commands.initial = true ∧ git' = git.applied commands := by
  unfold applyRefTransaction
  split
  · rename_i initial
    rw [Option.some.injEq]
    exact ⟨fun same => ⟨initial, same.symm⟩, fun both => both.2.symm⟩
  · rename_i other
    exact ⟨nofun, fun both => absurd both.1 other⟩

/-- A committed transaction leaves the repository at the new values. -/
theorem applied_proposed (git : GitRepository) (commands : Commands) :
    (git.applied commands).refsMatch commands.proposed = true :=
  refsMatch_proposed.mpr fun _ hc => git.applied_of_mem hc

/-! ## Packs -/

/-- `remove_promoted_pack`. -/
def removePromotedPack (git : GitRepository) (packName : Option PackName) : GitRepository :=
  match packName with
  | none => git
  | some name => { git with packs := git.packs.filter fun p => decide (p ≠ name) }

@[simp] theorem removePromotedPack_refs (git : GitRepository) (packName : Option PackName) :
    (git.removePromotedPack packName).refs = git.refs := by
  cases packName <;> rfl

@[simp] theorem removePromotedPack_loose (git : GitRepository) (packName : Option PackName) :
    (git.removePromotedPack packName).loose = git.loose := by
  cases packName <;> rfl

theorem mem_removePromotedPack {git : GitRepository} {packName : Option PackName} {p : PackName} :
    p ∈ (git.removePromotedPack packName).packs ↔ p ∈ git.packs ∧ packName ≠ some p := by
  unfold removePromotedPack
  cases packName with
  | none => exact ⟨fun member => ⟨member, nofun⟩, And.left⟩
  | some name =>
      rw [List.mem_filter, decide_eq_true_eq, ne_eq, ne_eq, Option.some.injEq, eq_comm]

theorem refsMatch_congr {git git' : GitRepository} (same : git'.refs = git.refs)
    (expected : RefSnapshot) : git'.refsMatch expected = git.refsMatch expected := by
  unfold refsMatch
  rw [same]

end GitRepository

end Tit.Git
