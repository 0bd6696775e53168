/-
# Git.Ancestry -- what a comparison says of two commits

A history has only commits that its start reaches through parents.  So two commits whose
mergeability is `fastForward` are an ancestor and its descendant, and a clean merge is one of two
commits of which neither has the other in its history.
-/
import Tit.Git.Read
import Tit.Theory.Walk

namespace Tit.Git

open Tit.Theory Tit.Store

set_option autoImplicit false

section Objects

variable {limits : ReadLimits} {objects : Objects}

variable (limits objects) in
/-- The parents of a commit that can be read. -/
def parentsOf (id : ObjectId) : List ObjectId :=
  match readCommit limits objects id with
  | .ok commit => commit.parents
  | .error _ => []

variable (limits objects) in
/-- `head` has `base` in its history. -/
def IsAncestor (base head : ObjectId) : Prop := Reaches (parentsOf limits objects) head base

theorem readCommit_id {id : ObjectId} {commit : CommitInfo}
    (ok : readCommit limits objects id = .ok commit) : commit.id = id := by
  unfold readCommit at ok
  obtain ⟨object, -, ok⟩ := bind_eq_ok.mp ok
  split at ok
  · obtain ⟨_, -, ok⟩ := bind_eq_ok.mp ok
    obtain ⟨⟨tree, parents, message⟩, -, ok⟩ := bind_eq_ok.mp ok
    cases ok
    rfl
  · cases ok

/-- The loop keeps what its start reaches. -/
theorem historyLoop_reaches {start : ObjectId} {turns : Nat} {pending seen : List ObjectId}
    {history result : List CommitInfo}
    (ok : historyLoop limits objects turns pending seen history = .ok result)
    (waits : ∀ id ∈ pending, IsAncestor limits objects id start)
    (listed : ∀ commit ∈ history, IsAncestor limits objects commit.id start) :
    ∀ commit ∈ result, IsAncestor limits objects commit.id start := by
  induction turns generalizing pending seen history with
  | zero =>
      unfold historyLoop at ok
      split at ok
      · cases ok
        exact listed
      · cases ok
  | succ turns ih =>
      unfold historyLoop at ok
      split at ok
      · cases ok
        exact listed
      · rename_i id rest unseen
        obtain ⟨commit, read, ok⟩ := bind_eq_ok.mp ok
        have inside : ∀ other ∈ id :: rest, IsAncestor limits objects other start := by
          intro other member
          rw [← unseen] at member
          exact waits other ((List.dropWhile_sublist _).subset member)
        have here := inside id List.mem_cons_self
        refine ih ok ?_ ?_
        · intro other member
          rcases List.mem_append.mp member with waiting | parent
          · exact inside other (List.mem_cons_of_mem _ waiting)
          · refine Relation.ReflTransGen.tail here ?_
            show other ∈ parentsOf limits objects id
            unfold parentsOf
            rw [read]
            exact parent
        · intro other member
          rcases List.mem_append.mp member with before | new
          · exact listed other before
          · obtain rfl := List.mem_singleton.mp new
            rw [readCommit_id read]
            exact here

theorem historyWithBudget_reaches {start : ObjectId} {history : List CommitInfo}
    (ok : historyWithBudget limits objects start = .ok history) :
    ∀ commit ∈ history, IsAncestor limits objects commit.id start := by
  refine historyLoop_reaches ok (fun id member => ?_) nofun
  rw [List.mem_singleton.mp member]
  exact Relation.ReflTransGen.refl

theorem mergeabilityOf_fastForward {gix : Gix} {base head : ObjectId}
    {baseIds headIds : List ObjectId} {mergeBase : Option ObjectId}
    (ok : mergeabilityOf limits objects gix base head baseIds headIds mergeBase =
      .ok .fastForward) : base ∈ headIds := by
  unfold mergeabilityOf at ok
  split at ok
  · cases ok
  · split at ok
    · cases ok
    · split at ok
      · assumption
      · obtain ⟨_, -, ok⟩ := bind_eq_ok.mp ok
        obtain ⟨conflicts, -, ok⟩ := bind_eq_ok.mp ok
        split at ok <;> cases ok

/-- **A fast-forward is one from an ancestor.** -/
theorem comparison_fastForward {gix : Gix} {base head : ObjectId} {c : Comparison}
    (ok : comparison limits objects gix base head = .ok c)
    (forward : c.mergeability = .fastForward) : IsAncestor limits objects base head := by
  unfold comparison at ok
  obtain ⟨baseHistory, -, ok⟩ := bind_eq_ok.mp ok
  obtain ⟨headHistory, walked, ok⟩ := bind_eq_ok.mp ok
  obtain ⟨_, -, ok⟩ := bind_eq_ok.mp ok
  obtain ⟨first, -, ok⟩ := bind_eq_ok.mp ok
  obtain ⟨mergeBase, -, ok⟩ := bind_eq_ok.mp ok
  obtain ⟨_, -, ok⟩ := bind_eq_ok.mp ok
  have decided : mergeabilityOf limits objects gix base head (baseHistory.map (·.id))
      (headHistory.map (·.id)) mergeBase = .ok c.mergeability := by
    dsimp only at ok
    split at ok <;>
      · obtain ⟨files, -, ok⟩ := bind_eq_ok.mp ok
        obtain ⟨mergeability, decided, ok⟩ := bind_eq_ok.mp ok
        cases ok
        exact decided
  rw [forward] at decided
  obtain ⟨commit, listed, same⟩ := List.mem_map.mp (mergeabilityOf_fastForward decided)
  rw [← same]
  exact historyWithBudget_reaches walked commit listed

end Objects

end Tit.Git
