/-
# Theory.Walk -- a bounded depth-first walk

`walk` visits what a stack of pending nodes reaches.  It fails on a node that is not
present, and when more nodes are met than the limit allows.  A walk that ends has
visited a set of present nodes that no link leaves (`walk_closed`), so everything that
its start reaches is present (`walk_reaches`).
-/
import Mathlib.Logic.Relation

namespace Tit.Theory

set_option autoImplicit false

universe u

variable {α : Type u}

/-- A path of links. -/
def Reaches (links : α → List α) : α → α → Prop :=
  Relation.ReflTransGen fun a b => b ∈ links a

section Walk

variable [DecidableEq α] {links : α → List α} {present : α → Bool}

/-- The stack without what is seen on its top. -/
def unseen (pending seen : List α) : List α := pending.dropWhile fun x => decide (x ∈ seen)

/-- The top of the stack is visited first; `limit` more nodes may be visited. -/
def walk (links : α → List α) (present : α → Bool) : Nat → List α → List α → Option (List α)
  | 0, pending, seen => if unseen pending seen = [] then some seen else none
  | limit + 1, pending, seen =>
      match unseen pending seen with
      | [] => some seen
      | x :: rest =>
          if present x then walk links present limit ((links x).reverse ++ rest) (x :: seen)
          else none

/-- What was seen is present, and its links are seen or pending. -/
def Explored (links : α → List α) (present : α → Bool) (seen pending : List α) : Prop :=
  ∀ x ∈ seen, present x = true ∧ ∀ l ∈ links x, l ∈ seen ∨ l ∈ pending

theorem mem_unseen {pending seen : List α} {x : α} (member : x ∈ pending) :
    x ∈ seen ∨ x ∈ unseen pending seen := by
  induction pending with
  | nil => cases member
  | cons y rest ih =>
      unfold unseen
      by_cases old : y ∈ seen
      · rw [List.dropWhile_cons_of_pos (by simpa using old)]
        rcases List.mem_cons.mp member with rfl | later
        · exact Or.inl old
        · exact ih later
      · rw [List.dropWhile_cons_of_neg (by simpa using old)]
        exact Or.inr member

theorem Explored.finished {pending seen : List α} (explored : Explored links present seen pending)
    (nothing : unseen pending seen = []) :
    (∀ x ∈ pending, x ∈ seen) ∧ Explored links present seen [] := by
  have all : ∀ x ∈ pending, x ∈ seen := by
    intro x hx
    rcases mem_unseen hx with done | left
    · exact done
    · rw [nothing] at left
      cases left
  refine ⟨all, fun x hx => ⟨(explored x hx).1, fun l hl => Or.inl ?_⟩⟩
  exact ((explored x hx).2 l hl).elim id (all l)

/-- One node more: its links are pending now. -/
theorem Explored.visit {pending seen rest : List α} {x : α}
    (explored : Explored links present seen pending) (top : unseen pending seen = x :: rest)
    (found : present x = true) :
    Explored links present (x :: seen) ((links x).reverse ++ rest) := by
  intro y hy
  rcases List.mem_cons.mp hy with rfl | old
  · refine ⟨found, fun l hl => Or.inr ?_⟩
    exact List.mem_append_left _ (List.mem_reverse.mpr hl)
  · refine ⟨(explored y old).1, fun l hl => ?_⟩
    rcases (explored y old).2 l hl with done | left
    · exact Or.inl (List.mem_cons_of_mem _ done)
    · rcases mem_unseen left with done | later
      · exact Or.inl (List.mem_cons_of_mem _ done)
      · rw [top] at later
        rcases List.mem_cons.mp later with rfl | below
        · exact Or.inl List.mem_cons_self
        · exact Or.inr (List.mem_append_right _ below)

theorem walk_closed {limit : Nat} {pending seen visited : List α}
    (ends : walk links present limit pending seen = some visited)
    (explored : Explored links present seen pending) :
    (∀ x ∈ seen, x ∈ visited) ∧ (∀ x ∈ pending, x ∈ visited) ∧
      Explored links present visited [] := by
  induction limit generalizing pending seen with
  | zero =>
      unfold walk at ends
      split at ends
      · rename_i nothing
        cases ends
        exact ⟨fun _ hx => hx, explored.finished nothing⟩
      · cases ends
  | succ limit ih =>
      unfold walk at ends
      split at ends
      · rename_i nothing
        cases ends
        exact ⟨fun _ hx => hx, explored.finished nothing⟩
      · rename_i x rest top
        split at ends
        · rename_i found
          obtain ⟨old, later, closed⟩ := ih ends (explored.visit top found)
          have seenStays : ∀ y ∈ seen, y ∈ visited := fun y hy =>
            old y (List.mem_cons_of_mem _ hy)
          refine ⟨seenStays, fun y hy => ?_, closed⟩
          rcases mem_unseen hy with done | left
          · exact seenStays y done
          · rw [top] at left
            rcases List.mem_cons.mp left with rfl | below
            · exact old y List.mem_cons_self
            · exact later y (List.mem_append_right _ below)
        · cases ends

/-- **A walk that ends** has found everything that its start reaches. -/
theorem walk_reaches {limit : Nat} {root x : α} {visited : List α}
    (ends : walk links present limit [root] [] = some visited) (path : Reaches links root x) :
    present x = true := by
  obtain ⟨-, start, closed⟩ := walk_closed ends nofun
  have visits : x ∈ visited := by
    induction path with
    | refl => exact start root List.mem_cons_self
    | tail _ link ih => exact ((closed _ ih).2 _ link).elim id nofun
  exact (closed x visits).1

end Walk

end Tit.Theory
