/-
# Theory.Search -- a bounded search of a graph

`search` meets the nodes of a work list, one after the other, and expands each node once: its links
join the work list, at the top or at the end.  A node may be left out when it is expanded, the
search may stop at a goal, and it fails when it has no room for another node or when a node cannot
be expanded.

* What it visits is reached from where it starts (`search_reaches`).
* When it ends without a goal, no link leads out of what it visited (`search_closed`), so that it has
  visited all that is reached.
* It ends whenever there is room for all that is reached and all of it can be expanded
  (`search_ends`), and what makes it fail otherwise is a node that is reached (`search_fails`).
-/
import Mathlib.Data.List.Nodup
import Mathlib.Data.Finset.Card
import Mathlib.Logic.Relation
import Tit.Theory.Outcome

namespace Tit.Theory

set_option autoImplicit false

universe u v

variable {α : Type u} {ε : Type v}

/-- How links join the nodes that wait. -/
structure Discipline (α : Type u) where
  add : List α → List α → List α
  mem_add : ∀ links rest x, x ∈ add links rest ↔ x ∈ links ∨ x ∈ rest

/-- The last link is met first. -/
def Discipline.stack : Discipline α where
  add links rest := links.reverse ++ rest
  mem_add links rest x := by rw [List.mem_append, List.mem_reverse]

/-- The links are met after all that waits. -/
def Discipline.queue : Discipline α where
  add links rest := rest ++ links
  mem_add links rest x := by rw [List.mem_append, or_comm]

/-- What a search does at a node: its links, or nothing for a node that is left out. -/
structure Searching (α : Type u) (ε : Type v) where
  discipline : Discipline α
  expand : α → Except ε (Option (List α))
  goal : α → Bool
  full : ε

variable (s : Searching α ε)

/-! ## What is reached -/

/-- The node is visited and has this link. -/
def Searching.Link (x y : α) : Prop := ∃ links, s.expand x = .ok (some links) ∧ y ∈ links

/-- A path of links. -/
def Searching.Path : α → α → Prop := Relation.ReflTransGen s.Link

/-- A path from one of the nodes. -/
def Searching.From (starts : List α) (x : α) : Prop := ∃ start ∈ starts, s.Path start x

/-- A node that is no goal and is not left out. -/
def Searching.Visitable (x : α) : Prop := s.goal x = false ∧ ∃ links, s.expand x = .ok (some links)

/-- The node is left out when it is met. -/
def Searching.LeftOut (x : α) : Prop := s.goal x = false ∧ s.expand x = .ok none

/-- The links of what was seen are seen, wait, or are left out. -/
def Searching.Explored (seen pending : List α) : Prop :=
  ∀ x ∈ seen, ∀ y, s.Link x y → y ∈ seen ∨ y ∈ pending ∨ s.LeftOut y

variable {s} {room : Nat} {pending seen visited : List α} {found : Bool} {x y : α}

theorem Searching.From.head (member : x ∈ pending) : s.From pending x :=
  ⟨x, member, .refl⟩

theorem Searching.From.rest (later : s.From pending y) : s.From (x :: pending) y := by
  obtain ⟨start, member, path⟩ := later
  exact ⟨start, List.mem_cons_of_mem _ member, path⟩

/-- What the links of a node reach, the node reaches. -/
theorem Searching.From.expanded {links rest : List α} (expands : s.expand x = .ok (some links))
    (later : s.From (s.discipline.add links rest) y) : s.From (x :: rest) y := by
  obtain ⟨start, member, path⟩ := later
  rcases (s.discipline.mem_add links rest start).mp member with link | waiting
  · exact ⟨x, List.mem_cons_self, .head ⟨links, expands, link⟩ path⟩
  · exact ⟨start, List.mem_cons_of_mem _ waiting, path⟩

/-! ## The loop -/

section Loop

variable [DecidableEq α]

/-- The loop; `room` more nodes may be visited, and the last one is in front of those seen. -/
def search (s : Searching α ε) : Nat → List α → List α → Except ε (Bool × List α)
  | _, [], seen => .ok (false, seen)
  | room, x :: rest, seen =>
      if s.goal x = true then .ok (true, seen)
      else if x ∈ seen then search s room rest seen
      else
        match room with
        | 0 => .error s.full
        | room + 1 =>
            match s.expand x with
            | .error error => .error error
            | .ok none => search s (room + 1) rest seen
            | .ok (some links) => search s room (s.discipline.add links rest) (x :: seen)
termination_by room pending => (room, pending.length)

/-- **What is visited**: nodes that are reached, each once. -/
theorem search_reaches (ok : search s room pending seen = .ok (found, visited)) :
    (∀ x ∈ visited, x ∈ seen ∨ s.From pending x ∧ s.Visitable x) ∧ (∀ x ∈ seen, x ∈ visited) ∧
      (seen.Nodup → visited.Nodup) ∧ visited.length ≤ seen.length + room ∧
      (found = true → ∃ g, s.goal g = true ∧ s.From pending g) := by
  fun_induction search s room pending seen with
  | case1 room seen =>
      cases ok
      exact ⟨fun x member => Or.inl member, fun _ member => member, id, Nat.le_add_right _ _, nofun⟩
  | case2 room x rest seen goal =>
      cases ok
      exact ⟨fun x member => Or.inl member, fun _ member => member, id, Nat.le_add_right _ _,
        fun _ => ⟨x, goal, .head List.mem_cons_self⟩⟩
  | case3 room x rest seen goal old ih =>
      obtain ⟨reached, kept, distinct, few, goals⟩ := ih ok
      refine ⟨fun y member => ?_, kept, distinct, few, fun yes => ?_⟩
      · exact (reached y member).imp id fun ⟨later, can⟩ => ⟨later.rest, can⟩
      · obtain ⟨g, isGoal, later⟩ := goals yes
        exact ⟨g, isGoal, later.rest⟩
  | case4 => cases ok
  | case5 => cases ok
  | case6 x rest seen goal new room out ih =>
      obtain ⟨reached, kept, distinct, few, goals⟩ := ih ok
      refine ⟨fun y member => ?_, kept, distinct, few, fun yes => ?_⟩
      · exact (reached y member).imp id fun ⟨later, can⟩ => ⟨later.rest, can⟩
      · obtain ⟨g, isGoal, later⟩ := goals yes
        exact ⟨g, isGoal, later.rest⟩
  | case7 x rest seen goal new room links expands ih =>
      obtain ⟨reached, kept, distinct, few, goals⟩ := ih ok
      refine ⟨fun y member => ?_, fun y member => kept y (List.mem_cons_of_mem _ member),
        fun once => distinct (List.nodup_cons.mpr ⟨new, once⟩), ?_, fun yes => ?_⟩
      · rcases reached y member with old | ⟨later, can⟩
        · rcases List.mem_cons.mp old with rfl | old
          · exact Or.inr ⟨.head List.mem_cons_self, Bool.eq_false_iff.mpr goal, links, expands⟩
          · exact Or.inl old
        · exact Or.inr ⟨later.expanded expands, can⟩
      · rw [List.length_cons] at few
        omega
      · obtain ⟨g, isGoal, later⟩ := goals yes
        exact ⟨g, isGoal, later.expanded expands⟩

/-- **A search without a goal** has visited all that waits, and no link leads out. -/
theorem search_closed (ok : search s room pending seen = .ok (false, visited))
    (explored : s.Explored seen pending) :
    (∀ x ∈ pending, x ∈ visited ∨ s.LeftOut x) ∧ s.Explored visited [] := by
  fun_induction search s room pending seen with
  | case1 room seen =>
      cases ok
      exact ⟨nofun, explored⟩
  | case2 => cases ok
  | case3 room x rest seen goal old ih =>
      have kept := (search_reaches ok).2.1
      obtain ⟨all, closed⟩ := ih ok fun z member y link => by
        rcases explored z member y link with inside | waiting | out
        · exact Or.inl inside
        · rcases List.mem_cons.mp waiting with rfl | later
          · exact Or.inl old
          · exact Or.inr (Or.inl later)
        · exact Or.inr (Or.inr out)
      refine ⟨fun y member => ?_, closed⟩
      rcases List.mem_cons.mp member with rfl | later
      · exact Or.inl (kept y old)
      · exact all y later
  | case4 => cases ok
  | case5 => cases ok
  | case6 x rest seen goal new room out ih =>
      have leftOut : s.LeftOut x := ⟨Bool.eq_false_iff.mpr goal, out⟩
      obtain ⟨all, closed⟩ := ih ok fun z member y link => by
        rcases explored z member y link with inside | waiting | out
        · exact Or.inl inside
        · rcases List.mem_cons.mp waiting with rfl | later
          · exact Or.inr (Or.inr leftOut)
          · exact Or.inr (Or.inl later)
        · exact Or.inr (Or.inr out)
      refine ⟨fun y member => ?_, closed⟩
      rcases List.mem_cons.mp member with rfl | later
      · exact Or.inr leftOut
      · exact all y later
  | case7 x rest seen goal new room links expands ih =>
      have kept := (search_reaches ok).2.1
      have adds := s.discipline.mem_add links rest
      obtain ⟨all, closed⟩ := ih ok fun z member y link => by
        rcases List.mem_cons.mp member with rfl | old
        · obtain ⟨links', expands', inside⟩ := link
          rw [expands] at expands'
          cases expands'
          exact Or.inr (Or.inl ((adds y).mpr (Or.inl inside)))
        · rcases explored z old y link with inside | waiting | out
          · exact Or.inl (List.mem_cons_of_mem _ inside)
          · rcases List.mem_cons.mp waiting with rfl | later
            · exact Or.inl List.mem_cons_self
            · exact Or.inr (Or.inl ((adds y).mpr (Or.inr later)))
          · exact Or.inr (Or.inr out)
      refine ⟨fun y member => ?_, closed⟩
      rcases List.mem_cons.mp member with rfl | later
      · exact Or.inl (kept y List.mem_cons_self)
      · exact all y ((adds y).mpr (Or.inr later))

/-- All that is reached is visited or left out. -/
theorem search_all (ok : search s room pending [] = .ok (false, visited)) (path : s.From pending x) :
    x ∈ visited ∨ s.LeftOut x := by
  obtain ⟨all, closed⟩ := search_closed ok nofun
  obtain ⟨start, member, path⟩ := path
  induction path with
  | refl => exact all start member
  | tail _ link ih =>
      rcases ih with inside | ⟨-, out⟩
      · rcases closed _ inside _ link with here | waits | out
        · exact Or.inl here
        · cases waits
        · exact Or.inr out
      · obtain ⟨links, expands, -⟩ := link
        rw [out] at expands
        cases expands

/-- The search fails for want of room or at a node that is reached. -/
theorem search_fails {error : ε} (failed : search s room pending seen = .error error) :
    error = s.full ∨ ∃ x, s.From pending x ∧ s.goal x = false ∧ s.expand x = .error error := by
  fun_induction search s room pending seen with
  | case1 => cases failed
  | case2 => cases failed
  | case3 room x rest seen goal old ih =>
      exact (ih failed).imp id fun ⟨y, later, fails⟩ => ⟨y, later.rest, fails⟩
  | case4 =>
      cases failed
      exact Or.inl rfl
  | case5 x rest seen goal new room error' fails =>
      cases failed
      exact Or.inr ⟨x, .head List.mem_cons_self, Bool.eq_false_iff.mpr goal, fails⟩
  | case6 x rest seen goal new room out ih =>
      exact (ih failed).imp id fun ⟨y, later, fails⟩ => ⟨y, later.rest, fails⟩
  | case7 x rest seen goal new room links expands ih =>
      exact (ih failed).imp id fun ⟨y, later, fails⟩ => ⟨y, later.expanded expands, fails⟩

/-- **A search has room** for all that is reached, when a list of that length has it. -/
theorem search_room {all : List α} (distinct : seen.Nodup) (listed : ∀ x ∈ seen, x ∈ all)
    (reached : ∀ x, s.From pending x → x ∈ all) (few : all.length ≤ seen.length + room) :
    (∃ result, search s room pending seen = .ok result) ∨
      ∃ x error, s.From pending x ∧ s.goal x = false ∧ s.expand x = .error error ∧
        search s room pending seen = .error error := by
  fun_induction search s room pending seen with
  | case1 room seen => exact Or.inl ⟨_, rfl⟩
  | case2 room x rest seen goal => exact Or.inl ⟨_, rfl⟩
  | case3 room x rest seen goal old ih =>
      refine (ih distinct listed (fun y later => reached y later.rest) few).imp id ?_
      rintro ⟨y, error, later, fails⟩
      exact ⟨y, error, later.rest, fails⟩
  | case4 x rest seen goal new =>
      have more : (x :: seen).toFinset ⊆ all.toFinset := by
        intro y member
        rw [List.mem_toFinset] at member ⊢
        rcases List.mem_cons.mp member with rfl | old
        · exact reached y (.head List.mem_cons_self)
        · exact listed y old
      have counted := Finset.card_le_card more
      rw [List.toFinset_card_of_nodup (List.nodup_cons.mpr ⟨new, distinct⟩)] at counted
      have bound := List.toFinset_card_le all
      rw [List.length_cons] at counted
      omega
  | case5 x rest seen goal new room error fails =>
      exact Or.inr ⟨x, error, .head List.mem_cons_self, Bool.eq_false_iff.mpr goal, fails, rfl⟩
  | case6 x rest seen goal new room out ih =>
      refine (ih distinct listed (fun y later => reached y later.rest) few).imp id ?_
      rintro ⟨y, error, later, fails⟩
      exact ⟨y, error, later.rest, fails⟩
  | case7 x rest seen goal new room links expands ih =>
      have listed' : ∀ y ∈ x :: seen, y ∈ all := by
        intro y member
        rcases List.mem_cons.mp member with rfl | old
        · exact reached y (.head List.mem_cons_self)
        · exact listed y old
      refine (ih (List.nodup_cons.mpr ⟨new, distinct⟩) listed'
        (fun y later => reached y (later.expanded expands))
        (by rw [List.length_cons]; omega)).imp id ?_
      rintro ⟨y, error, later, fails⟩
      exact ⟨y, error, later.expanded expands, fails⟩

/-- A search with room for all that is reached ends, when all of it can be expanded. -/
theorem search_ends {all : List α} (reached : ∀ x, s.From pending x → x ∈ all)
    (few : all.length ≤ room)
    (expands : ∀ x, s.From pending x → s.goal x = false → ∃ links, s.expand x = .ok links) :
    ∃ result, search s room pending [] = .ok result := by
  rcases search_room List.nodup_nil nofun reached (by simpa using few) with ends | fails
  · exact ends
  · obtain ⟨x, error, path, noGoal, fails, -⟩ := fails
    obtain ⟨links, ok⟩ := expands x path noGoal
    rw [fails] at ok
    cases ok

/-- A search that expands what it visits in the same way goes the same way. -/
theorem search_congr {expand : α → Except ε (Option (List α))}
    (ok : search s room pending seen = .ok (found, visited))
    (agrees : ∀ x, x ∈ visited ∨ s.LeftOut x → expand x = s.expand x) :
    search { s with expand } room pending seen = .ok (found, visited) := by
  fun_induction search s room pending seen with
  | case1 room seen =>
      cases ok
      unfold search
      rfl
  | case2 room x rest seen goal =>
      cases ok
      unfold search
      exact if_pos goal
  | case3 room x rest seen goal old ih =>
      unfold search
      rw [if_neg goal, if_pos old]
      exact ih ok
  | case4 => cases ok
  | case5 => cases ok
  | case6 x rest seen goal new room out ih =>
      have same := agrees x (Or.inr ⟨Bool.eq_false_iff.mpr goal, out⟩)
      rw [search, if_neg goal, if_neg new]
      dsimp only
      rw [same, out]
      exact ih ok
  | case7 x rest seen goal new room links expands ih =>
      have same := agrees x (Or.inl ((search_reaches ok).2.1 x List.mem_cons_self))
      rw [search, if_neg goal, if_neg new]
      dsimp only
      rw [same, expands]
      exact ih ok

end Loop

end Tit.Theory
