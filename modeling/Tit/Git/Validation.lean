/-
# Git.Validation -- the objects that a push proposes

Before the references of a push move, `validate_proposed_objects` walks from each new value over all
that it links to, in the objects of the received pack and in those of the repository, and then tells
from the parents of the commits whether a branch moves forward.

It succeeds exactly for the proposals whose objects can all be read, as far as the walks may go
(`validateProposedObjects_iff`), and calls a move of a branch a fast-forward exactly when the old
value is an ancestor of the new one.
-/
import Tit.Git.Repository
import Tit.Git.DeltaSize
import Tit.Policy.Repository
import Tit.Theory.Search

namespace Tit.Git

open Tit.Theory Tit.Store Tit.Policy

set_option autoImplicit false

/-! ## Objects -/

inductive ObjectKind where
  | blob
  | commit
  | tree
  | tag
  deriving DecidableEq, Repr

/-- What the parser of its kind makes of the data of an object. -/
inductive ObjectData where
  | blob
  | commit (parsed : Option (ObjectId × List ObjectId))
  | tree (parsed : Option (List (EntryMode × ObjectId)))
  | tag (parsed : Option ObjectId)
  deriving DecidableEq, Repr

namespace ObjectData

def kind : ObjectData → ObjectKind
  | .blob => .blob
  | .commit _ => .commit
  | .tree _ => .tree
  | .tag _ => .tag

/-- The objects that this one needs.  An entry that is neither a file nor a link nor a tree names a
commit of another repository. -/
def links : ObjectData → Option (List ObjectId)
  | .blob => some []
  | .commit parsed => parsed.map fun commit => commit.1 :: commit.2
  | .tree parsed => parsed.map fun entries =>
      (entries.filter fun entry => entry.1.isBlobOrSymlink || entry.1.isTree).map Prod.snd
  | .tag parsed => parsed.map fun target => [target]

end ObjectData

structure StoredObject where
  size : Nat
  data : ObjectData
  deriving DecidableEq, Repr

inductive ProposalError where
  | object (reason : String)
  | objectLimit
  | missingObject (id : ObjectId)
  | malformedObject (kind : ObjectKind)
  | branchNotCommit
  deriving DecidableEq, Repr

/-- A store of objects; a look-up may fail. -/
abbrev ObjectSource := ObjectId → Except String (Option StoredObject)

structure CombinedObjects where
  repository : ObjectSource
  bundle : Option ObjectSource

namespace CombinedObjects

def maxWalkObjects : Nat := 500000

variable (objects : CombinedObjects)

def checkedSize (object : StoredObject) : Except ProposalError StoredObject :=
  if object.size > maxObjectBytes then .error .objectLimit else .ok object

def object (id : ObjectId) : Except ProposalError StoredObject := do
  let received ← match objects.bundle with
    | none => pure none
    | some bundle => (bundle id).mapError .object
  match received with
  | some object => checkedSize object
  | none => do
      let stored ← (objects.repository id).mapError .object
      let object ← required stored (.missingObject id)
      checkedSize object

def kindAndLinks (id : ObjectId) : Except ProposalError (ObjectKind × List ObjectId) := do
  let object ← objects.object id
  let links ← required object.data.links (.malformedObject object.data.kind)
  pure (object.data.kind, links)

/-- The walk of `validate_reachable`. -/
def reachable : Searching ObjectId ProposalError where
  discipline := .stack
  expand id := (objects.kindAndLinks id).map fun found => some found.2
  goal _ := false
  full := .objectLimit

def validateReachable (root : ObjectId) : Except ProposalError Unit :=
  (search objects.reachable maxWalkObjects [root] []).map fun _ => ()

/-- A commit goes on to its parents, the links after its tree. -/
def expandCommit (id : ObjectId) : Except ProposalError (Option (List ObjectId)) := do
  let (kind, links) ← objects.kindAndLinks id
  if kind ≠ .commit then .error .branchNotCommit else pure (some (links.drop 1))

/-- The walk of `is_ancestor`. -/
def ancestry (ancestor : ObjectId) : Searching ObjectId ProposalError where
  discipline := .stack
  expand := objects.expandCommit
  goal id := decide (id = ancestor)
  full := .objectLimit

def isAncestor (ancestor descendant : ObjectId) : Except ProposalError Bool :=
  (search (objects.ancestry ancestor) maxWalkObjects [descendant] []).map Prod.fst

/-- One turn of the loop of `validate_proposed_objects`. -/
def validateCommand (c : RefCommand) : Except ProposalError RefChange :=
  if c.new.isNull then .ok .delete
  else do
    let (kind, _) ← objects.kindAndLinks c.new
    if isTag c.name = some false ∧ kind ≠ .commit then .error .branchNotCommit
    else do
      objects.validateReachable c.new
      if c.old.isNull then pure .create
      else if isTag c.name = some true then pure .tagUpdate
      else if ← objects.isAncestor c.old c.new then pure .fastForward
      else pure .force

end CombinedObjects

def validateProposedObjects (objects : CombinedObjects) :
    List RefCommand → Except ProposalError (List RefChange)
  | [] => .ok []
  | c :: rest => do
      let change ← objects.validateCommand c
      let changes ← validateProposedObjects objects rest
      pure (change :: changes)

/-! ## What is to hold -/

namespace CombinedObjects

variable (objects : CombinedObjects)

/-- The object that is found under the identifier: the pack comes first. -/
def Finds (id : ObjectId) (found : StoredObject) : Prop :=
  (∃ bundle, objects.bundle = some bundle ∧ bundle id = .ok (some found)) ∨
    (∀ bundle, objects.bundle = some bundle → bundle id = .ok none) ∧
      objects.repository id = .ok (some found)

/-- The object exists, is not too large, and parses with these links. -/
def Readable (id : ObjectId) (kind : ObjectKind) (links : List ObjectId) : Prop :=
  ∃ found, objects.Finds id found ∧ found.size ≤ maxObjectBytes ∧ found.data.kind = kind ∧
    found.data.links = some links

/-- One object links to another. -/
def Link (x y : ObjectId) : Prop := ∃ kind links, objects.Readable x kind links ∧ y ∈ links

/-- The second is a parent of the first, which is a commit. -/
def Parent (x y : ObjectId) : Prop := ∃ links, objects.Readable x .commit links ∧ y ∈ links.drop 1

/-- All that the object needs, and itself. -/
abbrev Needs : ObjectId → ObjectId → Prop := Relation.ReflTransGen objects.Link

/-- The commits before this one, and itself. -/
abbrev Ancestor (descendant ancestor : ObjectId) : Prop :=
  Relation.ReflTransGen objects.Parent descendant ancestor

/-- So many objects are needed at most. -/
def WithinLimit (root : ObjectId) : Prop :=
  ∃ all : List ObjectId, all.length ≤ maxWalkObjects ∧ ∀ x, objects.Needs root x → x ∈ all

def parentsOf (id : ObjectId) : List ObjectId :=
  match objects.expandCommit id with
  | .ok (some parents) => parents
  | _ => []

/-- The walk to an ancestor, if it went on at an object that is no commit. -/
def wandering (ancestor : ObjectId) : Searching ObjectId ProposalError :=
  { objects.ancestry ancestor with expand := fun id => .ok (some (objects.parentsOf id)) }

/-- What that walk meets. -/
def metOnTheWay (ancestor descendant : ObjectId) : List ObjectId :=
  match search (objects.wandering ancestor) maxWalkObjects [descendant] [] with
  | .ok (_, met) => met
  | .error _ => []

/-- The proposal of a command may be accepted. -/
structure Admissible (c : RefCommand) : Prop where
  complete : ∀ x, objects.Needs c.new x → ∃ kind links, objects.Readable x kind links
  limited : objects.WithinLimit c.new
  branch : isTag c.name = some false → ∃ links, objects.Readable c.new .commit links
  commits : c.old.isNull = false → isTag c.name ≠ some true →
    ∀ x ∈ objects.metOnTheWay c.old c.new, ∃ links, objects.Readable x .commit links

/-- The change is what the command does. -/
def Classified (c : RefCommand) (change : RefChange) : Prop :=
  if c.new.isNull then change = .delete
  else if c.old.isNull then change = .create
  else if isTag c.name = some true then change = .tagUpdate
  else (change = .fastForward ∧ objects.Ancestor c.new c.old) ∨
    (change = .force ∧ ¬objects.Ancestor c.new c.old)

variable {objects} {id root ancestor descendant : ObjectId}

theorem checkedSize_eq_ok {object found : StoredObject} :
    checkedSize object = .ok found ↔ object = found ∧ found.size ≤ maxObjectBytes := by
  unfold checkedSize
  constructor
  · intro ok
    split at ok
    · cases ok
    · cases ok
      exact ⟨rfl, by omega⟩
  · rintro ⟨rfl, fits⟩
    exact if_neg (by omega)

theorem mapError_eq_ok {α : Type} {result : Except String α} {value : α} :
    result.mapError ProposalError.object = .ok value ↔ result = .ok value := by
  cases result with
  | error _ => exact ⟨nofun, nofun⟩
  | ok found => exact ⟨fun ok => by cases ok; rfl, fun ok => by cases ok; rfl⟩

theorem object_eq_ok {found : StoredObject} :
    objects.object id = .ok found ↔ objects.Finds id found ∧ found.size ≤ maxObjectBytes := by
  unfold object Finds
  cases bundle : objects.bundle with
  | none =>
      simp only [pure_eq_ok, ok_bind, bind_eq_ok, mapError_eq_ok, required_eq_ok, checkedSize_eq_ok]
      constructor
      · rintro ⟨stored, ok, object, rfl, rfl, fits⟩
        exact ⟨Or.inr ⟨fun source same => (by cases same), ok⟩, fits⟩
      · rintro ⟨⟨_, same, -⟩ | ⟨-, ok⟩, fits⟩
        · cases same
        · exact ⟨_, ok, _, rfl, rfl, fits⟩
  | some source =>
      simp only [bind_eq_ok, mapError_eq_ok]
      constructor
      · rintro ⟨received, ok, rest⟩
        cases received with
        | some object =>
            obtain ⟨rfl, fits⟩ := checkedSize_eq_ok.mp rest
            exact ⟨Or.inl ⟨source, rfl, ok⟩, fits⟩
        | none =>
            simp only [bind_eq_ok, mapError_eq_ok, required_eq_ok, checkedSize_eq_ok] at rest
            obtain ⟨stored, ok', object, rfl, rfl, fits⟩ := rest
            refine ⟨Or.inr ⟨?_, ok'⟩, fits⟩
            rintro _ ⟨⟩
            exact ok
      · rintro ⟨⟨_, same, ok⟩ | ⟨nothing, ok⟩, fits⟩
        · cases same
          exact ⟨_, ok, checkedSize_eq_ok.mpr ⟨rfl, fits⟩⟩
        · refine ⟨none, nothing _ rfl, ?_⟩
          simp only [bind_eq_ok, mapError_eq_ok, required_eq_ok, checkedSize_eq_ok]
          exact ⟨_, ok, _, rfl, rfl, fits⟩

theorem kindAndLinks_eq_ok {kind : ObjectKind} {links : List ObjectId} :
    objects.kindAndLinks id = .ok (kind, links) ↔ objects.Readable id kind links := by
  unfold kindAndLinks Readable
  simp only [bind_eq_ok, required_eq_ok, object_eq_ok, pure_eq_ok, Except.ok.injEq, Prod.mk.injEq]
  constructor
  · rintro ⟨found, ⟨finds, fits⟩, links', parsed, rfl, rfl⟩
    exact ⟨found, finds, fits, rfl, parsed⟩
  · rintro ⟨found, finds, fits, rfl, parsed⟩
    exact ⟨found, ⟨finds, fits⟩, links, parsed, rfl, rfl⟩

theorem reachable_link {x y : ObjectId} : objects.reachable.Link x y ↔ objects.Link x y := by
  unfold Searching.Link Link reachable
  simp only [map_eq_ok, ← kindAndLinks_eq_ok]
  constructor
  · rintro ⟨links, ⟨⟨kind, links'⟩, ok, same⟩, member⟩
    cases same
    exact ⟨kind, _, ok, member⟩
  · rintro ⟨kind, links, ok, member⟩
    exact ⟨links, ⟨(kind, links), ok, rfl⟩, member⟩

theorem reachable_from {x : ObjectId} : objects.reachable.From [root] x ↔ objects.Needs root x := by
  have same : objects.reachable.Link = objects.Link := by
    funext x y
    exact propext reachable_link
  unfold Searching.From Searching.Path
  rw [same]
  constructor
  · rintro ⟨start, member, path⟩
    rw [List.mem_singleton] at member
    rwa [← member]
  · intro path
    exact ⟨root, List.mem_singleton_self root, path⟩

/-- **The walk succeeds** when all that the object needs can be read, and is not too much. -/
theorem validateReachable_eq_ok :
    objects.validateReachable root = .ok () ↔
      (∀ x, objects.Needs root x → ∃ kind links, objects.Readable x kind links) ∧
        objects.WithinLimit root := by
  unfold validateReachable
  rw [map_eq_ok]
  constructor
  · rintro ⟨⟨found, visited⟩, ok, -⟩
    obtain ⟨reached, -, distinct, few, goals⟩ := search_reaches ok
    have noGoal : found = false := by
      cases found with
      | false => rfl
      | true =>
          obtain ⟨g, isGoal, -⟩ := goals rfl
          cases isGoal
    subst noGoal
    have inside : ∀ x, objects.Needs root x → x ∈ visited := by
      intro x needed
      rcases search_all ok (reachable_from.mpr needed) with inside | ⟨-, out⟩
      · exact inside
      · obtain ⟨found, -, same⟩ := map_eq_ok.mp out
        cases same
    refine ⟨fun x needed => ?_, visited, by simpa using few, inside⟩
    rcases reached x (inside x needed) with old | ⟨_, _, links, expands⟩
    · cases old
    · obtain ⟨⟨kind, links'⟩, read, -⟩ := map_eq_ok.mp expands
      exact ⟨kind, links', kindAndLinks_eq_ok.mp read⟩
  · rintro ⟨complete, all, few, listed⟩
    have expands : ∀ x, objects.reachable.From [root] x → objects.reachable.goal x = false →
        ∃ links, objects.reachable.expand x = .ok links := by
      intro x path _
      obtain ⟨kind, links, readable⟩ := complete x (reachable_from.mp path)
      exact ⟨some links, map_eq_ok.mpr ⟨_, kindAndLinks_eq_ok.mpr readable, rfl⟩⟩
    obtain ⟨result, ok⟩ :=
      search_ends (fun x path => listed x (reachable_from.mp path)) few expands
    exact ⟨result, ok, rfl⟩

/-! ## The walk to an ancestor -/

theorem expandCommit_eq_ok {expanded : Option (List ObjectId)} :
    objects.expandCommit id = .ok expanded ↔
      ∃ links, objects.Readable id .commit links ∧ expanded = some (links.drop 1) := by
  unfold expandCommit
  rw [bind_eq_ok]
  constructor
  · rintro ⟨⟨kind, links⟩, ok, rest⟩
    dsimp only at rest
    split at rest
    · cases rest
    · rename_i commit
      rw [not_not] at commit
      cases rest
      rw [commit] at ok
      exact ⟨links, kindAndLinks_eq_ok.mp ok, rfl⟩
  · rintro ⟨links, readable, rfl⟩
    refine ⟨(.commit, links), kindAndLinks_eq_ok.mpr readable, ?_⟩
    exact if_neg (not_not.mpr rfl)

theorem parentsOf_commit {links : List ObjectId} (readable : objects.Readable id .commit links) :
    objects.parentsOf id = links.drop 1 := by
  unfold parentsOf
  rw [expandCommit_eq_ok.mpr ⟨links, readable, rfl⟩]

theorem mem_parentsOf {x y : ObjectId} : y ∈ objects.parentsOf x ↔ objects.Parent x y := by
  constructor
  · intro member
    unfold parentsOf at member
    split at member
    · rename_i parents ok
      obtain ⟨links, readable, same⟩ := expandCommit_eq_ok.mp ok
      cases same
      exact ⟨links, readable, member⟩
    · cases member
  · rintro ⟨links, readable, member⟩
    rwa [parentsOf_commit readable]

theorem wandering_from {x : ObjectId} :
    (objects.wandering ancestor).From [descendant] x ↔ objects.Ancestor descendant x := by
  have same : (objects.wandering ancestor).Link = objects.Parent := by
    funext x y
    apply propext
    rw [← mem_parentsOf]
    constructor
    · rintro ⟨links, expands, member⟩
      cases expands
      exact member
    · intro member
      exact ⟨_, rfl, member⟩
  unfold Searching.From Searching.Path
  rw [same]
  constructor
  · rintro ⟨start, member, path⟩
    rw [List.mem_singleton] at member
    rwa [← member]
  · intro path
    exact ⟨descendant, List.mem_singleton_self _, path⟩

theorem Ancestor.needs {x : ObjectId} (path : objects.Ancestor root x) : objects.Needs root x := by
  have step : ∀ x y, objects.Parent x y → objects.Link x y := by
    rintro x y ⟨links, readable, member⟩
    exact ⟨.commit, links, readable, List.mem_of_mem_drop member⟩
  exact Relation.ReflTransGen.mono step _ _ path

/-- The walk that goes on ends, and stops at the ancestor when it is one. -/
theorem wandering_ends (limited : objects.WithinLimit descendant) :
    ∃ found met, search (objects.wandering ancestor) maxWalkObjects [descendant] [] =
        .ok (found, met) ∧
      objects.metOnTheWay ancestor descendant = met ∧
      (found = true ↔ objects.Ancestor descendant ancestor) := by
  obtain ⟨all, few, listed⟩ := limited
  obtain ⟨⟨found, met⟩, ok⟩ := @search_ends _ _ (objects.wandering ancestor) maxWalkObjects
    [descendant] _ all (fun x path => listed x (Ancestor.needs (wandering_from.mp path))) few
    fun x _ _ => ⟨_, rfl⟩
  refine ⟨found, met, ok, ?_, ?_⟩
  · unfold metOnTheWay
    rw [ok]
  · obtain ⟨reached, -, -, -, goals⟩ := search_reaches ok
    constructor
    · intro yes
      obtain ⟨g, isGoal, path⟩ := goals yes
      obtain rfl : g = ancestor := of_decide_eq_true isGoal
      exact wandering_from.mp path
    · intro path
      cases found with
      | true => rfl
      | false =>
          rcases search_all ok (wandering_from.mpr path) with inside | ⟨-, out⟩
          · rcases reached ancestor inside with old | ⟨-, noGoal, -⟩
            · cases old
            · exact absurd rfl (of_decide_eq_false noGoal)
          · cases out

theorem isAncestor_eq_ok {found : Bool} (limited : objects.WithinLimit descendant) :
    objects.isAncestor ancestor descendant = .ok found ↔
      (∀ x ∈ objects.metOnTheWay ancestor descendant, ∃ links, objects.Readable x .commit links) ∧
        (found = true ↔ objects.Ancestor descendant ancestor) := by
  obtain ⟨found', met, wanders, meets, finds⟩ := @wandering_ends objects ancestor descendant limited
  rw [meets]
  unfold isAncestor
  rw [map_eq_ok]
  constructor
  · rintro ⟨⟨found, visited⟩, ok, rfl⟩
    obtain ⟨reached, -⟩ := search_reaches ok
    have commits : ∀ x ∈ visited, ∃ links, objects.Readable x .commit links := by
      intro x inside
      rcases reached x inside with old | ⟨-, -, links, expands⟩
      · cases old
      · obtain ⟨links', readable, -⟩ := expandCommit_eq_ok.mp expands
        exact ⟨links', readable⟩
    have wanders' : search (objects.wandering ancestor) maxWalkObjects [descendant] [] =
        .ok (found, visited) := by
      refine search_congr ok fun x which => ?_
      rcases which with inside | ⟨-, out⟩
      · obtain ⟨links, readable⟩ := commits x inside
        rw [parentsOf_commit readable]
        exact (expandCommit_eq_ok.mpr ⟨links, readable, rfl⟩).symm
      · obtain ⟨_, _, nothing⟩ := expandCommit_eq_ok.mp out
        cases nothing
    rw [wanders] at wanders'
    cases wanders'
    exact ⟨commits, finds⟩
  · rintro ⟨commits, which⟩
    obtain rfl : found = found' := Bool.eq_iff_iff.mpr (which.trans finds.symm)
    refine ⟨(found, met), ?_, rfl⟩
    have ok : search { objects.wandering ancestor with expand := objects.expandCommit }
        maxWalkObjects [descendant] [] = .ok (found, met) := by
      refine search_congr wanders fun x which => ?_
      rcases which with inside | ⟨-, out⟩
      · obtain ⟨links, readable⟩ := commits x inside
        rw [expandCommit_eq_ok.mpr ⟨links, readable, rfl⟩]
        have parents : (objects.wandering ancestor).expand x = .ok (some (objects.parentsOf x)) := rfl
        rw [parents, parentsOf_commit readable]
      · cases out
    exact ok

/-! ## One command and all of them -/

variable {c : RefCommand}

theorem validateCommand_eq_ok {change : RefChange} :
    objects.validateCommand c = .ok change ↔
      (c.new.isNull = false → objects.Admissible c) ∧ objects.Classified c change := by
  unfold validateCommand Classified
  by_cases deletes : c.new.isNull = true
  · rw [if_pos deletes, if_pos deletes, deletes]
    constructor
    · rintro ⟨⟩
      exact ⟨nofun, rfl⟩
    · rintro ⟨-, rfl⟩
      rfl
  rw [if_neg deletes, if_neg deletes]
  constructor
  · intro ok
    obtain ⟨⟨kind, links⟩, read, ok⟩ := bind_eq_ok.mp ok
    dsimp only at ok
    have readable := kindAndLinks_eq_ok.mp read
    by_cases wrong : isTag c.name = some false ∧ kind ≠ .commit
    · rw [if_pos wrong] at ok
      cases ok
    rw [if_neg wrong] at ok
    obtain ⟨⟨⟩, walked, ok⟩ := bind_eq_ok.mp ok
    obtain ⟨complete, limited⟩ := validateReachable_eq_ok.mp walked
    have branch : isTag c.name = some false → ∃ links, objects.Readable c.new .commit links := by
      intro isBranch
      obtain rfl : kind = .commit := by
        by_contra other
        exact wrong ⟨isBranch, other⟩
      exact ⟨links, readable⟩
    by_cases creates : c.old.isNull = true
    · rw [if_pos creates] at ok ⊢
      cases ok
      refine ⟨fun _ => ⟨complete, limited, branch, fun updates => ?_⟩, rfl⟩
      rw [creates] at updates
      cases updates
    rw [if_neg creates] at ok ⊢
    by_cases tag : isTag c.name = some true
    · rw [if_pos tag] at ok ⊢
      cases ok
      exact ⟨fun _ => ⟨complete, limited, branch, fun _ other => absurd tag other⟩, rfl⟩
    rw [if_neg tag] at ok ⊢
    obtain ⟨found, decided, ok⟩ := bind_eq_ok.mp ok
    obtain ⟨commits, which⟩ := (isAncestor_eq_ok limited).mp decided
    refine ⟨fun _ => ⟨complete, limited, branch, fun _ _ => commits⟩, ?_⟩
    cases found with
    | true =>
        cases ok
        exact Or.inl ⟨rfl, which.mp rfl⟩
    | false =>
        cases ok
        exact Or.inr ⟨rfl, fun path => Bool.false_ne_true (which.mpr path)⟩
  · rintro ⟨admissible, classified⟩
    obtain ⟨complete, limited, branch, commits⟩ := admissible (Bool.eq_false_iff.mpr deletes)
    obtain ⟨kind, links, readable⟩ := complete c.new .refl
    have right : ¬(isTag c.name = some false ∧ kind ≠ .commit) := by
      rintro ⟨isBranch, other⟩
      obtain ⟨links', readable'⟩ := branch isBranch
      have first := kindAndLinks_eq_ok.mpr readable
      rw [kindAndLinks_eq_ok.mpr readable'] at first
      cases first
      exact other rfl
    rw [kindAndLinks_eq_ok.mpr readable, ok_bind]
    dsimp only
    rw [if_neg right, validateReachable_eq_ok.mpr ⟨complete, limited⟩, ok_bind]
    by_cases creates : c.old.isNull = true
    · rw [if_pos creates] at classified ⊢
      rw [classified]
      rfl
    rw [if_neg creates] at classified ⊢
    by_cases tag : isTag c.name = some true
    · rw [if_pos tag] at classified ⊢
      rw [classified]
      rfl
    rw [if_neg tag] at classified ⊢
    have met := commits (Bool.eq_false_iff.mpr creates) tag
    rcases classified with ⟨rfl, path⟩ | ⟨rfl, noPath⟩
    · have decided : objects.isAncestor c.old c.new = .ok true :=
        (isAncestor_eq_ok limited).mpr ⟨met, fun _ => path, fun _ => rfl⟩
      rw [decided]
      rfl
    · have decided : objects.isAncestor c.old c.new = .ok false :=
        (isAncestor_eq_ok limited).mpr ⟨met, nofun, fun path => absurd path noPath⟩
      rw [decided]
      rfl

/-- Each command has one change. -/
theorem classified_exists (objects : CombinedObjects) (c : RefCommand) :
    ∃ change, objects.Classified c change := by
  unfold Classified
  by_cases deletes : c.new.isNull = true
  · exact ⟨.delete, by rw [if_pos deletes]⟩
  by_cases creates : c.old.isNull = true
  · exact ⟨.create, by rw [if_neg deletes, if_pos creates]⟩
  by_cases tag : isTag c.name = some true
  · exact ⟨.tagUpdate, by rw [if_neg deletes, if_neg creates, if_pos tag]⟩
  simp only [if_neg deletes, if_neg creates, if_neg tag]
  by_cases path : objects.Ancestor c.new c.old
  · exact ⟨.fastForward, Or.inl ⟨rfl, path⟩⟩
  · exact ⟨.force, Or.inr ⟨rfl, path⟩⟩

end CombinedObjects

theorem validateProposedObjects_eq_ok {objects : CombinedObjects} {commands : List RefCommand}
    {changes : List RefChange} :
    validateProposedObjects objects commands = .ok changes ↔
      (∀ c ∈ commands, c.new.isNull = false → objects.Admissible c) ∧
        List.Forall₂ objects.Classified commands changes := by
  induction commands generalizing changes with
  | nil =>
      constructor
      · rintro ⟨⟩
        exact ⟨nofun, .nil⟩
      · rintro ⟨-, ⟨⟩⟩
        rfl
  | cons c rest ih =>
      rw [validateProposedObjects, bind_eq_ok, List.forall_mem_cons]
      constructor
      · rintro ⟨change, one, ok⟩
        obtain ⟨later, others, ok⟩ := bind_eq_ok.mp ok
        cases ok
        obtain ⟨admissible, classified⟩ := CombinedObjects.validateCommand_eq_ok.mp one
        obtain ⟨admissible', classified'⟩ := ih.mp others
        exact ⟨⟨admissible, admissible'⟩, .cons classified classified'⟩
      · rintro ⟨⟨admissible, admissible'⟩, classified⟩
        cases classified with
        | cons here later =>
            refine ⟨_, CombinedObjects.validateCommand_eq_ok.mpr ⟨admissible, here⟩, ?_⟩
            rw [ih.mpr ⟨admissible', later⟩]
            rfl

/-- **The objects of a push** are accepted exactly when, for each command that is no deletion, all
that its new value needs can be read, within the limit of the walk, a branch is at a commit, and the
walk from it to its old value meets commits only.  A branch then moves forward exactly when its old
value is an ancestor of the new one. -/
theorem validateProposedObjects_iff (objects : CombinedObjects) (commands : List RefCommand) :
    ((∃ changes, validateProposedObjects objects commands = .ok changes) ↔
      ∀ c ∈ commands, c.new.isNull = false → objects.Admissible c) ∧
    ∀ changes, validateProposedObjects objects commands = .ok changes →
      List.Forall₂ objects.Classified commands changes := by
  constructor
  · constructor
    · rintro ⟨changes, ok⟩
      exact (validateProposedObjects_eq_ok.mp ok).1
    · intro admissible
      have classified : ∃ changes, List.Forall₂ objects.Classified commands changes := by
        clear admissible
        induction commands with
        | nil => exact ⟨[], .nil⟩
        | cons c rest ih =>
            obtain ⟨change, here⟩ := objects.classified_exists c
            obtain ⟨changes, later⟩ := ih
            exact ⟨change :: changes, .cons here later⟩
      obtain ⟨changes, classified⟩ := classified
      exact ⟨changes, validateProposedObjects_eq_ok.mpr ⟨admissible, classified⟩⟩
  · intro changes ok
    exact (validateProposedObjects_eq_ok.mp ok).2

end Tit.Git
