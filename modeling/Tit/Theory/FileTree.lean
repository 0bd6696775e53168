/-
# Theory.FileTree -- a directory and what is created below it

A tree says for every path, a list of names, whether there is a file or a directory.  The
root is a directory and every node lies in one, so a node cannot be built without its
parents.  `create` adds one node, where nothing is, in a directory that exists;
`createParents` makes each directory on the way to a path, as far as it is missing.
-/
import Mathlib.Data.List.Induction

namespace Tit.Theory

set_option autoImplicit false

inductive IoError where
  | alreadyExists
  | other
  deriving DecidableEq, Repr

inductive Node (Content : Type) where
  | directory
  | file (content : Content)
  deriving DecidableEq, Repr

@[ext] structure FileTree (Name Content : Type) where
  node : List Name → Option (Node Content)
  root : node [] = some .directory
  parents : ∀ path name, (node (path ++ [name])).isSome = true → node path = some .directory

namespace FileTree

variable {Name Content : Type}

/-- Nothing below the root. -/
def empty : FileTree Name Content where
  node path := if path = [] then some .directory else none
  root := if_pos rfl
  parents path name found := by simp at found

/-- What is left when everything below the root is removed. -/
def removeContents (t : FileTree Name Content) : FileTree Name Content where
  node path := if path = [] then t.node [] else none
  root := (if_pos rfl).trans t.root
  parents path name found := by simp at found

@[simp] theorem removeContents_eq (t : FileTree Name Content) : t.removeContents = empty := by
  have nodes : t.removeContents.node = (empty : FileTree Name Content).node := by
    funext path
    simp only [removeContents, empty, t.root]
  exact FileTree.ext nodes

variable [DecidableEq Name] [DecidableEq Content] (t : FileTree Name Content)

/-- A new node in a directory. -/
def add (path : List Name) (name : Name) (n : Node Content)
    (inside : t.node path = some .directory) (free : t.node (path ++ [name]) = none) :
    FileTree Name Content where
  node q := if q = path ++ [name] then some n else t.node q
  root := by simpa using t.root
  parents q name' found := by
    split at found
    · rename_i same
      have : q = path := List.append_inj_left' same rfl
      subst this
      simpa using inside
    · have isDirectory := t.parents q name' found
      rw [if_neg, isDirectory]
      rintro rfl
      rw [free] at isDirectory
      cases isDirectory

def create (path : List Name) (name : Name) (n : Node Content) :
    Except IoError (FileTree Name Content) :=
  if inside : t.node path = some .directory then
    if free : t.node (path ++ [name]) = none then .ok (t.add path name n inside free)
    else .error .alreadyExists
  else .error .other

/-- Make the directories of `rest` below the directory `path`; one that exists is kept. -/
def createParents : FileTree Name Content → List Name → List Name →
    FileTree Name Content × Option IoError
  | t, _, [] => (t, none)
  | t, path, name :: rest =>
      match t.create path name .directory with
      | .ok t => createParents t (path ++ [name]) rest
      | .error .alreadyExists => createParents t (path ++ [name]) rest
      | .error error => (t, some error)

variable {t} {t' : FileTree Name Content} {path : List Name} {name : Name} {n : Node Content}

theorem create_eq_ok (ok : t.create path name n = .ok t') :
    t.node path = some .directory ∧ t.node (path ++ [name]) = none ∧
      ∀ q, t'.node q = if q = path ++ [name] then some n else t.node q := by
  unfold create at ok
  split at ok
  · split at ok
    · cases ok
      exact ⟨‹_›, ‹_›, fun _ => rfl⟩
    · cases ok
  · cases ok

theorem create_of (inside : t.node path = some .directory)
    (free : t.node (path ++ [name]) = none) :
    ∃ t', t.create path name n = .ok t' ∧
      ∀ q, t'.node q = if q = path ++ [name] then some n else t.node q := by
  refine ⟨t.add path name n inside free, ?_, fun _ => rfl⟩
  unfold create
  rw [dif_pos inside, dif_pos free]

theorem create_occupied (inside : t.node path = some .directory)
    (occupied : t.node (path ++ [name]) ≠ none) :
    t.create path name n = .error .alreadyExists := by
  unfold create
  rw [dif_pos inside, dif_neg occupied]

theorem create_exists (ok : t.create path name n = .error .alreadyExists) :
    (t.node (path ++ [name])).isSome = true := by
  unfold create at ok
  split at ok
  · split at ok
    · cases ok
    · exact Option.isSome_iff_ne_none.mpr ‹_›
  · cases ok

/-! ## Making the parents -/

/-- The second tree has, besides the nodes of the first, only directories on the way to a
path. -/
structure Parents (t t' : FileTree Name Content) (path : List Name) : Prop where
  kept : ∀ q n, t.node q = some n → t'.node q = some n
  new : ∀ q n, t'.node q = some n → t.node q = some n ∨ (n = .directory ∧ q <+: path)

omit [DecidableEq Name] [DecidableEq Content] in
theorem Parents.refl (t : FileTree Name Content) (path : List Name) : Parents t t path :=
  ⟨fun _ _ => id, fun _ _ => Or.inl⟩

theorem createParents_spec (t : FileTree Name Content) (path rest : List Name) :
    Parents t (createParents t path rest).1 (path ++ rest) := by
  induction rest generalizing t path with
  | nil => exact .refl _ _
  | cons name rest ih =>
      rw [← List.singleton_append, ← List.append_assoc]
      simp only [List.singleton_append, createParents]
      split
      · rename_i t₁ created
        obtain ⟨-, free, nodes⟩ := create_eq_ok created
        have later := ih t₁ (path ++ [name])
        refine ⟨fun q n found => later.kept q n ?_, fun q n found => ?_⟩
        · rw [nodes, if_neg, found]
          rintro rfl
          rw [free] at found
          cases found
        · rcases later.new q n found with old | added
          · rw [nodes] at old
            split at old
            · rename_i here
              cases old
              exact Or.inr ⟨rfl, here ▸ List.prefix_append _ _⟩
            · exact Or.inl old
          · exact Or.inr added
      · exact ih t (path ++ [name])
      · exact .refl _ _

/-- The parents can be made where no file is in the way. -/
theorem createParents_succeeds (t : FileTree Name Content) (path rest : List Name)
    (start : t.node path = some .directory)
    (clear : ∀ q, q <+: path ++ rest → ∀ c, t.node q ≠ some (.file c)) :
    (createParents t path rest).2 = none ∧
      (createParents t path rest).1.node (path ++ rest) = some .directory := by
  induction rest generalizing t path with
  | nil => exact ⟨rfl, by rw [List.append_nil]; exact start⟩
  | cons name rest ih =>
      have split : path ++ name :: rest = path ++ [name] ++ rest := by simp
      rw [split] at clear ⊢
      have here : path ++ [name] <+: path ++ [name] ++ rest := List.prefix_append _ _
      unfold createParents
      cases found : t.node (path ++ [name]) with
      | none =>
          obtain ⟨t₁, created, nodes⟩ := create_of (n := (.directory : Node Content)) start found
          rw [created]
          refine ih t₁ _ (by rw [nodes, if_pos rfl]) fun q within c => ?_
          rw [nodes]
          split
          · exact nofun
          · exact clear q within c
      | some n =>
          have isDirectory : n = .directory := by
            cases n with
            | directory => rfl
            | file c => exact absurd found (clear _ here c)
          have occupied : t.node (path ++ [name]) ≠ none := by
            rw [found]
            exact nofun
          rw [create_occupied start occupied]
          exact ih t _ (by rw [found, isDirectory]) clear

end FileTree

end Tit.Theory
