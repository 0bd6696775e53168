/-
# Git.TreePaths -- a path looked up, and the same path in the flattened tree

`resolve_blob` follows the first entry of each name; `flatten_tree` inserts every file of the whole
tree and keeps, of those with one path, the last that it inserted.  Both are read here as functions
of the components of the path (`firstFile`, `keptFile`), by recursion on them.

They agree in every tree whose directories name each entry once.  A received tree is only parsed,
so that a directory may name two entries alike: `FirstWins` says when that makes no difference.
-/
import Tit.Git.Read
import Tit.Git.Validation

namespace Tit.Git

open Tit.Theory Tit.Store

set_option autoImplicit false

/-! ## Paths and their components -/

/-- The path of these components. -/
def pathOf (components : List Bytes) : GitPath := [slash].intercalate components

/-- No component is empty, and none has a slash. -/
def Components (components : List Bytes) : Prop := ∀ n ∈ components, n ≠ [] ∧ slash ∉ n

section Paths

variable {c c' before : List Bytes} {n : Bytes}

theorem splitOn_pathOf (flat : ∀ n ∈ c, slash ∉ n) (some : c ≠ []) :
    (pathOf c).splitOn slash = c := List.splitOn_intercalate slash flat some

theorem pathOf_splitOn (path : GitPath) : pathOf (path.splitOn slash) = path :=
  List.intercalate_splitOn slash

theorem slash_notMem_splitOn {path : GitPath} (member : n ∈ path.splitOn slash) : slash ∉ n := by
  induction path generalizing n with
  | nil =>
      rw [List.splitOn_nil, List.mem_singleton] at member
      rw [member]
      exact List.not_mem_nil
  | cons b rest ih =>
      rw [List.splitOn_cons_eq_if_modifyHead] at member
      split at member
      · rcases List.mem_cons.mp member with rfl | later
        · exact List.not_mem_nil
        · exact ih later
      · rename_i other
        cases pieces : rest.splitOn slash with
        | nil => exact absurd pieces (List.splitOn_ne_nil _ _)
        | cons first more =>
            rw [pieces, List.modifyHead_cons] at member
            rcases List.mem_cons.mp member with rfl | later
            · rw [List.mem_cons, not_or]
              refine ⟨fun same => other (beq_iff_eq.mpr same.symm), ih ?_⟩
              rw [pieces]
              exact List.mem_cons_self
            · apply ih
              rw [pieces]
              exact List.mem_cons_of_mem _ later

theorem pathOf_injective (flat : ∀ n ∈ c, slash ∉ n) (some : c ≠ []) (flat' : ∀ n ∈ c', slash ∉ n)
    (some' : c' ≠ []) : pathOf c = pathOf c' ↔ c = c' := by
  refine ⟨fun same => ?_, congrArg pathOf⟩
  rw [← splitOn_pathOf flat some, same, splitOn_pathOf flat' some']

theorem pathOf_cons_cons (m n : Bytes) : pathOf (m :: n :: c) = m ++ slash :: pathOf (n :: c) := by
  simp [pathOf, List.intercalate]

@[simp] theorem pathOf_singleton : pathOf [n] = n := by simp [pathOf, List.intercalate]

/-- The path of an entry below a directory, as `join_git_path` writes it. -/
theorem pathOf_concat (plain : Components before) :
    pathOf (before ++ [n]) = if pathOf before = [] then n else pathOf before ++ slash :: n := by
  induction before with
  | nil => simp [pathOf, List.intercalate]
  | cons m rest ih =>
      cases rest with
      | nil =>
          have some : m ≠ [] := (plain m List.mem_cons_self).1
          rw [pathOf_singleton, if_neg some, List.singleton_append, pathOf_cons_cons,
            pathOf_singleton]
      | cons k rest =>
          have below := ih fun n member => plain n (List.mem_cons_of_mem _ member)
          have some : pathOf (k :: rest) ≠ [] := by
            have first := (plain k (List.mem_cons_of_mem _ List.mem_cons_self)).1
            cases rest with
            | nil => rwa [pathOf_singleton]
            | cons j rest =>
                rw [pathOf_cons_cons]
                exact List.append_ne_nil_of_left_ne_nil first _
          rw [if_neg some] at below
          rw [List.cons_append, List.cons_append, pathOf_cons_cons, pathOf_cons_cons,
            if_neg (by simp), ← List.cons_append, below]
          simp

theorem Components.concat (plain : Components before) (some : n ≠ []) (flat : slash ∉ n) :
    Components (before ++ [n]) := by
  intro m member
  rcases List.mem_append.mp member with old | last
  · exact plain m old
  · rw [List.mem_singleton] at last
    rw [last]
    exact ⟨some, flat⟩

end Paths

/-! ## The two look-ups -/

/-- What `flatten_tree` inserts for an entry. -/
def TreeEntry.file (entry : TreeEntry) : Option TreeFile :=
  if entry.mode.isTree then none
  else if entry.mode.isBlobOrSymlink || entry.mode.isCommit then some ⟨entry.oid, entry.mode⟩
  else none

section LookUps

variable (limits : ReadLimits) (objects : Objects)

/-- The entries of a directory; none where it cannot be read. -/
def entriesOf (id : ObjectId) : List TreeEntry := ((readTree limits objects id).toOption).getD []

def firstEntry (id : ObjectId) (n : Bytes) : Option TreeEntry :=
  (entriesOf limits objects id).find? fun entry => decide (entry.filename = n)

/-- The file at the end of the first entries of each name. -/
def firstFile : List Bytes → ObjectId → Option TreeFile
  | [], _ => none
  | [n], id => (firstEntry limits objects id n).bind fun entry =>
      if entry.mode.isBlobOrSymlink then some ⟨entry.oid, entry.mode⟩ else none
  | n :: m :: rest, id => (firstEntry limits objects id n).bind fun entry =>
      if entry.mode.isTree then firstFile (m :: rest) entry.oid else none

/-- The last file that one of the entries is. -/
def lastFile (id : ObjectId) (n : Bytes) : Option TreeFile :=
  (entriesOf limits objects id).reverse.findSome? fun entry =>
    if entry.filename = n then entry.file else none

/-- The directories of one name. -/
def directories (id : ObjectId) (n : Bytes) : List TreeEntry :=
  (entriesOf limits objects id).filter fun entry => entry.mode.isTree && decide (entry.filename = n)

/-- The file that stays in the flattened tree: the last of its directory, and of the directories of
one name that of the first which has any. -/
def keptFile : List Bytes → ObjectId → Option TreeFile
  | [], _ => none
  | [n], id => lastFile limits objects id n
  | n :: m :: rest, id =>
      (directories limits objects id n).findSome? fun entry => keptFile (m :: rest) entry.oid

end LookUps

section Resolving

variable {limits : ReadLimits} {objects : Objects}

theorem entriesOf_eq {id : ObjectId} {entries : List TreeEntry}
    (read : readTree limits objects id = .ok entries) : entriesOf limits objects id = entries := by
  rw [entriesOf, read]
  rfl

theorem readTree_of_firstEntry {id : ObjectId} {n : Bytes} {entry : TreeEntry}
    (found : firstEntry limits objects id n = some entry) :
    readTree limits objects id = .ok (entriesOf limits objects id) := by
  unfold firstEntry entriesOf at *
  cases read : readTree limits objects id with
  | error error =>
      rw [read] at found
      cases found
  | ok entries => rfl

theorem resolveComponents_iff (path : GitPath) (c : List Bytes) (id : ObjectId) (file : TreeFile) :
    resolveComponents limits objects path c id = .ok (file.id, file.mode) ↔
      firstFile limits objects c id = some file := by
  have found : ∀ {id : ObjectId} {n : Bytes} {entry : TreeEntry},
      (∃ entries, readTree limits objects id = .ok entries ∧
        entries.find? (fun entry => decide (entry.filename = n)) = some entry) ↔
      firstEntry limits objects id n = some entry := by
    intro id n entry
    constructor
    · rintro ⟨entries, read, found⟩
      rwa [firstEntry, entriesOf_eq read]
    · intro found
      exact ⟨_, readTree_of_firstEntry found, found⟩
  induction c generalizing id with
  | nil => exact ⟨nofun, nofun⟩
  | cons n rest ih =>
      cases rest with
      | nil =>
          rw [resolveComponents, firstFile, Option.bind_eq_some_iff]
          simp only [bind_eq_ok, required_eq_ok, ensure_eq_ok, ne_eq,
            not_true_eq_false, if_false, pure_eq_ok, Except.ok.injEq, Prod.mk.injEq]
          constructor
          · rintro ⟨entries, read, entry, here, ⟨⟩, blob, oid, mode⟩
            refine ⟨entry, found.mp ⟨entries, read, here⟩, ?_⟩
            rw [if_pos blob, oid, mode]
          · rintro ⟨entry, here, file⟩
            obtain ⟨entries, read, here⟩ := found.mpr here
            split at file
            · cases file
              exact ⟨entries, read, entry, here, ⟨⟩, ‹_›, rfl, rfl⟩
            · cases file
      | cons m rest =>
          rw [resolveComponents, firstFile, Option.bind_eq_some_iff]
          simp only [bind_eq_ok, required_eq_ok, ensure_eq_ok, ne_eq,
            reduceCtorEq, not_false_eq_true, if_true]
          constructor
          · rintro ⟨entries, read, entry, here, ⟨⟩, tree, below⟩
            refine ⟨entry, found.mp ⟨entries, read, here⟩, ?_⟩
            rw [if_pos tree]
            exact (ih entry.oid).mp below
          · rintro ⟨entry, here, below⟩
            obtain ⟨entries, read, here⟩ := found.mpr here
            split at below
            · exact ⟨entries, read, entry, here, ⟨⟩, ‹_›, (ih entry.oid).mpr below⟩
            · cases below

/-- **`resolve_blob` finds the file at the end of the first entries.** -/
theorem resolveBlob_iff (root : ObjectId) (path : GitPath) (file : TreeFile) :
    resolveBlob limits objects root path = .ok (file.id, file.mode) ↔
      firstFile limits objects (path.splitOn slash) root = some file :=
  resolveComponents_iff path _ root file

end Resolving

/-! ## The flattened tree -/

section Flattening

variable {limits : ReadLimits} {objects : Objects} {before c : List Bytes} {id : ObjectId}

theorem lookup_insertFile (files : Files) (path q : GitPath) (file : TreeFile) :
    (insertFile files path file).lookup q =
      if q = path then some file else files.lookup q := by
  unfold insertFile
  by_cases same : q = path
  · rw [if_pos same, same, List.lookup_cons_self]
  · have others : (files.filter fun e => decide (e.1 ≠ path)).lookup q = files.lookup q := by
      induction files with
      | nil => rfl
      | cons e rest ih =>
          rw [List.filter_cons]
          split
          · rw [List.lookup_cons, List.lookup_cons, ih]
          · rename_i old
            have here : e.1 = path := by simpa using old
            rw [ih, List.lookup_cons, here, beq_false_of_ne same]
    rw [if_neg same, List.lookup_cons, beq_false_of_ne same]
    exact others

theorem findSome?_fun_none {α β : Type} (l : List α) :
    (l.findSome? fun _ => (none : Option β)) = none :=
  List.findSome?_eq_none_iff.mpr fun _ _ => rfl

theorem findSome?_filter_ite {α β : Type} (p : α → Bool) (f : α → Option β) (l : List α) :
    (l.filter p).findSome? f = l.findSome? fun x => if p x then f x else none := by
  induction l with
  | nil => rfl
  | cons x rest ih =>
      by_cases keep : p x = true
      · rw [List.filter_cons_of_pos keep, List.findSome?_cons, List.findSome?_cons, if_pos keep, ih]
      · rw [List.filter_cons_of_neg keep, List.findSome?_cons, if_neg keep, ih]

variable (limits objects) in
/-- What a directory leaves at a path. -/
def keptBelow (c : List Bytes) (directory : List Bytes × ObjectId) : Option TreeFile :=
  if directory.1 <+: c then keptFile limits objects (c.drop directory.1.length) directory.2 else none

theorem keptBelow_append (rest : List Bytes) :
    keptBelow limits objects (before ++ rest) (before, id) = keptFile limits objects rest id := by
  rw [keptBelow, if_pos (List.prefix_append _ _), List.drop_left]

theorem keptBelow_child (m n : Bytes) (rest : List Bytes) :
    keptBelow limits objects (before ++ n :: rest) (before ++ [m], id) =
      if m = n then keptFile limits objects rest id else none := by
  by_cases same : m = n
  · rw [if_pos same, same, List.append_cons, keptBelow_append]
  · rw [if_neg same, keptBelow, if_neg]
    rw [List.prefix_append_right_inj, List.cons_prefix_cons]
    exact fun inside => same inside.1

theorem keptBelow_none (apart : ¬before <+: c) : keptBelow limits objects c (before, id) = none :=
  if_neg apart

/-- The files of a directory are its own, and those of its directories.  No path is one of both. -/
theorem keptBelow_eq {entries : List TreeEntry} (read : readTree limits objects id = .ok entries) :
    keptBelow limits objects c (before, id) =
      ((entries.filter fun entry => entry.mode.isTree).findSome? fun entry =>
        keptBelow limits objects c (before ++ [entry.filename], entry.oid)).or
      (entries.reverse.findSome? fun entry =>
        if before ++ [entry.filename] = c then entry.file else none) := by
  have here := entriesOf_eq read
  by_cases inside : before <+: c
  · obtain ⟨rest, rfl⟩ := inside
    rw [keptBelow_append]
    cases rest with
    | nil =>
        have below : ∀ entry : TreeEntry,
            keptBelow limits objects (before ++ []) (before ++ [entry.filename], entry.oid) = none := by
          intro entry
          apply keptBelow_none
          intro within
          have length := within.length_le
          rw [List.length_append, List.length_append] at length
          exact absurd length (by simp)
        have own : ∀ entry : TreeEntry, ¬before ++ [entry.filename] = before ++ [] := by
          intro entry same
          exact absurd (List.append_cancel_left same) (List.cons_ne_nil _ _)
        simp only [below, own, if_false, keptFile, findSome?_fun_none, Option.or_none]
    | cons n rest =>
        simp only [keptBelow_child, List.append_cancel_left_eq]
        cases rest with
        | nil =>
            have below : ∀ entry : TreeEntry,
                (if entry.filename = n then keptFile limits objects [] entry.oid else none) = none := by
              intro entry
              split <;> rfl
            simp only [below]
            simp only [keptFile, lastFile, here, List.cons.injEq, and_true, findSome?_fun_none,
              Option.none_or]
        | cons m rest =>
            have own : ∀ entry : TreeEntry, ¬[entry.filename] = n :: m :: rest := nofun
            simp only [own, if_false, keptFile, directories, here, findSome?_fun_none,
              Option.or_none]
            rw [findSome?_filter_ite, findSome?_filter_ite]
            congr 1
            funext entry
            by_cases tree : entry.mode.isTree = true <;> simp [tree]
  · have below : ∀ entry : TreeEntry,
        keptBelow limits objects c (before ++ [entry.filename], entry.oid) = none := fun entry =>
      keptBelow_none fun within => inside ((List.prefix_append _ _).trans within)
    have own : ∀ entry : TreeEntry, ¬before ++ [entry.filename] = c := by
      rintro entry rfl
      exact inside (List.prefix_append _ _)
    rw [keptBelow_none inside]
    simp only [below, own, if_false, findSome?_fun_none, Option.or_none]

/-- What the entries of one directory add: their directories on the stack, the last on top, and
their files, the last over the others. -/
theorem flattenEntries_eq_ok {entries : List TreeEntry} {state after : Flattening}
    (plain : Components before)
    (ok : flattenEntries limits (pathOf before) entries state = .ok after) :
    (∀ entry ∈ entries, entry.filename ≠ [] ∧ slash ∉ entry.filename) ∧
    after.pending = ((entries.filter fun entry => entry.mode.isTree).map fun entry =>
      (pathOf (before ++ [entry.filename]), entry.oid)).reverse ++ state.pending ∧
    ∀ c, c ≠ [] → (∀ n ∈ c, slash ∉ n) → after.files.lookup (pathOf c) =
      (entries.reverse.findSome? fun entry =>
        if before ++ [entry.filename] = c then entry.file else none).or
        (state.files.lookup (pathOf c)) := by
  induction entries generalizing state with
  | nil =>
      cases ok
      exact ⟨nofun, rfl, fun c _ _ => rfl⟩
  | cons entry rest ih =>
      rw [flattenEntries] at ok
      obtain ⟨⟨⟩, -, ok⟩ := bind_eq_ok.mp ok
      obtain ⟨path, joined, ok⟩ := bind_eq_ok.mp ok
      obtain ⟨⟨some, -, -, flat, -⟩, same, -⟩ := (joinGitPath_eq_ok _).mp joined
      rw [← pathOf_concat plain] at same
      obtain ⟨safe, pending, files⟩ := ih ok
      have child := plain.concat some flat
      refine ⟨List.forall_mem_cons.mpr ⟨⟨some, flat⟩, safe⟩, ?_, fun c someC flatC => ?_⟩
      · rw [pending]
        by_cases tree : entry.mode.isTree = true
        · rw [if_pos tree, List.filter_cons, if_pos tree, same]
          simp
        · rw [if_neg tree, List.filter_cons, if_neg tree]
          split <;> rfl
      · rw [files c someC flatC, List.reverse_cons, List.findSome?_append, Option.or_assoc]
        congr 1
        have apart : path = pathOf c ↔ before ++ [entry.filename] = c := by
          rw [same]
          exact pathOf_injective (fun n member => (child n member).2) (by simp) flatC someC
        rw [List.findSome?_singleton, TreeEntry.file]
        by_cases tree : entry.mode.isTree = true
        · rw [if_pos tree, if_pos tree]
          simp
        · rw [if_neg tree, if_neg tree]
          split
          · rw [lookup_insertFile]
            by_cases here : before ++ [entry.filename] = c
            · rw [if_pos here, if_pos (apart.mpr here).symm]
              rfl
            · rw [if_neg here, if_neg fun path => here (apart.mp path.symm)]
              rfl
          · split <;> rfl

/-- **What the loop leaves at a path**: the directory that is read last comes first. -/
theorem flattenLoop_lookup {turns : Nat} {state : Flattening} {files : Files}
    {pending : List (List Bytes × ObjectId)} (plain : ∀ d ∈ pending, Components d.1)
    (waiting : state.pending = pending.map fun d => (pathOf d.1, d.2))
    (ok : flattenLoop limits objects turns state = .ok files) (someC : c ≠ [])
    (flat : ∀ n ∈ c, slash ∉ n) :
    files.lookup (pathOf c) = (pending.reverse.findSome? (keptBelow limits objects c)).or
      (state.files.lookup (pathOf c)) := by
  induction turns generalizing state pending with
  | zero =>
      cases pending with
      | nil =>
          rw [flattenLoop, waiting] at ok
          cases ok
          rfl
      | cons d rest =>
          rw [flattenLoop, waiting] at ok
          cases ok
  | succ turns ih =>
      cases pending with
      | nil =>
          rw [flattenLoop, waiting] at ok
          cases ok
          rfl
      | cons d rest =>
          obtain ⟨before, id⟩ := d
          rw [flattenLoop, waiting] at ok
          obtain ⟨entries, read, ok⟩ := bind_eq_ok.mp ok
          obtain ⟨after, walked, ok⟩ := bind_eq_ok.mp ok
          have here : Components before := plain _ List.mem_cons_self
          obtain ⟨safe, waiting', added⟩ := flattenEntries_eq_ok here walked
          let children := (entries.filter fun entry => entry.mode.isTree).map fun entry =>
            (before ++ [entry.filename], entry.oid)
          have plain' : ∀ d ∈ children.reverse ++ rest, Components d.1 := by
            intro d member
            rcases List.mem_append.mp member with new | old
            · obtain ⟨entry, inside, rfl⟩ := List.mem_map.mp (List.mem_reverse.mp new)
              have own := safe entry (List.mem_of_mem_filter inside)
              exact here.concat own.1 own.2
            · exact plain d (List.mem_cons_of_mem _ old)
          have stack : after.pending =
              (children.reverse ++ rest).map fun d => (pathOf d.1, d.2) := by
            rw [waiting', List.map_append, List.map_reverse, List.map_map]
            rfl
          rw [ih plain' stack ok, added c someC flat, List.reverse_append, List.reverse_reverse,
            List.findSome?_append, List.findSome?_map, List.reverse_cons, List.findSome?_append,
            List.findSome?_singleton, keptBelow_eq read]
          simp only [Option.or_assoc, Function.comp_def]

/-- **The flattened tree keeps the last file of the walk.** -/
theorem flattenTree_lookup {root : ObjectId} {files : Files}
    (ok : flattenTree limits objects root = .ok files) (path : GitPath) :
    files.lookup path = keptFile limits objects (path.splitOn slash) root := by
  let start : List (List Bytes × ObjectId) := [([], root)]
  have plain : ∀ d ∈ start, Components d.1 := List.forall_mem_singleton.mpr nofun
  have found := flattenLoop_lookup plain rfl ok (List.splitOn_ne_nil slash path)
    fun n member => slash_notMem_splitOn member
  rw [pathOf_splitOn] at found
  rw [found, List.reverse_singleton, List.findSome?_singleton,
    ← List.nil_append (path.splitOn slash), keptBelow_append, List.nil_append]
  exact Option.or_none

end Flattening

/-! ## Where the two agree -/

section Agreement

variable {limits : ReadLimits} {objects : Objects} {root id : ObjectId} {c : List Bytes}

variable (limits objects) in
/-- The directories below the root that a path leads to. -/
inductive FirstReached (root : ObjectId) : ObjectId → Prop where
  | root : FirstReached root root
  | child {id : ObjectId} {n : Bytes} {entry : TreeEntry} (above : FirstReached root id)
      (flat : slash ∉ n) (first : firstEntry limits objects id n = some entry)
      (tree : entry.mode.isTree = true) : FirstReached root entry.oid

variable (limits objects) in
/-- In this directory the names that are there twice do not matter.  Of the files of one name, the
first entry of the name and the last file are the same, unless neither of them is a file to read.
Of the directories of one name, the first that has anything at a path, if that is a file to read,
is the first entry of the name. -/
structure FirstWinsIn (id : ObjectId) : Prop where
  files : ∀ n, slash ∉ n → ∀ file : TreeFile, file.mode.isBlobOrSymlink = true →
    (lastFile limits objects id n = some file ↔
      ∃ entry, firstEntry limits objects id n = some entry ∧ file = ⟨entry.oid, entry.mode⟩)
  trees : ∀ n, slash ∉ n → ∀ (before after : List TreeEntry) (entry : TreeEntry),
    directories limits objects id n = before ++ entry :: after →
    ∀ rest, rest ≠ [] → (∀ m ∈ rest, slash ∉ m) →
      (∀ e ∈ before, keptFile limits objects rest e.oid = none) →
      ∀ file, keptFile limits objects rest entry.oid = some file →
        file.mode.isBlobOrSymlink = true → firstEntry limits objects id n = some entry

variable (limits objects) in
/-- The directories where a name that is there twice would matter are not reached. -/
def FirstWins (root : ObjectId) : Prop :=
  ∀ id, FirstReached limits objects root id → FirstWinsIn limits objects id

variable (limits objects) in
/-- The look-up of a path below a directory finds what the flattened directory has there. -/
def AgreesAt (id : ObjectId) : Prop :=
  ∀ c, c ≠ [] → (∀ n ∈ c, slash ∉ n) → ∀ file, firstFile limits objects c id = some file ↔
    keptFile limits objects c id = some file ∧ file.mode.isBlobOrSymlink = true

theorem firstEntry_spec {n : Bytes} {entry : TreeEntry}
    (first : firstEntry limits objects id n = some entry) :
    entry.filename = n ∧ entry ∈ entriesOf limits objects id := by
  refine ⟨?_, List.mem_of_find?_eq_some first⟩
  simpa using List.find?_some first

/-- The first entry of a name is the first directory of the name, when it is one. -/
theorem directories_of_first {n : Bytes} {entry : TreeEntry}
    (first : firstEntry limits objects id n = some entry) (tree : entry.mode.isTree = true) :
    ∃ more, directories limits objects id n = entry :: more := by
  obtain ⟨named, before, after, split, others⟩ := List.find?_eq_some_iff_append.mp first
  refine ⟨after.filter fun e => e.mode.isTree && decide (e.filename = n), ?_⟩
  unfold directories
  have none : (before.filter fun e => e.mode.isTree && decide (e.filename = n)) = [] := by
    rw [List.filter_eq_nil_iff]
    intro e member
    have other := others e member
    simp_all
  rw [split, List.filter_append, none, List.nil_append, List.filter_cons, tree, named]
  rfl

theorem firstFile_blob {file : TreeFile} (found : firstFile limits objects c id = some file) :
    file.mode.isBlobOrSymlink = true := by
  fun_induction firstFile limits objects c id with
  | case1 => cases found
  | case2 id n =>
      obtain ⟨entry, -, found⟩ := Option.bind_eq_some_iff.mp found
      split at found
      · cases found
        assumption
      · cases found
  | case3 id n m rest ih =>
      obtain ⟨entry, -, found⟩ := Option.bind_eq_some_iff.mp found
      split at found
      · exact ih entry found
      · cases found

/-- Where a look-up finds a file, the flattened tree has one. -/
theorem keptFile_of_firstFile {file : TreeFile} (found : firstFile limits objects c id = some file) :
    keptFile limits objects c id ≠ none := by
  fun_induction firstFile limits objects c id with
  | case1 => cases found
  | case2 id n =>
      obtain ⟨entry, first, found⟩ := Option.bind_eq_some_iff.mp found
      obtain ⟨named, member⟩ := firstEntry_spec first
      rw [keptFile, lastFile]
      intro none
      have own := List.findSome?_eq_none_iff.mp none entry (List.mem_reverse.mpr member)
      rw [if_pos named] at own
      split at found
      · rename_i blob
        rw [TreeEntry.file, (isBlobOrSymlink_only blob).1, blob] at own
        cases own
      · cases found
  | case3 id n m rest ih =>
      obtain ⟨entry, first, found⟩ := Option.bind_eq_some_iff.mp found
      split at found
      · rename_i tree
        obtain ⟨more, listed⟩ := directories_of_first first tree
        rw [keptFile, listed]
        intro none
        exact ih entry found (List.findSome?_eq_none_iff.mp none entry List.mem_cons_self)
      · cases found

theorem firstFile_below {n : Bytes} {entry : TreeEntry} {rest : List Bytes}
    (first : firstEntry limits objects id n = some entry) (tree : entry.mode.isTree = true)
    (some : rest ≠ []) :
    firstFile limits objects (n :: rest) id = firstFile limits objects rest entry.oid := by
  cases rest with
  | nil => exact absurd rfl some
  | cons m rest =>
      rw [firstFile, first]
      exact if_pos tree

theorem keptFile_below {n : Bytes} {rest : List Bytes} (some : rest ≠ []) :
    keptFile limits objects (n :: rest) id =
      (directories limits objects id n).findSome? fun entry =>
        keptFile limits objects rest entry.oid := by
  cases rest with
  | nil => exact absurd rfl some
  | cons m rest => rw [keptFile]

/-- What holds at a directory holds at those that are first of their name in it. -/
theorem AgreesAt.below (agrees : AgreesAt limits objects id) {n : Bytes} {entry : TreeEntry}
    (flat : slash ∉ n) (first : firstEntry limits objects id n = some entry)
    (tree : entry.mode.isTree = true) : AgreesAt limits objects entry.oid := by
  intro c some clean file
  have whole : ∀ m ∈ n :: c, slash ∉ m := List.forall_mem_cons.mpr ⟨flat, clean⟩
  have here := agrees (n :: c) (List.cons_ne_nil _ _) whole file
  obtain ⟨more, listed⟩ := directories_of_first first tree
  rw [firstFile_below first tree some, keptFile_below some, listed, List.findSome?_cons] at here
  constructor
  · intro found
    obtain ⟨kept, blob⟩ := here.mp found
    refine ⟨?_, blob⟩
    cases own : keptFile limits objects c entry.oid with
    | none => exact absurd own (keptFile_of_firstFile found)
    | some file' =>
        rw [own] at kept
        exact kept
  · rintro ⟨kept, blob⟩
    apply here.mpr
    rw [kept]
    exact ⟨rfl, blob⟩

theorem AgreesAt.firstWinsIn (agrees : AgreesAt limits objects id) :
    FirstWinsIn limits objects id := by
  constructor
  · intro n flat file blob
    have here := agrees [n] (List.cons_ne_nil _ _) (List.forall_mem_singleton.mpr flat) file
    rw [keptFile, firstFile, Option.bind_eq_some_iff] at here
    constructor
    · intro kept
      obtain ⟨entry, first, found⟩ := here.mpr ⟨kept, blob⟩
      split at found
      · cases found
        exact ⟨entry, first, rfl⟩
      · cases found
    · rintro ⟨entry, first, rfl⟩
      exact (here.mp ⟨entry, first, if_pos blob⟩).1
  · intro n flat before after entry listed rest some clean none file kept blob
    have whole : ∀ m ∈ n :: rest, slash ∉ m := List.forall_mem_cons.mpr ⟨flat, clean⟩
    have here := agrees (n :: rest) (List.cons_ne_nil _ _) whole file
    have shown : keptFile limits objects (n :: rest) id = .some file := by
      rw [keptFile_below some, listed, List.findSome?_append,
        List.findSome?_eq_none_iff.mpr none, List.findSome?_cons, kept]
      rfl
    have found := here.mpr ⟨shown, blob⟩
    -- the first entry of the name is a directory, and the flattened tree finds something in it
    obtain ⟨m, more, rfl⟩ := List.exists_cons_of_ne_nil some
    rw [firstFile, Option.bind_eq_some_iff] at found
    obtain ⟨first, isFirst, found⟩ := found
    split at found
    · rename_i tree
      obtain ⟨others, listed'⟩ := directories_of_first isFirst tree
      rw [listed] at listed'
      cases before with
      | nil =>
          cases listed'
          exact isFirst
      | cons e before =>
          cases listed'
          exact absurd (none _ List.mem_cons_self) (keptFile_of_firstFile found)
    · cases found

theorem agreesAt_of_firstWins (wins : FirstWins limits objects root)
    (reached : FirstReached limits objects root id) : AgreesAt limits objects id := by
  intro c
  induction c generalizing id with
  | nil => exact fun some => absurd rfl some
  | cons n rest ih =>
      intro _ clean file
      rw [List.forall_mem_cons] at clean
      obtain ⟨flat, clean⟩ := clean
      have here := wins id reached
      cases rest with
      | nil =>
          rw [keptFile, firstFile, Option.bind_eq_some_iff]
          constructor
          · rintro ⟨entry, first, found⟩
            split at found
            · rename_i blob
              cases found
              exact ⟨(here.files n flat ⟨entry.oid, entry.mode⟩ blob).mpr ⟨entry, first, rfl⟩, blob⟩
            · cases found
          · rintro ⟨kept, blob⟩
            obtain ⟨entry, first, rfl⟩ := (here.files n flat file blob).mp kept
            exact ⟨entry, first, if_pos blob⟩
      | cons m rest =>
          have some : m :: rest ≠ [] := List.cons_ne_nil _ _
          constructor
          · intro found
            have blob := firstFile_blob found
            rw [firstFile, Option.bind_eq_some_iff] at found
            obtain ⟨entry, first, found⟩ := found
            split at found
            · rename_i tree
              obtain ⟨more, listed⟩ := directories_of_first first tree
              have below := (ih (reached.child flat first tree) some clean file).mp found
              rw [keptFile, listed, List.findSome?_cons, below.1]
              exact ⟨rfl, blob⟩
            · cases found
          · rintro ⟨kept, blob⟩
            rw [keptFile] at kept
            obtain ⟨before, entry, after, listed, shown, none⟩ :=
              List.findSome?_eq_some_iff.mp kept
            have first := here.trees n flat before after entry listed (m :: rest) some clean none
              file shown blob
            have tree : entry.mode.isTree = true := by
              have member : entry ∈ directories limits objects id n := by
                rw [listed]
                exact List.mem_append_right _ List.mem_cons_self
              have kind := (List.mem_filter.mp member).2
              rw [Bool.and_eq_true] at kind
              exact kind.1
            rw [firstFile_below first tree some]
            exact (ih (reached.child flat first tree) some clean file).mpr ⟨shown, blob⟩

theorem agreesAt_iff : AgreesAt limits objects root ↔ FirstWins limits objects root := by
  constructor
  · intro agrees id reached
    suffices here : AgreesAt limits objects id from here.firstWinsIn
    induction reached with
    | root => exact agrees
    | child _ flat first tree ih => exact ih.below flat first tree
  · exact fun wins => agreesAt_of_firstWins wins .root

/-- Directories that name each entry once are no obstacle. -/
theorem firstWins_of_distinct
    (distinct : ∀ id, FirstReached limits objects root id →
      ((entriesOf limits objects id).map TreeEntry.filename).Nodup) :
    FirstWins limits objects root := by
  intro id reached
  have only : ∀ {n : Bytes} {entry : TreeEntry}, entry ∈ entriesOf limits objects id →
      entry.filename = n → firstEntry limits objects id n = some entry := by
    intro n entry member named
    cases first : firstEntry limits objects id n with
    | none =>
        have other := List.find?_eq_none.mp first entry member
        exact absurd (decide_eq_true named) other
    | some entry' =>
        obtain ⟨named', member'⟩ := firstEntry_spec first
        rw [List.inj_on_of_nodup_map (distinct id reached) member' member (named'.trans named.symm)]
  have last : ∀ {n : Bytes} {file : TreeFile}, lastFile limits objects id n = some file →
      ∃ entry, firstEntry limits objects id n = some entry ∧ file = ⟨entry.oid, entry.mode⟩ := by
    intro n file kept
    obtain ⟨_, entry, _, listed, shown, _⟩ := List.findSome?_eq_some_iff.mp kept
    have member : entry ∈ entriesOf limits objects id := by
      rw [← List.mem_reverse, listed]
      exact List.mem_append_right _ List.mem_cons_self
    split at shown
    · rename_i named
      refine ⟨entry, only member named, ?_⟩
      unfold TreeEntry.file at shown
      split at shown
      · cases shown
      · split at shown <;> cases shown
        rfl
    · cases shown
  refine ⟨fun n flat file blob => ⟨last, ?_⟩, ?_⟩
  · rintro ⟨entry, first, rfl⟩
    have some : lastFile limits objects id n ≠ none := by
      have found : firstFile limits objects [n] id = .some ⟨entry.oid, entry.mode⟩ := by
        rw [firstFile, first]
        exact if_pos blob
      exact keptFile_of_firstFile found
    obtain ⟨file, kept⟩ := Option.ne_none_iff_exists'.mp some
    obtain ⟨entry', first', rfl⟩ := last kept
    rw [first] at first'
    cases first'
    exact kept
  · intro n _ before after entry listed _ _ _ _ _ _ _
    have member : entry ∈ directories limits objects id n := by
      rw [listed]
      exact List.mem_append_right _ List.mem_cons_self
    obtain ⟨inside, kind⟩ := List.mem_filter.mp member
    rw [Bool.and_eq_true, decide_eq_true_eq] at kind
    exact only inside kind.2

/-- **A path is looked up to what the flattened tree has there, for every path, exactly if no
repeated name matters.** -/
theorem lookups_agree_iff {files : Files} (flattened : flattenTree limits objects root = .ok files) :
    (∀ path id mode, resolveBlob limits objects root path = .ok (id, mode) ↔
      files.lookup path = some ⟨id, mode⟩ ∧ mode.isBlobOrSymlink = true) ↔
    FirstWins limits objects root := by
  rw [← agreesAt_iff]
  constructor
  · intro agree c some clean file
    have here := agree (pathOf c) file.id file.mode
    rwa [resolveBlob_iff, flattenTree_lookup flattened, splitOn_pathOf clean some] at here
  · intro agrees path id mode
    have here := agrees (path.splitOn slash) (List.splitOn_ne_nil _ _)
      (fun n member => slash_notMem_splitOn member) ⟨id, mode⟩
    rwa [← resolveBlob_iff, ← flattenTree_lookup flattened] at here

end Agreement

/-! ## One name twice -/

/-- The object as the push finds it.  The reader does not know what a tag points to. -/
def GitObject.stored : GitObject → Option StoredObject
  | .commit size parsed => some ⟨size, .commit (parsed.toOption.map fun c => (c.1, c.2.1))⟩
  | .tree size parsed =>
      some ⟨size, .tree (parsed.toOption.map fun entries => entries.map fun e => (e.mode, e.oid))⟩
  | .blob data => some ⟨data.length, .blob⟩
  | .tag => none

def received (objects : Objects) : CombinedObjects where
  repository id := .ok ((objects id).bind GitObject.stored)
  bundle := none

/-- A tree with the entries given, and two files. -/
def treeOf (entries : List TreeEntry) : Objects := fun id =>
  if id = ⟨10⟩ then some (.tree (30 * entries.length) (.ok entries))
  else if id = ⟨20⟩ then some (.blob (asciiBytes "one"))
  else if id = ⟨21⟩ then some (.blob (asciiBytes "two"))
  else none

def fileEntry (name : String) (id : ObjectId) : TreeEntry := ⟨⟨0o100644⟩, asciiBytes name, id⟩

def oneNameTwice : Objects := treeOf [fileEntry "a" ⟨20⟩, fileEntry "a" ⟨21⟩]

theorem oneNameTwice_accepted : (received oneNameTwice).validateReachable ⟨10⟩ = .ok () := by
  rw [CombinedObjects.validateReachable_eq_ok]
  have root : (received oneNameTwice).kindAndLinks ⟨10⟩ = .ok (.tree, [⟨20⟩, ⟨21⟩]) := by
    decide
  have one : (received oneNameTwice).kindAndLinks ⟨20⟩ = .ok (.blob, []) := by decide
  have two : (received oneNameTwice).kindAndLinks ⟨21⟩ = .ok (.blob, []) := by decide
  have inside : ∀ x, (received oneNameTwice).Needs ⟨10⟩ x → x = ⟨10⟩ ∨ x = ⟨20⟩ ∨ x = ⟨21⟩ := by
    intro x path
    induction path with
    | refl => exact .inl rfl
    | tail _ link ih =>
        obtain ⟨kind, links, readable, member⟩ := link
        have read := CombinedObjects.kindAndLinks_eq_ok.mpr readable
        rcases ih with rfl | rfl | rfl
        · rw [root] at read
          cases read
          rw [List.mem_cons, List.mem_singleton] at member
          exact .inr member
        · rw [one] at read
          cases read
          cases member
        · rw [two] at read
          cases read
          cases member
  refine ⟨fun x path => ?_, [⟨10⟩, ⟨20⟩, ⟨21⟩], by decide, fun x path => by simpa using inside x path⟩
  rcases inside x path with rfl | rfl | rfl
  · exact ⟨_, _, CombinedObjects.kindAndLinks_eq_ok.mp root⟩
  · exact ⟨_, _, CombinedObjects.kindAndLinks_eq_ok.mp one⟩
  · exact ⟨_, _, CombinedObjects.kindAndLinks_eq_ok.mp two⟩

/-- **The look-up finds the first file of a name, the flattened tree has the last.** -/
theorem oneNameTwice_differs :
    (received oneNameTwice).validateReachable ⟨10⟩ = .ok () ∧
    ∃ files, flattenTree .default oneNameTwice ⟨10⟩ = .ok files ∧
      resolveBlob .default oneNameTwice ⟨10⟩ (asciiBytes "a") = .ok (⟨20⟩, ⟨0o100644⟩) ∧
      files.lookup (asciiBytes "a") = some ⟨⟨21⟩, ⟨0o100644⟩⟩ ∧
      ¬∀ path id mode, resolveBlob .default oneNameTwice ⟨10⟩ path = .ok (id, mode) ↔
        files.lookup path = some ⟨id, mode⟩ ∧ mode.isBlobOrSymlink = true := by
  have flattened : flattenTree .default oneNameTwice ⟨10⟩ =
      .ok [(asciiBytes "a", ⟨⟨21⟩, ⟨0o100644⟩⟩)] := by decide
  have resolved : resolveBlob .default oneNameTwice ⟨10⟩ (asciiBytes "a") =
      .ok (⟨20⟩, ⟨0o100644⟩) := by
    refine (resolveBlob_iff ⟨10⟩ (asciiBytes "a") ⟨⟨20⟩, ⟨0o100644⟩⟩).mpr ?_
    decide
  refine ⟨oneNameTwice_accepted, _, flattened, resolved, by decide, fun agree => ?_⟩
  obtain ⟨found, -⟩ := (agree _ _ _).mp resolved
  revert found
  decide

def twoNames : Objects := treeOf [fileEntry "a" ⟨20⟩, fileEntry "b" ⟨21⟩]

theorem twoNames_agree :
    ∃ files, flattenTree .default twoNames ⟨10⟩ = .ok files ∧
      ∀ path id mode, resolveBlob .default twoNames ⟨10⟩ path = .ok (id, mode) ↔
        files.lookup path = some ⟨id, mode⟩ ∧ mode.isBlobOrSymlink = true := by
  have flattened : flattenTree .default twoNames ⟨10⟩ =
      .ok [(asciiBytes "b", ⟨⟨21⟩, ⟨0o100644⟩⟩), (asciiBytes "a", ⟨⟨20⟩, ⟨0o100644⟩⟩)] := by
    decide
  have files : ∀ entry ∈ entriesOf .default twoNames ⟨10⟩, entry.mode.isTree = false := by
    decide
  refine ⟨_, flattened, (lookups_agree_iff flattened).mpr (firstWins_of_distinct ?_)⟩
  intro id reached
  have root : id = ⟨10⟩ := by
    induction reached with
    | root => rfl
    | child _ _ first tree ih =>
        subst ih
        rw [files _ (firstEntry_spec first).2] at tree
        cases tree
  subst root
  decide

end Tit.Git
