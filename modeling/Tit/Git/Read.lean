/-
# Git.Read -- commits, trees and differences

`RepositoryReadService` reads the objects of a repository within limits.  A tree is walked in
two ways: `resolve_blob` follows a path from entry to entry, and `flatten_tree` collects every
file below a root.  A comparison shows what a head has that its merge base with a base has not.

The merge base, the merge of two commits and the hunks of a unified diff come from a library
and are the fields of `Gix`.
-/
import Tit.Store.Rows.PullRequest
import Tit.Theory.Outcome
import Tit.Theory.Text
import Mathlib.Data.List.Sort

namespace Tit.Git

open Tit.Theory Tit.Store

set_option autoImplicit false

abbrev Bytes := List UInt8

/-! ## Objects -/

/-- The mode of a tree entry, as Git stores it. -/
structure EntryMode where
  value : Nat
  deriving DecidableEq, Repr

namespace EntryMode

/-- The bits that say what kind of thing an entry is. -/
def format (mode : EntryMode) : Nat := mode.value / 0o10000 * 0o10000

def isTree (mode : EntryMode) : Bool := decide (mode.format = 0o040000)
def isLink (mode : EntryMode) : Bool := decide (mode.format = 0o120000)
def isCommit (mode : EntryMode) : Bool := decide (mode.format = 0o160000)
def isBlob (mode : EntryMode) : Bool := decide (mode.format = 0o100000)
def isBlobOrSymlink (mode : EntryMode) : Bool := mode.isBlob || mode.isLink

end EntryMode

/-- The kinds of an entry exclude each other. -/
theorem isBlobOrSymlink_only {mode : EntryMode} (file : mode.isBlobOrSymlink = true) :
    mode.isTree = false ∧ mode.isCommit = false := by
  simp only [EntryMode.isBlobOrSymlink, EntryMode.isTree, EntryMode.isBlob, EntryMode.isLink,
    EntryMode.isCommit, Bool.or_eq_true, decide_eq_true_eq] at file ⊢
  rcases file with blob | link
  · rw [blob]
    decide
  · rw [link]
    decide

structure TreeEntry where
  mode : EntryMode
  filename : Bytes
  oid : ObjectId
  deriving DecidableEq, Repr

inductive ReadError where
  | objectNotFound (id : ObjectId)
  | wrongObjectKind
  | limit (what : String)
  | invalidPath
  | pathNotFound (path : GitPath)
  | notTree (path : GitPath)
  | notBlob (path : GitPath)
  | unsafeTreeEntry (name : Bytes)
  | damagedObject
  | git
  deriving DecidableEq, Repr

structure CommitInfo where
  id : ObjectId
  tree : ObjectId
  parents : List ObjectId
  message : Bytes
  deriving DecidableEq, Repr

/-- An object, with the size of its data and what the parser of its kind makes of them. -/
inductive GitObject where
  | commit (size : Nat) (parsed : Except ReadError (ObjectId × List ObjectId × Bytes))
  | tree (size : Nat) (parsed : Except ReadError (List TreeEntry))
  | blob (data : Bytes)
  | tag

/-- The objects that a repository has. -/
abbrev Objects := ObjectId → Option GitObject

structure ReadLimits where
  maxHistoryCommits : Nat
  maxPathBytes : Nat
  maxTreeBytes : Nat
  maxTreeEntries : Nat
  maxCommitBytes : Nat
  maxBlobBytes : Nat
  maxDiffBytes : Nat

def ReadLimits.default : ReadLimits where
  maxHistoryCommits := 10000
  maxPathBytes := 4096
  maxTreeBytes := 16 * 1024 * 1024
  maxTreeEntries := 100000
  maxCommitBytes := 1024 * 1024
  maxBlobBytes := 16 * 1024 * 1024
  maxDiffBytes := 64 * 1024 * 1024

section Objects

variable (limits : ReadLimits) (objects : Objects)

def readCommit (id : ObjectId) : Except ReadError CommitInfo := do
  match ← required (objects id) (.objectNotFound id) with
  | .commit size parsed =>
      ensure (size ≤ limits.maxCommitBytes) (.limit "commit bytes")
      let (tree, parents, message) ← parsed
      pure { id, tree, parents, message }
  | _ => throw .wrongObjectKind

def readTree (id : ObjectId) : Except ReadError (List TreeEntry) := do
  match ← required (objects id) (.objectNotFound id) with
  | .tree size parsed =>
      ensure (size ≤ limits.maxTreeBytes) (.limit "tree bytes")
      parsed
  | _ => throw .wrongObjectKind

def readBlob (id : ObjectId) : Except ReadError Bytes := do
  match ← required (objects id) (.objectNotFound id) with
  | .blob data =>
      ensure (data.length ≤ limits.maxBlobBytes) (.limit "blob bytes")
      pure data
  | _ => throw .wrongObjectKind

variable {limits objects} in
theorem readBlob_eq_ok {id : ObjectId} {data : Bytes} (ok : readBlob limits objects id = .ok data) :
    objects id = some (.blob data) := by
  unfold readBlob at ok
  rw [bind_eq_ok] at ok
  obtain ⟨object, found, ok⟩ := ok
  cases object with
  | blob stored =>
      simp only [bind_eq_ok, ensure_eq_ok, pure_eq_ok, Except.ok.injEq] at ok
      obtain ⟨_, -, rfl⟩ := ok
      exact required_eq_ok.mp found
  | _ => cases ok

/-! ## Paths -/

def slash : UInt8 := 47

def dot : Bytes := [46]

def dotDot : Bytes := [46, 46]

def validatePath (path : GitPath) : Except ReadError Unit := do
  ensure (path ≠ []) .invalidPath
  ensure (path.length ≤ limits.maxPathBytes) (.limit "path bytes")
  ensure (path.head? ≠ some slash ∧ path.getLast? ≠ some slash ∧ (0 : UInt8) ∉ path ∧
    ∀ component ∈ path.splitOn slash, component ≠ [] ∧ component ≠ dot ∧ component ≠ dotDot)
    .invalidPath

def joinGitPath (start name : Bytes) : Except ReadError GitPath := do
  ensure (name ≠ [] ∧ name ≠ dot ∧ name ≠ dotDot ∧ slash ∉ name ∧ (0 : UInt8) ∉ name)
    (.unsafeTreeEntry name)
  let path := if start = [] then name else start ++ slash :: name
  ensure (path.length ≤ limits.maxPathBytes) (.limit "path bytes")
  pure path

theorem joinGitPath_eq_ok {start name : Bytes} {path : GitPath} :
    joinGitPath limits start name = .ok path ↔
      (name ≠ [] ∧ name ≠ dot ∧ name ≠ dotDot ∧ slash ∉ name ∧ (0 : UInt8) ∉ name) ∧
      path = (if start = [] then name else start ++ slash :: name) ∧
      path.length ≤ limits.maxPathBytes := by
  unfold joinGitPath
  simp only [bind_eq_ok, ensure_eq_ok, pure_eq_ok, Except.ok.injEq]
  constructor
  · rintro ⟨⟨⟩, safe, ⟨⟩, short, rfl⟩
    exact ⟨safe, rfl, short⟩
  · rintro ⟨safe, rfl, short⟩
    exact ⟨⟨⟩, safe, ⟨⟩, short, rfl⟩

/-! ## A path from entry to entry -/

/-- The loop of `resolve_blob` over the components of the path. -/
def resolveComponents (path : GitPath) : List Bytes → ObjectId →
    Except ReadError (ObjectId × EntryMode)
  | [], _ => throw (.notBlob path)
  | component :: rest, treeId => do
      let entries ← readTree limits objects treeId
      let entry ← required (entries.find? fun entry => decide (entry.filename = component))
        (.pathNotFound path)
      if rest ≠ [] then
        ensure (entry.mode.isTree = true) (.notTree path)
        resolveComponents path rest entry.oid
      else
        ensure (entry.mode.isBlobOrSymlink = true) (.notBlob path)
        pure (entry.oid, entry.mode)

def resolveBlob (root : ObjectId) (path : GitPath) : Except ReadError (ObjectId × EntryMode) :=
  resolveComponents limits objects path (path.splitOn slash) root

/-- The data of `RepositoryReadService::blob`. -/
def blob (commit : ObjectId) (path : GitPath) : Except ReadError Bytes := do
  validatePath limits path
  let commit ← readCommit limits objects commit
  let (id, _) ← resolveBlob limits objects commit.tree path
  readBlob limits objects id

/-! ## All files of a tree -/

structure TreeFile where
  id : ObjectId
  mode : EntryMode
  deriving DecidableEq, Repr

/-- The `BTreeMap` from paths to files. -/
abbrev Files := List (GitPath × TreeFile)

def insertFile (files : Files) (path : GitPath) (file : TreeFile) : Files :=
  (path, file) :: files.filter fun e => decide (e.1 ≠ path)

structure Flattening where
  files : Files
  /-- The trees that wait, the next one first. -/
  pending : List (GitPath × ObjectId)
  entries : Nat

/-- The loop over the entries of one tree. -/
def flattenEntries (start : GitPath) : List TreeEntry → Flattening → Except ReadError Flattening
  | [], state => pure state
  | entry :: rest, state => do
      let entries := state.entries + 1
      ensure (entries ≤ limits.maxTreeEntries) (.limit "tree entries")
      let path ← joinGitPath limits start entry.filename
      let state :=
        if entry.mode.isTree then
          { state with entries, pending := (path, entry.oid) :: state.pending }
        else if entry.mode.isBlobOrSymlink || entry.mode.isCommit then
          { state with entries, files := insertFile state.files path ⟨entry.oid, entry.mode⟩ }
        else { state with entries }
      flattenEntries start rest state

/-- The loop over the trees.  Each tree but the first was counted as an entry, so that there is
one turn for each entry that the limit allows, and one for the root. -/
def flattenLoop : Nat → Flattening → Except ReadError Files
  | 0, state =>
      match state.pending with
      | [] => pure state.files
      | _ => throw (.limit "tree entries")
  | turns + 1, state =>
      match state.pending with
      | [] => pure state.files
      | (start, treeId) :: pending => do
          let entries ← readTree limits objects treeId
          let state ← flattenEntries limits start entries { state with pending }
          flattenLoop turns state

def flattenTree (root : ObjectId) : Except ReadError Files :=
  flattenLoop limits objects (limits.maxTreeEntries + 1)
    { files := [], pending := [([], root)], entries := 0 }

/-! ## Histories -/

/-- The loop of `history_with_budget`; `turns` is how many commits the limit leaves. -/
def historyLoop : Nat → List ObjectId → List ObjectId → List CommitInfo →
    Except ReadError (List CommitInfo)
  | turns, pending, seen, history =>
      match pending.dropWhile fun id => decide (id ∈ seen) with
      | [] => pure history
      | id :: pending =>
          match turns with
          | 0 => throw (.limit "history commits")
          | turns + 1 => do
              let commit ← readCommit limits objects id
              historyLoop turns (pending ++ commit.parents) (id :: seen) (history ++ [commit])

def historyWithBudget (start : ObjectId) : Except ReadError (List CommitInfo) :=
  historyLoop limits objects limits.maxHistoryCommits [start] [] []

end Objects

/-! ## Differences -/

inductive LineKind where
  | context
  | deletion
  | addition
  deriving DecidableEq, Repr

/-- A hunk of a unified diff. -/
structure Hunk where
  oldStart : Nat
  oldCount : Nat
  newStart : Nat
  newCount : Nat
  lines : List (LineKind × Bytes)
  deriving DecidableEq, Repr

def LineKind.marker : LineKind → UInt8
  | .context => 32
  | .deletion => 45
  | .addition => 43

namespace Hunk

open Text

/-- `@@ -a,b +c,d @@` -/
def header (h : Hunk) : Bytes :=
  [64, 64, 32, 45] ++ decimal h.oldStart ++ 44 :: decimal h.oldCount ++ [32, 43] ++
    decimal h.newStart ++ 44 :: decimal h.newCount ++ [32, 64, 64]

def contentLine (line : LineKind × Bytes) : Bytes := line.1.marker :: line.2

def textLines (h : Hunk) : List Bytes := h.header :: h.lines.map contentLine

/-- The lines of the old and of the new file in the hunk. -/
def oldLines (h : Hunk) : List Bytes :=
  (h.lines.filter fun l => decide (l.1 ≠ .addition)).map Prod.snd

def newLines (h : Hunk) : List Bytes :=
  (h.lines.filter fun l => decide (l.1 ≠ .deletion)).map Prod.snd

end Hunk

/-- What the library is asked. -/
structure Gix where
  mergeBase : ObjectId → ObjectId → Except ReadError (Option ObjectId)
  hunks : Bytes → Bytes → List Hunk
  /-- The merge of two commits leaves conflicts. -/
  conflicts : ObjectId → ObjectId → Except ReadError Bool

/-- Each line of a hunk, and its header, is followed by a newline. -/
def unifiedDiff (gix : Gix) (old new : Bytes) : Bytes :=
  Text.unlines ((gix.hunks old new).flatMap Hunk.textLines)

structure DiffFile where
  path : GitPath
  oldId : Option ObjectId
  newId : Option ObjectId
  oldMode : Option EntryMode
  newMode : Option EntryMode
  binary : Bool
  hunks : Bytes
  oldData : Option Bytes
  newData : Option Bytes
  deriving DecidableEq, Repr

inductive Mergeability where
  | unrelated
  | alreadyMerged
  | fastForward
  | clean
  | conflicting
  deriving DecidableEq, Repr

structure Comparison where
  mergeBase : Option ObjectId
  commits : List CommitInfo
  changedPaths : List GitPath
  files : List DiffFile
  mergeability : Mergeability
  deriving DecidableEq, Repr

section Differences

variable (limits : ReadLimits) (objects : Objects) (gix : Gix)

def diffBlob : Option TreeFile → Except ReadError Bytes
  | none => pure []
  | some file => if file.mode.isCommit then pure [] else readBlob limits objects file.id

def checkedAdd (current additional : Nat) (what : String) : Except ReadError Nat := do
  ensure (current + additional ≤ limits.maxDiffBytes) (.limit what)
  pure (current + additional)

def isBinary (old new : Option TreeFile) (oldData newData : Bytes) : Bool :=
  old.any (·.mode.isCommit) || new.any (·.mode.isCommit) || decide ((0 : UInt8) ∈ oldData) ||
    decide ((0 : UInt8) ∈ newData)

/-- One turn of the loop, for a path whose files differ. -/
def diffFile (path : GitPath) (old new : Option TreeFile) (bytes : Nat) :
    Except ReadError (DiffFile × Nat) := do
  let oldData ← diffBlob limits objects old
  let newData ← diffBlob limits objects new
  let bytes ← checkedAdd limits bytes oldData.length "diff bytes"
  let bytes ← checkedAdd limits bytes newData.length "diff bytes"
  let binary := isBinary old new oldData newData
  let hunks := if binary then [] else unifiedDiff gix oldData newData
  let bytes ← checkedAdd limits bytes hunks.length "diff bytes"
  pure
    ({ path, oldId := old.map (·.id), newId := new.map (·.id), oldMode := old.map (·.mode),
       newMode := new.map (·.mode), binary, hunks, oldData := old.map fun _ => oldData,
       newData := new.map fun _ => newData }, bytes)

/-- The loop over the paths. -/
def diffPaths (oldFiles newFiles : Files) : List GitPath → Nat → Except ReadError (List DiffFile)
  | [], _ => pure []
  | path :: rest, bytes => do
      let old := oldFiles.lookup path
      let new := newFiles.lookup path
      if old = new then diffPaths oldFiles newFiles rest bytes
      else
        let (file, bytes) ← diffFile limits objects gix path old new bytes
        let files ← diffPaths oldFiles newFiles rest bytes
        pure (file :: files)

/-- The paths of both trees, each once and in order. -/
def allPaths (oldFiles newFiles : Files) : List GitPath :=
  ((oldFiles ++ newFiles).map Prod.fst).dedup.insertionSort (· ≤ ·)

/-- `diff_trees_with_budget`; the old tree may be the empty one. -/
def diffTrees (oldTree : Option ObjectId) (newTree : ObjectId) :
    Except ReadError (List DiffFile) := do
  let oldFiles ← match oldTree with
    | none => pure []
    | some tree => flattenTree limits objects tree
  let newFiles ← flattenTree limits objects newTree
  diffPaths limits objects gix oldFiles newFiles (allPaths oldFiles newFiles) 0

def diffCommits (oldCommit newCommit : ObjectId) : Except ReadError (List DiffFile) := do
  let old ← readCommit limits objects oldCommit
  let new ← readCommit limits objects newCommit
  diffTrees limits objects gix (some old.tree) new.tree

/-- The bytes of the messages, within the limit. -/
def countMessages : List CommitInfo → Nat → Except ReadError Nat
  | [], bytes => pure bytes
  | commit :: rest, bytes => do
      let bytes ← checkedAdd limits bytes commit.message.length "comparison output bytes"
      countMessages rest bytes

def mergeabilityOf (baseCommit headCommit : ObjectId) (baseIds headIds : List ObjectId) :
    Option ObjectId → Except ReadError Mergeability
  | none => pure .unrelated
  | some mergeBase =>
      if headCommit ∈ baseIds then pure .alreadyMerged
      else if baseCommit ∈ headIds then pure .fastForward
      else do
        let _ ← diffCommits limits objects gix mergeBase baseCommit
        if ← gix.conflicts baseCommit headCommit then pure .conflicting else pure .clean

def comparison (baseCommit headCommit : ObjectId) : Except ReadError Comparison := do
  let baseHistory ← historyWithBudget limits objects baseCommit
  let headHistory ← historyWithBudget limits objects headCommit
  ensure (baseHistory.length + headHistory.length ≤ limits.maxHistoryCommits)
    (.limit "comparison commits")
  let baseIds := baseHistory.map (·.id)
  let headIds := headHistory.map (·.id)
  let first ← required headHistory.head? (.objectNotFound headCommit)
  let mergeBase ← gix.mergeBase baseCommit headCommit
  let commits := headHistory.filter fun commit => decide (commit.id ∉ baseIds)
  let _ ← countMessages limits commits 0
  let files ← match mergeBase with
    | some mergeBase => diffCommits limits objects gix mergeBase headCommit
    | none => diffTrees limits objects gix none first.tree
  let mergeability ← mergeabilityOf limits objects gix baseCommit headCommit baseIds headIds
    mergeBase
  pure { mergeBase, commits, changedPaths := files.map (·.path), files, mergeability }

end Differences

end Tit.Git
