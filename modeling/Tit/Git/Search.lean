/-
# Git.Search -- the lines of a commit that contain a text

`search` goes through the files of a commit in the order of their paths and through the lines of
each, and stops at the match for which there is no room.  So its matches are a first part of all
matches, and the flag says whether it is a proper one (`searchFiles_eq_ok`).

The budget of time ends a search only with an error; it is left out, as in `Git.Read`.
-/
import Tit.Git.TreePaths

namespace Tit.Git

open Tit.Theory Tit.Store

set_option autoImplicit false

structure SearchLimits extends ReadLimits where
  maxSearchFiles : Nat
  maxSearchBytes : Nat
  maxSearchResults : Nat
  maxSearchQueryBytes : Nat

def SearchLimits.default : SearchLimits where
  toReadLimits := .default
  maxSearchFiles := 10000
  maxSearchBytes := 64 * 1024 * 1024
  maxSearchResults := 500
  maxSearchQueryBytes := 256

inductive SearchError where
  | invalidSearchQuery
  | read (error : ReadError)
  deriving DecidableEq, Repr

structure SearchMatch where
  path : GitPath
  lineNumber : Nat
  line : Bytes
  deriving DecidableEq, Repr

structure SearchOutcome where
  commit : ObjectId
  found : List SearchMatch
  filesScanned : Nat
  bytesScanned : Nat
  truncated : Bool
  deriving DecidableEq, Repr

/-! ## The search -/

/-- One of the windows of the haystack is the needle. -/
def containsBytes (haystack needle : Bytes) : Bool :=
  (List.range (haystack.length + 1 - needle.length)).any fun start =>
    decide ((haystack.drop start).take needle.length = needle)

/-- `line.strip_suffix(b"\r").unwrap_or(line)` -/
def withoutReturn (line : Bytes) : Bytes := if line.getLast? = some 13 then line.dropLast else line

/-- The match of a line, when it contains the query. -/
def lineMatch (path : GitPath) (query : Bytes) (line : Bytes × Nat) : Option SearchMatch :=
  if containsBytes line.1 query then
    some { path, lineNumber := line.2 + 1, line := withoutReturn line.1 }
  else none

/-- The loop over the lines of a file; the flag says that it broke off both loops. -/
def searchLines (path : GitPath) (query : Bytes) (maxSearchResults : Nat) :
    List (Bytes × Nat) → List SearchMatch → List SearchMatch × Bool
  | [], found => (found, false)
  | line :: rest, found =>
      match lineMatch path query line with
      | none => searchLines path query maxSearchResults rest found
      | some m =>
          if found.length = maxSearchResults then (found, true)
          else searchLines path query maxSearchResults rest (found ++ [m])

/-- The size in the header of an object.  That of a tag is not kept: a tag fails as no blob. -/
def GitObject.headerSize : GitObject → Nat
  | .commit size _ => size
  | .tree size _ => size
  | .blob data => data.length
  | .tag => 0

def linesOf (data : Bytes) : List (Bytes × Nat) := (data.splitOn Text.newline).zipIdx

section Search

variable (limits : SearchLimits) (objects : Objects)

/-- The loop over the files. -/
def searchFiles (query : Bytes) : Files → SearchOutcome → Except ReadError SearchOutcome
  | [], outcome => pure outcome
  | (path, file) :: rest, outcome =>
      if file.mode.isCommit then searchFiles query rest outcome
      else do
        let filesScanned := outcome.filesScanned + 1
        ensure (filesScanned ≤ limits.maxSearchFiles) (.limit "search files")
        let object ← required (objects file.id) .git
        let bytesScanned := outcome.bytesScanned + object.headerSize
        ensure (bytesScanned ≤ limits.maxSearchBytes) (.limit "search bytes")
        let data ← readBlob limits.toReadLimits objects file.id
        if (0 : UInt8) ∈ data then
          searchFiles query rest { outcome with filesScanned, bytesScanned }
        else
          let (found, truncated) :=
            searchLines path query limits.maxSearchResults (linesOf data) outcome.found
          let outcome := { outcome with found, filesScanned, bytesScanned, truncated }
          if truncated then pure outcome else searchFiles query rest outcome

/-- The `BTreeMap` of the files, from its first path to its last. -/
def inOrder (files : Files) : Files := files.insertionSort fun e f => e.1 ≤ f.1

def searchCommit (commit : ObjectId) (query : Bytes) : Except ReadError SearchOutcome := do
  let info ← readCommit limits.toReadLimits objects commit
  let files ← flattenTree limits.toReadLimits objects info.tree
  searchFiles limits objects query (inOrder files)
    { commit, found := [], filesScanned := 0, bytesScanned := 0, truncated := false }

def RepositoryReadService.search (commit : ObjectId) (query : Bytes) :
    Except SearchError SearchOutcome := do
  ensure (query ≠ [] ∧ (0 : UInt8) ∉ query) .invalidSearchQuery
  ensure (query.length ≤ limits.maxSearchQueryBytes) (.read (.limit "search query bytes"))
  (searchCommit limits objects commit query).mapError .read

end Search

/-! ## A line -/

section Lines

variable {path : GitPath} {query : Bytes} {limit : Nat} {found : List SearchMatch}

theorem containsBytes_iff {haystack needle : Bytes} :
    containsBytes haystack needle = true ↔ needle <:+: haystack := by
  unfold containsBytes
  simp only [List.any_eq_true, List.mem_range, decide_eq_true_eq]
  constructor
  · rintro ⟨start, -, window⟩
    refine ⟨haystack.take start, (haystack.drop start).drop needle.length, ?_⟩
    have rest := List.take_append_drop needle.length (haystack.drop start)
    rw [window] at rest
    rw [List.append_assoc, rest, List.take_append_drop]
  · rintro ⟨before, after, rfl⟩
    refine ⟨before.length, ?_, ?_⟩
    · simp only [List.length_append]
      omega
    · rw [List.append_assoc, List.drop_left, List.take_left]

/-- The loop keeps what there is room for, and breaks off where there is more. -/
theorem searchLines_eq (lines : List (Bytes × Nat)) (few : found.length ≤ limit) :
    searchLines path query limit lines found =
      ((found ++ lines.filterMap (lineMatch path query)).take limit,
        decide (limit < (found ++ lines.filterMap (lineMatch path query)).length)) := by
  induction lines generalizing found with
  | nil =>
      rw [List.filterMap_nil, List.append_nil, List.take_of_length_le few,
        decide_eq_false (by omega)]
      rfl
  | cons line lines ih =>
      rw [searchLines, List.filterMap_cons]
      cases lineMatch path query line with
      | none => exact ih few
      | some m =>
          dsimp only
          by_cases full : found.length = limit
          · rw [if_pos full, List.take_left' full, decide_eq_true]
            rw [List.length_append, List.length_cons]
            omega
          · have more : (found ++ [m]).length ≤ limit := by
              rw [List.length_append, List.length_singleton]
              omega
            rw [if_neg full, ih more, List.append_assoc, List.singleton_append]

theorem lineMatch_eq_some {line : Bytes × Nat} {m : SearchMatch} :
    lineMatch path query line = some m ↔
      query <:+: line.1 ∧ m = { path, lineNumber := line.2 + 1, line := withoutReturn line.1 } := by
  unfold lineMatch
  by_cases inside : containsBytes line.1 query = true
  · rw [if_pos inside, Option.some.injEq]
    exact ⟨fun same => ⟨containsBytes_iff.mp inside, same.symm⟩, fun same => same.2.symm⟩
  · rw [if_neg inside]
    exact ⟨nofun, fun same => absurd (containsBytes_iff.mpr same.1) inside⟩

end Lines

/-! ## All matches -/

/-- The order of the matches: by their paths, then by their lines. -/
def SearchMatch.Before (m m' : SearchMatch) : Prop :=
  m.path < m'.path ∨ m.path = m'.path ∧ m.lineNumber < m'.lineNumber

/-- All matches of a file. -/
def fileMatches (objects : Objects) (query : Bytes) (e : GitPath × TreeFile) : List SearchMatch :=
  if e.2.mode.isCommit then []
  else
    match objects e.2.id with
    | some (.blob data) =>
        if (0 : UInt8) ∈ data then [] else (linesOf data).filterMap (lineMatch e.1 query)
    | _ => []

section Files

variable {limits : SearchLimits} {objects : Objects} {query : Bytes} {files : Files}
  {outcome result : SearchOutcome} {m : SearchMatch} {e : GitPath × TreeFile}

theorem fileMatches_of_data {data : Bytes} (file : e.2.mode.isCommit ≠ true)
    (stored : objects e.2.id = some (.blob data)) :
    fileMatches objects query e =
      if (0 : UInt8) ∈ data then [] else (linesOf data).filterMap (lineMatch e.1 query) := by
  rw [fileMatches, if_neg file, stored]

theorem mem_fileMatches : m ∈ fileMatches objects query e ↔
    e.2.mode.isCommit ≠ true ∧ m.path = e.1 ∧ ∃ data raw, objects e.2.id = some (.blob data) ∧
      (0 : UInt8) ∉ data ∧ 0 < m.lineNumber ∧
      (data.splitOn Text.newline)[m.lineNumber - 1]? = some raw ∧ query <:+: raw ∧
      m.line = withoutReturn raw := by
  constructor
  · intro member
    by_cases submodule : e.2.mode.isCommit = true
    · rw [fileMatches, if_pos submodule] at member
      cases member
    · rw [fileMatches, if_neg submodule] at member
      split at member
      · rename_i data stored
        split at member
        · cases member
        · rename_i text
          obtain ⟨⟨raw, index⟩, listed, found⟩ := List.mem_filterMap.mp member
          obtain ⟨inside, rfl⟩ := lineMatch_eq_some.mp found
          exact ⟨submodule, rfl, data, raw, stored, text, Nat.succ_pos _,
            List.mem_zipIdx_iff_getElem?.mp listed, inside, rfl⟩
      · cases member
  · rintro ⟨file, path, data, raw, stored, text, positive, listed, inside, line⟩
    rw [fileMatches_of_data file stored, if_neg text]
    refine List.mem_filterMap.mpr ⟨(raw, m.lineNumber - 1), List.mem_zipIdx_iff_getElem?.mpr listed,
      lineMatch_eq_some.mpr ⟨inside, ?_⟩⟩
    have number : m.lineNumber - 1 + 1 = m.lineNumber := by omega
    dsimp only
    rw [number, ← path, ← line]

/-- **The outcome holds the first matches of all.** -/
theorem searchFiles_eq_ok (ok : searchFiles limits objects query files outcome = .ok result)
    (few : outcome.found.length ≤ limits.maxSearchResults) (whole : outcome.truncated = false) :
    result.found = (outcome.found ++ files.flatMap (fileMatches objects query)).take
      limits.maxSearchResults ∧
    result.truncated = decide (limits.maxSearchResults <
      (outcome.found ++ files.flatMap (fileMatches objects query)).length) := by
  induction files generalizing outcome with
  | nil =>
      cases ok
      rw [List.flatMap_nil, List.append_nil, List.take_of_length_le few, whole,
        decide_eq_false (by omega)]
      exact ⟨rfl, rfl⟩
  | cons e rest ih =>
      obtain ⟨path, file⟩ := e
      rw [searchFiles] at ok
      rw [List.flatMap_cons]
      by_cases submodule : file.mode.isCommit = true
      · rw [if_pos submodule] at ok
        rw [fileMatches, if_pos submodule]
        exact ih ok few whole
      · rw [if_neg submodule] at ok
        obtain ⟨-, -, ok⟩ := bind_eq_ok.mp ok
        obtain ⟨object, -, ok⟩ := bind_eq_ok.mp ok
        obtain ⟨-, -, ok⟩ := bind_eq_ok.mp ok
        obtain ⟨data, read, ok⟩ := bind_eq_ok.mp ok
        have here : fileMatches objects query (path, file) = _ :=
          fileMatches_of_data (e := (path, file)) submodule (readBlob_eq_ok read)
        rw [here]
        by_cases binary : (0 : UInt8) ∈ data
        · rw [if_pos binary] at ok ⊢
          have later := ih ok few whole
          exact later
        · rw [if_neg binary] at ok ⊢
          rw [searchLines_eq _ few] at ok
          dsimp only at ok
          generalize (linesOf data).filterMap (lineMatch path query) = own at ok ⊢
          by_cases more : limits.maxSearchResults < (outcome.found ++ own).length
          · rw [if_pos (decide_eq_true more)] at ok
            cases ok
            rw [← List.append_assoc, List.take_append_of_le_length more.le]
            refine ⟨rfl, ?_⟩
            rw [decide_eq_true more, decide_eq_true]
            rw [List.length_append]
            omega
          · rw [if_neg (by simpa using more)] at ok
            have short : (outcome.found ++ own).length ≤ limits.maxSearchResults := by omega
            rw [List.take_of_length_le short, decide_eq_false more] at ok
            rw [← List.append_assoc]
            exact ih ok short rfl

/-! The paths, each once. -/

theorem insertFile_distinct (path : GitPath) (file : TreeFile)
    (distinct : (files.map Prod.fst).Nodup) :
    ((insertFile files path file).map Prod.fst).Nodup := by
  unfold insertFile
  rw [List.map_cons, List.nodup_cons]
  refine ⟨fun member => ?_, distinct.sublist (List.filter_sublist.map _)⟩
  obtain ⟨e, kept, same⟩ := List.mem_map.mp member
  exact of_decide_eq_true (List.mem_filter.mp kept).2 same

theorem flattenEntries_distinct {limits : ReadLimits} {start : GitPath} {entries : List TreeEntry}
    {state after : Flattening} (ok : flattenEntries limits start entries state = .ok after)
    (distinct : (state.files.map Prod.fst).Nodup) : (after.files.map Prod.fst).Nodup := by
  induction entries generalizing state with
  | nil =>
      cases ok
      exact distinct
  | cons entry rest ih =>
      rw [flattenEntries] at ok
      obtain ⟨-, -, ok⟩ := bind_eq_ok.mp ok
      obtain ⟨path, -, ok⟩ := bind_eq_ok.mp ok
      refine ih ok ?_
      split
      · exact distinct
      · split
        · exact insertFile_distinct _ _ distinct
        · exact distinct

theorem flattenLoop_distinct {limits : ReadLimits} {turns : Nat} {state : Flattening}
    (ok : flattenLoop limits objects turns state = .ok files)
    (distinct : (state.files.map Prod.fst).Nodup) : (files.map Prod.fst).Nodup := by
  induction turns generalizing state with
  | zero =>
      rw [flattenLoop] at ok
      split at ok
      · cases ok
        exact distinct
      · cases ok
  | succ turns ih =>
      rw [flattenLoop] at ok
      split at ok
      · cases ok
        exact distinct
      · obtain ⟨entries, -, ok⟩ := bind_eq_ok.mp ok
        obtain ⟨after, walked, ok⟩ := bind_eq_ok.mp ok
        exact ih ok (flattenEntries_distinct walked distinct)

theorem mem_inOrder (distinct : (files.map Prod.fst).Nodup) (path : GitPath) (file : TreeFile) :
    (path, file) ∈ inOrder files ↔ files.lookup path = some file := by
  rw [inOrder, List.mem_insertionSort, List.lookup_eq_some_iff]
  constructor
  · intro member
    obtain ⟨first, last, rfl⟩ := List.append_of_mem member
    refine ⟨first, last, rfl, fun e before => ?_⟩
    rw [List.map_append, List.map_cons, List.nodup_append] at distinct
    rw [bne_iff_ne]
    exact (distinct.2.2 _ (List.mem_map_of_mem before) _ List.mem_cons_self).symm
  · rintro ⟨first, last, rfl, -⟩
    exact List.mem_append_right _ List.mem_cons_self

theorem inOrder_ascending (distinct : (files.map Prod.fst).Nodup) :
    (inOrder files).Pairwise fun e f => e.1 < f.1 := by
  have total : Std.Total fun e f : GitPath × TreeFile => e.1 ≤ f.1 :=
    ⟨fun e f => List.le_total e.1 f.1⟩
  have trans : IsTrans (GitPath × TreeFile) fun e f => e.1 ≤ f.1 :=
    ⟨fun _ _ _ first second => List.le_trans first second⟩
  have sorted : (inOrder files).Pairwise fun e f => e.1 ≤ f.1 := List.pairwise_insertionSort _ _
  have apart : (inOrder files).Pairwise fun e f => e.1 ≠ f.1 := by
    refine (List.Perm.pairwise_iff (fun {_ _} apart => Ne.symm apart)
      (List.perm_insertionSort _ _)).mpr ?_
    exact List.pairwise_map.mp distinct
  exact (sorted.and apart).imp fun ⟨le, ne⟩ => (List.le_iff_lt_or_eq.mp le).resolve_right ne

theorem fileMatches_ascending : (fileMatches objects query e).Pairwise SearchMatch.Before := by
  unfold fileMatches
  split
  · exact .nil
  · split
    · split
      · exact .nil
      · rename_i data _ _
        have numbered : (linesOf data).Pairwise fun line line' => line.2 < line'.2 := by
          rw [List.pairwise_iff_getElem]
          intro i j _ _ less
          simp only [linesOf, List.getElem_zipIdx]
          exact Nat.add_lt_add_left less 0
        refine List.Pairwise.filterMap _ (fun line line' less m found m' found' => ?_) numbered
        obtain ⟨-, rfl⟩ := lineMatch_eq_some.mp found
        obtain ⟨-, rfl⟩ := lineMatch_eq_some.mp found'
        exact .inr ⟨rfl, Nat.succ_lt_succ less⟩
    · exact .nil

theorem allMatches_ascending (distinct : (files.map Prod.fst).Nodup) :
    ((inOrder files).flatMap (fileMatches objects query)).Pairwise SearchMatch.Before := by
  refine List.pairwise_flatMap.mpr ⟨fun e _ => fileMatches_ascending, ?_⟩
  refine (inOrder_ascending distinct).imp fun {e f} less m here m' there => .inl ?_
  rw [(mem_fileMatches.mp here).2.1, (mem_fileMatches.mp there).2.1]
  exact less

end Files

/-! ## The files of a tree -/

section Trees

variable {limits : ReadLimits} {objects : Objects} {id root : ObjectId} {c : List Bytes}
  {file : TreeFile}

variable (limits objects) in
/-- An entry of the tree is this file, below directories of these names. -/
def HasFile : List Bytes → ObjectId → TreeFile → Prop
  | [], _, _ => False
  | [n], id, file => ∃ entry ∈ entriesOf limits objects id, entry.filename = n ∧
      entry.file = some file
  | n :: m :: rest, id, file => ∃ entry ∈ entriesOf limits objects id, entry.filename = n ∧
      entry.mode.isTree = true ∧ HasFile (m :: rest) entry.oid file

theorem hasFile_of_keptFile (kept : keptFile limits objects c id = some file) :
    HasFile limits objects c id file := by
  fun_induction keptFile limits objects c id with
  | case1 => cases kept
  | case2 n id =>
      obtain ⟨entry, member, found⟩ := List.exists_of_findSome?_eq_some kept
      rw [List.mem_reverse] at member
      by_cases named : entry.filename = n
      · rw [if_pos named] at found
        exact ⟨entry, member, named, found⟩
      · rw [if_neg named] at found
        cases found
  | case3 n m rest id ih =>
      obtain ⟨entry, member, found⟩ := List.exists_of_findSome?_eq_some kept
      rw [directories, List.mem_filter, Bool.and_eq_true, decide_eq_true_eq] at member
      exact ⟨entry, member.1, member.2.2, member.2.1, ih entry found⟩

/-- Where the tree has a file, one is kept. -/
theorem keptFile_of_hasFile (has : HasFile limits objects c id file) :
    ∃ file', keptFile limits objects c id = some file' := by
  fun_induction HasFile limits objects c id file with
  | case1 => exact has.elim
  | case2 n id file =>
      obtain ⟨entry, member, named, found⟩ := has
      refine Option.isSome_iff_exists.mp (List.findSome?_isSome_iff.mpr
        ⟨entry, List.mem_reverse.mpr member, ?_⟩)
      rw [if_pos named, found]
      rfl
  | case3 n m rest id file ih =>
      obtain ⟨entry, member, named, tree, has⟩ := has
      obtain ⟨file', kept⟩ := ih entry has
      refine Option.isSome_iff_exists.mp (List.findSome?_isSome_iff.mpr ⟨entry, ?_, ?_⟩)
      · rw [directories, List.mem_filter, Bool.and_eq_true, decide_eq_true_eq]
        exact ⟨member, tree, named⟩
      · rw [kept]
        rfl

end Trees

/-! ## The outcome -/

/-- A line of a text file that a tree keeps contains the query. -/
def Occurs (limits : ReadLimits) (objects : Objects) (root : ObjectId) (query : Bytes)
    (m : SearchMatch) : Prop :=
  ∃ file data raw, keptFile limits objects (m.path.splitOn slash) root = some file ∧
    file.mode.isBlobOrSymlink = true ∧ objects file.id = some (.blob data) ∧ (0 : UInt8) ∉ data ∧
    0 < m.lineNumber ∧ (data.splitOn Text.newline)[m.lineNumber - 1]? = some raw ∧
    query <:+: raw ∧ m.line = withoutReturn raw

theorem blobOrSymlink_of_hasFile {limits : ReadLimits} {objects : Objects} {c : List Bytes}
    {id : ObjectId} {file : TreeFile} (has : HasFile limits objects c id file) :
    file.mode.isBlobOrSymlink = true ∨ file.mode.isCommit = true := by
  fun_induction HasFile limits objects c id file with
  | case1 => exact has.elim
  | case2 n id file =>
      obtain ⟨entry, -, -, found⟩ := has
      rw [TreeEntry.file] at found
      split at found
      · cases found
      · split at found
        · rename_i kind
          cases found
          exact Bool.or_eq_true_iff.mp kind
        · cases found
  | case3 n m rest id file ih =>
      obtain ⟨entry, -, -, -, has⟩ := has
      exact ih entry has

/-- **A search finds the first of all lines that contain the query**, in the order of the paths and
then of the lines, and says whether there are more. -/
theorem search_eq_ok {limits : SearchLimits} {objects : Objects} {commit : ObjectId} {query : Bytes}
    {outcome : SearchOutcome}
    (ok : RepositoryReadService.search limits objects commit query = .ok outcome) :
    ∃ (info : CommitInfo) (all : List SearchMatch),
      readCommit limits.toReadLimits objects commit = .ok info ∧
      (∀ m, m ∈ all ↔ Occurs limits.toReadLimits objects info.tree query m) ∧
      all.Pairwise SearchMatch.Before ∧
      outcome.found = all.take limits.maxSearchResults ∧
      (outcome.truncated = true ↔ limits.maxSearchResults < all.length) ∧
      (∀ c file, keptFile limits.toReadLimits objects c info.tree = some file →
        HasFile limits.toReadLimits objects c info.tree file) ∧
      ∀ c file, HasFile limits.toReadLimits objects c info.tree file →
        ∃ file', keptFile limits.toReadLimits objects c info.tree = some file' := by
  simp only [RepositoryReadService.search, bind_eq_ok, ensure_eq_ok] at ok
  obtain ⟨-, -, -, -, ok⟩ := ok
  cases searched : searchCommit limits objects commit query with
  | error error =>
      rw [searched] at ok
      cases ok
  | ok result =>
      rw [searched] at ok
      cases ok
      obtain ⟨info, read, ok⟩ := bind_eq_ok.mp searched
      obtain ⟨files, flat, ok⟩ := bind_eq_ok.mp ok
      obtain ⟨found, truncated⟩ := searchFiles_eq_ok ok (Nat.zero_le _) rfl
      have distinct : (files.map Prod.fst).Nodup := flattenLoop_distinct flat List.nodup_nil
      rw [List.nil_append] at found truncated
      refine ⟨info, _, read, fun m => ?_, allMatches_ascending distinct, found, ?_,
        fun c file => hasFile_of_keptFile, fun c file => keptFile_of_hasFile⟩
      · rw [List.mem_flatMap]
        constructor
        · rintro ⟨⟨path, file⟩, member, here⟩
          obtain ⟨blob, rfl, data, raw, stored, text, line⟩ := mem_fileMatches.mp here
          rw [mem_inOrder distinct, flattenTree_lookup flat] at member
          exact ⟨file, data, raw, member, (blobOrSymlink_of_hasFile (hasFile_of_keptFile
            member)).resolve_right blob, stored, text, line⟩
        · rintro ⟨file, data, raw, kept, blob, stored, text, line⟩
          have file' : file.mode.isCommit ≠ true := by
            rw [(isBlobOrSymlink_only blob).2]
            exact Bool.false_ne_true
          exact ⟨(m.path, file), (mem_inOrder distinct _ _).mpr
            ((flattenTree_lookup flat _).trans kept),
            mem_fileMatches.mpr ⟨file', rfl, data, raw, stored, text, line⟩⟩
      · rw [truncated, decide_eq_true_eq]

/-! ## A carriage return, and one name twice -/

/-- A commit with the tree given. -/
def commitOf (objects : Objects) : Objects := fun id =>
  if id = ⟨1⟩ then some (.commit 100 (.ok (⟨10⟩, [], []))) else objects id

def withReturn : Objects := fun id =>
  if id = ⟨22⟩ then some (.blob (asciiBytes "x\r\ny")) else treeOf [fileEntry "a" ⟨22⟩] id

theorem twoNames_found :
    ∃ (info : CommitInfo) (all : List SearchMatch),
      readCommit .default (commitOf twoNames) ⟨1⟩ = .ok info ∧
      (∀ m, m ∈ all ↔ Occurs .default (commitOf twoNames) info.tree (asciiBytes "o") m) ∧
      all.Pairwise SearchMatch.Before ∧
      [⟨asciiBytes "a", 1, asciiBytes "one"⟩, ⟨asciiBytes "b", 1, asciiBytes "two"⟩] =
        all.take SearchLimits.default.maxSearchResults ∧
      ¬SearchLimits.default.maxSearchResults < all.length := by
  have searched : RepositoryReadService.search .default (commitOf twoNames) ⟨1⟩ (asciiBytes "o") =
      .ok ⟨⟨1⟩, [⟨asciiBytes "a", 1, asciiBytes "one"⟩, ⟨asciiBytes "b", 1, asciiBytes "two"⟩], 2, 6,
        false⟩ := by
    decide
  obtain ⟨info, all, read, members, ascending, first, more, -⟩ := search_eq_ok searched
  exact ⟨info, all, read, members, ascending, first,
    fun long => Bool.false_ne_true (more.mpr long)⟩

/-- **The line that a match shows need not contain the query, and a file may be left out**: a line
is searched with the carriage return that its match does not show, and of two files with one path
only the last is searched. -/
theorem search_differs :
    (RepositoryReadService.search .default (commitOf withReturn) ⟨1⟩ [13] =
        .ok ⟨⟨1⟩, [⟨asciiBytes "a", 1, asciiBytes "x"⟩], 1, 4, false⟩ ∧
      ¬[13] <:+: asciiBytes "x") ∧
    RepositoryReadService.search .default (commitOf oneNameTwice) ⟨1⟩ (asciiBytes "o") =
        .ok ⟨⟨1⟩, [⟨asciiBytes "a", 1, asciiBytes "two"⟩], 1, 3, false⟩ ∧
      HasFile .default (commitOf oneNameTwice) [asciiBytes "a"] ⟨10⟩ ⟨⟨20⟩, ⟨0o100644⟩⟩ ∧
      commitOf oneNameTwice ⟨20⟩ = some (.blob (asciiBytes "one")) ∧
      asciiBytes "o" <:+: asciiBytes "one" := by
  have searched : RepositoryReadService.search .default (commitOf withReturn) ⟨1⟩ [13] =
        .ok ⟨⟨1⟩, [⟨asciiBytes "a", 1, asciiBytes "x"⟩], 1, 4, false⟩ ∧
      RepositoryReadService.search .default (commitOf oneNameTwice) ⟨1⟩ (asciiBytes "o") =
        .ok ⟨⟨1⟩, [⟨asciiBytes "a", 1, asciiBytes "two"⟩], 1, 3, false⟩ ∧
      (∃ entry ∈ entriesOf .default (commitOf oneNameTwice) ⟨10⟩,
        entry.filename = asciiBytes "a" ∧ entry.file = some ⟨⟨20⟩, ⟨0o100644⟩⟩) ∧
      ¬[13] <:+: asciiBytes "x" := by
    decide
  obtain ⟨withReturn, last, first, apart⟩ := searched
  refine ⟨⟨withReturn, apart⟩, last, first, ?_, [], asciiBytes "ne", rfl⟩
  simp [commitOf, oneNameTwice, treeOf]

end Tit.Git
