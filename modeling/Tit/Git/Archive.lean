/-
# Git.Archive -- archives for download

`archive` writes the tree of a commit in the ustar format: for each directory and each file a header
of 512 bytes, and after the header of a file its data, filled up to whole blocks.  Two blocks of
zeros end it.  The trees wait on a stack, so that the entries of a tree stand together and those of
its first directory follow.

`readArchive` is a reader of the format.  It asks for the magic and the checksum of each header, and
puts the path together from its two fields.  What it reads back from an archive is what the tree
lists (`archive_reads`).
-/
import Tit.Git.PatchNames

namespace Tit.Git

open Tit.Theory Tit.Theory.Text Tit.Store

set_option autoImplicit false

inductive ArchiveError where
  | read (error : ReadError)
  | archivePath (path : GitPath)
  | archiveMetadata
  deriving DecidableEq, Repr

structure ArchiveLimits where
  reads : ReadLimits
  maxArchiveEntries : Nat
  maxArchiveBytes : Nat
  maxArchiveDepth : Nat

def ArchiveLimits.default : ArchiveLimits where
  reads := .default
  maxArchiveEntries := 100000
  maxArchiveBytes := 256 * 1024 * 1024
  maxArchiveDepth := 128

def ofRead {α : Type} (result : Except ReadError α) : Except ArchiveError α :=
  result.mapError .read

namespace EntryMode

/-- A blob that its owner may execute. -/
def isExecutable (mode : EntryMode) : Bool := mode.isBlob && decide (mode.value / 0o100 % 2 = 1)

end EntryMode

/-! ## Headers -/

/-- The name and the prefix of a path; the last slash that leaves room for both is left out. -/
def splitTarPath (path : Bytes) : Except ArchiveError (Bytes × Bytes) :=
  if path.length ≤ 100 then .ok (path, [])
  else
    match (List.range' 1 (path.length - 1)).reverse.find? fun split =>
      decide (path[split]? = some slash ∧ split + 1 < path.length ∧
        path.length - split - 1 ≤ 100 ∧ split ≤ 155) with
    | some split => .ok (path.drop (split + 1), path.take split)
    | none => .error (.archivePath path)

def writeTarOctal (width value : Nat) : Except ArchiveError Bytes :=
  if (Nat.toDigits 8 value).length + 1 > width then .error .archiveMetadata
  else .ok (octal (width - 1) value ++ [0])

/-- The bytes of a field, with zeros after them. -/
def field (width : Nat) (bytes : Bytes) : Bytes :=
  bytes ++ List.replicate (width - bytes.length) 0

def sumBytes (bytes : Bytes) : Nat := (bytes.map UInt8.toNat).sum

def spaces : Bytes := List.replicate 8 32

def writeTarHeader (path : Bytes) (mode size modifiedAt : Nat) (kind : UInt8) :
    Except ArchiveError Bytes := do
  let (name, start) ← splitTarPath path
  let mode ← writeTarOctal 8 mode
  let owner ← writeTarOctal 8 0
  let group ← writeTarOctal 8 0
  let size ← writeTarOctal 12 size
  let modifiedAt ← writeTarOctal 12 modifiedAt
  let front := [field 100 name, mode, owner, group, size, modifiedAt].flatten
  let back := [[kind], field 100 [], asciiBytes "ustar" ++ [0], [48, 48], field 32 [], field 32 [],
    field 8 [], field 8 [], field 155 start, field 12 []].flatten
  -- the checksum is taken with spaces in its place
  let checksum := sumBytes (front ++ spaces ++ back)
  pure (front ++ (octal 6 checksum ++ [0, 32]) ++ back)

/-! ## The reader -/

structure TarMember where
  path : Bytes
  mode : Nat
  modifiedAt : Nat
  kind : UInt8
  content : Bytes
  deriving DecidableEq, Repr

def splitFields : List Nat → Bytes → List Bytes
  | [], _ => []
  | width :: rest, block => block.take width :: splitFields rest (block.drop width)

def tarWidths : List Nat := [100, 8, 8, 8, 12, 12, 8, 1, 100, 6, 2, 32, 32, 8, 8, 155, 12]

def readText (bytes : Bytes) : Bytes := bytes.takeWhile fun b => decide (b ≠ 0)

/-- Octal digits up to a zero or a space. -/
def readOctal (bytes : Bytes) : Option Nat :=
  let digits := bytes.takeWhile fun b => decide (b ≠ 0 ∧ b ≠ 32)
  if digits ≠ [] ∧ digits.all isOctal ∧ digits.length < bytes.length then some (octalValue digits)
  else none

def joinTarPath (name start : Bytes) : Bytes := if start = [] then name else start ++ slash :: name

/-- The member that a header announces, and the length of its content. -/
def readTarHeader (block : Bytes) : Option (TarMember × Nat) :=
  match splitFields tarWidths block with
  | [name, mode, _, _, size, modifiedAt, checksum, kind, _, magic, version, _, _, _, _, start, _] => do
      let stated ← readOctal checksum
      let mode ← readOctal mode
      let size ← readOctal size
      let modifiedAt ← readOctal modifiedAt
      if stated = sumBytes (block.take 148 ++ spaces ++ block.drop 156) ∧
          magic = asciiBytes "ustar" ++ [0] ∧ version = [48, 48] then
        some (⟨joinTarPath (readText name) (readText start), mode, modifiedAt, kind.headD 0, []⟩, size)
      else none
  | _ => none

def zeros (length : Nat) : Bytes := List.replicate length 0

def padding (length : Nat) : Nat := (512 - length % 512) % 512

/-- The members up to the two blocks of zeros, which are the end. -/
def readArchive (input : Bytes) : Option (List TarMember) :=
  if input.length < 512 then none
  else if input.take 512 = zeros 512 then
    if input.drop 512 = zeros 512 then some [] else none
  else
    match readTarHeader (input.take 512) with
    | none => none
    | some (member, size) =>
        let rest := input.drop 512
        if size + padding size ≤ rest.length then
          (readArchive (rest.drop (size + padding size))).map
            ({ member with content := rest.take size } :: ·)
        else none
termination_by input.length
decreasing_by
  rw [List.length_drop, List.length_drop]
  omega

/-! ## Fields -/

theorem splitFields_flatten (fields : List Bytes) (rest : Bytes) :
    splitFields (fields.map List.length) (fields.flatten ++ rest) = fields := by
  induction fields with
  | nil => rfl
  | cons first later ih =>
      rw [List.map_cons, splitFields, List.flatten_cons, List.append_assoc, List.take_left,
        List.drop_left, ih]

theorem length_field {width : Nat} {bytes : Bytes} (fits : bytes.length ≤ width) :
    (field width bytes).length = width := by
  unfold field
  rw [List.length_append, List.length_replicate]
  omega

theorem takeWhile_field {p : UInt8 → Bool} {bytes rest : Bytes} (all : ∀ b ∈ bytes, p b = true)
    (stop : p 0 = false) (rest_zero : ∀ b ∈ rest, b = 0) :
    (bytes ++ rest).takeWhile p = bytes := by
  induction bytes with
  | nil =>
      cases rest with
      | nil => rfl
      | cons b later =>
          rw [rest_zero b List.mem_cons_self, List.nil_append, List.takeWhile_cons, stop]
          rfl
  | cons b later ih =>
      obtain ⟨here, later'⟩ := List.forall_mem_cons.mp all
      rw [List.cons_append, List.takeWhile_cons, here, if_pos rfl, ih later']

theorem readText_field {width : Nat} {bytes : Bytes} (clean : (0 : UInt8) ∉ bytes) :
    readText (field width bytes) = bytes := by
  refine takeWhile_field (fun b member => ?_) rfl fun b member => List.eq_of_mem_replicate member
  rw [decide_eq_true_eq]
  rintro rfl
  exact clean member

theorem length_octal {width n : Nat} (fits : (Nat.toDigits 8 n).length ≤ width) :
    (octal width n).length = width := by
  unfold octal
  rw [List.length_append, List.length_replicate, List.length_map]
  omega

theorem digit_plain {width n : Nat} {b : UInt8} (member : b ∈ octal width n) : b ≠ 0 ∧ b ≠ 32 := by
  have digit := isOctal_of_octal member
  constructor
  · rintro rfl
    revert digit
    decide
  · rintro rfl
    revert digit
    decide

theorem readOctal_octal {width n : Nat} {rest : Bytes} (ends : rest.head? = some 0) :
    readOctal (octal width n ++ rest) = some n := by
  obtain ⟨later, rfl⟩ : ∃ later, rest = 0 :: later := by
    cases rest with
    | nil => cases ends
    | cons b later =>
        cases ends
        exact ⟨later, rfl⟩
  have digits : (octal width n ++ 0 :: later).takeWhile (fun b => decide (b ≠ 0 ∧ b ≠ 32)) =
      octal width n := by
    rw [List.takeWhile_append_of_pos fun b member => decide_eq_true (digit_plain member)]
    simp
  unfold readOctal
  rw [digits]
  dsimp only
  rw [if_pos ⟨octal_ne_nil _ _, List.all_eq_true.mpr fun b => isOctal_of_octal, by simp⟩,
    octalValue_octal]

/-- A number that fits its field is read back. -/
theorem writeTarOctal_reads {width value : Nat} {bytes : Bytes}
    (ok : writeTarOctal width value = .ok bytes) :
    bytes.length = width ∧ readOctal bytes = some value := by
  unfold writeTarOctal at ok
  by_cases long : (Nat.toDigits 8 value).length + 1 > width
  · rw [if_pos long] at ok
    cases ok
  · rw [if_neg long] at ok
    cases ok
    refine ⟨?_, readOctal_octal rfl⟩
    rw [List.length_append, length_octal (by omega), List.length_singleton]
    omega

theorem sumBytes_le (bytes : Bytes) : sumBytes bytes ≤ 255 * bytes.length := by
  unfold sumBytes
  induction bytes with
  | nil => rfl
  | cons b rest ih =>
      have := b.toNat_lt
      rw [List.map_cons, List.sum_cons, List.length_cons]
      omega

/-! ## Paths -/

section Paths

variable {path name start : Bytes}

theorem splitTarPath_eq_ok (ok : splitTarPath path = .ok (name, start)) :
    joinTarPath name start = path ∧ name.length ≤ 100 ∧ start.length ≤ 155 := by
  unfold splitTarPath at ok
  by_cases short : path.length ≤ 100
  · rw [if_pos short] at ok
    cases ok
    exact ⟨if_pos rfl, short, Nat.zero_le _⟩
  rw [if_neg short] at ok
  split at ok
  · rename_i split found
    cases ok
    have inside := List.mem_of_find?_eq_some found
    have fits := List.find?_some found
    simp only [decide_eq_true_eq] at fits
    obtain ⟨separator, more, short', few⟩ := fits
    rw [List.mem_reverse, List.mem_range'_1] at inside
    obtain ⟨within, same⟩ := List.getElem?_eq_some_iff.mp separator
    have some : path.take split ≠ [] := by
      intro nothing
      have length := congrArg List.length nothing
      rw [List.length_take, List.length_nil] at length
      omega
    refine ⟨?_, ?_, ?_⟩
    · unfold joinTarPath
      rw [if_neg some, ← same, List.getElem_cons_drop, List.take_append_drop]
    · rw [List.length_drop]
      omega
    · rw [List.length_take]
      omega
  · cases ok

/-- A path that has no name is split by no slash. -/
theorem splitTarPath_eq_error {error : ArchiveError} (failed : splitTarPath path = .error error) :
    error = .archivePath path ∧ 100 < path.length ∧
      ∀ split, path[split]? = some slash → 0 < split → split ≤ 155 →
        path.length - split - 1 = 0 ∨ 100 < path.length - split - 1 := by
  unfold splitTarPath at failed
  by_cases short : path.length ≤ 100
  · rw [if_pos short] at failed
    cases failed
  rw [if_neg short] at failed
  split at failed
  · cases failed
  · rename_i nothing
    cases failed
    refine ⟨rfl, by omega, fun split separator some few => ?_⟩
    by_contra fits
    obtain ⟨within, -⟩ := List.getElem?_eq_some_iff.mp separator
    have inside : split ∈ (List.range' 1 (path.length - 1)).reverse := by
      rw [List.mem_reverse, List.mem_range'_1]
      omega
    have refused := List.find?_eq_none.mp nothing split inside
    rw [decide_eq_true_eq] at refused
    exact refused ⟨separator, by omega, by omega, few⟩

theorem readText_start {width : Nat} (ok : splitTarPath path = .ok (name, start))
    (clean : (0 : UInt8) ∉ path) :
    readText (field width name) = name ∧ readText (field width start) = start := by
  obtain ⟨joined, -, -⟩ := splitTarPath_eq_ok ok
  unfold joinTarPath at joined
  by_cases whole : start = []
  · rw [if_pos whole] at joined
    subst joined whole
    exact ⟨readText_field clean, readText_field nofun⟩
  · rw [if_neg whole] at joined
    subst joined
    refine ⟨readText_field fun inside => clean ?_, readText_field fun inside => clean ?_⟩
    · exact List.mem_append_right _ (List.mem_cons_of_mem _ inside)
    · exact List.mem_append_left _ inside

end Paths

/-! ## A header is read back -/

theorem writeTarHeader_reads {path block : Bytes} {mode size modifiedAt : Nat} {kind : UInt8}
    (ok : writeTarHeader path mode size modifiedAt kind = .ok block) (clean : (0 : UInt8) ∉ path) :
    block.length = 512 ∧ block ≠ zeros 512 ∧
      readTarHeader block = some (⟨path, mode, modifiedAt, kind, []⟩, size) := by
  unfold writeTarHeader at ok
  obtain ⟨⟨name, start⟩, named, ok⟩ := bind_eq_ok.mp ok
  obtain ⟨modeField, modeOk, ok⟩ := bind_eq_ok.mp ok
  obtain ⟨owner, ownerOk, ok⟩ := bind_eq_ok.mp ok
  obtain ⟨group, groupOk, ok⟩ := bind_eq_ok.mp ok
  obtain ⟨sizeField, sizeOk, ok⟩ := bind_eq_ok.mp ok
  obtain ⟨timeField, timeOk, ok⟩ := bind_eq_ok.mp ok
  obtain ⟨joined, shortName, shortStart⟩ := splitTarPath_eq_ok named
  obtain ⟨modeLength, modeReads⟩ := writeTarOctal_reads modeOk
  obtain ⟨ownerLength, -⟩ := writeTarOctal_reads ownerOk
  obtain ⟨groupLength, -⟩ := writeTarOctal_reads groupOk
  obtain ⟨sizeLength, sizeReads⟩ := writeTarOctal_reads sizeOk
  obtain ⟨timeLength, timeReads⟩ := writeTarOctal_reads timeOk
  dsimp only at ok
  generalize frontIs : [field 100 name, modeField, owner, group, sizeField, timeField] = front at ok
  generalize backIs : [[kind], field 100 [], asciiBytes "ustar" ++ [0], [48, 48], field 32 [],
    field 32 [], field 8 [], field 8 [], field 155 start, field 12 []] = back at ok
  generalize sumIs : sumBytes (front.flatten ++ spaces ++ back.flatten) = sum at ok
  generalize checksumIs : octal 6 sum ++ [0, 32] = checksum at ok
  cases ok
  have frontWidths : front.map List.length = [100, 8, 8, 8, 12, 12] := by
    rw [← frontIs]
    simp only [List.map_cons, List.map_nil, length_field shortName, modeLength, ownerLength,
      groupLength, sizeLength, timeLength]
  have backWidths : back.map List.length = [1, 100, 6, 2, 32, 32, 8, 8, 155, 12] := by
    rw [← backIs]
    simp only [List.map_cons, List.map_nil, length_field shortStart]
    rfl
  have frontLength : front.flatten.length = 148 := by
    rw [List.length_flatten, frontWidths]
    rfl
  have backLength : back.flatten.length = 356 := by
    rw [List.length_flatten, backWidths]
    rfl
  have small : sum < 8 ^ 6 := by
    have bound := sumBytes_le (front.flatten ++ spaces ++ back.flatten)
    rw [List.length_append, List.length_append, frontLength, backLength, sumIs] at bound
    have width : spaces.length = 8 := rfl
    omega
  have checksumLength : checksum.length = 8 := by
    rw [← checksumIs, List.length_append,
      length_octal ((Nat.length_toDigits_le_iff (by decide) (by decide)).mpr small)]
    rfl
  have split : splitFields tarWidths (front.flatten ++ checksum ++ back.flatten) =
      front ++ checksum :: back := by
    have widths : (front ++ checksum :: back).map List.length = tarWidths := by
      rw [List.map_append, List.map_cons, frontWidths, backWidths, checksumLength]
      rfl
    have whole := splitFields_flatten (front ++ checksum :: back) []
    rwa [widths, List.append_nil, List.flatten_append, List.flatten_cons, ← List.append_assoc] at whole
  have before : (front.flatten ++ checksum ++ back.flatten).take 148 = front.flatten := by
    rw [List.append_assoc, List.take_left' frontLength]
  have after : (front.flatten ++ checksum ++ back.flatten).drop 156 = back.flatten :=
    List.drop_left' (by rw [List.length_append, frontLength, checksumLength])
  have stated : readOctal checksum = some sum := by
    rw [← checksumIs]
    exact readOctal_octal rfl
  have nameReads : readText (field 100 name) = name := (readText_start named clean).1
  have startReads : readText (field 155 start) = start := (readText_start named clean).2
  have reads : readTarHeader (front.flatten ++ checksum ++ back.flatten) =
      some (⟨path, mode, modifiedAt, kind, []⟩, size) := by
    unfold readTarHeader
    rw [split, before, after, sumIs, ← frontIs, ← backIs]
    simp only [List.cons_append, List.nil_append, Option.bind_eq_bind, stated, modeReads, sizeReads,
      timeReads, Option.bind_some, nameReads, startReads, joined, List.headD_cons]
    exact if_pos ⟨trivial, trivial, trivial⟩
  refine ⟨?_, fun nothing => ?_, reads⟩
  · rw [List.length_append, List.length_append, frontLength, checksumLength, backLength]
  · have none : readTarHeader (zeros 512) = .none := by decide
    rw [nothing, none] at reads
    cases reads

/-! ## The archive -/

structure Archiving where
  output : Bytes
  entries : Nat

section Archive

variable (limits : ArchiveLimits) (objects : Objects) (modifiedAt : Nat)

/-- The bounded writer. -/
def writeBytes (output bytes : Bytes) : Except ArchiveError Bytes := do
  ensure (output.length + bytes.length ≤ limits.maxArchiveBytes) (.read (.limit "archive bytes"))
  pure (output ++ bytes)

def writeDirectory (output : Bytes) (path : GitPath) : Except ArchiveError Bytes := do
  let header ← writeTarHeader (path ++ [slash]) 0o755 0 modifiedAt 53
  writeBytes limits output header

def writeFileMember (output : Bytes) (path : GitPath) (mode : EntryMode) (data : Bytes) :
    Except ArchiveError Bytes := do
  -- a symbolic link is a regular file with its target for content
  let mode := if mode.isExecutable then 0o755 else 0o644
  let header ← writeTarHeader path mode data.length modifiedAt 48
  let output ← writeBytes limits output header
  let output ← writeBytes limits output data
  writeBytes limits output (zeros (padding data.length))

/-- The loop over the entries of one tree, which returns its trees in their order. -/
def archiveEntries (start : GitPath) (depth : Nat) : List TreeEntry → Archiving →
    Except ArchiveError (Archiving × List (ObjectId × GitPath × Nat))
  | [], state => pure (state, [])
  | entry :: rest, state => do
      let entries := state.entries + 1
      ensure (entries ≤ limits.maxArchiveEntries) (.read (.limit "archive entries"))
      let path ← ofRead (joinGitPath limits.reads start entry.filename)
      if entry.mode.isTree then
        let output ← writeDirectory limits modifiedAt state.output path
        let (state, childTrees) ← archiveEntries start depth rest ⟨output, entries⟩
        pure (state, (entry.oid, path, depth + 1) :: childTrees)
      else if entry.mode.isBlobOrSymlink then
        let data ← ofRead (readBlob limits.reads objects entry.oid)
        let output ← writeFileMember limits modifiedAt state.output path entry.mode data
        archiveEntries start depth rest ⟨output, entries⟩
      else if entry.mode.isCommit then
        let output ← writeDirectory limits modifiedAt state.output path
        archiveEntries start depth rest ⟨output, entries⟩
      else archiveEntries start depth rest ⟨state.output, entries⟩

/-- The loop over the trees, the next one first.  Each tree but the first was counted as an entry, so
that there is one turn for each entry that the limit allows, and one for the root. -/
def archiveLoop : Nat → List (ObjectId × GitPath × Nat) → Archiving → Except ArchiveError Bytes
  | _, [], state => pure state.output
  | 0, _ :: _, _ => throw (.read (.limit "archive entries"))
  | turns + 1, (treeId, start, depth) :: pending, state => do
      ensure (depth ≤ limits.maxArchiveDepth) (.read (.limit "archive tree depth"))
      let entries ← ofRead (readTree limits.reads objects treeId)
      let (state, childTrees) ← archiveEntries limits objects modifiedAt start depth entries state
      archiveLoop turns (childTrees ++ pending) state

def archiveTree (tree : ObjectId) : Except ArchiveError Bytes :=
  archiveLoop limits objects modifiedAt (limits.maxArchiveEntries + 1) [(tree, [], 0)] ⟨[], 0⟩

/-- `archive`; the time of the commit is not negative in the headers. -/
def archive (committedAt : ObjectId → Int) (commit : ObjectId) : Except ArchiveError Bytes := do
  let info ← ofRead (readCommit limits.reads objects commit)
  let output ← archiveTree limits objects (max (committedAt commit) 0).toNat info.tree
  writeBytes limits output (zeros 1024)

/-! ## What the tree lists -/

def joinedPath (start name : Bytes) : GitPath := if start = [] then name else start ++ slash :: name

def directoryMember (path : GitPath) : TarMember := ⟨path ++ [slash], 0o755, modifiedAt, 53, []⟩

/-- An entry of a tree: a tree or a link to a commit is a directory, a file has the data of its blob. -/
def entryMembers (start : GitPath) (entry : TreeEntry) : Option (List TarMember) :=
  let path := joinedPath start entry.filename
  if entry.mode.isTree || entry.mode.isCommit then some [directoryMember modifiedAt path]
  else if entry.mode.isBlobOrSymlink then
    (readBlob limits.reads objects entry.oid).toOption.map fun data =>
      [⟨path, if entry.mode.isExecutable then 0o755 else 0o644, modifiedAt, 48, data⟩]
  else some []

/-- **What a tree lists**: its entries, and then what each of its trees lists. -/
def treeMembers : Nat → ObjectId → GitPath → Option (List TarMember)
  | 0, _, _ => none
  | depth + 1, treeId, start => do
      let entries ← (readTree limits.reads objects treeId).toOption
      let own ← entries.mapM (entryMembers limits objects modifiedAt start)
      let below ← (entries.filter fun entry => entry.mode.isTree).mapM fun entry =>
        treeMembers depth entry.oid (joinedPath start entry.filename)
      pure (own.flatten ++ below.flatten)

end Archive

/-! ## The archive is read back -/

/-- Whole blocks that the reader takes for these members. -/
def Reads (bytes : Bytes) (members : List TarMember) : Prop :=
  bytes.length % 512 = 0 ∧
    ∀ rest, readArchive (bytes ++ rest) = (readArchive rest).map (members ++ ·)

theorem Reads.nil : Reads [] [] := by
  refine ⟨rfl, fun rest => ?_⟩
  rw [List.nil_append]
  cases readArchive rest with
  | none => rfl
  | some members => rfl

theorem Reads.append {bytes bytes' : Bytes} {members members' : List TarMember}
    (first : Reads bytes members) (second : Reads bytes' members') :
    Reads (bytes ++ bytes') (members ++ members') := by
  refine ⟨?_, fun rest => ?_⟩
  · rw [List.length_append, Nat.add_mod, first.1, second.1]
  · rw [List.append_assoc, first.2, second.2, Option.map_map]
    congr 1
    funext later
    exact (List.append_assoc _ _ _).symm

theorem readArchive_member {header content : Bytes} {member : TarMember}
    (length : header.length = 512) (some : header ≠ zeros 512)
    (reads : readTarHeader header = .some (member, content.length)) :
    Reads (header ++ content ++ zeros (padding content.length))
      [{ member with content := content }] := by
  have padded : (zeros (padding content.length)).length = padding content.length :=
    List.length_replicate
  constructor
  · rw [List.length_append, List.length_append, length, padded]
    unfold padding
    omega
  · intro rest
    have front : (header ++ content ++ zeros (padding content.length) ++ rest).take 512 = header := by
      rw [List.append_assoc, List.append_assoc, List.take_left' length]
    have back : (header ++ content ++ zeros (padding content.length) ++ rest).drop 512 =
        content ++ (zeros (padding content.length) ++ rest) := by
      rw [List.append_assoc, List.append_assoc, List.drop_left' length]
    have later : (content ++ (zeros (padding content.length) ++ rest)).drop
        (content.length + padding content.length) = rest := by
      rw [← List.append_assoc]
      exact List.drop_left' (by rw [List.length_append, padded])
    rw [readArchive, if_neg (by simp only [List.length_append, length]; omega), front, if_neg some,
      reads]
    dsimp only
    rw [back, if_pos (by simp only [List.length_append, padded]; omega), later, List.take_left]
    rfl

theorem readArchive_end : readArchive (zeros 1024) = some [] := by
  have front : (zeros 1024).take 512 = zeros 512 := by decide +kernel
  have back : (zeros 1024).drop 512 = zeros 512 := by decide +kernel
  rw [readArchive, if_neg (by rw [zeros, List.length_replicate]; omega), front, back, if_pos rfl,
    if_pos rfl]

section Written

variable {limits : ArchiveLimits} {objects : Objects} {modifiedAt : Nat}

theorem writeBytes_eq_ok {output bytes result : Bytes} :
    writeBytes limits output bytes = .ok result ↔
      output.length + bytes.length ≤ limits.maxArchiveBytes ∧ result = output ++ bytes := by
  unfold writeBytes
  rw [bind_eq_ok]
  constructor
  · rintro ⟨⟨⟩, fits, same⟩
    cases same
    exact ⟨ensure_eq_ok.mp fits, rfl⟩
  · rintro ⟨fits, rfl⟩
    exact ⟨⟨⟩, ensure_eq_ok.mpr fits, rfl⟩

theorem ofRead_eq_ok {α : Type} {result : Except ReadError α} {value : α} :
    ofRead result = .ok value ↔ result = .ok value := by
  unfold ofRead Except.mapError
  cases result with
  | error error => exact ⟨nofun, nofun⟩
  | ok found =>
      constructor
      · rintro ⟨⟩
        rfl
      · rintro ⟨⟩
        rfl

/-- A path below the root has no zero byte and does not start with a slash. -/
def PlainStart (path : GitPath) : Prop := (0 : UInt8) ∉ path ∧ path.head? ≠ some slash

theorem joinGitPath_plain {start name path : Bytes} (plain : PlainStart start)
    (ok : joinGitPath limits.reads start name = .ok path) :
    path = joinedPath start name ∧ PlainStart path ∧ path ≠ [] := by
  obtain ⟨⟨some, -, -, flat, clean⟩, rfl, -⟩ := (joinGitPath_eq_ok _).mp ok
  refine ⟨rfl, ?_⟩
  by_cases root : start = []
  · rw [if_pos root]
    refine ⟨⟨clean, fun first => ?_⟩, some⟩
    exact flat (List.mem_of_head? first)
  · rw [if_neg root]
    refine ⟨⟨?_, ?_⟩, by simp⟩
    · rw [List.mem_append, List.mem_cons]
      rintro (before | separator | after)
      · exact plain.1 before
      · revert separator
        decide
      · exact clean after
    · cases start with
      | nil => exact absurd rfl root
      | cons b rest => exact plain.2

theorem writeDirectory_reads {output result : Bytes} {path : GitPath} (clean : (0 : UInt8) ∉ path)
    (ok : writeDirectory limits modifiedAt output path = .ok result) :
    ∃ added, result = output ++ added ∧ Reads added [directoryMember modifiedAt path] := by
  obtain ⟨header, written, ok⟩ := bind_eq_ok.mp ok
  obtain ⟨-, rfl⟩ := writeBytes_eq_ok.mp ok
  have clean' : (0 : UInt8) ∉ path ++ [slash] := by
    rw [List.mem_append, List.mem_singleton]
    rintro (inside | separator)
    · exact clean inside
    · revert separator
      decide
  obtain ⟨length, some, reads⟩ := writeTarHeader_reads written clean'
  refine ⟨header, rfl, ?_⟩
  have member := @readArchive_member header [] _ length some reads
  rwa [List.append_nil, show zeros (padding ([] : Bytes).length) = [] from rfl, List.append_nil] at member

theorem writeFileMember_reads {output result data : Bytes} {path : GitPath} {mode : EntryMode}
    (clean : (0 : UInt8) ∉ path)
    (ok : writeFileMember limits modifiedAt output path mode data = .ok result) :
    ∃ added, result = output ++ added ∧ Reads added
      [⟨path, if mode.isExecutable then 0o755 else 0o644, modifiedAt, 48, data⟩] := by
  obtain ⟨header, written, ok⟩ := bind_eq_ok.mp ok
  obtain ⟨first, wrote, ok⟩ := bind_eq_ok.mp ok
  obtain ⟨second, wrote', ok⟩ := bind_eq_ok.mp ok
  obtain ⟨-, rfl⟩ := writeBytes_eq_ok.mp wrote
  obtain ⟨-, rfl⟩ := writeBytes_eq_ok.mp wrote'
  obtain ⟨-, rfl⟩ := writeBytes_eq_ok.mp ok
  obtain ⟨length, some, reads⟩ := writeTarHeader_reads written clean
  refine ⟨header ++ data ++ zeros (padding data.length), by simp only [List.append_assoc], ?_⟩
  exact readArchive_member length some reads

/-- The trees of a tree, as they wait. -/
def childTrees (start : GitPath) (depth : Nat) (entries : List TreeEntry) :
    List (ObjectId × GitPath × Nat) :=
  (entries.filter fun entry => entry.mode.isTree).map fun entry =>
    (entry.oid, joinedPath start entry.filename, depth + 1)

/-- **One tree**: what is written is read back as its entries. -/
theorem archiveEntries_reads {start : GitPath} {depth : Nat} {entries : List TreeEntry}
    {state state' : Archiving} {trees : List (ObjectId × GitPath × Nat)} (plain : PlainStart start)
    (ok : archiveEntries limits objects modifiedAt start depth entries state = .ok (state', trees)) :
    ∃ own added, entries.mapM (entryMembers limits objects modifiedAt start) = some own ∧
      state'.output = state.output ++ added ∧ Reads added own.flatten ∧
      trees = childTrees start depth entries ∧ ∀ tree ∈ trees, PlainStart tree.2.1 := by
  induction entries generalizing state trees with
  | nil =>
      cases ok
      exact ⟨[], [], rfl, (List.append_nil _).symm, .nil, rfl, nofun⟩
  | cons entry rest ih =>
      rw [archiveEntries] at ok
      obtain ⟨⟨⟩, -, ok⟩ := bind_eq_ok.mp ok
      obtain ⟨path, joined, ok⟩ := bind_eq_ok.mp ok
      obtain ⟨rfl, plain', -⟩ := joinGitPath_plain plain (ofRead_eq_ok.mp joined)
      -- what the rest of the entries adds to what this one has written
      have goes : ∀ {output added : Bytes} {members : List TarMember}
          {trees' : List (ObjectId × GitPath × Nat)},
          archiveEntries limits objects modifiedAt start depth rest
            ⟨output, state.entries + 1⟩ = .ok (state', trees') →
          output = state.output ++ added → Reads added members →
          entryMembers limits objects modifiedAt start entry = some members →
          ∃ own added, (entry :: rest).mapM (entryMembers limits objects modifiedAt start) = some own ∧
            state'.output = state.output ++ added ∧ Reads added own.flatten ∧
            trees' = childTrees start depth rest ∧ ∀ tree ∈ trees', PlainStart tree.2.1 := by
        rintro output added members trees' ok rfl reads listed
        obtain ⟨own, added', listed', same, reads', children, plains⟩ := ih ok
        refine ⟨members :: own, added ++ added', ?_, ?_, reads.append reads', children, plains⟩
        · rw [List.mapM_cons, listed, listed']
          rfl
        · rw [same, List.append_assoc]
      by_cases tree : entry.mode.isTree = true
      · rw [if_pos tree] at ok
        obtain ⟨output, written, ok⟩ := bind_eq_ok.mp ok
        obtain ⟨⟨state'', trees'⟩, later, ok⟩ := bind_eq_ok.mp ok
        cases ok
        obtain ⟨added, same, reads⟩ := writeDirectory_reads plain'.1 written
        have listed : entryMembers limits objects modifiedAt start entry =
            some [directoryMember modifiedAt (joinedPath start entry.filename)] := by
          unfold entryMembers
          exact if_pos (by rw [tree]; rfl)
        obtain ⟨own, added', listed', same', reads', children, plains⟩ := goes later same reads listed
        refine ⟨own, added', listed', same', reads', ?_, ?_⟩
        · rw [children]
          simp only [childTrees, List.filter_cons, tree, if_true, List.map_cons]
        · intro child member
          rcases List.mem_cons.mp member with rfl | member
          · exact plain'
          · exact plains child member
      · rw [if_neg tree] at ok
        have same : childTrees start depth (entry :: rest) = childTrees start depth rest := by
          simp only [childTrees, List.filter_cons, tree, Bool.false_eq_true, if_false]
        rw [same]
        by_cases file : entry.mode.isBlobOrSymlink = true
        · rw [if_pos file] at ok
          obtain ⟨data, read, ok⟩ := bind_eq_ok.mp ok
          obtain ⟨output, written, ok⟩ := bind_eq_ok.mp ok
          obtain ⟨added, same, reads⟩ := writeFileMember_reads plain'.1 written
          refine goes ok same reads ?_
          unfold entryMembers
          rw [(isBlobOrSymlink_only file).1, (isBlobOrSymlink_only file).2, ofRead_eq_ok.mp read]
          exact if_pos file
        · rw [if_neg file] at ok
          by_cases commit : entry.mode.isCommit = true
          · rw [if_pos commit] at ok
            obtain ⟨output, written, ok⟩ := bind_eq_ok.mp ok
            obtain ⟨added, same, reads⟩ := writeDirectory_reads plain'.1 written
            refine goes ok same reads ?_
            unfold entryMembers
            exact if_pos (by rw [commit, Bool.or_true])
          · rw [if_neg commit] at ok
            refine goes ok (List.append_nil _).symm .nil ?_
            unfold entryMembers
            rw [Bool.eq_false_iff.mpr tree, Bool.eq_false_iff.mpr commit]
            exact if_neg file

/-- **The trees that wait** are written one after the other, each before those below it. -/
theorem archiveLoop_reads {turns : Nat} {pending : List (ObjectId × GitPath × Nat)}
    {state : Archiving} {output : Bytes} (plains : ∀ tree ∈ pending, PlainStart tree.2.1)
    (ok : archiveLoop limits objects modifiedAt turns pending state = .ok output) :
    ∃ listed added, pending.mapM (fun tree =>
        treeMembers limits objects modifiedAt (limits.maxArchiveDepth + 1 - tree.2.2) tree.1 tree.2.1) =
        some listed ∧
      output = state.output ++ added ∧ Reads added listed.flatten := by
  induction turns generalizing pending state with
  | zero =>
      cases pending with
      | nil =>
          cases ok
          exact ⟨[], [], rfl, (List.append_nil _).symm, .nil⟩
      | cons tree rest => cases ok
  | succ turns ih =>
      cases pending with
      | nil =>
          cases ok
          exact ⟨[], [], rfl, (List.append_nil _).symm, .nil⟩
      | cons tree rest =>
          obtain ⟨treeId, start, depth⟩ := tree
          obtain ⟨plain, others⟩ := List.forall_mem_cons.mp plains
          rw [archiveLoop] at ok
          obtain ⟨⟨⟩, deep, ok⟩ := bind_eq_ok.mp ok
          obtain ⟨entries, read, ok⟩ := bind_eq_ok.mp ok
          obtain ⟨⟨state', trees⟩, entriesOk, ok⟩ := bind_eq_ok.mp ok
          obtain ⟨own, added, ownIs, same, reads, rfl, children⟩ := archiveEntries_reads plain entriesOk
          obtain ⟨listed, added', listedIs, rfl, reads'⟩ := ih (by
            intro tree member
            rcases List.mem_append.mp member with child | waiting
            · exact children tree child
            · exact others tree waiting) ok
          have within := ensure_eq_ok.mp deep
          rw [List.mapM_append] at listedIs
          obtain ⟨below, belowIs, listedIs⟩ := Option.bind_eq_some_iff.mp listedIs
          obtain ⟨later, laterIs, listedIs⟩ := Option.bind_eq_some_iff.mp listedIs
          cases listedIs
          have here : treeMembers limits objects modifiedAt (limits.maxArchiveDepth + 1 - depth) treeId
              start = some (own.flatten ++ below.flatten) := by
            rw [Nat.succ_sub within, treeMembers, ofRead_eq_ok.mp read]
            simp only [childTrees, List.mapM_map, Function.comp_def, Nat.add_sub_add_right] at belowIs
            simp only [Except.toOption, Option.bind_eq_bind, Option.bind_some, ownIs]
            rw [show (entries.filter fun entry => entry.mode.isTree).mapM (fun entry =>
              treeMembers limits objects modifiedAt (limits.maxArchiveDepth - depth) entry.oid
                (joinedPath start entry.filename)) = some below from belowIs]
            rfl
          refine ⟨(own.flatten ++ below.flatten) :: later, added ++ added', ?_, ?_, ?_⟩
          · rw [List.mapM_cons, here, laterIs]
            rfl
          · rw [same, List.append_assoc]
          · have whole := reads.append reads'
            rwa [List.flatten_append, ← List.append_assoc, ← List.flatten_cons] at whole

/-! ## The turns are enough -/

theorem archiveEntries_counts {start : GitPath} {depth : Nat} {entries : List TreeEntry}
    {state state' : Archiving} {trees : List (ObjectId × GitPath × Nat)}
    (within : state.entries ≤ limits.maxArchiveEntries)
    (ok : archiveEntries limits objects modifiedAt start depth entries state = .ok (state', trees)) :
    state.entries + trees.length ≤ state'.entries ∧ state'.entries ≤ limits.maxArchiveEntries := by
  induction entries generalizing state trees with
  | nil =>
      cases ok
      exact ⟨Nat.le_refl _, within⟩
  | cons entry rest ih =>
      rw [archiveEntries] at ok
      obtain ⟨⟨⟩, room, ok⟩ := bind_eq_ok.mp ok
      obtain ⟨path, -, ok⟩ := bind_eq_ok.mp ok
      have room := ensure_eq_ok.mp room
      have goes : ∀ {output : Bytes} {trees' : List (ObjectId × GitPath × Nat)},
          archiveEntries limits objects modifiedAt start depth rest ⟨output, state.entries + 1⟩ =
            .ok (state', trees') →
          state.entries + 1 + trees'.length ≤ state'.entries ∧
            state'.entries ≤ limits.maxArchiveEntries := fun later => ih room later
      by_cases tree : entry.mode.isTree = true
      · rw [if_pos tree] at ok
        obtain ⟨output, -, ok⟩ := bind_eq_ok.mp ok
        obtain ⟨⟨state'', trees'⟩, later, ok⟩ := bind_eq_ok.mp ok
        cases ok
        obtain ⟨counted, within'⟩ := goes later
        refine ⟨?_, within'⟩
        rw [List.length_cons]
        omega
      rw [if_neg tree] at ok
      have weaken : state.entries + 1 + trees.length ≤ state'.entries ∧
          state'.entries ≤ limits.maxArchiveEntries →
          state.entries + trees.length ≤ state'.entries ∧
            state'.entries ≤ limits.maxArchiveEntries := fun ⟨counted, within'⟩ =>
        ⟨by omega, within'⟩
      by_cases file : entry.mode.isBlobOrSymlink = true
      · rw [if_pos file] at ok
        obtain ⟨data, -, ok⟩ := bind_eq_ok.mp ok
        obtain ⟨output, -, ok⟩ := bind_eq_ok.mp ok
        exact weaken (goes ok)
      rw [if_neg file] at ok
      by_cases commit : entry.mode.isCommit = true
      · rw [if_pos commit] at ok
        obtain ⟨output, -, ok⟩ := bind_eq_ok.mp ok
        exact weaken (goes ok)
      · rw [if_neg commit] at ok
        exact weaken (goes ok)

/-- The loop does not run out of turns: more of them change nothing. -/
theorem archiveLoop_turns {turns : Nat} (more : Nat) {pending : List (ObjectId × GitPath × Nat)}
    {state : Archiving} (within : state.entries ≤ limits.maxArchiveEntries)
    (enough : pending.length + (limits.maxArchiveEntries - state.entries) ≤ turns) :
    archiveLoop limits objects modifiedAt (turns + more) pending state =
      archiveLoop limits objects modifiedAt turns pending state := by
  induction turns generalizing pending state with
  | zero =>
      have nothing : pending = [] := List.length_eq_zero_iff.mp (by omega)
      rw [nothing]
      unfold archiveLoop
      rfl
  | succ turns ih =>
      cases pending with
      | nil =>
          unfold archiveLoop
          rfl
      | cons tree rest =>
          obtain ⟨treeId, start, depth⟩ := tree
          rw [Nat.succ_add_eq_add_succ, Nat.add_succ, archiveLoop, archiveLoop]
          apply bind_congr
          intro _
          apply bind_congr
          intro entries
          cases written : archiveEntries limits objects modifiedAt start depth entries state with
          | error error => rfl
          | ok result =>
              obtain ⟨state', trees⟩ := result
              obtain ⟨counted, within'⟩ := archiveEntries_counts within written
              rw [ok_bind, ok_bind]
              apply ih within'
              rw [List.length_append]
              rw [List.length_cons] at enough
              omega

/-! ## Paths that are too long -/

theorem writeTarHeader_path {path path' : Bytes} {mode size time : Nat} {kind : UInt8}
    (failed : writeTarHeader path mode size time kind = .error (.archivePath path')) :
    splitTarPath path = .error (.archivePath path') := by
  have octal : ∀ {width value}, writeTarOctal width value ≠ .error (.archivePath path') := by
    intro width value error
    unfold writeTarOctal at error
    split at error
    · cases error
    · cases error
  rcases bind_eq_error.mp failed with split | ⟨⟨name, start⟩, -, failed⟩
  · exact split
  rcases bind_eq_error.mp failed with error | ⟨_, -, failed⟩
  · exact absurd error octal
  rcases bind_eq_error.mp failed with error | ⟨_, -, failed⟩
  · exact absurd error octal
  rcases bind_eq_error.mp failed with error | ⟨_, -, failed⟩
  · exact absurd error octal
  rcases bind_eq_error.mp failed with error | ⟨_, -, failed⟩
  · exact absurd error octal
  rcases bind_eq_error.mp failed with error | ⟨_, -, failed⟩
  · exact absurd error octal
  · cases failed

/-- No slash of the path leaves room for both fields. -/
def Unsplittable (path : Bytes) : Prop :=
  100 < path.length ∧ ∀ split, path[split]? = some slash → split ≤ 155 →
    path.length - split - 1 = 0 ∨ 100 < path.length - split - 1

theorem unsplittable {path : Bytes} {error : ArchiveError} (plain : path.head? ≠ some slash)
    (failed : splitTarPath path = .error error) : error = .archivePath path ∧ Unsplittable path := by
  obtain ⟨rfl, long, refused⟩ := splitTarPath_eq_error failed
  refine ⟨rfl, long, fun split separator few => refused split separator ?_ few⟩
  rcases Nat.eq_zero_or_pos split with rfl | some
  · rw [← List.head?_eq_getElem?] at separator
    exact absurd separator plain
  · exact some

theorem writeBytes_path {output bytes : Bytes} {path : GitPath} :
    writeBytes limits output bytes ≠ .error (.archivePath path) := by
  intro failed
  rcases bind_eq_error.mp failed with error | ⟨⟨⟩, -, failed⟩
  · cases (ensure_eq_error.mp error).2
  · cases failed

theorem ofRead_path {α : Type} {result : Except ReadError α} {path : GitPath} :
    ofRead result ≠ .error (.archivePath path) := by
  unfold ofRead Except.mapError
  cases result with
  | error error => nofun
  | ok value => nofun

theorem writeDirectory_path {output : Bytes} {path path' : GitPath} (plain : PlainStart path)
    (some : path ≠ [])
    (failed : writeDirectory limits modifiedAt output path = .error (.archivePath path')) :
    Unsplittable path' := by
  rcases bind_eq_error.mp failed with error | ⟨header, -, failed⟩
  · have start : (path ++ [slash]).head? ≠ .some slash := by
      cases path with
      | nil => exact absurd rfl some
      | cons b rest => exact plain.2
    obtain ⟨same, long⟩ := unsplittable start (writeTarHeader_path error)
    cases same
    exact long
  · exact absurd failed writeBytes_path

theorem writeFileMember_path {output data : Bytes} {path path' : GitPath} {mode : EntryMode}
    (plain : PlainStart path)
    (failed : writeFileMember limits modifiedAt output path mode data = .error (.archivePath path')) :
    Unsplittable path' := by
  rcases bind_eq_error.mp failed with error | ⟨header, -, failed⟩
  · obtain ⟨same, long⟩ := unsplittable plain.2 (writeTarHeader_path error)
    cases same
    exact long
  rcases bind_eq_error.mp failed with error | ⟨_, -, failed⟩
  · exact absurd error writeBytes_path
  rcases bind_eq_error.mp failed with error | ⟨_, -, failed⟩
  · exact absurd error writeBytes_path
  · exact absurd failed writeBytes_path

theorem archiveEntries_path {start path' : GitPath} {depth : Nat} {entries : List TreeEntry}
    {state : Archiving} (plain : PlainStart start)
    (failed : archiveEntries limits objects modifiedAt start depth entries state =
      .error (.archivePath path')) : Unsplittable path' := by
  induction entries generalizing state with
  | nil => cases failed
  | cons entry rest ih =>
      rw [archiveEntries] at failed
      rcases bind_eq_error.mp failed with error | ⟨⟨⟩, -, failed⟩
      · cases (ensure_eq_error.mp error).2
      rcases bind_eq_error.mp failed with error | ⟨path, joined, failed⟩
      · exact absurd error ofRead_path
      obtain ⟨rfl, plain', some⟩ := joinGitPath_plain plain (ofRead_eq_ok.mp joined)
      by_cases tree : entry.mode.isTree = true
      · rw [if_pos tree] at failed
        rcases bind_eq_error.mp failed with error | ⟨output, -, failed⟩
        · exact writeDirectory_path plain' some error
        rcases bind_eq_error.mp failed with error | ⟨_, -, failed⟩
        · exact ih error
        · cases failed
      rw [if_neg tree] at failed
      by_cases file : entry.mode.isBlobOrSymlink = true
      · rw [if_pos file] at failed
        rcases bind_eq_error.mp failed with error | ⟨data, -, failed⟩
        · exact absurd error ofRead_path
        rcases bind_eq_error.mp failed with error | ⟨output, -, failed⟩
        · exact writeFileMember_path plain' error
        · exact ih failed
      rw [if_neg file] at failed
      by_cases commit : entry.mode.isCommit = true
      · rw [if_pos commit] at failed
        rcases bind_eq_error.mp failed with error | ⟨output, -, failed⟩
        · exact writeDirectory_path plain' some error
        · exact ih failed
      · rw [if_neg commit] at failed
        exact ih failed

theorem archiveLoop_path {turns : Nat} {pending : List (ObjectId × GitPath × Nat)}
    {state : Archiving} {path' : GitPath} (plains : ∀ tree ∈ pending, PlainStart tree.2.1)
    (failed : archiveLoop limits objects modifiedAt turns pending state =
      .error (.archivePath path')) : Unsplittable path' := by
  induction turns generalizing pending state with
  | zero =>
      cases pending with
      | nil => cases failed
      | cons tree rest => cases failed
  | succ turns ih =>
      cases pending with
      | nil => cases failed
      | cons tree rest =>
          obtain ⟨treeId, start, depth⟩ := tree
          obtain ⟨plain, others⟩ := List.forall_mem_cons.mp plains
          rw [archiveLoop] at failed
          rcases bind_eq_error.mp failed with error | ⟨⟨⟩, -, failed⟩
          · cases (ensure_eq_error.mp error).2
          rcases bind_eq_error.mp failed with error | ⟨entries, -, failed⟩
          · exact absurd error ofRead_path
          rcases bind_eq_error.mp failed with error | ⟨⟨state', trees⟩, entriesOk, failed⟩
          · exact archiveEntries_path plain error
          obtain ⟨-, -, -, -, -, -, children⟩ := archiveEntries_reads plain entriesOk
          refine ih (fun tree member => ?_) failed
          rcases List.mem_append.mp member with child | waiting
          · exact children tree child
          · exact others tree waiting

end Written

/-! ## The download -/

/-- **The archive of a commit** is read back as what its tree lists; it is whole blocks and ends with
two blocks of zeros.  It fails for a path only when no slash leaves room for both of its fields. -/
theorem archive_reads (limits : ArchiveLimits) (objects : Objects) (committedAt : ObjectId → Int)
    (commit : ObjectId) :
    (∀ output, archive limits objects committedAt commit = .ok output →
      ∃ info members, readCommit limits.reads objects commit = .ok info ∧
        treeMembers limits objects (max (committedAt commit) 0).toNat (limits.maxArchiveDepth + 1)
          info.tree [] = some members ∧
        readArchive output = some members ∧ output.length % 512 = 0 ∧
        ∃ front, output = front ++ zeros 1024) ∧
    (∀ path, archive limits objects committedAt commit = .error (.archivePath path) →
      Unsplittable path) ∧
    ∀ path error, splitTarPath path = .error error → error = .archivePath path ∧
      ∀ split, path[split]? = some slash → 0 < split → split ≤ 155 →
        path.length - split - 1 = 0 ∨ 100 < path.length - split - 1 := by
  have root : ∀ tree : ObjectId, ∀ waiting ∈ [(tree, ([] : GitPath), 0)], PlainStart waiting.2.1 := by
    intro tree waiting member
    rw [List.mem_singleton] at member
    rw [member]
    exact ⟨nofun, nofun⟩
  refine ⟨fun output ok => ?_, fun path failed => ?_, fun path error failed => ?_⟩
  · obtain ⟨info, read, ok⟩ := bind_eq_ok.mp ok
    obtain ⟨body, written, ok⟩ := bind_eq_ok.mp ok
    obtain ⟨-, rfl⟩ := writeBytes_eq_ok.mp ok
    obtain ⟨listed, added, listedIs, rfl, reads⟩ := archiveLoop_reads (root info.tree) written
    obtain ⟨members, membersAre, listedIs⟩ := Option.bind_eq_some_iff.mp listedIs
    cases listedIs
    rw [List.reverse_singleton, List.flatten_singleton] at reads
    refine ⟨info, members, ofRead_eq_ok.mp read, membersAre, ?_, ?_, _, rfl⟩
    · rw [reads.2, readArchive_end, Option.map_some, List.append_nil]
    · rw [List.length_append, Nat.add_mod, reads.1, zeros, List.length_replicate]
  · rcases bind_eq_error.mp failed with error | ⟨info, -, failed⟩
    · exact absurd error ofRead_path
    rcases bind_eq_error.mp failed with error | ⟨body, -, failed⟩
    · exact archiveLoop_path (root info.tree) error
    · exact absurd failed writeBytes_path
  · obtain ⟨same, -, refused⟩ := splitTarPath_eq_error failed
    exact ⟨same, refused⟩

end Tit.Git
