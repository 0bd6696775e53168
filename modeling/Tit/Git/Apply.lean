/-
# Git.Apply -- how `git apply` reads a patch

A patch is read line by line.  A record starts at a `diff --git` line; the first line after its
extended headers decides what its body is; what is not understood is skipped up to the next
record.  A record is then applied to the file at its path.

Where a hunk is found is fixed by its header, and the data of a binary file may be packed in any
way (`unpack`).
-/
import Tit.Git.Read
import Tit.Store.Review

namespace Tit.Git

open Tit.Theory Tit.Theory.Text Tit.Store

set_option autoImplicit false

/-! ## Keywords -/

/-- How the lines start that mean something. -/
inductive Keyword where
  | diff
  | oldMode
  | newMode
  | newFile
  | deletedFile
  | index
  | binaryPatch
  | binaryFiles
  | oldName
  | newName
  | range
  deriving DecidableEq, Repr

namespace Keyword

def text : Keyword → Bytes
  | .diff => asciiBytes "diff --git "
  | .oldMode => asciiBytes "old mode "
  | .newMode => asciiBytes "new mode "
  | .newFile => asciiBytes "new file mode "
  | .deletedFile => asciiBytes "deleted file mode "
  | .index => asciiBytes "index "
  | .binaryPatch => asciiBytes "GIT binary patch"
  | .binaryFiles => asciiBytes "Binary files "
  | .oldName => asciiBytes "--- "
  | .newName => asciiBytes "+++ "
  | .range => asciiBytes "@@ -"

def all : List Keyword :=
  [.diff, .oldMode, .newMode, .newFile, .deletedFile, .index, .binaryPatch, .binaryFiles, .oldName,
    .newName, .range]

end Keyword

/-- What follows a given start. -/
def after : Bytes → Bytes → Option Bytes
  | [], line => some line
  | _ :: _, [] => none
  | a :: start, b :: line => if a = b then after start line else none

def keywordOf (line : Bytes) : Option (Keyword × Bytes) :=
  Keyword.all.findSome? fun keyword => (after keyword.text line).map (keyword, ·)

/-! ## Names, modes and numbers -/

def isOctal (b : UInt8) : Bool := decide (48 ≤ b ∧ b ≤ 55)

def octalValue (text : Bytes) : Nat := text.foldl (fun value b => 8 * value + (b.toNat - 48)) 0

/-- What a letter after a backslash stands for. -/
def escape (letter : UInt8) : Option UInt8 :=
  if letter = 34 ∨ letter = 92 then some letter
  else if letter = 97 then some 7
  else if letter = 98 then some 8
  else if letter = 116 then some 9
  else if letter = 110 then some 10
  else if letter = 118 then some 11
  else if letter = 102 then some 12
  else if letter = 114 then some 13
  else none

/-- What follows an opening quote: the name, and the text after the closing quote. -/
def unquote : Bytes → Option (Bytes × Bytes)
  | [] => none
  | b :: rest =>
      if b = 34 then some ([], rest)
      else if b ≠ 92 then (unquote rest).map fun r => (b :: r.1, r.2)
      else
        match rest with
        | [] => none
        | letter :: rest =>
            match escape letter with
            | some c => (unquote rest).map fun r => (c :: r.1, r.2)
            | none =>
                match rest with
                | second :: third :: rest =>
                    if [letter, second, third].all isOctal ∧ letter ≤ 51 then
                      (unquote rest).map fun r =>
                        (UInt8.ofNat (octalValue [letter, second, third]) :: r.1, r.2)
                    else none
                | _ => none

/-- A name is quoted or ends at a space. -/
def readName (text : Bytes) : Option (Bytes × Bytes) :=
  if text.head? = some 34 then unquote text.tail
  else some (text.takeWhile fun b => decide (b ≠ 32), text.dropWhile fun b => decide (b ≠ 32))

/-- The name without its first component. -/
def stripFirst (name : Bytes) : GitPath := (name.dropWhile fun b => decide (b ≠ slash)).drop 1

/-- The two names of a `diff --git` line, which are the same below `a/` and `b/`. -/
def readNames (text : Bytes) : Option GitPath := do
  let (old, rest) ← readName text
  let rest ← after [32] rest
  let (new, rest) ← readName rest
  if rest = [] ∧ stripFirst old = stripFirst new then some (stripFirst old) else none

/-- The name on a line of its own; a version that does not exist has the name `/dev/null`. -/
def isNamed (exists' : Bool) (path : GitPath) (text : Bytes) : Bool :=
  if exists' then (readName text).any fun r => decide (stripFirst r.1 = path)
  else decide (text = asciiBytes "/dev/null")

def readMode (text : Bytes) : Option EntryMode :=
  if text ≠ [] ∧ text.all isOctal then some ⟨octalValue text⟩ else none

/-- The names of the two objects. -/
def readIndex (text : Bytes) : Bytes × Bytes :=
  (text.takeWhile fun b => decide (b ≠ 46),
    ((text.dropWhile fun b => decide (b ≠ 46)).drop 2).takeWhile fun b => decide (b ≠ 32))

def readNumber (text : Bytes) : Option (Nat × Bytes) :=
  (parseDecimal (text.takeWhile isDigit)).map (·, text.dropWhile isDigit)

/-- `a,b`; a count that is left out is 1. -/
def readPair (text : Bytes) : Option ((Nat × Nat) × Bytes) := do
  let (start, rest) ← readNumber text
  match after [44] rest with
  | some rest => (readNumber rest).map fun r => ((start, r.1), r.2)
  | none => some ((start, 1), rest)

/-- The rest of a line that starts with `@@ -`. -/
def readRange (text : Bytes) : Option ((Nat × Nat) × (Nat × Nat)) := do
  let (old, rest) ← readPair text
  let rest ← after [32, 43] rest
  let (new, rest) ← readPair rest
  let _ ← after [32, 64, 64] rest
  some (old, new)

/-! ## Records -/

/-- A hunk as it is read: where it is in the new file, and its lines with their newlines. -/
structure ReadHunk where
  start : Nat
  lines : List (LineKind × Bytes)
  deriving DecidableEq, Repr

namespace ReadHunk

def add (h : ReadHunk) (kind : LineKind) (text : Bytes) : ReadHunk :=
  { h with lines := h.lines ++ [(kind, text ++ [newline])] }

/-- `\ No newline at end of file` is about the line before it. -/
def unterminate (h : ReadHunk) : ReadHunk :=
  { h with
    lines := h.lines.dropLast ++ (h.lines.getLast?.map fun l => (l.1, chomp l.2)).toList }

end ReadHunk

inductive Body where
  | empty
  | hunks (hunks : List ReadHunk)
  | noData
  | literal (data : Bytes)
  deriving DecidableEq, Repr

structure Record where
  path : GitPath
  created : Option EntryMode := none
  deleted : Option EntryMode := none
  oldMode : Option EntryMode := none
  newMode : Option EntryMode := none
  ids : Bytes × Bytes := ([], [])
  body : Body := .empty
  deriving DecidableEq, Repr

/-! ## Reading -/

/-- Where in a record the next line is. -/
inductive Phase where
  | skip
  | headers (r : Record)
  | names (r : Record)
  | hunks (r : Record) (hunks : List ReadHunk)
  | lines (r : Record) (hunks : List ReadHunk) (h : ReadHunk) (old new : Nat)
  | size (r : Record)
  | literal (r : Record) (size : Nat) (packed : List Bytes)
  deriving DecidableEq, Repr

structure Reading where
  records : List Record
  phase : Phase
  deriving DecidableEq, Repr

/-- The records if the patch ends here; it cannot end inside of a body. -/
def Reading.closed (s : Reading) : Option (List Record) :=
  match s.phase with
  | .skip => some s.records
  | .headers r => some (s.records ++ [r])
  | .hunks r hunks => some (s.records ++ [{ r with body := .hunks hunks }])
  | _ => none

def enterHunk (r : Record) (hunks : List ReadHunk) (h : ReadHunk) (old new : Nat) : Phase :=
  if old = 0 ∧ new = 0 then .hunks r (hunks ++ [h]) else .lines r hunks h old new

/-- A line of a hunk that still has so many lines of the old and of the new file. -/
def takeLine (r : Record) (hunks : List ReadHunk) (h : ReadHunk) (old new : Nat) :
    Bytes → Option Phase
  | [] => none
  | marker :: text =>
      if marker = LineKind.context.marker ∧ 0 < old ∧ 0 < new then
        some (enterHunk r hunks (h.add .context text) (old - 1) (new - 1))
      else if marker = LineKind.deletion.marker ∧ 0 < old then
        some (enterHunk r hunks (h.add .deletion text) (old - 1) new)
      else if marker = LineKind.addition.marker ∧ 0 < new then
        some (enterHunk r hunks (h.add .addition text) old (new - 1))
      else if marker = 92 then some (.lines r hunks h.unterminate old new)
      else none

/-- The first line after the extended headers decides the body. -/
def headerLine (records : List Record) (r : Record) (line : Bytes) :
    Option (Keyword × Bytes) → Option Reading
  | some (.oldMode, text) =>
      (readMode text).map fun mode => ⟨records, .headers { r with oldMode := some mode }⟩
  | some (.newMode, text) =>
      (readMode text).map fun mode => ⟨records, .headers { r with newMode := some mode }⟩
  | some (.newFile, text) =>
      (readMode text).map fun mode => ⟨records, .headers { r with created := some mode }⟩
  | some (.deletedFile, text) =>
      (readMode text).map fun mode => ⟨records, .headers { r with deleted := some mode }⟩
  | some (.index, text) => some ⟨records, .headers { r with ids := readIndex text }⟩
  | some (.oldName, text) =>
      if isNamed r.created.isNone r.path text then some ⟨records, .names r⟩ else none
  | some (.binaryPatch, []) => some ⟨records, .size r⟩
  | some (.binaryFiles, _) =>
      if (asciiBytes " differ").isSuffixOf line then
        some ⟨records ++ [{ r with body := .noData }], .skip⟩
      else some ⟨records ++ [r], .skip⟩
  | _ => some ⟨records ++ [r], .skip⟩

/-- A line after a hunk. -/
def hunkLine (records : List Record) (r : Record) (hunks : List ReadHunk) (line : Bytes) :
    Option (Keyword × Bytes) → Option Reading
  | some (.range, text) =>
      (readRange text).map fun (old, new) =>
        ⟨records, enterHunk r hunks ⟨new.1, []⟩ old.2 new.2⟩
  | _ =>
      if line.head? = some 92 then
        some ⟨records, .hunks r (hunks.dropLast ++ (hunks.getLast?.map (·.unterminate)).toList)⟩
      else some ⟨records ++ [{ r with body := .hunks hunks }], .skip⟩

section Reader

variable (unpack : Nat → List Bytes → Option Bytes)

/-- A line inside of a body. -/
def bodyLine (records : List Record) (line : Bytes) : Phase → Option Reading
  | .names r =>
      match keywordOf line with
      | some (.newName, text) =>
          if isNamed r.deleted.isNone r.path text then some ⟨records, .hunks r []⟩ else none
      | _ => none
  | .lines r hunks h old new => (takeLine r hunks h old new line).map fun phase => ⟨records, phase⟩
  | .size r => do
      let size ← parseDecimal (← after (asciiBytes "literal ") line)
      some ⟨records, .literal r size []⟩
  | .literal r size packed =>
      if line = [] then
        (unpack size packed).map fun data =>
          ⟨records ++ [{ r with body := .literal data }], .skip⟩
      else some ⟨records, .literal r size (packed ++ [line])⟩
  | _ => none

def readLine (s : Reading) (line : Bytes) : Option Reading :=
  match s.closed with
  | none => bodyLine unpack s.records line s.phase
  | some records =>
      match keywordOf line with
      | some (.diff, names) => (readNames names).map fun path => ⟨records, .headers { path }⟩
      | keyword =>
          match s.phase with
          | .headers r => headerLine s.records r line keyword
          | .hunks r hunks => hunkLine s.records r hunks line keyword
          | _ => some s

def readLines (s : Reading) : List Bytes → Option Reading
  | [] => some s
  | line :: rest => (readLine unpack s line).bind fun s => readLines s rest

def readPatch (text : Bytes) : Option (List Record) :=
  (readLines unpack ⟨[], .skip⟩ (lines text)).bind Reading.closed

end Reader

/-! ## Applying -/

/-- A file of a work tree.  The data that cannot be read are missing. -/
structure Entry where
  mode : EntryMode
  data : Option Bytes
  deriving DecidableEq, Repr

abbrev WorkTree := GitPath → Option Entry

def ReadHunk.old (h : ReadHunk) : List Bytes :=
  (h.lines.filter fun l => decide (l.1 ≠ .addition)).map Prod.snd

def ReadHunk.new (h : ReadHunk) : List Bytes :=
  (h.lines.filter fun l => decide (l.1 ≠ .deletion)).map Prod.snd

/-- The lines of the hunk replace those at its place, which must be the same. -/
def applyHunk (h : ReadHunk) (image : List Bytes) : Option (List Bytes) :=
  let place := h.start - 1
  if place ≤ image.length ∧ (image.drop place).take h.old.length = h.old then
    some (image.take place ++ (h.new ++ image.drop (place + h.old.length)))
  else none

def applyHunks : List ReadHunk → List Bytes → Option (List Bytes)
  | [], image => some image
  | h :: rest, image => (applyHunk h image).bind (applyHunks rest)

/-- A record without data can delete a file or leave its data alone; what it says about a
submodule is not the name of the object that stands for it. -/
def Record.applyBody (r : Record) (mode : EntryMode) (data : Bytes) : Option Bytes :=
  match r.body with
  | .empty => some data
  | .hunks hunks => (applyHunks hunks (tokens data)).map List.flatten
  | .noData =>
      if mode.isCommit then none
      else if r.deleted.isSome then some []
      else if r.created.isNone ∧ r.ids.1 = r.ids.2 then some data
      else none
  | .literal new => some new

/-- What becomes of the file at the path of the record.  A change in place keeps the type of the
file, and a file that is deleted must have nothing left. -/
def Record.applyEntry (r : Record) : Option Entry → Option (Option Entry)
  | none => do
      let mode ← r.created
      let data ← r.applyBody mode []
      if r.deleted.isNone then some (some ⟨mode, some data⟩) else none
  | some entry =>
      if r.created.isSome then none
      else
        match r.deleted with
        | some mode => do
            let data ← r.applyBody mode (← entry.data)
            if mode.format = entry.mode.format ∧ data = [] then some none else none
        | none => do
            let data ← r.applyBody entry.mode (← entry.data)
            let mode := r.newMode.getD entry.mode
            if (r.oldMode.getD entry.mode).format = entry.mode.format ∧
                mode.format = entry.mode.format then
              some (some ⟨mode, some data⟩)
            else none

def applyRecords : List Record → WorkTree → Option WorkTree
  | [], tree => some tree
  | r :: rest, tree =>
      (r.applyEntry (tree r.path)).bind fun entry =>
        applyRecords rest fun path => if path = r.path then entry else tree path

def applyPatch (unpack : Nat → List Bytes → Option Bytes) (text : Bytes) (tree : WorkTree) :
    Option WorkTree :=
  (readPatch unpack text).bind fun records => applyRecords records tree

end Tit.Git
