/-
# Git.Patch -- patches for `git apply`

`write_patch` writes one record for each file of a diff: a `diff --git` line, extended headers,
and a body with the hunks of a text or with the literal data of a binary file.
-/
import Tit.Git.Read
import Tit.Store.Review

namespace Tit.Git

open Tit.Theory Tit.Theory.Text Tit.Store

set_option autoImplicit false

def maxPatchBytes : Nat := 32 * 1024 * 1024

/-! ## Paths -/

/-- `{n:03o}` and the like: octal digits, filled up with zeros. -/
def octal (width n : Nat) : Bytes :=
  let digits := (Nat.toDigits 8 n).map digit
  List.replicate (width - digits.length) 48 ++ digits

def quotedByte (b : UInt8) : Bytes :=
  if b = 34 ∨ b = 92 then [92, b]
  else if b = 9 then [92, 116]
  else if b = 10 then [92, 110]
  else if b = 13 then [92, 114]
  else if 32 ≤ b ∧ b ≤ 126 then [b]
  else 92 :: octal 3 b.toNat

/-- A name that is written without quotes. -/
def isPlainName (name : Bytes) : Bool :=
  name.all fun b => decide (33 ≤ b ∧ b ≤ 126 ∧ b ≠ 34 ∧ b ≠ 92)

def patchPath (start : UInt8) (path : GitPath) : Bytes :=
  let prefixed := start :: 47 :: path
  if isPlainName prefixed then prefixed else 34 :: prefixed.flatMap quotedByte ++ [34]

/-! ## Binary data -/

def base85 : Bytes :=
  asciiBytes "0123456789ABCDEFGHIJKLMNOPQRSTUVWXYZabcdefghijklmnopqrstuvwxyz!#$%&()*+-;<=>?@^_\x60\x7b|\x7d~"

def adler32 (data : Bytes) : Nat :=
  let (first, second) := data.foldl
    (fun (sums : Nat × Nat) b =>
      let first := (sums.1 + b.toNat) % 65521
      (first, (sums.2 + first) % 65521)) (1, 0)
  second * 65536 + first

/-- Pieces of so many bytes; the last one may be shorter. -/
def chunks (size : Nat) (data : Bytes) : List Bytes :=
  (List.range ((data.length + size - 1) / size)).map fun i => (data.drop (i * size)).take size

theorem length_of_mem_chunks {size : Nat} {data chunk : Bytes} (member : chunk ∈ chunks size data) :
    chunk.length ≤ size := by
  obtain ⟨i, -, rfl⟩ := List.mem_map.mp member
  exact List.length_take_le _ _

/-- A number as so many bytes, the highest first. -/
def toBeBytes : Nat → Nat → Bytes
  | 0, _ => []
  | width + 1, n => UInt8.ofNat (n / 256 ^ width % 256) :: toBeBytes width n

def ofBeBytes (bytes : Bytes) : Nat := bytes.foldl (fun value b => 256 * value + b.toNat) 0

def storedBlock (last : Bool) (chunk : Bytes) : Bytes :=
  (if last then 1 else 0) :: (toBeBytes 2 chunk.length).reverse ++
    (toBeBytes 2 (65535 - chunk.length)).reverse ++ chunk

def storedBlocks : List Bytes → Bytes
  | [] => []
  | [chunk] => storedBlock true chunk
  | chunk :: rest => storedBlock false chunk ++ storedBlocks rest

def zlibStore (data : Bytes) : Bytes :=
  [0x78, 0x01] ++
    (if data = [] then [1, 0, 0, 0xff, 0xff] else storedBlocks (chunks 65535 data)) ++
      toBeBytes 4 (adler32 data)

/-- The letter for the length of a line, from 1 to 52. -/
def encodedLength (length : Nat) : UInt8 :=
  if length ≤ 26 then UInt8.ofNat (65 + length - 1) else UInt8.ofNat (97 + length - 27)

/-- The five digits of a word of four bytes. -/
def base85Word (word : Bytes) : Bytes :=
  let value := ofBeBytes word
  [value / 85 ^ 4, value / 85 ^ 3, value / 85 ^ 2, value / 85, value].map fun n =>
    base85.getD (n % 85) 0

def base85Line (chunk : Bytes) : Bytes :=
  let padded := chunk ++ List.replicate ((4 - chunk.length % 4) % 4) 0
  encodedLength chunk.length :: (chunks 4 padded).flatMap base85Word

def binaryLiteral (data : Bytes) : List Bytes :=
  (asciiBytes "literal " ++ decimal data.length) ::
    (chunks 52 (zlibStore data)).map base85Line ++ [[]]

/-! ## Records -/

section Records

variable (format : ObjectFormat)

def objectHex (id : ObjectId) : Bytes :=
  (List.range (objectIdLength format)).map fun i =>
    digit (Nat.digitChar (id.value / 16 ^ (objectIdLength format - 1 - i) % 16))

def objectName (id : Option ObjectId) (length : Nat) : Bytes :=
  match id with
  | none => List.replicate length 48
  | some id => objectHex format id

def diffLine (file : DiffFile) : Bytes :=
  asciiBytes "diff --git " ++ patchPath 97 file.path ++ 32 :: patchPath 98 file.path

def modeLines (file : DiffFile) : List Bytes :=
  match file.oldMode, file.newMode with
  | none, some mode => [asciiBytes "new file mode " ++ octal 6 mode.value]
  | some mode, none => [asciiBytes "deleted file mode " ++ octal 6 mode.value]
  | some old, some new =>
      if old ≠ new then
        [asciiBytes "old mode " ++ octal 6 old.value, asciiBytes "new mode " ++ octal 6 new.value]
      else []
  | none, none => []

def indexLine (file : DiffFile) : Bytes :=
  let length := ((file.oldId.or file.newId).map fun _ => objectIdLength format).getD 40
  let ids := asciiBytes "index " ++ objectName format file.oldId length ++ [46, 46] ++
    objectName format file.newId length
  match file.newMode.or file.oldMode with
  | some mode => if file.oldMode = file.newMode then ids ++ 32 :: octal 6 mode.value else ids
  | none => ids

def binaryLines (file : DiffFile) : List Bytes :=
  (asciiBytes "Binary files " ++ patchPath 97 file.path ++ asciiBytes " and " ++
      patchPath 98 file.path ++ asciiBytes " differ") ::
    asciiBytes "GIT binary patch" :: binaryLiteral (file.newData.getD [])

def nameLines (file : DiffFile) : List Bytes :=
  [asciiBytes "--- " ++ if file.oldId.isSome then patchPath 97 file.path else asciiBytes "/dev/null",
    asciiBytes "+++ " ++ if file.newId.isSome then patchPath 98 file.path else asciiBytes "/dev/null"]

def headerLines (file : DiffFile) : List Bytes :=
  diffLine file :: modeLines file ++ [indexLine format file]

def writeFile (file : DiffFile) : Bytes :=
  unlines (headerLines format file) ++
    (if file.binary then unlines (binaryLines file)
    else if file.oldId = file.newId then []
    else unlines (nameLines file) ++ file.hunks)

inductive PatchError where
  | output
  deriving DecidableEq, Repr

/-- The writer stops where the output grows over the limit, so that it succeeds exactly if the
whole of it fits. -/
def writePatch (files : List DiffFile) : Except PatchError Bytes := do
  let output := files.flatMap (writeFile format)
  ensure (output.length ≤ maxPatchBytes) .output
  pure output

end Records

end Tit.Git
