/-
# Git.PatchRecords -- the records of a written patch

The reader makes of what `write_patch` writes one record for each file, with the body that the
writer's branches come to (`readPatch_written`).  The record of a binary file has no data: its
`Binary files` line is the first one after the extended headers.
-/
import Tit.Git.PatchNames

namespace Tit.Git

open Tit.Theory Tit.Theory.Text Tit.Store

set_option autoImplicit false

/-! ## Runs of the reader -/

section Runs

variable (unpack : Nat → List Bytes → Option Bytes)

theorem readLines_append (s : Reading) (before rest : List Bytes) :
    readLines unpack s (before ++ rest) =
      (readLines unpack s before).bind fun s => readLines unpack s rest := by
  induction before generalizing s with
  | nil => rfl
  | cons line before ih =>
      rw [List.cons_append, readLines, readLines, Option.bind_assoc]
      exact congrArg _ (funext fun s => ih s)

theorem readLines_single (s : Reading) (line : Bytes) :
    readLines unpack s [line] = readLine unpack s line := by
  cases found : readLine unpack s line <;> simp [readLines, found]

/-- A record starts wherever the patch could end. -/
theorem readLine_diff {s : Reading} {records : List Record} (closed : s.closed = some records)
    (path : GitPath) :
    readLine unpack s (Keyword.diff.text ++ (patchPath 97 path ++ 32 :: patchPath 98 path)) =
      some ⟨records, .headers { path }⟩ := by
  rw [readLine, closed]
  simp only
  rw [keywordOf_text]
  simp only
  rw [readNames_diffLine]
  rfl

theorem readLine_header (records : List Record) (r : Record) (k : Keyword) (other : k ≠ .diff)
    (text : Bytes) :
    readLine unpack ⟨records, .headers r⟩ (k.text ++ text) =
      headerLine records r (k.text ++ text) (some (k, text)) := by
  have closed : (⟨records, .headers r⟩ : Reading).closed = some (records ++ [r]) := rfl
  rw [readLine, closed]
  simp only
  rw [keywordOf_text]
  cases k <;> first | exact absurd rfl other | rfl

/-- What is not a record is skipped. -/
theorem readLines_skip (records : List Record) (garbage : List Bytes)
    (other : ∀ line ∈ garbage, after Keyword.diff.text line = none) :
    readLines unpack ⟨records, .skip⟩ garbage = some ⟨records, .skip⟩ := by
  induction garbage with
  | nil => rfl
  | cons line rest ih =>
      have skipped : readLine unpack ⟨records, .skip⟩ line = some ⟨records, .skip⟩ := by
        have closed : (⟨records, .skip⟩ : Reading).closed = some records := rfl
        rw [readLine, closed]
        simp only
        split
        · rename_i names found
          have here := keywordOf_diff found
          rw [other line List.mem_cons_self] at here
          cases here
        · rfl
      rw [readLines, skipped]
      exact ih fun line later => other line (List.mem_cons_of_mem _ later)

end Runs

/-! ## Hunks -/

/-- A line of a hunk with the newline that the patch gives it. -/
def Hunk.read (h : Hunk) : ReadHunk where
  start := h.newStart
  lines := h.lines.map fun l => (l.1, l.2 ++ [newline])

/-- The counts of the header are those of the lines. -/
structure Hunk.Counted (h : Hunk) : Prop where
  old : h.oldCount = h.oldLines.length
  new : h.newCount = h.newLines.length
  clean : ∀ l ∈ h.lines, newline ∉ l.2

section Hunks

variable (unpack : Nat → List Bytes → Option Bytes) (records : List Record) (r : Record)

def oldCountOf (ls : List (LineKind × Bytes)) : Nat :=
  (ls.filter fun l => decide (l.1 ≠ .addition)).length

def newCountOf (ls : List (LineKind × Bytes)) : Nat :=
  (ls.filter fun l => decide (l.1 ≠ .deletion)).length

theorem oldCountOf_cons (l : LineKind × Bytes) (ls : List (LineKind × Bytes)) :
    oldCountOf (l :: ls) = oldCountOf ls + if l.1 = .addition then 0 else 1 := by
  by_cases added : l.1 = .addition <;> simp [oldCountOf, added]

theorem newCountOf_cons (l : LineKind × Bytes) (ls : List (LineKind × Bytes)) :
    newCountOf (l :: ls) = newCountOf ls + if l.1 = .deletion then 0 else 1 := by
  by_cases deleted : l.1 = .deletion <;> simp [newCountOf, deleted]

theorem readLine_content (hunks : List ReadHunk) (h : ReadHunk) (l : LineKind × Bytes)
    (ls : List (LineKind × Bytes)) :
    readLine unpack ⟨records, enterHunk r hunks h (oldCountOf (l :: ls)) (newCountOf (l :: ls))⟩
        (Hunk.contentLine l) =
      some ⟨records, enterHunk r hunks (h.add l.1 l.2) (oldCountOf ls) (newCountOf ls)⟩ := by
  obtain ⟨kind, text⟩ := l
  rw [oldCountOf_cons, newCountOf_cons]
  cases kind with
  | context =>
      simp [enterHunk, readLine, Reading.closed, bodyLine, takeLine, Hunk.contentLine,
        LineKind.marker]
  | deletion =>
      simp [enterHunk, readLine, Reading.closed, bodyLine, takeLine, Hunk.contentLine,
        LineKind.marker]
  | addition =>
      simp [enterHunk, readLine, Reading.closed, bodyLine, takeLine, Hunk.contentLine,
        LineKind.marker]

/-- The lines of a hunk are read until its counts are used up. -/
theorem readLines_content (hunks : List ReadHunk) (h : ReadHunk) (ls : List (LineKind × Bytes)) :
    readLines unpack ⟨records, enterHunk r hunks h (oldCountOf ls) (newCountOf ls)⟩
        (ls.map Hunk.contentLine) =
      some ⟨records, .hunks r (hunks ++
        [{ h with lines := h.lines ++ ls.map fun l => (l.1, l.2 ++ [newline]) }])⟩ := by
  induction ls generalizing h with
  | nil => simp [readLines, enterHunk, oldCountOf, newCountOf]
  | cons l ls ih =>
      rw [List.map_cons, readLines, readLine_content]
      simp only [Option.bind_some]
      rw [ih (h.add l.1 l.2)]
      simp [ReadHunk.add]

theorem readLines_hunk (hunks : List ReadHunk) {h : Hunk} (counted : h.Counted) :
    readLines unpack ⟨records, .hunks r hunks⟩ h.textLines =
      some ⟨records, .hunks r (hunks ++ [h.read])⟩ := by
  obtain ⟨text, header, range⟩ := readRange_header h
  have closed : (⟨records, .hunks r hunks⟩ : Reading).closed =
      some (records ++ [{ r with body := .hunks hunks }]) := rfl
  have entered : readLine unpack ⟨records, .hunks r hunks⟩ h.header =
      some ⟨records, enterHunk r hunks ⟨h.newStart, []⟩ h.oldCount h.newCount⟩ := by
    rw [readLine, closed, header]
    simp only
    rw [keywordOf_text]
    simp only [hunkLine, range, Option.map_some]
  have old : h.oldCount = oldCountOf h.lines := by
    rw [counted.old, Hunk.oldLines, List.length_map, oldCountOf]
  have new : h.newCount = newCountOf h.lines := by
    rw [counted.new, Hunk.newLines, List.length_map, newCountOf]
  rw [Hunk.textLines, readLines, entered, Option.bind_some, old, new, readLines_content]
  rfl

theorem readLines_hunks (hunks : List ReadHunk) {hs : List Hunk} (counted : ∀ h ∈ hs, h.Counted) :
    readLines unpack ⟨records, .hunks r hunks⟩ (hs.flatMap Hunk.textLines) =
      some ⟨records, .hunks r (hunks ++ hs.map Hunk.read)⟩ := by
  induction hs generalizing hunks with
  | nil => simp [readLines]
  | cons h hs ih =>
      rw [List.flatMap_cons, readLines_append,
        readLines_hunk unpack records r hunks (counted h List.mem_cons_self)]
      simp only [Option.bind_some]
      rw [ih (hunks ++ [h.read]) fun h later => counted h (List.mem_cons_of_mem _ later)]
      simp

end Hunks

/-! ## Files -/

/-- An entry of a diff whose hunks are these. -/
structure FileOf (file : DiffFile) (hs : List Hunk) : Prop where
  exists' : file.oldMode.isSome = file.oldId.isSome ∧ file.newMode.isSome = file.newId.isSome ∧
    (file.oldId.isSome ∨ file.newId.isSome)
  hunks : file.binary = false → file.hunks = unlines (hs.flatMap Hunk.textLines)
  counted : ∀ h ∈ hs, h.Counted

section Files

variable (format : ObjectFormat) (unpack : Nat → List Bytes → Option Bytes)

/-- The lines of the record of a file. -/
def fileLines (file : DiffFile) (hs : List Hunk) : List Bytes :=
  headerLines format file ++
    (if file.binary then binaryLines file
    else if file.oldId = file.newId then []
    else nameLines file ++ hs.flatMap Hunk.textLines)

theorem unlines_append (a b : List Bytes) : unlines (a ++ b) = unlines a ++ unlines b :=
  List.flatMap_append

theorem writeFile_eq {file : DiffFile} {hs : List Hunk} (of : FileOf file hs) :
    writeFile format file = unlines (fileLines format file hs) := by
  unfold writeFile fileLines
  rw [unlines_append]
  split
  · rfl
  · rename_i text
    split
    · rfl
    · rw [unlines_append, of.hunks (by simpa using text)]

/-- What the record of a file says about its two versions. -/
def headRecord (file : DiffFile) : Record where
  path := file.path
  created := if file.oldMode.isNone then file.newMode else none
  deleted := if file.newMode.isNone then file.oldMode else none
  oldMode := if file.newMode.isSome ∧ file.oldMode ≠ file.newMode then file.oldMode else none
  newMode := if file.oldMode.isSome ∧ file.oldMode ≠ file.newMode then file.newMode else none
  ids :=
    let length := ((file.oldId.or file.newId).map fun _ => objectIdLength format).getD 40
    (objectName format file.oldId length, objectName format file.newId length)

def recordOf (file : DiffFile) (hs : List Hunk) : Record :=
  { headRecord format file with
    body :=
      if file.binary then .noData
      else if file.oldId = file.newId then .empty
      else .hunks (hs.map Hunk.read) }

theorem indexLine_eq (file : DiffFile) : ∃ rest, Follows rest ∧
    indexLine format file = Keyword.index.text ++
      ((headRecord format file).ids.1 ++ [46, 46] ++ (headRecord format file).ids.2 ++ rest) := by
  unfold indexLine headRecord
  simp only
  split
  · rename_i mode _
    split
    · exact ⟨32 :: octal 6 mode.value, fun b head => (Option.some.inj head).symm, by
        simp only [List.append_assoc, Keyword.text]⟩
    · exact ⟨[], fun b head => (by cases head), by
        simp only [List.append_assoc, List.append_nil, Keyword.text]⟩
  · exact ⟨[], fun b head => (by cases head), by
        simp only [List.append_assoc, List.append_nil, Keyword.text]⟩

/-- The mode lines say which versions there are and how the mode changes. -/
theorem readLines_modes (records : List Record) (file : DiffFile) :
    readLines unpack ⟨records, .headers { path := file.path }⟩ (modeLines file) =
      some ⟨records, .headers { headRecord format file with ids := ([], []) }⟩ := by
  unfold modeLines headRecord
  cases old : file.oldMode with
  | none =>
      cases new : file.newMode with
      | none => rfl
      | some mode =>
          have read := readLine_header unpack records { path := file.path } .newFile nofun
            (octal 6 mode.value)
          simp only [headerLine, readMode_octal, Option.map_some] at read
          rw [readLines_single]
          exact read
  | some before =>
      cases new : file.newMode with
      | none =>
          have read := readLine_header unpack records { path := file.path } .deletedFile nofun
            (octal 6 before.value)
          simp only [headerLine, readMode_octal, Option.map_some] at read
          rw [readLines_single]
          exact read
      | some mode =>
          by_cases same : before = mode
          · simp [same, readLines]
          · have first := readLine_header unpack records { path := file.path } .oldMode nofun
              (octal 6 before.value)
            have second := readLine_header unpack records
              { path := file.path, oldMode := some before } .newMode nofun (octal 6 mode.value)
            simp only [headerLine, readMode_octal, Option.map_some] at first second
            have both : readLines unpack ⟨records, .headers { path := file.path }⟩
                [Keyword.oldMode.text ++ octal 6 before.value,
                  Keyword.newMode.text ++ octal 6 mode.value] =
                some ⟨records, .headers
                  { path := file.path, oldMode := some before, newMode := some mode }⟩ := by
              rw [readLines, first, Option.bind_some, readLines_single, second]
            simpa [same, Keyword.text] using both

theorem readLines_header {s : Reading} {records : List Record} (closed : s.closed = some records)
    (file : DiffFile) :
    readLines unpack s (headerLines format file) =
      some ⟨records, .headers (headRecord format file)⟩ := by
  obtain ⟨rest, follows, index⟩ := indexLine_eq format file
  have first : readLine unpack s (diffLine file) = some ⟨records, .headers { path := file.path }⟩ := by
    unfold diffLine
    rw [List.append_assoc]
    exact readLine_diff unpack closed file.path
  have last := readLine_header unpack records { headRecord format file with ids := ([], []) } .index
    nofun ((headRecord format file).ids.1 ++ [46, 46] ++ (headRecord format file).ids.2 ++ rest)
  rw [← index] at last
  have names : readIndex
      ((headRecord format file).ids.1 ++ [46, 46] ++ (headRecord format file).ids.2 ++ rest) =
        (headRecord format file).ids := readIndex_names format _ _ _ follows
  simp only [headerLine, names] at last
  unfold headerLines
  rw [List.cons_append, readLines, first, Option.bind_some, readLines_append,
    readLines_modes format unpack, Option.bind_some, readLines_single]
  exact last

/-! The body of a binary file. -/

theorem base85_letters :
    base85.length = 85 ∧ base85.Nodup ∧ ∀ b ∈ base85, b ≠ 32 ∧ b ≠ newline := by
  decide +kernel

theorem notMem_base85Word (word : Bytes) {b : UInt8} (member : b ∈ base85Word word) :
    b ≠ 32 ∧ b ≠ newline := by
  obtain ⟨length, -, letters⟩ := base85_letters
  unfold base85Word at member
  simp only at member
  obtain ⟨n, -, rfl⟩ := List.mem_map.mp member
  have place : n % 85 < base85.length := by
    rw [length]
    exact Nat.mod_lt _ (by omega)
  rw [List.getD_eq_getElem?_getD, List.getElem?_eq_getElem place, Option.getD_some]
  exact letters _ (List.getElem_mem place)

theorem notMem_base85Line {chunk : Bytes} (short : chunk.length ≤ 52) {b : UInt8}
    (member : b ∈ base85Line chunk) : b ≠ 32 ∧ b ≠ newline := by
  have lengths : ∀ n ≤ 52, encodedLength n ≠ 32 ∧ encodedLength n ≠ newline := by decide
  unfold base85Line at member
  simp only at member
  rcases List.mem_cons.mp member with rfl | later
  · exact lengths _ short
  · obtain ⟨word, -, inside⟩ := List.mem_flatMap.mp later
    exact notMem_base85Word word inside

theorem mem_binaryLiteral {data line : Bytes} (member : line ∈ binaryLiteral data) :
    line = asciiBytes "literal " ++ decimal data.length ∨ ∀ b ∈ line, b ≠ 32 ∧ b ≠ newline := by
  unfold binaryLiteral at member
  rw [List.mem_append, List.mem_cons, List.mem_map, List.mem_singleton] at member
  rcases member with (literal | ⟨chunk, listed, rfl⟩) | rfl
  · exact .inl literal
  · exact .inr fun b => notMem_base85Line (length_of_mem_chunks listed)
  · exact .inr nofun

theorem readLines_binary (records : List Record) (r : Record) (file : DiffFile) :
    readLines unpack ⟨records, .headers r⟩ (binaryLines file) =
      some ⟨records ++ [{ r with body := .noData }], .skip⟩ := by
  let names := patchPath 97 file.path ++ (asciiBytes " and " ++ patchPath 98 file.path)
  have line : asciiBytes "Binary files " ++ patchPath 97 file.path ++ asciiBytes " and " ++
      patchPath 98 file.path ++ asciiBytes " differ" =
        Keyword.binaryFiles.text ++ (names ++ asciiBytes " differ") := by
    simp only [names, List.append_assoc, Keyword.text]
  have ends : (asciiBytes " differ").isSuffixOf
      (Keyword.binaryFiles.text ++ (names ++ asciiBytes " differ")) = true := by
    rw [List.isSuffixOf_iff_suffix, ← List.append_assoc]
    exact List.suffix_append _ _
  have other : Keyword.binaryFiles ≠ .diff := by decide
  have first := readLine_header unpack records r .binaryFiles other (names ++ asciiBytes " differ")
  simp only [headerLine, ends, if_true] at first
  unfold binaryLines
  rw [line, readLines, first, Option.bind_some]
  refine readLines_skip unpack _ _ fun line member => ?_
  rcases List.mem_cons.mp member with rfl | literal
  · simp [after, Keyword.text, asciiBytes]
  · rcases mem_binaryLiteral literal with rfl | bytes
    · refine after_apart ?_ ?_ _ <;> simp [Keyword.text, asciiBytes, List.isPrefixOf]
    · cases found : after Keyword.diff.text line with
      | none => rfl
      | some rest =>
          have space : (32 : UInt8) ∈ Keyword.diff.text := by
            simp [Keyword.text, asciiBytes]
          have inside : (32 : UInt8) ∈ line := by
            rw [after_eq_some.mp found]
            exact List.mem_append_left _ space
          exact absurd rfl (bytes 32 inside).1

/-- The names of a text, which say again which versions there are. -/
theorem readLines_names {file : DiffFile} {hs : List Hunk} (of : FileOf file hs)
    (records : List Record) :
    readLines unpack ⟨records, .headers (headRecord format file)⟩ (nameLines file) =
      some ⟨records, .hunks (headRecord format file) []⟩ := by
  obtain ⟨old, new, either⟩ := of.exists'
  have created : (headRecord format file).created.isNone = file.oldId.isSome := by
    unfold headRecord
    rw [← old]
    cases before : file.oldMode with
    | none =>
        rw [← old, ← new, before] at either
        simpa using either
    | some mode => rfl
  have deleted : (headRecord format file).deleted.isNone = file.newId.isSome := by
    unfold headRecord
    rw [← new]
    cases later : file.newMode with
    | none =>
        rw [← old, ← new, later] at either
        simpa using either
    | some mode => rfl
  have named : ∀ (start : UInt8) (here : Bool), start ≠ slash →
      isNamed here file.path
        (if here then patchPath start file.path else asciiBytes "/dev/null") = true := by
    intro start here strip
    cases here with
    | true => exact isNamed_patchPath strip file.path
    | false => exact decide_eq_true (Eq.refl (asciiBytes "/dev/null"))
  have first := readLine_header unpack records (headRecord format file) .oldName nofun
    (if file.oldId.isSome then patchPath 97 file.path else asciiBytes "/dev/null")
  have firstNamed := named 97 file.oldId.isSome (by decide)
  have second : readLine unpack ⟨records, .names (headRecord format file)⟩ (Keyword.newName.text ++
      if file.newId.isSome then patchPath 98 file.path else asciiBytes "/dev/null") =
        some ⟨records, .hunks (headRecord format file) []⟩ := by
    have closed : (⟨records, .names (headRecord format file)⟩ : Reading).closed = none := rfl
    rw [readLine, closed]
    simp only [bodyLine]
    rw [keywordOf_text]
    simp only
    rw [deleted]
    exact if_pos (named 98 file.newId.isSome (by decide))
  simp only [headerLine] at first
  rw [created] at first
  rw [if_pos (show isNamed file.oldId.isSome (headRecord format file).path _ = true from firstNamed)]
    at first
  unfold nameLines
  rw [readLines]
  refine Eq.trans (congrArg (Option.bind · _) first) ?_
  rw [Option.bind_some, readLines_single]
  exact second

/-- One record is read for a file. -/
theorem readLines_file {file : DiffFile} {hs : List Hunk} (of : FileOf file hs) {s : Reading}
    {records : List Record} (closed : s.closed = some records) :
    ∃ s', readLines unpack s (fileLines format file hs) = some s' ∧
      s'.closed = some (records ++ [recordOf format file hs]) := by
  unfold fileLines recordOf
  rw [readLines_append, readLines_header format unpack closed, Option.bind_some]
  split
  · exact ⟨_, readLines_binary unpack records _ file, rfl⟩
  · split
    · exact ⟨_, rfl, rfl⟩
    · rw [readLines_append, readLines_names format unpack of, Option.bind_some,
        readLines_hunks unpack records _ [] of.counted]
      exact ⟨_, rfl, rfl⟩

/-! ## Patches -/

theorem newline_notMem_text (k : Keyword) : newline ∉ k.text := by
  cases k <;> simp [Keyword.text, asciiBytes, newline]

theorem newline_notMem_decimal (n : Nat) : newline ∉ decimal n := fun inside =>
  absurd (isDigit_of_decimal inside) (by decide)

theorem newline_notMem_objectName (id : Option ObjectId) (length : Nat) :
    newline ∉ objectName format id length := fun inside =>
  absurd (isHex_objectName format inside) (by decide)

theorem newline_notMem_modeLines {file : DiffFile} {line : Bytes}
    (member : line ∈ modeLines file) : newline ∉ line := by
  have mode := newline_notMem_octal 6
  have text := newline_notMem_text
  unfold modeLines at member
  split at member
  · obtain rfl := List.mem_singleton.mp member
    exact List.not_mem_append (text .newFile) (mode _)
  · obtain rfl := List.mem_singleton.mp member
    exact List.not_mem_append (text .deletedFile) (mode _)
  · split at member
    · rw [List.mem_cons, List.mem_singleton] at member
      rcases member with rfl | rfl
      · exact List.not_mem_append (text .oldMode) (mode _)
      · exact List.not_mem_append (text .newMode) (mode _)
    · cases member
  · cases member

theorem newline_notMem_indexLine (file : DiffFile) : newline ∉ indexLine format file := by
  have name := newline_notMem_objectName format
  have ids : ∀ length, newline ∉ asciiBytes "index " ++ objectName format file.oldId length ++
      [46, 46] ++ objectName format file.newId length := fun length =>
    List.not_mem_append (List.not_mem_append
      (List.not_mem_append (newline_notMem_text .index) (name _ _)) (by decide)) (name _ _)
  unfold indexLine
  simp only
  split
  · split
    · refine List.not_mem_append (ids _) ?_
      rw [List.mem_cons, not_or]
      exact ⟨by decide, newline_notMem_octal 6 _⟩
    · exact ids _
  · exact ids _

theorem newline_notMem_binaryLines {file : DiffFile} {line : Bytes}
    (member : line ∈ binaryLines file) : newline ∉ line := by
  have path := newline_notMem_patchPath
  unfold binaryLines at member
  rw [List.mem_cons, List.mem_cons] at member
  rcases member with rfl | rfl | literal
  · exact List.not_mem_append (List.not_mem_append (List.not_mem_append
      (List.not_mem_append (newline_notMem_text .binaryFiles) (path _ _)) (by simp [asciiBytes, newline]))
      (path _ _)) (by simp [asciiBytes, newline])
  · simp [asciiBytes, newline]
  · rcases mem_binaryLiteral literal with rfl | bytes
    · exact List.not_mem_append (by simp [asciiBytes, newline]) (newline_notMem_decimal _)
    · exact fun inside => (bytes newline inside).2 rfl

theorem newline_notMem_nameLines {file : DiffFile} {line : Bytes}
    (member : line ∈ nameLines file) : newline ∉ line := by
  have name : ∀ (here : Bool) (start : UInt8), newline ∉
      if here then patchPath start file.path else asciiBytes "/dev/null" := by
    intro here start
    cases here with
    | true => exact newline_notMem_patchPath start file.path
    | false =>
        show newline ∉ asciiBytes "/dev/null"
        simp [asciiBytes, newline]
  unfold nameLines at member
  rw [List.mem_cons, List.mem_singleton] at member
  rcases member with rfl | rfl
  · exact List.not_mem_append (newline_notMem_text .oldName) (name _ _)
  · exact List.not_mem_append (newline_notMem_text .newName) (name _ _)

theorem newline_notMem_textLines {h : Hunk} (counted : h.Counted) {line : Bytes}
    (member : line ∈ h.textLines) : newline ∉ line := by
  have number : ∀ n, 10 ∉ decimal n := newline_notMem_decimal
  unfold Hunk.textLines at member
  rcases List.mem_cons.mp member with rfl | content
  · simp [Hunk.header, number, newline]
  · obtain ⟨l, listed, rfl⟩ := List.mem_map.mp content
    have marker : newline ≠ l.1.marker := by
      cases l.1 <;> decide
    rw [Hunk.contentLine, List.mem_cons, not_or]
    exact ⟨marker, counted.clean l listed⟩

/-- No line of a record has a newline in it. -/
theorem newline_notMem_fileLines {file : DiffFile} {hs : List Hunk} (of : FileOf file hs)
    {line : Bytes} (member : line ∈ fileLines format file hs) : newline ∉ line := by
  have path := newline_notMem_patchPath
  unfold fileLines headerLines diffLine at member
  rw [List.mem_append, List.mem_append, List.mem_cons, List.mem_singleton] at member
  rcases member with ((rfl | modes) | rfl) | body
  · refine List.not_mem_append (List.not_mem_append (newline_notMem_text .diff) (path _ _)) ?_
    rw [List.mem_cons, not_or]
    exact ⟨by decide, path _ _⟩
  · exact newline_notMem_modeLines modes
  · exact newline_notMem_indexLine format file
  · split at body
    · exact newline_notMem_binaryLines body
    · split at body
      · cases body
      · rcases List.mem_append.mp body with names | hunks
        · exact newline_notMem_nameLines names
        · obtain ⟨h, listed, inside⟩ := List.mem_flatMap.mp hunks
          exact newline_notMem_textLines (of.counted h listed) inside

theorem readLines_files (files : List DiffFile) (hunks : DiffFile → List Hunk)
    (of : ∀ file ∈ files, FileOf file (hunks file)) {s : Reading} {records : List Record}
    (closed : s.closed = some records) :
    ∃ s', readLines unpack s (files.flatMap fun file => fileLines format file (hunks file)) =
        some s' ∧
      s'.closed = some (records ++ files.map fun file => recordOf format file (hunks file)) := by
  induction files generalizing s records with
  | nil => exact ⟨s, rfl, by simpa using closed⟩
  | cons file files ih =>
      obtain ⟨s', read, closed'⟩ := readLines_file format unpack (of file List.mem_cons_self) closed
      obtain ⟨s'', later, closed''⟩ :=
        ih (fun other member => of other (List.mem_cons_of_mem _ member)) closed'
      refine ⟨s'', ?_, ?_⟩
      · rw [List.flatMap_cons, readLines_append, read, Option.bind_some, later]
      · rw [closed'', List.map_cons, List.append_assoc]
        rfl

/-- **What is written is read back**, one record for each file. -/
theorem readPatch_written (files : List DiffFile) (hunks : DiffFile → List Hunk)
    (of : ∀ file ∈ files, FileOf file (hunks file)) :
    readPatch unpack (files.flatMap (writeFile format)) =
      some (files.map fun file => recordOf format file (hunks file)) := by
  have output : files.flatMap (writeFile format) =
      unlines (files.flatMap fun file => fileLines format file (hunks file)) := by
    induction files with
    | nil => rfl
    | cons file files ih =>
        rw [List.flatMap_cons, List.flatMap_cons, unlines_append,
          writeFile_eq format (of file List.mem_cons_self),
          ih fun other member => of other (List.mem_cons_of_mem _ member)]
  have clean : ∀ line ∈ files.flatMap fun file => fileLines format file (hunks file),
      newline ∉ line := by
    intro line member
    obtain ⟨file, listed, inside⟩ := List.mem_flatMap.mp member
    exact newline_notMem_fileLines format (of file listed) inside
  obtain ⟨s, read, closed⟩ := @readLines_files format unpack files hunks of
    ⟨[], .skip⟩ [] rfl
  rw [readPatch, output, lines_unlines clean, read, Option.bind_some, closed, List.nil_append]

end Files

end Tit.Git
