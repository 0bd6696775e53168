/-
# Git.Fidelity -- when a patch carries a difference over

A patch that `write_patch` writes for two trees gives the new tree when `git apply` applies it to
the old one exactly if every file that differs is of a kind that the writer has right
(`patch_gives_tree_iff`).  It loses the data of binary files, because it announces them with a
line that ends the record; it cannot change the type of a file in place; and it has no marker
for a line without newline.
-/
import Tit.Git.Diff
import Tit.Git.PatchRecords

namespace Tit.Git

open Tit.Theory Tit.Theory.Text Tit.Store

set_option autoImplicit false

/-! ## Correct hunks -/

/-- A hunk with its lines as they are in the files, and the lines before it that stay. -/
structure Change where
  same : List Bytes
  lines : List (LineKind × Bytes)

namespace Change

def old (c : Change) : List Bytes :=
  (c.lines.filter fun l => decide (l.1 ≠ .addition)).map Prod.snd

def new (c : Change) : List Bytes :=
  (c.lines.filter fun l => decide (l.1 ≠ .deletion)).map Prod.snd

/-- The new lines as a reader has them, each with a newline. -/
def patched (c : Change) : List Bytes := c.new.map fun t => chomp t ++ [newline]

theorem mem_lines {c : Change} {l : LineKind × Bytes} (member : l ∈ c.lines) :
    l.2 ∈ c.old ∨ l.2 ∈ c.new := by
  by_cases added : l.1 = .addition
  · exact .inr (List.mem_map.mpr ⟨l, List.mem_filter.mpr ⟨member, by simp [added]⟩, rfl⟩)
  · exact .inl (List.mem_map.mpr ⟨l, List.mem_filter.mpr ⟨member, by simp [added]⟩, rfl⟩)

end Change

/-- The headers count the lines before the hunks and in them; a start without lines may be the
line before or the one after. -/
def Numbered : Nat → Nat → List Change → List Hunk → Prop
  | _, _, [], [] => True
  | i, j, c :: cs, h :: hs =>
      (h.oldStart - 1 = i + c.same.length ∧ h.newStart - 1 = j + c.same.length ∧
        h.oldCount = c.old.length ∧ h.newCount = c.new.length ∧
        h.lines = c.lines.map fun l => (l.1, chomp l.2)) ∧
      Numbered (i + c.same.length + c.old.length) (j + c.same.length + c.new.length) cs hs
  | _, _, _, _ => False

def oldTokens (cs : List Change) : List Bytes := cs.flatMap fun c => c.same ++ c.old

def newTokens (cs : List Change) : List Bytes := cs.flatMap fun c => c.same ++ c.new

/-- The hunks are the lines of the two files, without the newlines. -/
def CorrectDiff (hs : List Hunk) (old new : Bytes) : Prop :=
  ∃ cs rest, tokens old = oldTokens cs ++ rest ∧ tokens new = newTokens cs ++ rest ∧
    Numbered 0 0 cs hs

/-- The lines of a file that a hunk is about. -/
def rangeOf (start count : Nat) (data : Bytes) : List Bytes :=
  ((tokens data).drop (start - 1)).take count

/-- All lines that the hunks are about end with a newline. -/
def Terminated (hs : List Hunk) (old new : Bytes) : Prop :=
  ∀ h ∈ hs, (∀ t ∈ rangeOf h.oldStart h.oldCount old, isTerminated t = true) ∧
    ∀ t ∈ rangeOf h.newStart h.newCount new, isTerminated t = true

section Hunks

variable {cs : List Change} {hs : List Hunk} {old new : Bytes}

theorem Numbered.lines_eq {i j : Nat} (numbered : Numbered i j cs hs) :
    ∀ h ∈ hs, ∃ c ∈ cs, h.oldCount = c.old.length ∧ h.newCount = c.new.length ∧
      h.lines = c.lines.map fun l => (l.1, chomp l.2) := by
  induction cs generalizing i j hs with
  | nil =>
      cases hs with
      | nil => exact nofun
      | cons => exact numbered.elim
  | cons c cs ih =>
      cases hs with
      | nil => exact numbered.elim
      | cons h hs =>
          obtain ⟨⟨-, -, oldCount, newCount, lines⟩, later⟩ := numbered
          intro g member
          rcases List.mem_cons.mp member with rfl | tail
          · exact ⟨c, List.mem_cons_self, oldCount, newCount, lines⟩
          · obtain ⟨c', listed, facts⟩ := ih later g tail
            exact ⟨c', List.mem_cons_of_mem _ listed, facts⟩

theorem CorrectDiff.counted (correct : CorrectDiff hs old new) : ∀ h ∈ hs, h.Counted := by
  obtain ⟨cs, rest, before, later, numbered⟩ := correct
  intro h member
  obtain ⟨c, listed, oldCount, newCount, lines⟩ := numbered.lines_eq h member
  refine ⟨?_, ?_, ?_⟩
  · rw [oldCount, Hunk.oldLines, lines, List.filter_map, Change.old]
    simp [Function.comp_def]
  · rw [newCount, Hunk.newLines, lines, List.filter_map, Change.new]
    simp [Function.comp_def]
  · intro l inside
    rw [lines] at inside
    obtain ⟨k, here, rfl⟩ := List.mem_map.mp inside
    rcases Change.mem_lines here with side | side
    · have token : k.2 ∈ tokens old := by
        rw [before]
        exact List.mem_append_left _ (List.mem_flatMap.mpr ⟨c, listed, List.mem_append_right _ side⟩)
      exact newline_notMem_chomp token
    · have token : k.2 ∈ tokens new := by
        rw [later]
        exact List.mem_append_left _ (List.mem_flatMap.mpr ⟨c, listed, List.mem_append_right _ side⟩)
      exact newline_notMem_chomp token

/-- What the headers point at is what the hunks have. -/
theorem Numbered.terminated_iff {i j : Nat} (numbered : Numbered i j cs hs)
    {before before' rest : List Bytes} (at' : before.length = i) (at'' : before'.length = j)
    (whole : tokens old = before ++ (oldTokens cs ++ rest))
    (whole' : tokens new = before' ++ (newTokens cs ++ rest)) :
    Terminated hs old new ↔
      ∀ c ∈ cs, (∀ t ∈ c.old, isTerminated t = true) ∧ ∀ t ∈ c.new, isTerminated t = true := by
  induction cs generalizing i j hs before before' with
  | nil =>
      cases hs with
      | nil => exact ⟨fun _ => nofun, fun _ => nofun⟩
      | cons => exact numbered.elim
  | cons c cs ih =>
      cases hs with
      | nil => exact numbered.elim
      | cons h hs =>
          obtain ⟨⟨oldStart, newStart, oldCount, newCount, -⟩, later⟩ := numbered
          have oldRange : rangeOf h.oldStart h.oldCount old = c.old := by
            have split : tokens old = (before ++ c.same) ++ (c.old ++ (oldTokens cs ++ rest)) := by
              simp [whole, oldTokens]
            rw [rangeOf, oldStart, oldCount, split,
              List.drop_left' (by rw [List.length_append, at']), List.take_left]
          have newRange : rangeOf h.newStart h.newCount new = c.new := by
            have split : tokens new = (before' ++ c.same) ++ (c.new ++ (newTokens cs ++ rest)) := by
              simp [whole', newTokens]
            rw [rangeOf, newStart, newCount, split,
              List.drop_left' (by rw [List.length_append, at'']), List.take_left]
          have tail := @ih _ _ _ later (before ++ c.same ++ c.old)
            (before' ++ c.same ++ c.new) (by simp [at', Nat.add_assoc])
            (by simp [at'', Nat.add_assoc]) (by simp [whole, oldTokens])
            (by simp [whole', newTokens])
          unfold Terminated at tail ⊢
          rw [List.forall_mem_cons, List.forall_mem_cons, oldRange, newRange, tail]

/-! ## Applying hunks -/

theorem chomp_newline_iff (t : Bytes) : chomp t ++ [newline] = t ↔ isTerminated t = true := by
  refine ⟨fun same => ?_, chomp_newline⟩
  rw [← same]
  simp [isTerminated]

theorem length_chomp_newline (t : Bytes) :
    (chomp t ++ [newline]).length = t.length + if isTerminated t = true then 0 else 1 := by
  split
  · rename_i ends
    rw [chomp_newline ends, Nat.add_zero]
  · rename_i open'
    rw [chomp_eq (by simpa using open'), List.length_append]
    rfl

theorem map_chomp_eq_iff (ts : List Bytes) :
    ts.map (fun t => chomp t ++ [newline]) = ts ↔ ∀ t ∈ ts, isTerminated t = true := by
  induction ts with
  | nil => simp
  | cons t ts ih => simp only [List.map_cons, List.cons.injEq, chomp_newline_iff, ih,
      List.forall_mem_cons]

theorem Hunk.read_old {c : Change} {h : Hunk} (lines : h.lines = c.lines.map fun l => (l.1, chomp l.2)) :
    h.read.old = c.old.map fun t => chomp t ++ [newline] := by
  simp [Hunk.read, ReadHunk.old, Change.old, lines, List.filter_map, Function.comp_def]

theorem Hunk.read_new {c : Change} {h : Hunk} (lines : h.lines = c.lines.map fun l => (l.1, chomp l.2)) :
    h.read.new = c.patched := by
  simp [Hunk.read, ReadHunk.new, Change.new, Change.patched, lines, List.filter_map,
    Function.comp_def]

/-- A hunk is found exactly if the lines that it takes away all end with a newline. -/
theorem applyHunk_eq {c : Change} {h : Hunk} {before rest : List Bytes}
    (start : h.newStart - 1 = before.length)
    (lines : h.lines = c.lines.map fun l => (l.1, chomp l.2)) :
    applyHunk h.read (before ++ (c.old ++ rest)) =
      if ∀ t ∈ c.old, isTerminated t = true then some (before ++ (c.patched ++ rest)) else none := by
  have place : h.read.start - 1 = before.length := start
  have length : h.read.old.length = c.old.length := by
    rw [Hunk.read_old lines, List.length_map]
  have within : before.length ≤ (before ++ (c.old ++ rest)).length := by
    rw [List.length_append]
    omega
  have found : h.read.old = c.old ↔ ∀ t ∈ c.old, isTerminated t = true := by
    rw [Hunk.read_old lines]
    exact map_chomp_eq_iff c.old
  have rest' : (before ++ (c.old ++ rest)).drop (before.length + c.old.length) = rest := by
    rw [← List.drop_drop, List.drop_left, List.drop_left]
  unfold applyHunk
  simp only [place, length, List.drop_left, List.take_left, rest', Hunk.read_new lines]
  by_cases here : ∀ t ∈ c.old, isTerminated t = true
  · rw [if_pos here, if_pos ⟨within, (found.mpr here).symm⟩]
  · rw [if_neg here, if_neg fun both => here (found.mp both.2.symm)]

/-- All hunks are found exactly if the lines that they take away all end with a newline. -/
theorem applyHunks_eq {i j : Nat} (numbered : Numbered i j cs hs) {before rest : List Bytes}
    (at' : before.length = j) :
    applyHunks (hs.map Hunk.read) (before ++ (oldTokens cs ++ rest)) =
      if ∀ c ∈ cs, ∀ t ∈ c.old, isTerminated t = true then
        some (before ++ (cs.flatMap (fun c => c.same ++ c.patched) ++ rest)) else none := by
  induction cs generalizing i j hs before with
  | nil =>
      cases hs with
      | nil => simp [applyHunks, oldTokens]
      | cons => exact numbered.elim
  | cons c cs ih =>
      cases hs with
      | nil => exact numbered.elim
      | cons h hs =>
          obtain ⟨⟨-, newStart, -, -, lines⟩, later⟩ := numbered
          have image : before ++ (oldTokens (c :: cs) ++ rest) =
              (before ++ c.same) ++ (c.old ++ (oldTokens cs ++ rest)) := by
            simp [oldTokens]
          have found := (@applyHunk_eq _ _ (before ++ c.same) (oldTokens cs ++ rest))
            (by rw [newStart, List.length_append, at']) lines
          rw [List.map_cons, applyHunks, image, found]
          by_cases here : ∀ t ∈ c.old, isTerminated t = true
          · rw [if_pos here, Option.bind_some]
            have patched : c.patched.length = c.new.length := by
              rw [Change.patched, List.length_map]
            have tail := @ih _ _ _ later (before ++ c.same ++ c.patched)
              (by simp [at', patched, Nat.add_assoc])
            rw [List.append_assoc _ c.patched] at tail
            rw [tail]
            by_cases all : ∀ c ∈ cs, ∀ t ∈ c.old, isTerminated t = true
            · rw [if_pos all, if_pos (List.forall_mem_cons.mpr ⟨here, all⟩)]
              simp
            · rw [if_neg all, if_neg fun both => all (List.forall_mem_cons.mp both).2]
          · rw [if_neg here, Option.bind_none, if_neg]
            exact fun all => here (all c List.mem_cons_self)

/-- The new lines of the reader are too long by one byte for each that has no newline. -/
theorem length_patched (ts : List Bytes) :
    (ts.map fun t => chomp t ++ [newline]).flatten.length =
      ts.flatten.length + ts.countP fun t => !isTerminated t := by
  induction ts with
  | nil => rfl
  | cons t ts ih =>
      rw [List.map_cons, List.flatten_cons, List.length_append, ih, length_chomp_newline,
        List.flatten_cons, List.length_append, List.countP_cons]
      cases isTerminated t <;> simp <;> omega

theorem length_flatten_patched (cs : List Change) :
    (cs.flatMap fun c => c.same ++ c.patched).flatten.length =
      (newTokens cs).flatten.length + (cs.flatMap Change.new).countP fun t => !isTerminated t := by
  induction cs with
  | nil => rfl
  | cons c cs ih =>
      have here := length_patched c.new
      rw [newTokens] at ih ⊢
      rw [List.flatMap_cons, List.flatMap_cons, List.flatMap_cons, List.countP_append]
      simp only [List.flatten_append, List.length_append] at ih ⊢
      rw [ih, Change.patched, here]
      omega

theorem patched_eq {cs : List Change} (all : ∀ c ∈ cs, ∀ t ∈ c.new, isTerminated t = true) :
    (cs.flatMap fun c => c.same ++ c.patched) = newTokens cs := by
  induction cs with
  | nil => rfl
  | cons c cs ih =>
      have here : c.patched = c.new := (map_chomp_eq_iff c.new).mpr (all c List.mem_cons_self)
      rw [newTokens] at ih ⊢
      rw [List.flatMap_cons, List.flatMap_cons, here,
        ih fun other member => all other (List.mem_cons_of_mem _ member)]

/-- **Hunks carry a text over exactly if all their lines end with a newline.** -/
theorem applyHunks_iff (correct : CorrectDiff hs old new) :
    (applyHunks (hs.map Hunk.read) (tokens old)).map List.flatten = some new ↔
      Terminated hs old new := by
  obtain ⟨cs, rest, before, later, numbered⟩ := correct
  have applied := @applyHunks_eq _ _ _ _ numbered [] rest rfl
  rw [List.nil_append, List.nil_append, ← before] at applied
  rw [(@Numbered.terminated_iff _ _ _ _ _ _ numbered [] []) rfl rfl before later, applied]
  have data : (newTokens cs ++ rest).flatten = new := by
    rw [← later, flatten_tokens]
  constructor
  · intro same
    split at same
    · rename_i allOld
      have bytes : (cs.flatMap (fun c => c.same ++ c.patched) ++ rest).flatten = new :=
        Option.some.inj same
      have length := congrArg List.length (bytes.trans data.symm)
      rw [List.flatten_append, List.flatten_append, List.length_append, List.length_append,
        length_flatten_patched] at length
      have none : (cs.flatMap Change.new).countP (fun t => !isTerminated t) = 0 := by omega
      intro c member
      refine ⟨allOld c member, fun t inside => ?_⟩
      have here := List.countP_eq_zero.mp none t (List.mem_flatMap.mpr ⟨c, member, inside⟩)
      simpa using here
    · cases same
  · intro all
    rw [if_pos fun c member => (all c member).1, patched_eq fun c member => (all c member).2,
      Option.map_some, data]

end Hunks

/-! ## Entries -/

/-- The data of a version: none if it is not there or a submodule. -/
def versionData (objects : Objects) : Option TreeFile → Bytes
  | none => []
  | some file =>
      if file.mode.isCommit then []
      else match objects file.id with
        | some (.blob data) => data
        | _ => []

/-- What stands for a submodule in a patch. -/
def subproject (format : ObjectFormat) (id : ObjectId) : Bytes :=
  asciiBytes "Subproject commit " ++ objectHex format id ++ [newline]

def entryOf (format : ObjectFormat) (objects : Objects) (file : TreeFile) : Entry where
  mode := file.mode
  data :=
    if file.mode.isCommit then some (subproject format file.id)
    else match objects file.id with
      | some (.blob data) => some data
      | _ => none

/-- A tree as it is checked out. -/
def workTree (format : ObjectFormat) (objects : Objects) (files : Files) : WorkTree := fun path =>
  (files.lookup path).map (entryOf format objects)

/-- The difference of two versions is of a kind that a written patch carries over: the type stays
the same; a binary file is deleted or only changes its mode, and is no submodule; and the hunks of
a text have no line without newline. -/
structure Carried (gix : Gix) (objects : Objects) (old new : Option TreeFile) : Prop where
  sameType : ∀ o ∈ old, ∀ n ∈ new, o.mode.format = n.mode.format
  binary : isBinary old new (versionData objects old) (versionData objects new) = true →
    (∀ o ∈ old, o.mode.isCommit = false) ∧ (new = none ∨ old.map (·.id) = new.map (·.id))
  text : isBinary old new (versionData objects old) (versionData objects new) = false →
    old.map (·.id) = new.map (·.id) ∨
      Terminated (gix.hunks (versionData objects old) (versionData objects new))
        (versionData objects old) (versionData objects new)

section Entries

variable {limits : ReadLimits} {objects : Objects} {gix : Gix} {format : ObjectFormat}

theorem diffBlob_eq_ok {file : Option TreeFile} {data : Bytes}
    (ok : diffBlob limits objects file = .ok data) : data = versionData objects file := by
  cases file with
  | none => exact diffBlob_none ok
  | some file =>
      unfold diffBlob at ok
      unfold versionData
      simp only at ok ⊢
      split at ok
      · rename_i commit
        cases ok
        rw [if_pos commit]
      · rename_i blob
        rw [if_neg blob, readBlob_eq_ok ok]

/-- The data of a blob that was read. -/
theorem entryOf_data {file : TreeFile} {data : Bytes} (ok : diffBlob limits objects (some file) = .ok data)
    (blob : file.mode.isCommit = false) : (entryOf format objects file).data = some data := by
  unfold diffBlob at ok
  simp only [blob] at ok
  have found := readBlob_eq_ok ok
  simp [entryOf, blob, found]

theorem isCommit_of_format {a b : EntryMode} (same : a.format = b.format) :
    a.isCommit = b.isCommit := by
  unfold EntryMode.isCommit
  rw [same]

section Files

variable {path : GitPath} {hs : List Hunk} {oldData newData : Bytes}

/-- The record of a file that was added. -/
theorem created_iff {n : TreeFile} (readNew : diffBlob limits objects (some n) = .ok newData)
    (correct : CorrectDiff hs [] newData) {r : Record} (created : r.created = some n.mode)
    (deleted : r.deleted = none)
    (body : r.body = if isBinary none (some n) [] newData then .noData else .hunks (hs.map Hunk.read)) :
    r.applyEntry none = some (some (entryOf format objects n)) ↔
      isBinary none (some n) [] newData = false ∧ Terminated hs [] newData := by
  have applied := applyHunks_iff correct
  cases binary : isBinary none (some n) [] newData with
  | true =>
      simp [Record.applyEntry, Record.applyBody, created, deleted, body, binary]
  | false =>
      have blob : n.mode.isCommit = false := by
        simp only [isBinary, Option.any_some, Bool.or_eq_false_iff] at binary
        exact binary.1.1.2
      have entry : entryOf format objects n = ⟨n.mode, some newData⟩ := by
        rw [← (@entryOf_data _ _ format) readNew blob]
        rfl
      have value : r.applyBody n.mode [] =
          (applyHunks (hs.map Hunk.read) (tokens [])).map List.flatten := by
        simp [Record.applyBody, body, binary]
      rw [entry, ← applied, ← value]
      cases found : r.applyBody n.mode [] with
      | none => simp [Record.applyEntry, created, found]
      | some data => simp [Record.applyEntry, created, deleted, found]

/-- The record of a file that was deleted. -/
theorem deleted_iff {o : TreeFile} (readOld : diffBlob limits objects (some o) = .ok oldData)
    (correct : CorrectDiff hs oldData []) {r : Record} (created : r.created = none)
    (deleted : r.deleted = some o.mode)
    (body : r.body = if isBinary (some o) none oldData [] then .noData else .hunks (hs.map Hunk.read)) :
    r.applyEntry (some (entryOf format objects o)) = some none ↔
      if isBinary (some o) none oldData [] = true then o.mode.isCommit = false
      else Terminated hs oldData [] := by
  have applied := applyHunks_iff correct
  cases submodule : o.mode.isCommit with
  | true =>
      have binary : isBinary (some o) none oldData [] = true := by
        simp [isBinary, submodule]
      simp [Record.applyEntry, Record.applyBody, created, deleted, body, binary, submodule,
        entryOf]
  | false =>
      have data := (@entryOf_data _ _ format) readOld submodule
      have mode : (entryOf format objects o).mode = o.mode := rfl
      cases binary : isBinary (some o) none oldData [] with
      | true =>
          simp [Record.applyEntry, Record.applyBody, created, deleted, body, binary, submodule,
            data, mode]
      | false =>
          have value : r.applyBody o.mode oldData =
              (applyHunks (hs.map Hunk.read) (tokens oldData)).map List.flatten := by
            simp [Record.applyBody, body, binary]
          rw [if_neg Bool.false_ne_true, ← applied, ← value]
          cases found : r.applyBody o.mode oldData with
          | none => simp [Record.applyEntry, created, deleted, data, found]
          | some left => simp [Record.applyEntry, created, deleted, data, mode, found]

/-- The record of a file that is in both trees. -/
theorem changed_iff {o n : TreeFile} (readOld : diffBlob limits objects (some o) = .ok oldData)
    (readNew : diffBlob limits objects (some n) = .ok newData)
    (correct : CorrectDiff hs oldData newData) {r : Record} (created : r.created = none)
    (deleted : r.deleted = none) (oldMode : r.oldMode.getD o.mode = o.mode)
    (newMode : r.newMode.getD o.mode = n.mode) (names : r.ids.1 = r.ids.2 ↔ o.id = n.id)
    (body : r.body = if isBinary (some o) (some n) oldData newData then .noData
      else if o.id = n.id then .empty else .hunks (hs.map Hunk.read)) :
    r.applyEntry (some (entryOf format objects o)) = some (some (entryOf format objects n)) ↔
      o.mode.format = n.mode.format ∧
        if isBinary (some o) (some n) oldData newData = true then
          o.mode.isCommit = false ∧ o.id = n.id
        else o.id = n.id ∨ Terminated hs oldData newData := by
  have applied := applyHunks_iff correct
  have mode : (entryOf format objects o).mode = o.mode := rfl
  by_cases same : o.mode.format = n.mode.format
  case neg =>
    have turned : n.mode.format ≠ o.mode.format := Ne.symm same
    cases data : (entryOf format objects o).data with
    | none => simp [Record.applyEntry, created, deleted, data, same]
    | some before =>
        cases found : r.applyBody o.mode before with
        | none => simp [Record.applyEntry, created, deleted, data, mode, found, same]
        | some left =>
            simp [Record.applyEntry, created, deleted, data, mode, oldMode, newMode, same, turned]
  case pos =>
    have kinds := isCommit_of_format same
    cases submodule : o.mode.isCommit with
    | true =>
        have binary : isBinary (some o) (some n) oldData newData = true := by
          simp [isBinary, submodule]
        simp [Record.applyEntry, Record.applyBody, created, deleted, body, binary, submodule,
          entryOf]
    | false =>
        have data := (@entryOf_data _ _ format) readOld submodule
        have entry : entryOf format objects n = ⟨n.mode, some newData⟩ := by
          rw [← (@entryOf_data _ _ format) readNew (by rw [← kinds, submodule])]
          rfl
        have carried : r.applyEntry (some (entryOf format objects o)) =
            (r.applyBody o.mode oldData).map fun data => some ⟨n.mode, some data⟩ := by
          cases found : r.applyBody o.mode oldData with
          | none => simp [Record.applyEntry, created, deleted, data, mode, found]
          | some left =>
              simp [Record.applyEntry, created, deleted, data, mode, found, oldMode, newMode, same]
        have value : r.applyEntry (some (entryOf format objects o)) =
            some (some (entryOf format objects n)) ↔ r.applyBody o.mode oldData = some newData := by
          rw [carried, entry]
          cases r.applyBody o.mode oldData <;> simp
        have sameData : o.id = n.id → oldData = newData := by
          intro sameId
          have before := (@entryOf_data _ _ format) readOld submodule
          have later : (entryOf format objects n).data = some newData := by rw [entry]
          have alike : (entryOf format objects o).data = (entryOf format objects n).data := by
            simp [entryOf, submodule, ← kinds, sameId]
          exact Option.some.inj (before.symm.trans (alike.trans later))
        rw [value]
        simp only [same, true_and]
        cases binary : isBinary (some o) (some n) oldData newData with
        | true =>
            by_cases sameId : o.id = n.id
            · obtain rfl := sameData sameId
              simp [Record.applyBody, body, binary, submodule, deleted, created, names, sameId]
            · simp [Record.applyBody, body, binary, submodule, deleted, created, names, sameId]
        | false =>
            by_cases sameId : o.id = n.id
            · obtain rfl := sameData sameId
              simp [Record.applyBody, body, binary, sameId]
            · have hunks : r.applyBody o.mode oldData =
                  (applyHunks (hs.map Hunk.read) (tokens oldData)).map List.flatten := by
                simp [Record.applyBody, body, binary, sameId]
              rw [if_neg Bool.false_ne_true, hunks, applied]
              simp [sameId]

end Files

/-! ## Object names -/

theorem digitChar_injective : ∀ a < 16, ∀ b < 16,
    digit (Nat.digitChar a) = digit (Nat.digitChar b) → a = b := by
  decide

/-- Numbers with the same last digits are the same below the power of the base. -/
theorem mod_pow_eq {a b : Nat} (width : Nat)
    (digits : ∀ k < width, a / 16 ^ k % 16 = b / 16 ^ k % 16) :
    a % 16 ^ width = b % 16 ^ width := by
  induction width with
  | zero => simp [Nat.mod_one]
  | succ width ih =>
      rw [Nat.pow_succ, Nat.mod_mul, Nat.mod_mul, ih fun k small => digits k (by omega),
        digits width (by omega)]

theorem objectHex_injective {a b : ObjectId} (sizeA : a.value < 16 ^ objectIdLength format)
    (sizeB : b.value < 16 ^ objectIdLength format) (same : objectHex format a = objectHex format b) :
    a = b := by
  have digits : ∀ k < objectIdLength format, a.value / 16 ^ k % 16 = b.value / 16 ^ k % 16 := by
    intro k small
    have place : objectIdLength format - 1 - k < objectIdLength format := by omega
    have here := List.map_inj_left.mp same (objectIdLength format - 1 - k) (List.mem_range.mpr place)
    have back : objectIdLength format - 1 - (objectIdLength format - 1 - k) = k := by omega
    rw [back] at here
    exact digitChar_injective _ (Nat.mod_lt _ (by omega)) _ (Nat.mod_lt _ (by omega)) here
  have values := mod_pow_eq (objectIdLength format) digits
  rw [Nat.mod_eq_of_lt sizeA, Nat.mod_eq_of_lt sizeB] at values
  cases a
  cases b
  simpa using values

/-- The ids of a tree are of the format of the repository. -/
def Sized (format : ObjectFormat) (file : Option TreeFile) : Prop :=
  ∀ f ∈ file, f.id.value < 16 ^ objectIdLength format

/-- **A record carries a file over exactly if the difference is of the right kind.** -/
theorem entry_iff (v : Versions limits objects) (differ : v.old ≠ v.new)
    (correct : CorrectDiff (gix.hunks v.oldData v.newData) v.oldData v.newData)
    (sizedOld : Sized format v.old) (sizedNew : Sized format v.new) (path : GitPath) :
    (recordOf format (v.file gix path) (gix.hunks v.oldData v.newData)).applyEntry
        (v.old.map (entryOf format objects)) = some (v.new.map (entryOf format objects)) ↔
      Carried gix objects v.old v.new := by
  obtain ⟨old, new, oldData, newData, readOld, readNew⟩ := v
  have dataOld := diffBlob_eq_ok readOld
  have dataNew := diffBlob_eq_ok readNew
  simp only at differ correct sizedOld sizedNew ⊢
  cases old with
  | none =>
      obtain rfl := diffBlob_none readOld
      cases new with
      | none => exact absurd rfl differ
      | some n =>
          have record := (@created_iff _ _ format) readNew correct
            (r := recordOf format (Versions.file ⟨none, some n, [], newData, readOld, readNew⟩ gix path)
              (gix.hunks [] newData)) rfl rfl (by simp [recordOf, Versions.file])
          refine record.trans ⟨fun ⟨text, ends⟩ => ⟨nofun, ?_, ?_⟩, fun carried => ?_⟩
          · rw [← dataOld, ← dataNew, text]
            nofun
          · rw [← dataOld, ← dataNew]
            exact fun _ => .inr ends
          · have binary := carried.binary
            have text := carried.text
            rw [← dataOld, ← dataNew] at binary text
            cases kind : isBinary none (some n) [] newData with
            | true => simp [kind] at binary
            | false => simpa using text kind
  | some o =>
      cases new with
      | none =>
          obtain rfl := diffBlob_none readNew
          have record := (@deleted_iff _ _ format) readOld correct
            (r := recordOf format (Versions.file ⟨some o, none, oldData, [], readOld, readNew⟩ gix path)
              (gix.hunks oldData [])) rfl rfl (by simp [recordOf, Versions.file])
          refine record.trans ?_
          cases kind : isBinary (some o) none oldData [] with
          | true =>
              refine ⟨fun blob => ⟨nofun, fun _ => ⟨?_, .inl rfl⟩, ?_⟩, fun carried => ?_⟩
              · simpa using blob
              · rw [← dataOld, ← dataNew, kind]
                nofun
              · have binary := carried.binary
                rw [← dataOld, ← dataNew] at binary
                simpa using (binary kind).1
          | false =>
              refine ⟨fun ends => ⟨nofun, ?_, fun _ => ?_⟩, fun carried => ?_⟩
              · rw [← dataOld, ← dataNew, kind]
                nofun
              · rw [← dataOld, ← dataNew]
                exact .inr (by simpa using ends)
              · have text := carried.text
                rw [← dataOld, ← dataNew] at text
                simpa using text kind
      | some n =>
          have names : objectHex format o.id = objectHex format n.id ↔ o.id = n.id :=
            ⟨objectHex_injective (sizedOld o rfl) (sizedNew n rfl), fun same => by rw [same]⟩
          have record := (@changed_iff _ _ format) readOld readNew correct
            (r := recordOf format
              (Versions.file ⟨some o, some n, oldData, newData, readOld, readNew⟩ gix path)
              (gix.hunks oldData newData)) rfl rfl
            (by by_cases same : o.mode = n.mode <;> simp [recordOf, headRecord, Versions.file, same])
            (by by_cases same : o.mode = n.mode <;> simp [recordOf, headRecord, Versions.file, same])
            names (by simp [recordOf, Versions.file])
          refine record.trans ?_
          cases kind : isBinary (some o) (some n) oldData newData with
          | true =>
              refine ⟨fun ⟨type, blob, same⟩ => ⟨?_, fun _ => ⟨?_, .inr ?_⟩, ?_⟩, fun carried => ?_⟩
              · simpa using type
              · simpa using blob
              · exact congrArg some same
              · rw [← dataOld, ← dataNew, kind]
                nofun
              · have binary := carried.binary
                rw [← dataOld, ← dataNew] at binary
                obtain ⟨blob, same⟩ := binary kind
                exact ⟨carried.sameType o rfl n rfl, blob o rfl, by simpa using same⟩
          | false =>
              refine ⟨fun ⟨type, either⟩ => ⟨?_, ?_, fun _ => ?_⟩, fun carried => ?_⟩
              · simpa using type
              · rw [← dataOld, ← dataNew, kind]
                nofun
              · rw [← dataOld, ← dataNew]
                simpa using either
              · have text := carried.text
                rw [← dataOld, ← dataNew] at text
                exact ⟨carried.sameType o rfl n rfl, by simpa using text kind⟩

end Entries

/-! ## Trees -/

theorem applyRecords_other {records : List Record} {tree result : WorkTree}
    (applied : applyRecords records tree = some result) {path : GitPath}
    (other : path ∉ records.map (·.path)) : result path = tree path := by
  induction records generalizing tree with
  | nil =>
      cases applied
      rfl
  | cons r records ih =>
      rw [List.map_cons, List.mem_cons, not_or] at other
      obtain ⟨entry, -, later⟩ := Option.bind_eq_some_iff.mp applied
      rw [ih later other.2]
      exact if_neg other.1

/-- Records of different paths give a tree exactly if each gives the entry at its path. -/
theorem applyRecords_iff {records : List Record} (distinct : (records.map (·.path)).Nodup)
    {old new : WorkTree} (others : ∀ path, path ∉ records.map (·.path) → old path = new path) :
    applyRecords records old = some new ↔
      ∀ r ∈ records, r.applyEntry (old r.path) = some (new r.path) := by
  induction records generalizing old with
  | nil => exact ⟨fun _ => nofun, fun _ => congrArg some (funext fun path => others path nofun)⟩
  | cons r records ih =>
      rw [List.map_cons, List.nodup_cons] at distinct
      rw [List.forall_mem_cons, applyRecords]
      cases applied : r.applyEntry (old r.path) with
      | none => simp
      | some entry =>
          rw [Option.bind_some, Option.some.injEq]
          by_cases right : entry = new r.path
          · have later := @ih distinct.2
              (fun path => if path = r.path then entry else old path) (by
                intro path absent
                by_cases here : path = r.path
                · rw [if_pos here, right, here]
                · rw [if_neg here]
                  exact others path (by simp [here, absent]))
            rw [later]
            simp only [right, true_and]
            refine forall₂_congr fun g member => ?_
            have elsewhere : g.path ≠ r.path := fun same =>
              distinct.1 (same ▸ List.mem_map_of_mem member)
            rw [if_neg elsewhere]
          · refine ⟨fun result => ?_, fun both => absurd both.1 right⟩
            have kept := applyRecords_other result distinct.1
            rw [if_pos rfl] at kept
            exact absurd kept.symm right

section Main

variable {limits : ReadLimits} {objects : Objects} {gix : Gix} {format : ObjectFormat}
  {oldTree newTree : ObjectId} {oldFiles newFiles : Files} {files : List DiffFile} {output : Bytes}
  {unpack : Nat → List Bytes → Option Bytes}

/-- The hunks that were made of the two versions of a file. -/
def hunksOf (gix : Gix) (file : DiffFile) : List Hunk :=
  gix.hunks (file.oldData.getD []) (file.newData.getD [])

theorem hunksOf_file (v : Versions limits objects) (path : GitPath) :
    hunksOf gix (v.file gix path) = gix.hunks v.oldData v.newData := by
  obtain ⟨old, new, oldData, newData, readOld, readNew⟩ := v
  cases old with
  | none =>
      obtain rfl := diffBlob_none readOld
      cases new with
      | none =>
          obtain rfl := diffBlob_none readNew
          rfl
      | some n => rfl
  | some o =>
      cases new with
      | none =>
          obtain rfl := diffBlob_none readNew
          rfl
      | some n => rfl

theorem fileOf_file (v : Versions limits objects) (differ : v.old ≠ v.new)
    (correct : CorrectDiff (gix.hunks v.oldData v.newData) v.oldData v.newData) (path : GitPath) :
    FileOf (v.file gix path) (hunksOf gix (v.file gix path)) := by
  rw [hunksOf_file]
  refine ⟨⟨?_, ?_, ?_⟩, fun text => ?_, correct.counted⟩
  · simp [Versions.file]
  · simp [Versions.file]
  · simp only [Versions.file, Option.isSome_map]
    cases old : v.old with
    | some o => exact .inl rfl
    | none =>
        cases new : v.new with
        | some n => exact .inr rfl
        | none => exact absurd (old.trans new.symm) differ
  · have kind : isBinary v.old v.new v.oldData v.newData = false := text
    simp [Versions.file, kind, unifiedDiff]

theorem mem_allPaths {path : GitPath} (differ : oldFiles.lookup path ≠ newFiles.lookup path) :
    path ∈ allPaths oldFiles newFiles := by
  have here : ∀ {files : Files} {file : TreeFile}, files.lookup path = some file →
      path ∈ files.map Prod.fst := by
    intro files file found
    obtain ⟨before, later, rfl, -⟩ := List.lookup_eq_some_iff.mp found
    simp
  have listed : path ∈ (oldFiles ++ newFiles).map Prod.fst := by
    rw [List.map_append, List.mem_append]
    cases old : oldFiles.lookup path with
    | some file => exact .inl (here old)
    | none =>
        cases new : newFiles.lookup path with
        | some file => exact .inr (here new)
        | none => exact absurd (old.trans new.symm) differ
  unfold allPaths
  rw [List.mem_insertionSort, List.mem_dedup]
  exact listed

/-- **A written patch gives the new tree exactly if it carries every difference.** -/
theorem patch_gives_tree_iff
    (correct : ∀ old new, CorrectDiff (gix.hunks old new) old new)
    (sized : ∀ path, Sized format (oldFiles.lookup path) ∧ Sized format (newFiles.lookup path))
    (oldFlat : flattenTree limits objects oldTree = .ok oldFiles)
    (newFlat : flattenTree limits objects newTree = .ok newFiles)
    (diffed : diffTrees limits objects gix (some oldTree) newTree = .ok files)
    (written : writePatch format files = .ok output) :
    applyPatch unpack output (workTree format objects oldFiles) =
        some (workTree format objects newFiles) ↔
      ∀ path, oldFiles.lookup path ≠ newFiles.lookup path →
        Carried gix objects (oldFiles.lookup path) (newFiles.lookup path) := by
  have looped : diffPaths limits objects gix oldFiles newFiles (allPaths oldFiles newFiles) 0 =
      .ok files := by
    unfold diffTrees at diffed
    simpa [oldFlat, newFlat, bind_eq_ok] using diffed
  obtain ⟨listed, unlisted⟩ := diffPaths_versions looped
  have distinct : (files.map (·.path)).Nodup := (diffTrees_lists diffed).distinct
  have text : output = files.flatMap (writeFile format) := by
    unfold writePatch at written
    simp only [bind_eq_ok, pure_eq_ok, Except.ok.injEq] at written
    obtain ⟨_, -, rfl⟩ := written
    rfl
  have of : ∀ file ∈ files, FileOf file (hunksOf gix file) := by
    intro file member
    obtain ⟨v, -, -, differ, shape⟩ := listed file member
    rw [shape]
    exact fileOf_file v differ (correct _ _) _
  have paths : (files.map fun file => recordOf format file (hunksOf gix file)).map (·.path) =
      files.map (·.path) := by
    rw [List.map_map]
    rfl
  have others : ∀ path, path ∉ files.map (·.path) →
      oldFiles.lookup path = newFiles.lookup path := by
    intro path absent
    by_contra differ
    exact differ (unlisted path (mem_allPaths differ) absent)
  unfold applyPatch
  rw [text, readPatch_written format unpack files (hunksOf gix) of, Option.bind_some,
    applyRecords_iff (by rw [paths]; exact distinct) (by
      rw [paths]
      intro path absent
      exact congrArg (Option.map _) (others path absent))]
  have each : ∀ file ∈ files,
      ((recordOf format file (hunksOf gix file)).applyEntry
          (workTree format objects oldFiles file.path) =
          some (workTree format objects newFiles file.path) ↔
        Carried gix objects (oldFiles.lookup file.path) (newFiles.lookup file.path)) := by
    intro file member
    obtain ⟨v, old, new, differ, shape⟩ := listed file member
    have sizedOld : Sized format v.old := old ▸ (sized file.path).1
    have sizedNew : Sized format v.new := new ▸ (sized file.path).2
    have here := entry_iff v differ (correct _ _) sizedOld sizedNew file.path
    rw [← hunksOf_file v file.path, ← shape] at here
    rw [workTree, workTree, ← old, ← new]
    exact here
  constructor
  · intro all path differ
    by_cases present : path ∈ files.map (·.path)
    · obtain ⟨file, member, rfl⟩ := List.mem_map.mp present
      exact (each file member).mp (all _ (List.mem_map_of_mem member))
    · exact absurd (others path present) differ
  · intro carried r member
    obtain ⟨file, inside, rfl⟩ := List.mem_map.mp member
    obtain ⟨v, old, new, differ, -⟩ := listed file inside
    exact (each file inside).mpr (carried file.path (old ▸ new ▸ differ))

end Main

/-! Pole: the file `a` has the line `x`, then the line `z`, then the same without newline, then a
byte 0, and is a link at last.  The hunks of this library remove every old line and add every new
one. -/

def replaceAll (old new : Bytes) : List Hunk :=
  [{ oldStart := 1
     oldCount := (tokens old).length
     newStart := 1
     newCount := (tokens new).length
     lines := (tokens old).map (fun t => (.deletion, chomp t)) ++
      (tokens new).map fun t => (.addition, chomp t) }]

def replacing : Gix where
  mergeBase _ _ := .ok none
  hunks := replaceAll
  conflicts _ _ := .ok false

theorem replacing_correct (old new : Bytes) : CorrectDiff (replacing.hunks old new) old new := by
  let c : Change :=
    { same := []
      lines := (tokens old).map (fun t => (.deletion, t)) ++
        (tokens new).map fun t => (.addition, t) }
  have before : c.old = tokens old := by
    simp [c, Change.old, List.filter_map, Function.comp_def]
  have later : c.new = tokens new := by
    simp [c, Change.new, List.filter_map, Function.comp_def]
  refine ⟨[c], [], ?_, ?_, ⟨rfl, rfl, ?_, ?_, ?_⟩, trivial⟩
  · simp [oldTokens, before, c]
  · simp [newTokens, later, c]
  · rw [before]
  · rw [later]
  · simp [c, Function.comp_def]

def fileA (id mode : Nat) : GitObject :=
  .tree 0 (.ok [⟨⟨mode⟩, asciiBytes "a", ⟨id⟩⟩])

def fiveVersions : Objects
  | ⟨11⟩ => some (fileA 21 0o100644)
  | ⟨12⟩ => some (fileA 22 0o100644)
  | ⟨13⟩ => some (fileA 23 0o100644)
  | ⟨14⟩ => some (fileA 24 0o100644)
  | ⟨15⟩ => some (fileA 25 0o120000)
  | ⟨21⟩ => some (.blob (asciiBytes "x\n"))
  | ⟨22⟩ => some (.blob (asciiBytes "z\n"))
  | ⟨23⟩ => some (.blob (asciiBytes "z"))
  | ⟨24⟩ => some (.blob [0])
  | ⟨25⟩ => some (.blob (asciiBytes "b\n"))
  | _ => none

def filesA (id mode : Nat) : Files := [(asciiBytes "a", ⟨⟨id⟩, ⟨mode⟩⟩)]

/-- The patch from one tree to another. -/
def patchOf (old new : Nat) : Option Bytes :=
  match diffTrees ReadLimits.default fiveVersions replacing (some ⟨old⟩) ⟨new⟩ with
  | .ok files => (writePatch .sha1 files).toOption
  | .error _ => none

/-- What the file `a` is after the patch. -/
def patchedA (old new : Nat) (files : Files) : Option (Option Entry) := do
  let output ← patchOf old new
  let tree ← applyPatch (fun _ _ => none) output (workTree .sha1 fiveVersions files)
  some (tree (asciiBytes "a"))

theorem patchOf_eq_some {old new : Nat} {output : Bytes} (some' : patchOf old new = some output) :
    ∃ files, diffTrees ReadLimits.default fiveVersions replacing (some ⟨old⟩) ⟨new⟩ = .ok files ∧
      writePatch .sha1 files = .ok output := by
  unfold patchOf at some'
  split at some'
  · rename_i files diffed
    refine ⟨files, diffed, ?_⟩
    cases written : writePatch .sha1 files with
    | error e => simp [written, Except.toOption] at some'
    | ok bytes => simpa [written, Except.toOption] using some'
  · cases some'

theorem filesA_sized (id mode : Nat) (small : id < 16 ^ 40) (path : GitPath) :
    Sized .sha1 ((filesA id mode).lookup path) := by
  intro f found
  obtain ⟨before, later, shape, -⟩ := List.lookup_eq_some_iff.mp found
  have member : (path, f) ∈ filesA id mode := by
    rw [shape]
    simp
  obtain ⟨-, rfl⟩ := Prod.mk.inj (List.mem_singleton.mp member)
  exact small

/-- The line `x` becomes the line `z`. -/
theorem line_patched : ∃ output, patchOf 11 12 = some output ∧
    (applyPatch (fun _ _ => none) output (workTree .sha1 fiveVersions (filesA 21 0o100644)) =
        some (workTree .sha1 fiveVersions (filesA 22 0o100644)) ↔
      ∀ path, (filesA 21 0o100644).lookup path ≠ (filesA 22 0o100644).lookup path →
        Carried replacing fiveVersions ((filesA 21 0o100644).lookup path)
          ((filesA 22 0o100644).lookup path)) := by
  have there : (patchOf 11 12).isSome = true := by decide +kernel
  obtain ⟨output, made⟩ := Option.isSome_iff_exists.mp there
  obtain ⟨files, diffed, written⟩ := patchOf_eq_some made
  exact ⟨output, made, patch_gives_tree_iff replacing_correct
    (fun path => ⟨filesA_sized 21 _ (by decide) path, filesA_sized 22 _ (by decide) path⟩)
    (by decide) (by decide) diffed written⟩

/-- Without newline at its end the line `z` gets one. -/
theorem newline_added : ¬ ∀ (limits : ReadLimits) (objects : Objects) (gix : Gix)
    (format : ObjectFormat) (unpack : Nat → List Bytes → Option Bytes) (oldTree newTree : ObjectId)
    (oldFiles newFiles : Files) (files : List DiffFile) (output : Bytes),
    (∀ old new, CorrectDiff (gix.hunks old new) old new) →
    (∀ path, Sized format (oldFiles.lookup path) ∧ Sized format (newFiles.lookup path)) →
    flattenTree limits objects oldTree = .ok oldFiles →
    flattenTree limits objects newTree = .ok newFiles →
    diffTrees limits objects gix (some oldTree) newTree = .ok files →
    writePatch format files = .ok output →
    applyPatch unpack output (workTree format objects oldFiles) =
      some (workTree format objects newFiles) := by
  intro all
  have there : (patchOf 11 13).isSome = true := by decide +kernel
  obtain ⟨output, made⟩ := Option.isSome_iff_exists.mp there
  obtain ⟨files, diffed, written⟩ := patchOf_eq_some made
  have applied := all ReadLimits.default fiveVersions replacing .sha1 (fun _ _ => none) ⟨11⟩ ⟨13⟩
    (filesA 21 0o100644) (filesA 23 0o100644) files output replacing_correct
    (fun path => ⟨filesA_sized 21 _ (by decide) path, filesA_sized 23 _ (by decide) path⟩)
    (by decide) (by decide) diffed written
  have claimed : patchedA 11 13 (filesA 21 0o100644) =
      some (workTree .sha1 fiveVersions (filesA 23 0o100644) (asciiBytes "a")) := by
    simp [patchedA, made, applied]
  have actual : patchedA 11 13 (filesA 21 0o100644) =
      some (some ⟨⟨0o100644⟩, some (asciiBytes "z\n")⟩) := by decide +kernel
  have wanted : workTree .sha1 fiveVersions (filesA 23 0o100644) (asciiBytes "a") =
      some ⟨⟨0o100644⟩, some (asciiBytes "z")⟩ := by decide
  rw [actual, wanted] at claimed
  exact absurd claimed (by decide)

/-- The data of a binary file are lost, and a file is not made a link in place. -/
example : patchedA 11 14 (filesA 21 0o100644) = none ∧ patchedA 11 15 (filesA 21 0o100644) = none := by
  decide +kernel

end Tit.Git
