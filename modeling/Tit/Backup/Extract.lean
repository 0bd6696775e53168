/-
# Backup.Extract -- what a restored directory holds

`extract_archive` into an empty directory, from any archive and any manifest, either fails
and leaves the directory empty, or writes what the manifest lists: each file with its size and
digest, each directory, and the parents of both.

`Extracted` is the invariant of its loop: the files are those of the entries seen so far, each
in a place of its own, and every directory is an entry or lies on the way to one.
-/
import Tit.Backup.Archive
import Mathlib.Data.List.Perm.Subperm
import Mathlib.Data.List.Pairwise

namespace Tit.Backup

open Tit.Theory

set_option autoImplicit false

variable {sha256 : Bytes → Bytes}

/-! ## Accepted paths -/

section Paths

variable {path other : Bytes}

/-- An accepted path is a list of names. -/
theorem components_eq (valid : validateArchivePath path = true) :
    components path = (names path).map .normal := by
  unfold validateArchivePath at valid
  simp only [Bool.and_eq_true, List.all_eq_true] at valid
  unfold names
  generalize components path = cs at valid
  replace valid := valid.2
  induction cs with
  | nil => rfl
  | cons c cs ih =>
      have rest := ih fun d hd => valid d (List.mem_cons_of_mem _ hd)
      have first := valid c List.mem_cons_self
      cases c with
      | normal name =>
          have head : Component.name (.normal name) = some name := rfl
          rw [List.filterMap_cons_some head, List.map_cons, ← rest]
      | _ => cases first

theorem components_injective (valid : validateArchivePath path = true)
    (valid' : validateArchivePath other = true) :
    components path = components other ↔ names path = names other := by
  rw [components_eq valid, components_eq valid']
  refine ⟨fun same => ?_, fun same => by rw [same]⟩
  exact List.map_injective_iff.mpr (fun a b same => by injection same) same

/-- An accepted path lies below the target. -/
theorem names_ne_nil (valid : validateArchivePath path = true) : names path ≠ [] := by
  intro none
  have empty : components path = [] := by rw [components_eq valid, none]; rfl
  unfold validateArchivePath at valid
  simp only [Bool.and_eq_true, decide_eq_true_eq, Bool.not_eq_true'] at valid
  obtain ⟨⟨nonempty, relative⟩, -⟩ := valid
  unfold components at empty
  simp only [relative, Bool.false_eq_true, if_false, List.append_eq_nil_iff,
    List.map_eq_nil_iff, List.filter_eq_nil_iff] at empty
  obtain ⟨notDot, none⟩ := empty
  have pieces : path.splitOn slash ≠ [] := List.splitOn_ne_nil _ _
  cases split : path.splitOn slash with
  | nil => exact pieces split
  | cons first rest =>
      rw [split] at none notDot
      have blank := none first List.mem_cons_self
      simp only [decide_eq_true_eq, not_and_or, not_not] at blank
      rcases blank with blank | isDot
      · -- The path starts with a slash, or is empty.
        cases path with
        | nil => exact nonempty rfl
        | cons b rest' =>
            rw [List.splitOn_cons_eq_if_modifyHead] at split
            by_cases slashed : b = slash
            · rw [slashed] at relative
              cases relative
            · rw [if_neg (by simpa using slashed)] at split
              cases tail : rest'.splitOn slash with
              | nil => exact List.splitOn_ne_nil _ _ tail
              | cons head more =>
                  rw [tail, List.modifyHead_cons, List.cons.injEq] at split
                  rw [blank] at split
                  cases split.1
      · rw [isDot, List.head?_cons, if_pos rfl] at notDot
        cases notDot

theorem names_split (valid : validateArchivePath path = true) :
    (names path).dropLast ++ [(names path).getLast?.getD []] = names path := by
  have some := names_ne_nil valid
  rw [List.getLast?_eq_some_getLast some, Option.getD_some]
  exact List.dropLast_concat_getLast some

end Paths

/-! ## The expected files -/

section Expected

variable {expected : Expected}

/-- What `expected_files` makes of the files of a manifest. -/
structure Expects (sha256 : Bytes → Bytes) (files : List ManifestFile) (expected : Expected) :
    Prop where
  listed : ∀ f, f ∈ files ↔ ∃ path, (path, f) ∈ expected
  valid : ∀ e ∈ expected, validateArchivePath e.1 = true ∧ acceptable sha256 e.2 ∧
    decodeLowerHex e.2.pathHex = some e.1
  distinct : expected.Pairwise fun e e' => e.1 ≠ e'.1

theorem lookup_eq_none {path : Bytes} :
    expected.lookup path = none ↔ ∀ e ∈ expected, e.1 ≠ path := by
  induction expected with
  | nil => simp
  | cons e rest ih =>
      obtain ⟨p, f⟩ := e
      rw [List.lookup_cons]
      by_cases same : path = p
      · simp [same]
      · have other : (path == p) = false := by simpa using same
        rw [other]
        simp only [ih, List.mem_cons, forall_eq_or_imp]
        exact ⟨fun rest => ⟨fun here => same here.symm, rest⟩, And.right⟩

theorem lookup_eq_some (distinct : expected.Pairwise fun e e' => e.1 ≠ e'.1) {path : Bytes}
    {f : ManifestFile} : expected.lookup path = some f ↔ (path, f) ∈ expected := by
  induction expected with
  | nil => simp
  | cons e rest ih =>
      obtain ⟨p, g⟩ := e
      obtain ⟨first, later⟩ := List.pairwise_cons.mp distinct
      rw [List.lookup_cons]
      by_cases same : path = p
      · subst same
        rw [beq_self_eq_true, List.mem_cons]
        simp only [Option.some.injEq, Prod.mk.injEq, true_and]
        refine ⟨fun here => Or.inl here.symm, ?_⟩
        rintro (here | there)
        · exact here.symm
        · exact absurd rfl (first (path, f) there)
      · have other : (path == p) = false := by simpa using same
        rw [other, List.mem_cons]
        simp only [ih later, Prod.mk.injEq]
        exact ⟨Or.inr, fun either => either.resolve_left fun here => same here.1⟩

theorem expectedLoop_spec {files done : List ManifestFile} {start result : Expected}
    (before : Expects sha256 done start) (ok : expectedLoop sha256 files start = .ok result) :
    Expects sha256 (done ++ files) result := by
  induction files generalizing done start with
  | nil =>
      cases ok
      rwa [List.append_nil]
  | cons file rest ih =>
      unfold expectedLoop at ok
      simp only [bind_eq_ok, required_eq_ok, ensure_eq_ok] at ok
      obtain ⟨path, decoded, _, valid, digest, -, _, ⟨-, accepted, new⟩, ok⟩ := ok
      rw [lookup_eq_none] at new
      have after : Expects sha256 (done ++ [file]) (start ++ [(path, file)]) := by
        refine ⟨fun f => ?_, fun e he => ?_, ?_⟩
        · simp only [List.mem_append, List.mem_singleton, Prod.mk.injEq, before.listed f]
          constructor
          · rintro (⟨p, old⟩ | rfl)
            · exact ⟨p, Or.inl old⟩
            · exact ⟨path, Or.inr ⟨rfl, rfl⟩⟩
          · rintro ⟨p, old | ⟨-, rfl⟩⟩
            · exact Or.inl ⟨p, old⟩
            · exact Or.inr rfl
        · rcases List.mem_append.mp he with old | last
          · exact before.valid e old
          · obtain rfl := List.mem_singleton.mp last
            exact ⟨valid, accepted, decoded⟩
        · refine List.pairwise_append.mpr ⟨before.distinct, List.pairwise_singleton _ _, ?_⟩
          intro e he e' last
          obtain rfl := List.mem_singleton.mp last
          exact new e he
      have all := ih after ok
      rwa [List.append_assoc, List.singleton_append] at all

theorem expectedFiles_expects {manifest : BackupManifest}
    (ok : expectedFiles sha256 manifest = .ok expected) :
    Expects sha256 manifest.files expected := by
  unfold expectedFiles at ok
  simp only [bind_eq_ok, ensure_eq_ok, pure_eq_ok, Except.ok.injEq] at ok
  obtain ⟨result, looped, _, -, _, -, rfl⟩ := ok
  have start : Expects sha256 [] ([] : Expected) := ⟨by simp, nofun, List.Pairwise.nil⟩
  exact expectedLoop_spec start looped

end Expected

/-! ## One entry -/

/-- The second target has a new node, and directories on the way to it. -/
structure Written (t t' : Target) (path : List Bytes) (n : Node Bytes) : Prop where
  here : t'.node path = some n
  kept : ∀ q m, t.node q = some m → t'.node q = some m
  new : ∀ q m, t'.node q = some m →
    t.node q = some m ∨ (q = path ∧ m = n) ∨ (m = .directory ∧ q <+: path)

/-- What the manifest says of an entry that was written. -/
structure Admitted (sha256 : Bytes → Bytes) (file : ManifestFile) (entry : Entry) : Prop where
  type : entry.entryType = if file.kind = "directory" then .directory else .regular
  size : entry.size = file.bytes
  content : file.kind ≠ "directory" →
    entry.content.length = file.bytes ∧ encodeLowerHex (sha256 entry.content) = file.sha256

section Write

variable {t t' t₁ : Target} {path : Bytes} {parent : List Bytes} {name : Bytes}

theorem written_of_create {n : Node Bytes} (parents : FileTree.Parents t t₁ parent)
    (created : t₁.create parent name n = .ok t') : Written t t' (parent ++ [name]) n := by
  obtain ⟨-, free, nodes⟩ := FileTree.create_eq_ok created
  refine ⟨by rw [nodes, if_pos rfl], fun q m found => ?_, fun q m found => ?_⟩
  · have kept := parents.kept q m found
    rw [nodes, if_neg, kept]
    rintro rfl
    rw [free] at kept
    cases kept
  · rw [nodes] at found
    split at found
    · exact Or.inr (Or.inl ⟨‹_›, (Option.some.inj found).symm⟩)
    · rcases parents.new q m found with old | ⟨rfl, way⟩
      · exact Or.inl old
      · exact Or.inr (Or.inr ⟨rfl, way.trans (List.prefix_append _ _)⟩)

theorem written_of_exists (parents : FileTree.Parents t t₁ parent)
    (found : t₁.node (parent ++ [name]) = some .directory) :
    Written t t₁ (parent ++ [name]) .directory := by
  refine ⟨found, parents.kept, fun q m there => ?_⟩
  rcases parents.new q m there with old | ⟨rfl, way⟩
  · exact Or.inl old
  · exact Or.inr (Or.inr ⟨rfl, way.trans (List.prefix_append _ _)⟩)

/-- A directory that could be made, or is there already. -/
theorem createDirectory_written (valid : validateArchivePath path = true)
    (clear : ∀ c, t.node (names path) ≠ some (.file c))
    (parents : FileTree.Parents t t₁ (names path).dropLast)
    (ok : createDirectory t₁ path = (t', none)) : Written t t' (names path) .directory := by
  have split := names_split valid
  unfold createDirectory at ok
  split at ok
  · split at ok
    · rename_i found
      cases ok
      rw [← split] at found ⊢
      exact written_of_exists parents found
    · cases ok
  · cases created : t₁.create (names path).dropLast ((names path).getLast?.getD []) .directory with
    | ok t₂ =>
        simp only [created] at ok
        cases ok
        rw [← split]
        exact written_of_create parents created
    | error error =>
        cases error with
        | other =>
            simp only [created] at ok
            cases ok
        | alreadyExists =>
            have some := FileTree.create_exists created
            obtain ⟨n, found⟩ := Option.isSome_iff_exists.mp some
            rw [← split]
            cases n with
            | directory =>
                simp only [created] at ok
                split at ok
                · cases ok
                  exact written_of_exists parents found
                · cases ok
            | file c =>
                -- No file is there, since only directories were added.
                rcases parents.new _ _ found with old | ⟨none, -⟩
                · rw [split] at old
                  exact absurd old (clear c)
                · cases none

theorem createFile_written {content : Bytes} (valid : validateArchivePath path = true)
    (parents : FileTree.Parents t t₁ (names path).dropLast)
    (ok : createFile t₁ path content = (t', none)) :
    Written t t' (names path) (.file content) := by
  have split := names_split valid
  unfold createFile at ok
  split at ok
  · cases created : t₁.create (names path).dropLast ((names path).getLast?.getD [])
        (.file content) with
    | ok t₂ =>
        rw [created] at ok
        cases ok
        rw [← split]
        exact written_of_create parents created
    | error error =>
        rw [created] at ok
        cases ok
  · cases ok

/-- An entry that was written is in its place, with what the manifest says. -/
theorem writeEntry_written {file : ManifestFile} {entry : Entry}
    (valid : validateArchivePath entry.path = true)
    (clear : ∀ c, t.node (names entry.path) ≠ some (.file c))
    (ok : writeEntry sha256 t file entry = (t', none)) :
    Written t t' (names entry.path)
        (if file.kind = "directory" then .directory else .file entry.content) ∧
      (file.kind ≠ "directory" → entry.content.length = file.bytes ∧
        encodeLowerHex (sha256 entry.content) = file.sha256) := by
  have parents := FileTree.createParents_spec t [] (names entry.path).dropLast
  rw [List.nil_append] at parents
  unfold writeEntry at ok
  split at ok
  · cases ok
  · split at ok
    · cases ok
    · rename_i t₁ made
      rw [made] at parents
      split at ok
      · rename_i isDirectory
        rw [if_pos isDirectory]
        exact ⟨createDirectory_written valid clear parents ok, fun other => absurd isDirectory other⟩
      · rename_i isFile
        rw [if_neg isFile]
        split at ok
        · cases ok
        · rename_i t₂ created
          split at ok
          · cases ok
            exact ⟨createFile_written valid parents created, fun _ => ‹_›⟩
          · cases ok

end Write

/-! ## The loop -/

/-- The target after these entries. -/
structure Extracted (sha256 : Bytes → Bytes) (expected : Expected) (done : List Entry)
    (t : Target) : Prop where
  admitted : ∀ e ∈ done, ∃ f, expected.lookup e.path = some f ∧ Admitted sha256 f e
  distinct : done.Pairwise fun e e' => names e.path ≠ names e'.path
  files : ∀ q c, t.node q = some (.file c) ↔
    ∃ e ∈ done, e.entryType = .regular ∧ names e.path = q ∧ e.content = c
  directories : ∀ q, t.node q = some .directory → q = [] ∨ ∃ e ∈ done, q <+: names e.path
  made : ∀ e ∈ done, e.entryType = .directory → t.node (names e.path) = some .directory

theorem extracted_empty (expected : Expected) :
    Extracted sha256 expected [] (FileTree.empty : Target) := by
  refine ⟨fun e member => absurd member List.not_mem_nil, List.Pairwise.nil, fun q c => ?_,
    fun q found => ?_, fun e member => absurd member List.not_mem_nil⟩
  · simp only [FileTree.empty, List.not_mem_nil, false_and, exists_false, iff_false]
    intro found
    split at found
    · cases found
    · cases found
  · simp only [FileTree.empty] at found
    split at found
    · exact Or.inl ‹_›
    · cases found

section Loop

variable {files : List ManifestFile} {expected : Expected} {done : List Entry} {t t' : Target}

theorem admitEntry_eq_ok {seen : List (List Component)} {entry : Entry} {file : ManifestFile} :
    admitEntry expected seen entry = .ok file ↔
      expected.lookup entry.path = some file ∧ components entry.path ∉ seen ∧
        entry.entryType = (if file.kind = "directory" then .directory else .regular) ∧
          entry.size = file.bytes := by
  unfold admitEntry
  simp only [bind_eq_ok, required_eq_ok, ensure_eq_ok, pure_eq_ok, Except.ok.injEq]
  constructor
  · rintro ⟨_, found, _, checks, rfl⟩
    exact ⟨found, checks⟩
  · rintro ⟨found, checks⟩
    exact ⟨file, found, ⟨⟩, checks, rfl⟩

theorem Expects.lookup_valid (expects : Expects sha256 files expected) {path : Bytes}
    {file : ManifestFile} (found : expected.lookup path = some file) :
    validateArchivePath path = true :=
  (expects.valid _ ((lookup_eq_some expects.distinct).mp found)).1

/-- A new path is a new place. -/
theorem Extracted.fresh (extracted : Extracted sha256 expected done t)
    (expects : Expects sha256 files expected) {entry : Entry}
    (valid : validateArchivePath entry.path = true)
    (new : components entry.path ∉ done.map fun e => components e.path) :
    ∀ e ∈ done, names entry.path ≠ names e.path := by
  intro e he same
  obtain ⟨f, found, -⟩ := extracted.admitted e he
  have equal := (components_injective valid (expects.lookup_valid found)).mpr same
  exact new (List.mem_map.mpr ⟨e, he, equal.symm⟩)

/-- **One turn of the loop.** -/
theorem Extracted.next (extracted : Extracted sha256 expected done t)
    (expects : Expects sha256 files expected) {entry : Entry} {file : ManifestFile}
    (admits : admitEntry expected (done.map fun e => components e.path) entry = .ok file)
    (ok : writeEntry sha256 t file entry = (t', none)) :
    Extracted sha256 expected (entry :: done) t' := by
  obtain ⟨found, new, type, size⟩ := admitEntry_eq_ok.mp admits
  have valid := expects.lookup_valid found
  have fresh := extracted.fresh expects valid new
  have clear : ∀ c, t.node (names entry.path) ≠ some (.file c) := by
    intro c there
    obtain ⟨e, he, -, same, -⟩ := (extracted.files _ c).mp there
    exact fresh e he same.symm
  obtain ⟨written, content⟩ := writeEntry_written valid clear ok
  refine ⟨?_, List.pairwise_cons.mpr ⟨fresh, extracted.distinct⟩, ?_, ?_, ?_⟩
  · intro e he
    rcases List.mem_cons.mp he with rfl | old
    · exact ⟨file, found, type, size, content⟩
    · exact extracted.admitted e old
  · intro q c
    constructor
    · intro there
      rcases written.new q _ there with old | ⟨rfl, isThis⟩ | ⟨none, -⟩
      · obtain ⟨e, he, rest⟩ := (extracted.files q c).mp old
        exact ⟨e, List.mem_cons_of_mem _ he, rest⟩
      · split at isThis
        · cases isThis
        · rename_i isFile
          rw [if_neg isFile] at type
          cases isThis
          exact ⟨entry, List.mem_cons_self, type, rfl, rfl⟩
      · cases none
    · rintro ⟨e, he, regular, rfl, rfl⟩
      rcases List.mem_cons.mp he with rfl | old
      · have isFile : file.kind ≠ "directory" := by
          intro isDirectory
          rw [if_pos isDirectory, regular] at type
          cases type
        rw [written.here, if_neg isFile]
      · exact written.kept _ _ ((extracted.files _ _).mpr ⟨e, old, regular, rfl, rfl⟩)
  · intro q there
    rcases written.new q _ there with old | ⟨rfl, -⟩ | ⟨-, way⟩
    · rcases extracted.directories q old with root | ⟨e, he, way⟩
      · exact Or.inl root
      · exact Or.inr ⟨e, List.mem_cons_of_mem _ he, way⟩
    · exact Or.inr ⟨entry, List.mem_cons_self, List.prefix_refl _⟩
    · exact Or.inr ⟨entry, List.mem_cons_self, way⟩
  · intro e he directory
    rcases List.mem_cons.mp he with rfl | old
    · have isDirectory : file.kind = "directory" := by
        by_contra isFile
        rw [if_neg isFile, directory] at type
        cases type
      rw [written.here, if_pos isDirectory]
    · exact written.kept _ _ (extracted.made e old directory)

/-- **A loop that ends has written every entry.** -/
theorem extractEntries_extracted (expects : Expects sha256 files expected)
    {refused : Entry → Bool} {entries : List Entry} {seen : List (List Component)}
    (extracted : Extracted sha256 expected done t)
    (ok : extractEntries sha256 refused expected t (done.map fun e => components e.path) entries =
      (t', .ok seen)) :
    Extracted sha256 expected (entries.reverse ++ done) t' ∧
      seen.length = entries.length + done.length := by
  induction entries generalizing t done with
  | nil =>
      cases ok
      exact ⟨extracted, by simp⟩
  | cons entry rest ih =>
      unfold extractEntries at ok
      split at ok
      · cases ok
      · rename_i file admits
        split at ok
        · cases ok
        · rename_i t₁ wrote
          split at ok
          · cases ok
          · have after := extracted.next expects admits wrote
            rw [← List.map_cons (f := fun e : Entry => components e.path)] at ok
            obtain ⟨all, counted⟩ := ih after ok
            rw [List.reverse_cons, List.append_assoc, List.singleton_append]
            refine ⟨all, ?_⟩
            rw [counted, List.length_cons, List.length_cons]
            omega

end Loop

/-! ## A restored directory -/

/-- The file of the manifest is for this place below the target. -/
def ManifestFile.At (file : ManifestFile) (place : List Bytes) : Prop :=
  ∃ path, decodeLowerHex file.pathHex = some path ∧ names path = place ∧ place ≠ []

/-- The target holds what the manifest lists, each thing in a place of its own, and the
directories on the way there. -/
structure Restored (sha256 : Bytes → Bytes) (files : List ManifestFile) (t : Target) : Prop where
  file : ∀ f ∈ files, f.kind = "file" → ∃ place c, f.At place ∧ t.node place = some (.file c) ∧
    c.length = f.bytes ∧ encodeLowerHex (sha256 c) = f.sha256
  directory : ∀ f ∈ files, f.kind = "directory" →
    ∃ place, f.At place ∧ t.node place = some .directory
  listed : ∀ f ∈ files, f.kind = "file" ∨ f.kind = "directory"
  noOtherFile : ∀ place c, t.node place = some (.file c) →
    ∃ f ∈ files, f.kind = "file" ∧ f.At place
  noOtherDirectory : ∀ place, t.node place = some .directory →
    place = [] ∨ ∃ f ∈ files, ∃ below, f.At below ∧ place <+: below
  apart : ∀ f ∈ files, ∀ g ∈ files, ∀ place, f.At place → g.At place → f = g

section Restore

variable {files : List ManifestFile} {expected : Expected} {done : List Entry} {t : Target}

/-- As many entries as expected files are an entry for each of them. -/
theorem Extracted.complete (extracted : Extracted sha256 expected done t)
    (expects : Expects sha256 files expected) (count : done.length = expected.length)
    {path : Bytes} {file : ManifestFile} (member : (path, file) ∈ expected) :
    ∃ e ∈ done, e.path = path ∧ Admitted sha256 file e := by
  have keys : (done.map (·.path)) ⊆ expected.map (·.1) := by
    intro p hp
    obtain ⟨e, he, rfl⟩ := List.mem_map.mp hp
    obtain ⟨f, found, -⟩ := extracted.admitted e he
    exact List.mem_map.mpr ⟨_, (lookup_eq_some expects.distinct).mp found, rfl⟩
  have distinct : (done.map (·.path)).Nodup := by
    refine List.pairwise_map.mpr (extracted.distinct.imp fun apart same => apart ?_)
    rw [same]
  have same := (List.subperm_of_subset distinct keys).perm_of_length_le (by simp [count])
  have here := same.mem_iff.mpr (List.mem_map.mpr ⟨_, member, rfl⟩)
  obtain ⟨e, he, rfl⟩ := List.mem_map.mp here
  obtain ⟨f, found, admitted⟩ := extracted.admitted e he
  have equal := ((lookup_eq_some expects.distinct).mpr member).symm.trans found
  obtain rfl := Option.some.inj equal
  exact ⟨e, he, rfl, admitted⟩

theorem Expects.at (expects : Expects sha256 files expected) {path : Bytes} {f : ManifestFile}
    (member : (path, f) ∈ expected) : f.At (names path) := by
  obtain ⟨valid, -, decoded⟩ := expects.valid _ member
  exact ⟨path, decoded, rfl, names_ne_nil valid⟩

theorem Extracted.restored (extracted : Extracted sha256 expected done t)
    (expects : Expects sha256 files expected) (count : done.length = expected.length) :
    Restored sha256 files t := by
  -- The file of the manifest behind an entry.
  have behind : ∀ e ∈ done, ∃ f ∈ files, f.At (names e.path) ∧ Admitted sha256 f e := by
    intro e he
    obtain ⟨f, found, admitted⟩ := extracted.admitted e he
    have member := (lookup_eq_some expects.distinct).mp found
    exact ⟨f, (expects.listed f).mpr ⟨_, member⟩, expects.at member, admitted⟩
  have kinds : ∀ f ∈ files, f.kind = "file" ∨ f.kind = "directory" := by
    intro f hf
    obtain ⟨path, member⟩ := (expects.listed f).mp hf
    exact (expects.valid _ member).2.1.1
  have never : "file" ≠ "directory" := by decide
  refine ⟨?_, ?_, kinds, ?_, ?_, ?_⟩
  · intro f hf isFile
    obtain ⟨path, member⟩ := (expects.listed f).mp hf
    obtain ⟨e, he, rfl, admitted⟩ := extracted.complete expects count member
    have other : f.kind ≠ "directory" := isFile ▸ never
    have regular := admitted.type
    rw [if_neg other] at regular
    exact ⟨_, e.content, expects.at member,
      (extracted.files _ _).mpr ⟨e, he, regular, rfl, rfl⟩, admitted.content other⟩
  · intro f hf isDirectory
    obtain ⟨path, member⟩ := (expects.listed f).mp hf
    obtain ⟨e, he, rfl, admitted⟩ := extracted.complete expects count member
    have directory := admitted.type
    rw [if_pos isDirectory] at directory
    exact ⟨_, expects.at member, extracted.made e he directory⟩
  · intro place c found
    obtain ⟨e, he, regular, rfl, -⟩ := (extracted.files _ _).mp found
    obtain ⟨f, hf, isAt, admitted⟩ := behind e he
    refine ⟨f, hf, (kinds f hf).resolve_right fun isDirectory => ?_, isAt⟩
    have directory := admitted.type
    rw [if_pos isDirectory, regular] at directory
    cases directory
  · intro place found
    refine (extracted.directories place found).imp_right fun ⟨e, he, way⟩ => ?_
    obtain ⟨f, hf, isAt, -⟩ := behind e he
    exact ⟨f, hf, _, isAt, way⟩
  · rintro f hf g hg place ⟨path, decoded, rfl, -⟩ ⟨path', decoded', same, -⟩
    obtain ⟨p, member⟩ := (expects.listed f).mp hf
    obtain ⟨p', member'⟩ := (expects.listed g).mp hg
    obtain rfl := Option.some.inj ((expects.valid _ member).2.2.symm.trans decoded)
    obtain rfl := Option.some.inj ((expects.valid _ member').2.2.symm.trans decoded')
    obtain ⟨e, he, rfl, -⟩ := extracted.complete expects count member
    obtain ⟨e', he', rfl, -⟩ := extracted.complete expects count member'
    by_cases one : e = e'
    · subst one
      have found := (lookup_eq_some expects.distinct).mpr member
      exact Option.some.inj (found.symm.trans ((lookup_eq_some expects.distinct).mpr member'))
    · have symm : Std.Symm fun e e' : Entry => names e.path ≠ names e'.path :=
        ⟨fun _ _ apart => apart.symm⟩
      exact absurd same.symm (extracted.distinct.forall he he' one)

end Restore

/-- What `extract_archive` leaves in a directory that was empty. -/
def Extracts (sha256 : Bytes → Bytes) (files : List ManifestFile) (archive : List Entry) :
    Target × Option BackupError → Prop
  | (t, none) => Restored sha256 files t ∧
      (withoutManifest archive).Pairwise fun e e' => names e.path ≠ names e'.path
  | (t, some _) => t = .empty

/-- **Every archive, with every manifest, is extracted whole or not at all.** -/
theorem extractArchive_extracts {manifest : BackupManifest} {expected : Expected}
    (ok : expectedFiles sha256 manifest = .ok expected) (refused : Entry → Bool)
    (archive : List Entry) :
    Extracts sha256 manifest.files archive
      (extractArchive sha256 refused archive .empty expected) := by
  have expects := expectedFiles_expects ok
  unfold extractArchive
  split
  · exact FileTree.removeContents_eq _
  · rename_i t seen ran
    obtain ⟨extracted, counted⟩ :=
      extractEntries_extracted expects (extracted_empty expected) ran
    rw [List.append_nil] at extracted
    rw [List.length_nil, Nat.add_zero] at counted
    split
    · rename_i complete
      refine ⟨extracted.restored expects ?_, ?_⟩
      · rw [List.length_reverse, ← counted, complete]
      · exact (List.pairwise_reverse.mp extracted.distinct).imp fun apart => apart.symm
    · exact FileTree.removeContents_eq _

/-! Pole: three empty files, one of them in a directory that the manifest does not list. -/

/-- The digest of no bytes. -/
def emptyDigest : Bytes :=
  [0xe3, 0xb0, 0xc4, 0x42, 0x98, 0xfc, 0x1c, 0x14, 0x9a, 0xfb, 0xf4, 0xc8, 0x99, 0x6f, 0xb9, 0x24,
    0x27, 0xae, 0x41, 0xe4, 0x64, 0x9b, 0x93, 0x4c, 0xa4, 0x95, 0x99, 0x1b, 0x78, 0x52, 0xb8, 0x55]

def emptyFile (path : String) : ManifestFile where
  pathHex := encodeLowerHex (text path)
  bytes := 0
  sha256 := encodeLowerHex emptyDigest
  kind := "file"

def emptyEntry (path : String) : Entry where
  path := text path
  entryType := .regular
  size := 0
  content := []

def nested : BackupManifest where
  version := formatVersion
  warning := warning
  files := [emptyFile "config.toml", emptyFile "tit.sqlite3", emptyFile "a/b"]

def nestedExpected : Expected :=
  [(text "config.toml", emptyFile "config.toml"), (text "tit.sqlite3", emptyFile "tit.sqlite3"),
    (text "a/b", emptyFile "a/b")]

def nestedArchive : List Entry :=
  [emptyEntry "manifest.json", emptyEntry "config.toml", emptyEntry "a/b",
    emptyEntry "tit.sqlite3"]

theorem nested_extracts :
    expectedFiles (fun _ => emptyDigest) nested = .ok nestedExpected ∧
      Extracts (fun _ => emptyDigest) nested.files nestedArchive
        (extractArchive (fun _ => emptyDigest) (fun _ => false) nestedArchive .empty
          nestedExpected) :=
  ⟨by decide, extractArchive_extracts (by decide) _ _⟩

/-- The extraction succeeds and makes the directory `a`, which is not in the manifest. -/
theorem nested_unlisted :
    expectedFiles (fun _ => emptyDigest) nested = .ok nestedExpected ∧
      (extractArchive (fun _ => emptyDigest) (fun _ => false) nestedArchive .empty
        nestedExpected).2 = none ∧
      (extractArchive (fun _ => emptyDigest) (fun _ => false) nestedArchive .empty
        nestedExpected).1.node [text "a"] = some .directory ∧
      ∀ f ∈ nested.files, ¬f.At [text "a"] := by
  have none : (nested.files.all fun f => (decodeLowerHex f.pathHex).all fun path =>
      decide (names path ≠ [text "a"])) = true := by decide
  refine ⟨by decide, by decide, by decide, ?_⟩
  rintro f hf ⟨path, decoded, isAt, -⟩
  have apart := List.all_eq_true.mp none f hf
  rw [decoded, Option.all_some, decide_eq_true_eq] at apart
  exact apart isAt

end Tit.Backup
