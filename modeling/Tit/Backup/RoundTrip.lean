/-
# Backup.RoundTrip -- a backup that was made can be restored

The archive that `create_archive` writes passes each check of the readers but one: nothing in it
looks at the size of the manifest, and `read_manifest` takes no manifest above 16 MiB.

The files of the archive are the nodes of the snapshot, each once (`Listing`).  All that the
readers ask of entries follows from that: the paths are different, names only, and where one
lies below another the other is a directory.
-/
import Tit.Backup.Create
import Tit.Backup.Extract

namespace Tit.Backup

open Tit.Theory
open scoped List

set_option autoImplicit false

variable {sha256 : Bytes → Bytes}

/-! ## The path of a place -/

/-- The names, joined by slashes. -/
def joinNames (place : List Bytes) : Bytes := [slash].intercalate place

@[simp] theorem joinNames_singleton (name : Bytes) : joinNames [name] = name := by
  simp [joinNames]

/-- The names of a place below a directory. -/
structure ValidPlace (place : List Bytes) : Prop where
  below : place ≠ []
  name : ∀ name ∈ place, ValidName name

theorem joinPath_joinNames {place : List Bytes} (name : Bytes) (below : place ≠ []) :
    joinPath (joinNames place) name = joinNames (place ++ [name]) := by
  unfold joinPath joinNames
  induction place with
  | nil => exact absurd rfl below
  | cons first rest ih =>
      cases rest with
      | nil => simp
      | cons second rest =>
          have later := ih (List.cons_ne_nil _ _)
          simp only [List.cons_append] at later ⊢
          rw [List.intercalate_cons_cons, List.intercalate_cons_cons, ← later]
          simp

section Place

variable {place : List Bytes}

theorem ValidPlace.splitOn (valid : ValidPlace place) : (joinNames place).splitOn slash = place :=
  List.splitOn_intercalate slash (fun name member => (valid.name name member).noSlash) valid.below

theorem ValidPlace.relative (valid : ValidPlace place) : isAbsolute (joinNames place) = false := by
  cases place with
  | nil => exact absurd rfl valid.below
  | cons first rest =>
      have name := valid.name first List.mem_cons_self
      have start : (joinNames (first :: rest)).head? = first.head? := by
        cases first with
        | nil => exact absurd rfl name.nonempty
        | cons b more => cases rest <;> simp [joinNames]
      unfold isAbsolute
      rw [start, decide_eq_false_iff_not]
      intro slashed
      exact name.noSlash (List.mem_of_mem_head? slashed)

theorem ValidPlace.components (valid : ValidPlace place) :
    components (joinNames place) = place.map .normal := by
  have kept : (place.filter fun piece => decide (piece ≠ [] ∧ piece ≠ dot)) = place := by
    refine List.filter_eq_self.mpr fun name member => ?_
    have name := valid.name name member
    simpa using ⟨name.nonempty, name.notDot⟩
  have start : place.head? ≠ some dot := fun first =>
    (valid.name dot (List.mem_of_mem_head? first)).notDot rfl
  unfold Backup.components
  simp only [valid.relative, valid.splitOn, kept, if_neg start, Bool.false_eq_true, if_false,
    List.nil_append]
  exact List.map_congr_left fun name member => if_neg (valid.name name member).notDotDot

theorem ValidPlace.names (valid : ValidPlace place) : names (joinNames place) = place := by
  unfold Backup.names
  have inverse : Component.name ∘ Component.normal = some := rfl
  rw [valid.components, List.filterMap_map, inverse, List.filterMap_some]

theorem ValidPlace.accepted (valid : ValidPlace place) :
    validateArchivePath (joinNames place) = true := by
  have nonempty : joinNames place ≠ [] := by
    intro empty
    have names := valid.names
    rw [empty] at names
    exact valid.below names.symm
  unfold validateArchivePath
  rw [valid.relative, valid.components]
  simp only [decide_eq_true nonempty, Bool.not_false, Bool.and_self, Bool.true_and,
    List.all_map, List.all_eq_true]
  intro name member
  simpa [Component.name] using (valid.name name member).nonempty

theorem ValidPlace.noNull (valid : ValidPlace place) : hasNull (joinNames place) = false := by
  unfold hasNull
  rw [decide_eq_false_iff_not]
  have names := valid.name
  unfold joinNames
  clear valid
  induction place with
  | nil => simp
  | cons first rest ih =>
      have here := (names first List.mem_cons_self).noNull
      have later := ih fun name member => names name (List.mem_cons_of_mem _ member)
      cases rest with
      | nil => simpa using here
      | cons second rest =>
          have slashed : (0 : UInt8) ≠ slash := by decide
          rw [List.intercalate_cons_cons, List.mem_append, List.mem_append, List.mem_singleton]
          simp only [here, slashed, later, or_self, not_false_eq_true]

theorem ValidPlace.endsInName (valid : ValidPlace place) : endsInName (joinNames place) = true := by
  unfold Backup.endsInName
  rw [valid.splitOn, decide_eq_true_eq]
  exact ⟨fun last => (valid.name _ (List.mem_of_getLast? last)).nonempty rfl,
    fun last => (valid.name _ (List.mem_of_getLast? last)).notDot rfl⟩

theorem ValidPlace.not_endsInDot (valid : ValidPlace place) :
    endsInDot (joinNames place) = false := by
  unfold endsInDot
  rw [valid.splitOn, decide_eq_false_iff_not]
  intro last
  exact (valid.name _ (List.mem_filter.mp (List.mem_of_getLast? last)).1).notDot rfl

end Place

/-! ## Hexadecimal digits -/

/-- The two digits of a byte are read back. -/
theorem decodeNibble_hexDigit (b : UInt8) :
    decodeNibble (hexDigit (b >>> 4)) = some (b >>> 4) ∧
      decodeNibble (hexDigit (b &&& 15)) = some (b &&& 15) ∧
        b >>> 4 <<< 4 ||| b &&& 15 = b := by
  have all : ∀ n : Fin 256, (fun b : UInt8 => decodeNibble (hexDigit (b >>> 4)) = some (b >>> 4) ∧
      decodeNibble (hexDigit (b &&& 15)) = some (b &&& 15) ∧ b >>> 4 <<< 4 ||| b &&& 15 = b)
        (UInt8.ofNat n) := by decide +kernel
  have here := all ⟨b.toNat, b.toNat_lt⟩
  rwa [UInt8.ofNat_toNat] at here

@[simp] theorem decodeLowerHex_encodeLowerHex (bytes : Bytes) :
    decodeLowerHex (encodeLowerHex bytes) = some bytes := by
  induction bytes with
  | nil => rfl
  | cons b rest ih =>
      obtain ⟨high, low, joined⟩ := decodeNibble_hexDigit b
      unfold encodeLowerHex at ih ⊢
      simp only [List.flatMap_cons, List.cons_append, List.nil_append, decodeLowerHex, high, low,
        ih, Option.bind_eq_bind, Option.bind_some, Option.pure_def, joined]

@[simp] theorem length_encodeLowerHex (bytes : Bytes) :
    (encodeLowerHex bytes).length = 2 * bytes.length := by
  induction bytes with
  | nil => rfl
  | cons b rest ih =>
      unfold encodeLowerHex at ih ⊢
      simp only [List.flatMap_cons, List.length_append, List.length_cons, List.length_nil, ih]
      omega

/-! ## The nodes of a source -/

mutual

/-- The nodes of a source that lies at a place. -/
def Source.nodes : Source → List Bytes → List (List Bytes × Node Bytes)
  | .file content, place => [(place, .file content)]
  | .directory entries, place => (place, .directory) :: entries.nodes place
  | .other, _ => []

def Entries.nodes : Entries → List Bytes → List (List Bytes × Node Bytes)
  | .nil, _ => []
  | .cons name source rest, place => source.nodes (place ++ [name]) ++ rest.nodes place

end

theorem Entries.node_cons (here : Bytes) (source : Source) (later : Entries) (name : Bytes)
    (rest : List Bytes) : (Entries.cons here source later).node name rest =
      if name = here then source.node rest else later.node name rest := rfl

theorem Entries.name_mem {name : Bytes} {rest : List Bytes} {n : Node Bytes} :
    ∀ {entries : Entries}, entries.node name rest = some n → name ∈ entries.names
  | .cons here source later, found => by
      unfold Entries.node at found
      unfold Entries.names
      split at found
      · rename_i same
        rw [same]
        exact List.mem_cons_self
      · exact List.mem_cons_of_mem _ (Entries.name_mem found)

/-- A name that sorts before all others is not among them. -/
theorem Entries.node_before {name : Bytes} {entries : Entries}
    (before : ∀ later ∈ entries.names, name < later) (rest : List Bytes) :
    entries.node name rest = none := by
  cases found : entries.node name rest with
  | none => rfl
  | some n => exact absurd (before name (Entries.name_mem found)) (List.lt_irrefl _)

mutual

theorem Source.mem_nodes : ∀ (source : Source), source.Valid → ∀ {place q n},
    (q, n) ∈ source.nodes place ↔ ∃ rest, q = place ++ rest ∧ source.node rest = some n
  | .file content, _, place, q, n => by
      unfold Source.nodes
      rw [List.mem_singleton, Prod.mk.injEq]
      constructor
      · rintro ⟨rfl, rfl⟩
        exact ⟨[], (List.append_nil _).symm, rfl⟩
      · rintro ⟨rest, rfl, found⟩
        cases rest with
        | nil =>
            cases found
            exact ⟨List.append_nil _, rfl⟩
        | cons name rest => cases found
  | .directory entries, valid, place, q, n => by
      unfold Source.nodes
      rw [List.mem_cons, Prod.mk.injEq, Entries.mem_nodes entries valid]
      constructor
      · rintro (⟨rfl, rfl⟩ | ⟨name, rest, rfl, found⟩)
        · exact ⟨[], (List.append_nil _).symm, rfl⟩
        · exact ⟨name :: rest, rfl, found⟩
      · rintro ⟨rest, rfl, found⟩
        cases rest with
        | nil =>
            cases found
            exact Or.inl ⟨List.append_nil _, rfl⟩
        | cons name rest => exact Or.inr ⟨name, rest, rfl, found⟩
  | .other, _, place, q, n => by
      constructor
      · exact nofun
      · rintro ⟨rest, rfl, found⟩
        cases rest <;> cases found

theorem Entries.mem_nodes : ∀ (entries : Entries), entries.Valid → ∀ {place q n},
    (q, n) ∈ entries.nodes place ↔
      ∃ name rest, q = place ++ name :: rest ∧ entries.node name rest = some n
  | .nil, _, place, q, n => by
      constructor
      · exact nofun
      · rintro ⟨name, rest, rfl, found⟩
        cases found
  | .cons here source later, valid, place, q, n => by
      obtain ⟨-, validSource, before, validLater⟩ := valid
      unfold Entries.nodes
      rw [List.mem_append, Source.mem_nodes source validSource,
        Entries.mem_nodes later validLater]
      simp only [Entries.node_cons]
      constructor
      · rintro (⟨rest, rfl, found⟩ | ⟨name, rest, rfl, found⟩)
        · exact ⟨here, rest, by simp, by rw [if_pos rfl]; exact found⟩
        · refine ⟨name, rest, rfl, ?_⟩
          rw [if_neg, found]
          rintro rfl
          rw [Entries.node_before before] at found
          cases found
      · rintro ⟨name, rest, rfl, found⟩
        split at found
        · rename_i same
          exact Or.inl ⟨rest, by simp [same], found⟩
        · exact Or.inr ⟨name, rest, rfl, found⟩

end

mutual

/-- Every node of a valid source is listed once. -/
theorem Source.nodes_distinct : ∀ (source : Source), source.Valid → ∀ place,
    (source.nodes place).Pairwise fun a b => a.1 ≠ b.1
  | .file content, _, place => List.pairwise_singleton _ _
  | .directory entries, valid, place => by
      refine List.pairwise_cons.mpr ⟨?_, Entries.nodes_distinct entries valid place⟩
      rintro ⟨q, n⟩ member same
      obtain ⟨name, rest, rfl, -⟩ := (Entries.mem_nodes entries valid).mp member
      simp at same
  | .other, _, place => List.Pairwise.nil

theorem Entries.nodes_distinct : ∀ (entries : Entries), entries.Valid → ∀ place,
    (entries.nodes place).Pairwise fun a b => a.1 ≠ b.1
  | .nil, _, place => List.Pairwise.nil
  | .cons here source later, valid, place => by
      obtain ⟨-, validSource, before, validLater⟩ := valid
      refine List.pairwise_append.mpr ⟨Source.nodes_distinct source validSource _,
        Entries.nodes_distinct later validLater place, ?_⟩
      rintro ⟨q, n⟩ first ⟨q', n'⟩ second same
      obtain ⟨rest, rfl, -⟩ := (Source.mem_nodes source validSource).mp first
      obtain ⟨name, rest', rfl, found⟩ := (Entries.mem_nodes later validLater).mp second
      simp only [List.append_assoc, List.singleton_append, List.append_cancel_left_eq,
        List.cons.injEq] at same
      rw [← same.1, Entries.node_before before] at found
      cases found

end

mutual

/-- A node lies in directories. -/
theorem Source.node_prefix : ∀ {source : Source} {q rest : List Bytes} {n : Node Bytes},
    source.node (q ++ rest) = some n → rest ≠ [] → source.node q = some .directory
  | _, [], [], _, _, proper => absurd rfl proper
  | .directory _, [], _ :: _, _, _, _ => rfl
  | .directory entries, name :: q, _, _, found, proper =>
      (@Entries.node_prefix entries name q) found proper
  | .file _, [], _ :: _, _, found, _ => by cases found
  | .file _, _ :: _, _, _, found, _ => by cases found
  | .other, [], _ :: _, _, found, _ => by cases found
  | .other, _ :: _, _, _, found, _ => by cases found

theorem Entries.node_prefix : ∀ {entries : Entries} {name : Bytes} {q rest : List Bytes}
    {n : Node Bytes}, entries.node name (q ++ rest) = some n → rest ≠ [] →
    entries.node name q = some .directory
  | .cons here source later, name, q, rest, n, found, proper => by
      rw [Entries.node_cons] at found ⊢
      split at found
      · rename_i same
        rw [if_pos same]
        exact Source.node_prefix found proper
      · rename_i other
        rw [if_neg other]
        exact Entries.node_prefix found proper

end

mutual

/-- The names on the way to a node are names of a directory. -/
theorem Source.node_names : ∀ {source : Source} {q : List Bytes} {n : Node Bytes}, source.Valid →
    source.node q = some n → ∀ name ∈ q, ValidName name
  | _, [], _, _, _ => nofun
  | .directory entries, name :: q, _, valid, found =>
      (@Entries.node_names entries name q) valid found
  | .file _, _ :: _, _, _, found => by cases found
  | .other, _ :: _, _, _, found => by cases found

theorem Entries.node_names : ∀ {entries : Entries} {name : Bytes} {q : List Bytes}
    {n : Node Bytes}, entries.Valid → entries.node name q = some n →
    ∀ part ∈ name :: q, ValidName part
  | .cons here source later, name, q, n, valid, found => by
      obtain ⟨validName, validSource, -, validLater⟩ := valid
      rw [Entries.node_cons] at found
      split at found
      · rename_i same
        rw [same]
        exact List.forall_mem_cons.mpr ⟨validName, Source.node_names validSource found⟩
      · exact Entries.node_names validLater found

end

/-! ## What a backup is taken of -/

/-- The snapshot of an instance, as a directory. -/
def Instance.entries (i : Instance) : Entries :=
  let last : Entries := .cons databaseArchivePath (.file i.database) .nil
  .cons configArchivePath i.config (.cons repositoryDirectory i.repositories
    (match i.hostKey with
    | none => last
    | some key => .cons hostKeyFile key last))

def Instance.snapshot (i : Instance) : Source := .directory i.entries

/-- The names that a backup uses are names of a directory. -/
theorem validName_known : ∀ name ∈
    [configArchivePath, repositoryDirectory, hostKeyFile, databaseArchivePath], ValidName name := by
  intro name member
  have checked : name ≠ [] ∧ slash ∉ name ∧ (0 : UInt8) ∉ name ∧ name ≠ dot ∧ name ≠ dotDot := by
    revert name
    decide +kernel
  obtain ⟨nonempty, noSlash, noNull, notDot, notDotDot⟩ := checked
  exact ⟨nonempty, noSlash, noNull, notDot, notDotDot⟩

theorem Instance.entries_valid (i : Instance) : i.entries.Valid := by
  obtain ⟨config, hostKey, repositories⟩ := i.valid
  have known := validName_known
  have order : configArchivePath < repositoryDirectory ∧ configArchivePath < hostKeyFile ∧
      configArchivePath < databaseArchivePath ∧ repositoryDirectory < hostKeyFile ∧
      repositoryDirectory < databaseArchivePath ∧ hostKeyFile < databaseArchivePath := by
    decide +kernel
  unfold entries
  cases key : i.hostKey with
  | none => simp [Entries.Valid, Entries.names, Source.Valid, known, order, config, repositories]
  | some source =>
      have valid := hostKey source key
      simp [Entries.Valid, Entries.names, Source.Valid, known, order, config, repositories, valid]

/-- The file of the archive for a node of the snapshot. -/
def archived (sha256 : Bytes → Bytes) (place : List Bytes) : Node Bytes → ArchivedFile
  | .file content =>
      { archivePath := joinNames place
        bytes := content.length
        sha256 := encodeLowerHex (sha256 content)
        kind := .file
        content }
  | .directory => archivedDirectory sha256 (joinNames place)

theorem addFile_eq {source : Source} {place : List Bytes} {file : ArchivedFile}
    (ok : addFile sha256 source (joinNames place) = .ok file) :
    (source.nodes place).map (fun e => archived sha256 e.1 e.2) = [file] := by
  unfold addFile at ok
  rw [bind_eq_ok] at ok
  obtain ⟨_, -, ok⟩ := ok
  cases source with
  | file content =>
      cases ok
      rfl
  | _ => cases ok

mutual

theorem collectRepositoryFiles_eq : ∀ {source : Source} {place : List Bytes}
    {files : List ArchivedFile}, place ≠ [] →
    collectRepositoryFiles sha256 source (joinNames place) = .ok files →
    files = (source.nodes place).map fun e => archived sha256 e.1 e.2
  | .directory entries, place, files, below, ok => by
      unfold collectRepositoryFiles at ok
      rw [bind_eq_ok] at ok
      obtain ⟨found, collected, ok⟩ := ok
      cases ok
      rw [collectEntries_eq below collected]
      rfl
  | .file _, _, _, _, ok => by cases ok
  | .other, _, _, _, ok => by cases ok

theorem collectEntries_eq : ∀ {entries : Entries} {place : List Bytes}
    {files : List ArchivedFile}, place ≠ [] →
    collectEntries sha256 entries (joinNames place) = .ok files →
    files = (entries.nodes place).map fun e => archived sha256 e.1 e.2
  | .nil, _, _, _, ok => by
      cases ok
      rfl
  | .cons name source rest, place, files, below, ok => by
      unfold collectEntries at ok
      simp only [bind_eq_ok, joinPath_joinNames name below] at ok
      obtain ⟨here, first, later, others, ok⟩ := ok
      cases ok
      have child : place ++ [name] ≠ [] := by simp
      have rest := collectEntries_eq below others
      unfold Entries.nodes
      rw [List.map_append, ← rest]
      congr 1
      cases source with
      | directory entries => exact collectRepositoryFiles_eq child first
      | file content =>
          obtain ⟨file, added, rfl⟩ := map_eq_ok.mp first
          exact (addFile_eq added).symm
      | other => cases first

end

def keyNodes : Option Source → List (List Bytes × Node Bytes)
  | none => []
  | some key => key.nodes [hostKeyFile]

theorem collectHostKey_eq {key : Option Source} {files : List ArchivedFile}
    (ok : collectHostKey sha256 key = .ok files) :
    files = (keyNodes key).map fun e => archived sha256 e.1 e.2 := by
  cases key with
  | none =>
      cases ok
      rfl
  | some source =>
      obtain ⟨file, added, rfl⟩ := map_eq_ok.mp ok
      have placed : addFile sha256 source (joinNames [hostKeyFile]) = .ok file := by
        rw [joinNames_singleton]
        exact added
      exact (addFile_eq placed).symm

/-- **The files of the archive are the nodes of the snapshot.** -/
theorem archivedFiles_perm {i : Instance} {files : List ArchivedFile}
    (ok : archivedFiles sha256 i = .ok files) :
    files.Perm ((i.entries.nodes []).map fun e => archived sha256 e.1 e.2) := by
  unfold archivedFiles at ok
  simp only [bind_eq_ok, pure_eq_ok, Except.ok.injEq] at ok
  obtain ⟨config, addedConfig, database, addedDatabase, hostKey, addedKey, repositories,
    collected, rfl⟩ := ok
  refine (List.perm_insertionSort _ _).trans ?_
  have configFile := (@addFile_eq _ i.config [configArchivePath])
    (by rw [joinNames_singleton]; exact addedConfig)
  have databaseFile := (@addFile_eq _ (.file i.database) [databaseArchivePath])
    (by rw [joinNames_singleton]; exact addedDatabase)
  have below := (@collectRepositoryFiles_eq _ _ [repositoryDirectory]) (by simp)
    (by rw [joinNames_singleton]; exact collected)
  have keyFile := collectHostKey_eq addedKey
  have whole : (i.entries.nodes []).map (fun e => archived sha256 e.1 e.2) =
      config :: (repositories ++ (hostKey ++ [database])) := by
    unfold Instance.entries
    rw [below, keyFile, ← databaseFile]
    cases i.hostKey <;>
      simp [Entries.nodes, keyNodes, List.map_append, configFile]
  rw [whole, List.perm_cons]
  calc database :: (hostKey ++ repositories)
      _ ~ (hostKey ++ repositories) ++ [database] := List.perm_append_singleton _ _ |>.symm
      _ = hostKey ++ (repositories ++ [database]) := List.append_assoc _ _ _
      _ ~ repositories ++ [database] ++ hostKey := List.perm_append_comm
      _ = repositories ++ ([database] ++ hostKey) := List.append_assoc _ _ _
      _ ~ repositories ++ (hostKey ++ [database]) := List.perm_append_comm.append_left _

theorem archivedFiles_config {i : Instance} {files : List ArchivedFile}
    (ok : archivedFiles sha256 i = .ok files) : ∃ content, i.config = .file content := by
  unfold archivedFiles at ok
  rw [bind_eq_ok] at ok
  obtain ⟨file, added, -⟩ := ok
  unfold addFile at added
  rw [bind_eq_ok] at added
  obtain ⟨_, -, added⟩ := added
  cases config : i.config with
  | file content => exact ⟨content, rfl⟩
  | _ =>
      rw [config] at added
      cases added

/-- The files of an archive are the nodes below the root of the snapshot, each once. -/
structure Listing (sha256 : Bytes → Bytes) (i : Instance) (files : List ArchivedFile) : Prop where
  listed : ∀ f, f ∈ files ↔
    ∃ q n, q ≠ [] ∧ i.snapshot.node q = some n ∧ f = archived sha256 q n
  distinct : files.Pairwise fun f g => f.archivePath ≠ g.archivePath
  config : ∃ f ∈ files, f.archivePath = configArchivePath
  database : ∃ f ∈ files, f.archivePath = databaseArchivePath

section Listed

variable {i : Instance} {q q' : List Bytes} {n : Node Bytes} {files : List ArchivedFile}

theorem Instance.validPlace (found : i.snapshot.node q = some n) (below : q ≠ []) :
    ValidPlace q :=
  ⟨below, (@Source.node_names i.snapshot) i.entries_valid found⟩

@[simp] theorem archived_path (place : List Bytes) (n : Node Bytes) :
    (archived sha256 place n).archivePath = joinNames place := by
  cases n <;> rfl

theorem ValidPlace.joinNames_injective (valid : ValidPlace q) (valid' : ValidPlace q')
    (same : joinNames q = joinNames q') : q = q' := by
  rw [← valid.names, same, valid'.names]

theorem archivedFiles_listing (ok : archivedFiles sha256 i = .ok files) :
    Listing sha256 i files := by
  have perm := archivedFiles_perm ok
  have member : ∀ {q n}, (q, n) ∈ i.entries.nodes [] ↔ q ≠ [] ∧ i.snapshot.node q = some n := by
    intro q n
    rw [Entries.mem_nodes _ i.entries_valid]
    constructor
    · rintro ⟨name, rest, rfl, found⟩
      exact ⟨List.cons_ne_nil _ _, found⟩
    · rintro ⟨below, found⟩
      cases q with
      | nil => exact absurd rfl below
      | cons name rest => exact ⟨name, rest, rfl, found⟩
  refine ⟨fun f => ?_, ?_, ?_, ?_⟩
  · rw [perm.mem_iff, List.mem_map]
    constructor
    · rintro ⟨⟨q, n⟩, listed, rfl⟩
      exact ⟨q, n, (member.mp listed).1, (member.mp listed).2, rfl⟩
    · rintro ⟨q, n, below, found, rfl⟩
      exact ⟨(q, n), member.mpr ⟨below, found⟩, rfl⟩
  · have symm : ∀ {f g : ArchivedFile}, f.archivePath ≠ g.archivePath →
        g.archivePath ≠ f.archivePath := fun apart => apart.symm
    rw [perm.pairwise_iff symm, List.pairwise_map]
    refine (Entries.nodes_distinct _ i.entries_valid []).imp_of_mem ?_
    rintro ⟨q, n⟩ ⟨q', n'⟩ first second apart same
    obtain ⟨below, found⟩ := member.mp first
    obtain ⟨below', found'⟩ := member.mp second
    rw [archived_path, archived_path] at same
    exact apart ((i.validPlace found below).joinNames_injective (i.validPlace found' below') same)
  · obtain ⟨content, isFile⟩ := archivedFiles_config ok
    have listed : ([configArchivePath], .file content) ∈ i.entries.nodes [] := by
      simp [Instance.entries, Entries.nodes, isFile, Source.nodes]
    exact ⟨_, perm.mem_iff.mpr (List.mem_map.mpr ⟨_, listed, rfl⟩),
      (archived_path _ _).trans (joinNames_singleton _)⟩
  · have listed : ([databaseArchivePath], .file i.database) ∈ i.entries.nodes [] := by
      unfold Instance.entries
      cases i.hostKey <;> simp [Entries.nodes, Source.nodes]
    exact ⟨_, perm.mem_iff.mpr (List.mem_map.mpr ⟨_, listed, rfl⟩),
      (archived_path _ _).trans (joinNames_singleton _)⟩

end Listed

/-! ## The manifest is accepted -/

section Manifest

variable {i : Instance} {files : List ArchivedFile}

def expectation (files : List ArchivedFile) : Expected :=
  files.map fun f => (f.archivePath, f.manifestFile)

theorem Listing.accepted (listing : Listing sha256 i files) {f : ArchivedFile} (member : f ∈ files) :
    validateArchivePath f.archivePath = true ∧ acceptable sha256 f.manifestFile ∧
      ∃ content, f.sha256 = encodeLowerHex (sha256 content) := by
  obtain ⟨q, n, below, found, rfl⟩ := (listing.listed f).mp member
  rw [archived_path]
  refine ⟨(i.validPlace found below).accepted, ?_⟩
  cases n with
  | file content =>
      have never : "file" ≠ "directory" := by decide
      exact ⟨⟨Or.inl rfl, fun both => never both.1⟩, content, rfl⟩
  | directory =>
      refine ⟨⟨Or.inr rfl, ?_⟩, [], rfl⟩
      rintro ⟨-, other | other⟩
      · exact other rfl
      · exact other rfl

theorem expectedLoop_of {start : Expected} (digest : ∀ c, (sha256 c).length = 32)
    (accepted : ∀ f ∈ files, validateArchivePath f.archivePath = true ∧
      acceptable sha256 f.manifestFile ∧ ∃ content, f.sha256 = encodeLowerHex (sha256 content))
    (distinct : files.Pairwise fun f g => f.archivePath ≠ g.archivePath)
    (new : ∀ e ∈ start, ∀ f ∈ files, e.1 ≠ f.archivePath) :
    expectedLoop sha256 (files.map ArchivedFile.manifestFile) start =
      .ok (start ++ expectation files) := by
  induction files generalizing start with
  | nil => simp [expectedLoop, expectation]
  | cons f rest ih =>
      obtain ⟨valid, isAcceptable, content, digested⟩ := accepted f List.mem_cons_self
      obtain ⟨first, later⟩ := List.pairwise_cons.mp distinct
      have fresh : start.lookup f.archivePath = none :=
        lookup_eq_none.mpr fun e he => new e he f List.mem_cons_self
      have after : ∀ e ∈ start ++ [(f.archivePath, f.manifestFile)], ∀ g ∈ rest,
          e.1 ≠ g.archivePath := by
        intro e he g hg
        rcases List.mem_append.mp he with old | last
        · exact new e old g (List.mem_cons_of_mem _ hg)
        · obtain rfl := List.mem_singleton.mp last
          exact first g hg
      have tail := ih (fun g hg => accepted g (List.mem_cons_of_mem _ hg)) later after
      have path : decodeLowerHex f.manifestFile.pathHex = some f.archivePath :=
        decodeLowerHex_encodeLowerHex _
      have hash : decodeLowerHex f.manifestFile.sha256 = some (sha256 content) := by
        show decodeLowerHex f.sha256 = _
        rw [digested, decodeLowerHex_encodeLowerHex]
      rw [List.map_cons]
      unfold expectedLoop
      rw [path, hash]
      simp only [required_some, ok_bind, ensure_of valid,
        ensure_of (And.intro (digest content) (And.intro isAcceptable fresh)), tail]
      simp [expectation]

theorem Listing.expectedFiles (listing : Listing sha256 i files)
    (digest : ∀ c, (sha256 c).length = 32) :
    expectedFiles sha256 (manifestOf files) = .ok (expectation files) := by
  have looped := (@expectedLoop_of _ _ []) digest (fun f => listing.accepted) listing.distinct
    nofun
  have found : ∀ {path}, (∃ f ∈ files, f.archivePath = path) →
      ((expectation files).lookup path).isSome = true := by
    rintro path ⟨f, member, rfl⟩
    rw [Option.isSome_iff_ne_none, ne_eq, lookup_eq_none]
    intro absent
    exact absent (f.archivePath, f.manifestFile) (List.mem_map.mpr ⟨f, member, rfl⟩) rfl
  unfold Backup.expectedFiles
  show (expectedLoop sha256 (files.map ArchivedFile.manifestFile) [] >>= _) = _
  rw [looped]
  simp [ensure_of (found listing.config), ensure_of (found listing.database)]

end Manifest

/-! ## The entries are accepted -/

section Entries

variable {i : Instance} {files : List ArchivedFile}

theorem withoutManifest_archiveOf (files : List ArchivedFile) :
    withoutManifest (archiveOf files) = files.map ArchivedFile.entry := by
  unfold archiveOf withoutManifest
  exact if_pos rfl

theorem Listing.content (listing : Listing sha256 i files) {f : ArchivedFile} (member : f ∈ files) :
    f.content.length = f.bytes ∧ encodeLowerHex (sha256 f.content) = f.sha256 := by
  obtain ⟨q, n, -, -, rfl⟩ := (listing.listed f).mp member
  cases n <;> exact ⟨rfl, rfl⟩

theorem Listing.lookup (listing : Listing sha256 i files) {f : ArchivedFile} (member : f ∈ files) :
    (expectation files).lookup f.archivePath = some f.manifestFile := by
  refine (lookup_eq_some (List.pairwise_map.mpr listing.distinct)).mpr ?_
  exact List.mem_map.mpr ⟨f, member, rfl⟩

theorem Listing.verifyEntries (listing : Listing sha256 i files) {rest : List ArchivedFile}
    {seen : List Bytes} (within : rest ⊆ files)
    (distinct : rest.Pairwise fun f g => f.archivePath ≠ g.archivePath)
    (new : ∀ f ∈ rest, f.archivePath ∉ seen) :
    ∃ all, verifyEntries sha256 (expectation files) seen (rest.map ArchivedFile.entry) = .ok all ∧
      all.length = rest.length + seen.length := by
  induction rest generalizing seen with
  | nil => exact ⟨seen, rfl, (Nat.zero_add _).symm⟩
  | cons f rest ih =>
      have member : f ∈ files := within List.mem_cons_self
      obtain ⟨first, later⟩ := List.pairwise_cons.mp distinct
      have after : ∀ g ∈ rest, g.archivePath ∉ f.archivePath :: seen := by
        intro g hg seenIt
        rcases List.mem_cons.mp seenIt with same | old
        · exact first g hg same.symm
        · exact new g (List.mem_cons_of_mem _ hg) old
      obtain ⟨all, verified, counted⟩ :=
        ih (fun g hg => within (List.mem_cons_of_mem _ hg)) later after
      refine ⟨all, ?_, by rw [counted, List.length_cons, List.length_cons]; omega⟩
      have kind : f.entry.entryType.kind = some f.manifestFile.kind := by
        show f.kind.entryType.kind = some f.kind.asStr
        cases f.kind <;> rfl
      have checks : f.entry.path ∉ seen ∧ f.entry.size = f.manifestFile.bytes ∧ True :=
        ⟨new f List.mem_cons_self, rfl, ⟨⟩⟩
      have content : f.entry.content.length = f.manifestFile.bytes ∧
          encodeLowerHex (sha256 f.entry.content) = f.manifestFile.sha256 := listing.content member
      have known : (expectation files).lookup f.entry.path = some f.manifestFile :=
        listing.lookup member
      rw [List.map_cons]
      unfold Backup.verifyEntries
      rw [kind, known]
      simp only [required_some, ok_bind, ensure_of checks, ensure_of content]
      exact verified

theorem Listing.verifyArchive (listing : Listing sha256 i files) :
    verifyArchive sha256 (archiveOf files) (expectation files) = .ok () := by
  obtain ⟨all, verified, counted⟩ :=
    (@Listing.verifyEntries _ _ _ listing _ []) (List.Subset.refl _) listing.distinct
      fun _ _ => List.not_mem_nil
  have complete : all.length = (expectation files).length := by
    rw [counted, expectation, List.length_map]
    rfl
  unfold Backup.verifyArchive
  rw [withoutManifest_archiveOf, verified]
  simp only [ok_bind, ensure_of complete]

end Entries

/-! ## The entries are written -/

section Write

variable {t : Target} {place : List Bytes}

theorem place_split (below : place ≠ []) :
    place.dropLast ++ [place.getLast?.getD []] = place := by
  rw [List.getLast?_eq_some_getLast below, Option.getD_some]
  exact List.dropLast_concat_getLast below

theorem createDirectory_of (valid : ValidPlace place)
    (inside : t.node place.dropLast = some .directory) :
    ∃ t', createDirectory t (joinNames place) = (t', none) := by
  unfold createDirectory
  rw [valid.not_endsInDot, valid.names, valid.endsInName, if_neg Bool.false_ne_true]
  cases found : t.node (place.dropLast ++ [place.getLast?.getD []]) with
  | none =>
      obtain ⟨t', created, -⟩ := FileTree.create_of (n := .directory) inside found
      exact ⟨t', by rw [created]⟩
  | some n =>
      have occupied : t.node (place.dropLast ++ [place.getLast?.getD []]) ≠ none := by
        rw [found]
        exact nofun
      refine ⟨t, ?_⟩
      rw [FileTree.create_occupied inside occupied]
      exact if_pos (Or.inr rfl)

theorem createFile_of {content : Bytes} (valid : ValidPlace place)
    (inside : t.node place.dropLast = some .directory) (free : t.node place = none) :
    ∃ t', createFile t (joinNames place) content = (t', none) := by
  rw [← place_split valid.below] at free
  obtain ⟨t', created, -⟩ := FileTree.create_of (n := .file content) inside free
  refine ⟨t', ?_⟩
  unfold createFile
  rw [valid.endsInName, valid.names, if_pos rfl, created]

/-- An entry can be written when there is no file on the way to its place, and a file needs a
place where nothing is. -/
theorem writeEntry_of {n : Node Bytes} (valid : ValidPlace place)
    (way : ∀ q, q <+: place.dropLast → ∀ c, t.node q ≠ some (.file c))
    (free : n ≠ .directory → t.node place = none) :
    ∃ t', writeEntry sha256 t (archived sha256 place n).manifestFile
      (archived sha256 place n).entry = (t', none) := by
  obtain ⟨made, parent⟩ := FileTree.createParents_succeeds t [] place.dropLast t.root
    (by rw [List.nil_append]; exact way)
  have parents := FileTree.createParents_spec t [] place.dropLast
  rw [List.nil_append] at parent parents
  have path : (archived sha256 place n).entry.path = joinNames place := archived_path _ _
  unfold writeEntry
  rw [path, valid.noNull, valid.names, if_neg Bool.false_ne_true]
  generalize FileTree.createParents t [] place.dropLast = result at made parent parents
  obtain ⟨t₁, error⟩ := result
  cases made
  cases n with
  | directory => exact createDirectory_of valid parent
  | file content =>
      -- The parents that were made are shorter than the place.
      have free₁ : t₁.node place = none := by
        cases found : t₁.node place with
        | none => rfl
        | some m =>
            rcases parents.new place m found with old | ⟨-, way⟩
            · rw [free fun same => by cases same] at old
              cases old
            · have short := way.length_le
              have long := List.length_pos_of_ne_nil valid.below
              rw [List.length_dropLast] at short
              omega
      obtain ⟨t', created⟩ := (@createFile_of _ _ content) valid parent free₁
      refine ⟨t', ?_⟩
      have isFile : ¬(archived sha256 place (.file content)).manifestFile.kind = "directory" := by
        show ¬"file" = "directory"
        decide
      have written : createFile t₁ (joinNames place)
          (archived sha256 place (.file content)).entry.content = (t', none) := created
      simp only [if_neg isFile, written]
      exact if_pos ⟨rfl, rfl⟩

end Write

section Loop

variable {i : Instance} {files done rest : List ArchivedFile} {t : Target}

/-- Another node on the way to a node is a directory. -/
theorem Instance.way_directory {q q' : List Bytes} {n : Node Bytes}
    (found : i.snapshot.node q = some n) (way : q' <+: q) (other : q' ≠ q) :
    i.snapshot.node q' = some .directory := by
  obtain ⟨rest, rfl⟩ := way
  refine Source.node_prefix found ?_
  rintro rfl
  exact other (List.append_nil _).symm

theorem archived_entryType {place : List Bytes} {n : Node Bytes} :
    (archived sha256 place n).entry.entryType = .regular ↔
      ∃ content, n = .file content ∧ (archived sha256 place n).entry.content = content := by
  cases n with
  | file content => exact ⟨fun _ => ⟨content, rfl, rfl⟩, fun _ => rfl⟩
  | directory => exact ⟨nofun, nofun⟩

/-- An entry that was written is a node of the snapshot. -/
theorem Listing.behind (listing : Listing sha256 i files) (within : done ⊆ files) {e : Entry}
    (member : e ∈ done.map ArchivedFile.entry) :
    ∃ q n, archived sha256 q n ∈ done ∧ i.snapshot.node q = some n ∧ ValidPlace q ∧
      e = (archived sha256 q n).entry ∧ names e.path = q := by
  obtain ⟨f, hf, rfl⟩ := List.mem_map.mp member
  obtain ⟨q, n, below, found, rfl⟩ := (listing.listed f).mp (within hf)
  have valid := i.validPlace found below
  refine ⟨q, n, hf, found, valid, rfl, ?_⟩
  show names (archived sha256 q n).archivePath = q
  rw [archived_path, valid.names]

theorem Listing.writeEntry (listing : Listing sha256 i files) (within : done ⊆ files)
    (extracted : Extracted sha256 (expectation files) (done.map ArchivedFile.entry) t)
    {f : ArchivedFile} (member : f ∈ files) (new : ∀ g ∈ done, g.archivePath ≠ f.archivePath) :
    ∃ t', writeEntry sha256 t f.manifestFile f.entry = (t', none) := by
  obtain ⟨place, n, below, found, rfl⟩ := (listing.listed f).mp member
  have valid := i.validPlace found below
  -- What lies in a place that was written is what the snapshot has there.
  have snapshot : ∀ q c, t.node q = some (.file c) →
      i.snapshot.node q = some (.file c) ∧ q ≠ place := by
    intro q c there
    obtain ⟨e, he, regular, at_, content⟩ := (extracted.files q c).mp there
    obtain ⟨q', m, written, found', -, rfl, named⟩ := listing.behind within he
    obtain rfl := named.symm.trans at_
    obtain ⟨content', rfl, same⟩ := archived_entryType.mp regular
    rw [← content, same]
    refine ⟨found', ?_⟩
    rintro rfl
    refine new _ written ?_
    rw [archived_path, archived_path]
  refine writeEntry_of valid (fun q way c there => ?_) fun isFile => ?_
  · have proper : q ≠ place := (snapshot q c there).2
    have directory := Instance.way_directory found (way.trans (List.dropLast_prefix _)) proper
    rw [(snapshot q c there).1] at directory
    cases directory
  · cases there : t.node place with
    | none => rfl
    | some m =>
        cases m with
        | file c => exact absurd rfl (snapshot place c there).2
        | directory =>
            rcases extracted.directories place there with root | ⟨e, he, way⟩
            · exact absurd root below
            · obtain ⟨q', m', written, found', -, rfl, named⟩ := listing.behind within he
              rw [named] at way
              have proper : place ≠ q' := by
                rintro rfl
                refine new _ written ?_
                rw [archived_path, archived_path]
              have directory := Instance.way_directory found' way proper
              rw [found] at directory
              exact absurd (Option.some.inj directory) isFile

/-- **Every entry of an archive that was made is written.** -/
theorem Listing.extractEntries (listing : Listing sha256 i files)
    (expects : Expects sha256 (manifestOf files).files (expectation files))
    (before : done ⊆ files) (within : rest ⊆ files)
    (distinct : rest.Pairwise fun f g => f.archivePath ≠ g.archivePath)
    (new : ∀ g ∈ done, ∀ f ∈ rest, g.archivePath ≠ f.archivePath)
    (extracted : Extracted sha256 (expectation files) (done.map ArchivedFile.entry) t) :
    ∃ t' seen, extractEntries sha256 (fun _ => false) (expectation files) t
      ((done.map ArchivedFile.entry).map fun e => components e.path)
      (rest.map ArchivedFile.entry) = (t', .ok seen) := by
  induction rest generalizing done t with
  | nil => exact ⟨t, _, rfl⟩
  | cons f rest ih =>
      have member : f ∈ files := within List.mem_cons_self
      obtain ⟨first, later⟩ := List.pairwise_cons.mp distinct
      have fresh : ∀ g ∈ done, g.archivePath ≠ f.archivePath :=
        fun g hg => new g hg f List.mem_cons_self
      have admits : admitEntry (expectation files)
          ((done.map ArchivedFile.entry).map fun e => components e.path) f.entry =
            .ok f.manifestFile := by
        refine admitEntry_eq_ok.mpr ⟨listing.lookup member, ?_, ?_, rfl⟩
        · intro seen
          obtain ⟨e, he, same⟩ := List.mem_map.mp seen
          obtain ⟨q, n, written, found, valid, rfl, named⟩ := listing.behind before he
          obtain ⟨place, m, below, found', rfl⟩ := (listing.listed f).mp member
          have valid' := i.validPlace found' below
          have paths : components (joinNames q) = components (joinNames place) := by
            rw [← (@archived_path sha256) q n, ← (@archived_path sha256) place m]
            exact same
          have places := (components_injective valid.accepted valid'.accepted).mp paths
          rw [valid.names, valid'.names] at places
          refine fresh _ written ?_
          rw [archived_path, archived_path, places]
        · show f.kind.entryType = if f.kind.asStr = "directory" then _ else _
          cases f.kind <;> rfl
      obtain ⟨t₁, wrote⟩ := listing.writeEntry before extracted member fresh
      have after : Extracted sha256 (expectation files) ((f :: done).map ArchivedFile.entry) t₁ :=
        extracted.next expects admits wrote
      have new' : ∀ g ∈ f :: done, ∀ h ∈ rest, g.archivePath ≠ h.archivePath := by
        intro g hg h hh
        rcases List.mem_cons.mp hg with rfl | old
        · exact first h hh
        · exact new g old h (List.mem_cons_of_mem _ hh)
      obtain ⟨t', seen, ran⟩ := ih (List.cons_subset.mpr ⟨member, before⟩)
        (fun g hg => within (List.mem_cons_of_mem _ hg)) later new' after
      refine ⟨t', seen, ?_⟩
      rw [List.map_cons]
      unfold Backup.extractEntries
      simp only [admits, wrote, Bool.false_eq_true, if_false]
      exact ran

/-- What was written whole is the snapshot. -/
theorem Listing.restores (listing : Listing sha256 i files)
    (extracted : Extracted sha256 (expectation files)
      (files.reverse.map ArchivedFile.entry) t) (place : List Bytes) :
    t.node place = i.snapshot.node place := by
  have within : files.reverse ⊆ files := fun f => List.mem_reverse.mp
  refine Option.ext fun n => ?_
  constructor
  · intro there
    cases n with
    | file c =>
        obtain ⟨e, he, regular, at_, content⟩ := (extracted.files place c).mp there
        obtain ⟨q, m, -, found, -, rfl, named⟩ := listing.behind within he
        obtain rfl := named.symm.trans at_
        obtain ⟨content', rfl, same⟩ := archived_entryType.mp regular
        rw [← content, same, found]
    | directory =>
        rcases extracted.directories place there with rfl | ⟨e, he, way⟩
        · rfl
        · obtain ⟨q, m, written, found, -, rfl, named⟩ := listing.behind within he
          rw [named] at way
          by_cases here : place = q
          · subst here
            cases m with
            | directory => exact found
            | file c =>
                -- There would be a file in the place.
                have file := (extracted.files place c).mpr ⟨_, he, rfl, named, rfl⟩
                rw [there] at file
                cases file
          · exact Instance.way_directory found way here
  · intro found
    by_cases below : place = []
    · subst below
      cases found
      exact t.root
    · have valid := i.validPlace found below
      have listed : archived sha256 place n ∈ files :=
        (listing.listed _).mpr ⟨place, n, below, found, rfl⟩
      have member : (archived sha256 place n).entry ∈ files.reverse.map ArchivedFile.entry :=
        List.mem_map.mpr ⟨_, List.mem_reverse.mpr listed, rfl⟩
      have named : names (archived sha256 place n).entry.path = place := by
        show names (archived sha256 place n).archivePath = place
        rw [archived_path, valid.names]
      cases n with
      | file c => exact (extracted.files place c).mpr ⟨_, member, rfl, named, rfl⟩
      | directory =>
          have made := extracted.made _ member rfl
          rwa [named] at made

theorem Listing.extractArchive (listing : Listing sha256 i files)
    (expects : Expects sha256 (manifestOf files).files (expectation files)) :
    ∃ t, extractArchive sha256 (fun _ => false) (archiveOf files) .empty (expectation files) =
        (t, none) ∧ ∀ place, t.node place = i.snapshot.node place := by
  obtain ⟨t, seen, ran⟩ := (@Listing.extractEntries _ _ _ [] _ _ listing) expects (List.nil_subset _)
    (List.Subset.refl _) listing.distinct nofun (extracted_empty _)
  obtain ⟨extracted, counted⟩ := extractEntries_extracted expects
    ((@extracted_empty sha256) (expectation files)) ran
  rw [List.append_nil, ← List.map_reverse] at extracted
  have complete : seen.length = (expectation files).length := by
    rw [counted, expectation, List.length_map, List.length_map]
    rfl
  refine ⟨t, ?_, listing.restores extracted⟩
  unfold Backup.extractArchive
  rw [withoutManifest_archiveOf]
  simp only [List.map_nil] at ran
  rw [ran]
  exact if_pos complete

end Loop

/-! ## The size of the manifest -/

section Size

/-- What a node of the snapshot takes in the manifest. -/
def manifestBytes (place : List Bytes) : Node Bytes → Nat
  | .file content => 157 + 2 * (joinNames place).length + (toString content.length).length
  | .directory => 163 + 2 * (joinNames place).length

/-- The size of the manifest of a snapshot. -/
def Instance.manifestBytes (i : Instance) : Nat :=
  85 + ((i.entries.nodes []).map fun e => Backup.manifestBytes e.1 e.2).sum

theorem length_text (s : String) : (text s).length = s.length := by
  rw [text, List.length_map, String.length_toList]

open Pretty in
theorem length_toVecPretty (file : ManifestFile) :
    file.toVecPretty.length = 83 + file.pathHex.length + (toString file.bytes).length +
      file.sha256.length + file.kind.length := by
  have path : (text "path_hex").length = 8 := rfl
  have bytes : (text "bytes").length = 5 := rfl
  have hash : (text "sha256").length = 6 := rfl
  have kind : (text "kind").length = 4 := rfl
  unfold ManifestFile.toVecPretty object block member Pretty.string number spaces
  simp only [List.length_append, List.length_cons, List.length_nil, List.length_replicate,
    List.flatMap_cons, List.flatMap_nil, path, bytes, hash, kind, length_text]
  omega

theorem length_manifestFile (digest : ∀ c, (sha256 c).length = 32) (place : List Bytes)
    (n : Node Bytes) : (archived sha256 place n).manifestFile.toVecPretty.length + 6 =
      manifestBytes place n := by
  have file : ArchiveKind.file.asStr.length = 4 := rfl
  have directory : ArchiveKind.directory.asStr.length = 9 := rfl
  have zero : (toString 0).length = 1 := rfl
  rw [length_toVecPretty]
  cases n with
  | file content =>
      simp only [archived, ArchivedFile.manifestFile, manifestBytes, length_encodeLowerHex, digest,
        file]
      omega
  | directory =>
      simp only [archived, archivedDirectory, ArchivedFile.manifestFile, manifestBytes,
        length_encodeLowerHex, digest, directory, zero]
      omega

open Pretty in
theorem length_array (first : Bytes) (items : List Bytes) :
    (array 2 (first :: items)).length = 4 + ((first :: items).map fun i => i.length + 6).sum := by
  have tail : (items.flatMap fun item => 44 :: 10 :: spaces 4 ++ item).length =
      (items.map fun i => i.length + 6).sum := by
    induction items with
    | nil => rfl
    | cons item rest ih =>
        rw [List.flatMap_cons, List.length_append, ih, List.map_cons, List.sum_cons]
        simp only [List.cons_append, List.length_cons, List.length_append, spaces,
          List.length_replicate]
        omega
  unfold array block
  simp only [List.length_append, List.length_cons, List.length_nil, spaces,
    List.length_replicate, List.cons_append] at tail ⊢
  rw [List.map_cons, List.sum_cons, tail]
  omega

open Pretty in
theorem length_manifest (files : List ArchivedFile) (some : files ≠ []) :
    (manifestOf files).toVecPretty.length =
      85 + (files.map fun f => f.manifestFile.toVecPretty.length + 6).sum := by
  cases files with
  | nil => exact absurd rfl some
  | cons first rest =>
      have items := length_array first.manifestFile.toVecPretty
        (rest.map fun f => f.manifestFile.toVecPretty)
      have version : (text "version").length = 7 := rfl
      have key : (text "warning").length = 7 := rfl
      have files : (text "files").length = 5 := rfl
      have value : (text warning).length = 33 := rfl
      have number : (number formatVersion).length = 1 := rfl
      unfold BackupManifest.toVecPretty object block member Pretty.string
      simp only [manifestOf, List.map_cons, List.map_map, Function.comp_def] at items ⊢
      simp only [List.length_append, List.length_cons, List.length_nil, List.length_replicate,
        List.flatMap_cons, List.flatMap_nil, spaces, version, key, files, value, number, items,
        List.sum_cons]
      omega

theorem archivedFiles_manifestBytes {i : Instance} {files : List ArchivedFile}
    (ok : archivedFiles sha256 i = .ok files) (digest : ∀ c, (sha256 c).length = 32) :
    (manifestOf files).toVecPretty.length = i.manifestBytes := by
  have some : files ≠ [] := by
    obtain ⟨f, member, -⟩ := (archivedFiles_listing ok).config
    exact List.ne_nil_of_mem member
  have sizes := ((archivedFiles_perm ok).map
    fun f => f.manifestFile.toVecPretty.length + 6).sum_nat
  rw [length_manifest files some, sizes, List.map_map]
  unfold Instance.manifestBytes
  simp only [Function.comp_def, length_manifestFile digest]

end Size

/-! ## Backups and the limit of the reader -/

/-- The archive passes the check and is extracted to what the backup was taken of. -/
structure RoundTrips (sha256 : Bytes → Bytes) (parse : Bytes → Option BackupManifest)
    (i : Instance) (archive : List Entry) : Prop where
  checked : checkArchive sha256 parse archive = .ok ()
  restored : ∃ manifest expected t, readManifest parse archive = .ok manifest ∧
    expectedFiles sha256 manifest = .ok expected ∧
    extractArchive sha256 (fun _ => false) archive .empty expected = (t, none) ∧
    ∀ place, t.node place = i.snapshot.node place

section Main

variable {parse : Bytes → Option BackupManifest} {i : Instance} {files : List ArchivedFile}

/-- What the reader asks of the first entry. -/
theorem manifestEntry_header (manifestBytes : Bytes) :
    (manifestEntry manifestBytes).path = manifestPath ∧
      (manifestEntry manifestBytes).entryType = .regular ∧
      (manifestEntry manifestBytes).size ≤ maxManifestBytes ↔
        manifestBytes.length ≤ maxManifestBytes :=
  ⟨fun all => all.2.2, fun small => ⟨rfl, rfl, small⟩⟩

theorem readManifest_small
    (parses : parse (manifestOf files).toVecPretty = some (manifestOf files))
    (small : (manifestOf files).toVecPretty.length ≤ maxManifestBytes) :
    readManifest parse (archiveOf files) = .ok (manifestOf files) := by
  have first : (archiveOf files).head? = some (manifestEntry (manifestOf files).toVecPretty) := rfl
  have content : (manifestEntry (manifestOf files).toVecPretty).content =
    (manifestOf files).toVecPretty := rfl
  have version : (manifestOf files).version = formatVersion ∧
    (manifestOf files).warning = warning := ⟨rfl, rfl⟩
  unfold readManifest
  rw [first, required_some, ok_bind, content, parses]
  simp only [ensure_of ((manifestEntry_header _).mpr small), required_some, ok_bind,
    ensure_of version, pure_eq_ok]

theorem readManifest_large (large : ¬(manifestOf files).toVecPretty.length ≤ maxManifestBytes) :
    readManifest parse (archiveOf files) = .error .missingManifest := by
  have first : (archiveOf files).head? = some (manifestEntry (manifestOf files).toVecPretty) := rfl
  unfold readManifest
  rw [first, required_some, ok_bind, ensure_of_not (mt (manifestEntry_header _).mp large),
    error_bind]

theorem Listing.roundTrips (listing : Listing sha256 i files)
    (digest : ∀ c, (sha256 c).length = 32)
    (reads : readManifest parse (archiveOf files) = .ok (manifestOf files)) :
    RoundTrips sha256 parse i (archiveOf files) := by
  have expected := listing.expectedFiles digest
  obtain ⟨t, extracted, same⟩ := listing.extractArchive (expectedFiles_expects expected)
  refine ⟨?_, _, _, t, reads, expected, extracted, same⟩
  unfold checkArchive
  rw [reads, ok_bind, expected, ok_bind, listing.verifyArchive]

/-- **A backup that was made can be checked and restored exactly if its manifest fits into
the limit of the reader.** -/
theorem createArchive_roundTrips_iff {archive : List Entry}
    (digest : ∀ c, (sha256 c).length = 32)
    (parses : ∀ files, archivedFiles sha256 i = .ok files →
      parse (manifestOf files).toVecPretty = some (manifestOf files))
    (created : createArchive sha256 i = .ok archive) :
    RoundTrips sha256 parse i archive ↔ i.manifestBytes ≤ maxManifestBytes := by
  unfold createArchive at created
  rw [bind_eq_ok] at created
  obtain ⟨files, listed, created⟩ := created
  cases created
  have listing := archivedFiles_listing listed
  rw [← archivedFiles_manifestBytes listed digest]
  constructor
  · rintro ⟨-, manifest, -, -, ok, -⟩
    by_contra large
    rw [readManifest_large large] at ok
    cases ok
  · intro small
    exact listing.roundTrips digest (readManifest_small (parses files listed) small)

/-! Pole: an instance with nothing in it is restored. -/

def bare : Instance where
  config := .file []
  database := []
  hostKey := none
  repositories := .directory .nil
  valid := ⟨⟨⟩, nofun, ⟨⟩⟩

def bareFiles : List ArchivedFile :=
  [archived (fun _ => emptyDigest) [configArchivePath] (.file []),
    archived (fun _ => emptyDigest) [repositoryDirectory] .directory,
    archived (fun _ => emptyDigest) [databaseArchivePath] (.file [])]

def parseBare (bytes : Bytes) : Option BackupManifest :=
  if bytes = (manifestOf bareFiles).toVecPretty then some (manifestOf bareFiles) else none

theorem bare_roundTrips :
    RoundTrips (fun _ => emptyDigest) parseBare bare (archiveOf bareFiles) ↔
      bare.manifestBytes ≤ maxManifestBytes := by
  have listed : archivedFiles (fun _ => emptyDigest) bare = .ok bareFiles := by decide +kernel
  refine createArchive_roundTrips_iff (fun _ => rfl) (fun files ok => ?_) ?_
  · rw [listed] at ok
    cases ok
    exact if_pos rfl
  · unfold createArchive
    rw [listed]
    rfl

end Main

/-! ## Backups that succeed -/

mutual

/-- There is nothing but files and directories. -/
def Source.Plain : Source → Prop
  | .file _ => True
  | .directory entries => entries.Plain
  | .other => False

def Entries.Plain : Entries → Prop
  | .nil => True
  | .cons _ source rest => source.Plain ∧ rest.Plain

end

theorem addFile_of {content : Bytes} {place : List Bytes} (valid : ValidPlace place) :
    ∃ file, addFile sha256 (.file content) (joinNames place) = .ok file := by
  unfold addFile
  rw [ensure_of valid.accepted]
  exact ⟨_, rfl⟩

theorem collectEntries_of : ∀ {entries : Entries} {place : List Bytes}, entries.Valid →
    entries.Plain → ValidPlace place →
    ∃ files, collectEntries sha256 entries (joinNames place) = .ok files
  | .nil, _, _, _, _ => ⟨[], rfl⟩
  | .cons name source rest, place, valid, plain, validPlace => by
      obtain ⟨validName, validSource, -, validRest⟩ := valid
      obtain ⟨plainSource, plainRest⟩ := plain
      have child : ValidPlace (place ++ [name]) := by
        refine ⟨by simp, fun part member => ?_⟩
        rcases List.mem_append.mp member with old | last
        · exact validPlace.name part old
        · obtain rfl := List.mem_singleton.mp last
          exact validName
      obtain ⟨later, others⟩ := collectEntries_of validRest plainRest validPlace
      unfold collectEntries
      rw [joinPath_joinNames name validPlace.below, others]
      cases source with
      | other => exact plainSource.elim
      | file content =>
          obtain ⟨file, added⟩ := (@addFile_of sha256 content) child
          exact ⟨[file] ++ later, by simp only [added, Except.map, ok_bind]; rfl⟩
      | directory entries =>
          obtain ⟨below, collected⟩ := @collectEntries_of entries _ validSource
            plainSource child
          refine ⟨archivedDirectory sha256 (joinNames (place ++ [name])) :: below ++ later, ?_⟩
          simp only [collectRepositoryFiles, collected, ok_bind, pure_eq_ok]

theorem ValidName.place {name : Bytes} (valid : ValidName name) : ValidPlace [name] :=
  ⟨List.cons_ne_nil _ _, fun part member => by rwa [List.mem_singleton.mp member]⟩

/-- **A backup of files and directories succeeds.** -/
theorem createArchive_of {i : Instance} {content : Bytes} {entries : Entries}
    (config : i.config = .file content) (hostKey : ∀ key ∈ i.hostKey, ∃ c, key = .file c)
    (repositories : i.repositories = .directory entries) (plain : entries.Plain) :
    ∃ files, archivedFiles sha256 i = .ok files := by
  have known : ValidName configArchivePath ∧ ValidName repositoryDirectory ∧
      ValidName hostKeyFile ∧ ValidName databaseArchivePath := by
    simpa using validName_known
  obtain ⟨validConfig, validRepositories, validKey, validDatabase⟩ := known
  have valid : entries.Valid := by
    have all := i.valid.2.2
    rwa [repositories] at all
  obtain ⟨configFile, addedConfig⟩ := (@addFile_of sha256 content)
    validConfig.place
  obtain ⟨databaseFile, addedDatabase⟩ := (@addFile_of sha256 i.database)
    validDatabase.place
  obtain ⟨below, collected⟩ := (@collectEntries_of sha256) valid plain
    validRepositories.place
  have key : ∃ files, collectHostKey sha256 i.hostKey = .ok files := by
    cases found : i.hostKey with
    | none => exact ⟨[], rfl⟩
    | some key =>
        obtain ⟨c, rfl⟩ := hostKey key found
        obtain ⟨keyFile, addedKey⟩ := (@addFile_of sha256 c) validKey.place
        rw [joinNames_singleton] at addedKey
        exact ⟨[keyFile], by rw [collectHostKey, addedKey]; rfl⟩
  obtain ⟨keyFiles, addedKey⟩ := key
  rw [joinNames_singleton] at addedConfig addedDatabase collected
  unfold archivedFiles
  rw [config, repositories, addedConfig, addedDatabase, addedKey]
  unfold collectRepositoryFiles
  rw [collected]
  exact ⟨_, rfl⟩

/-! ## A backup that cannot be restored -/

/-- Directories with two entries, so many levels deep, over empty files. -/
def full : Nat → Source
  | 0 => .file []
  | levels + 1 => .directory (.cons [48] (full levels) (.cons [49] (full levels) .nil))

theorem full_valid (levels : Nat) : (full levels).Valid := by
  induction levels with
  | zero => exact ⟨⟩
  | succ levels ih =>
      have digit (b : UInt8) (known : b = 48 ∨ b = 49) : ValidName [b] := by
        rcases known with rfl | rfl <;>
          exact ⟨by decide, by decide, by decide, by decide, by decide⟩
      refine ⟨digit _ (Or.inl rfl), ih, ?_, digit _ (Or.inr rfl), ih, nofun, ⟨⟩⟩
      intro later member
      obtain rfl := List.mem_singleton.mp member
      decide

theorem full_plain (levels : Nat) : (full levels).Plain := by
  induction levels with
  | zero => exact ⟨⟩
  | succ levels ih => exact ⟨ih, ih, ⟨⟩⟩

/-- Each file takes at least this much of the manifest. -/
theorem full_manifestBytes (levels : Nat) (place : List Bytes) :
    2 ^ levels * 157 ≤
      (((full levels).nodes place).map fun e => manifestBytes e.1 e.2).sum := by
  induction levels generalizing place with
  | zero =>
      simp only [full, Source.nodes, List.map_cons, List.map_nil, List.sum_cons, List.sum_nil,
        manifestBytes]
      omega
  | succ levels ih =>
      have zero := ih (place ++ [[48]])
      have one := ih (place ++ [[49]])
      simp only [full, Source.nodes, Entries.nodes, List.map_cons, List.map_append, List.append_nil,
        List.sum_cons, List.sum_append]
      rw [Nat.pow_succ]
      omega

/-- An instance with as many files in its repositories. -/
def crowded (levels : Nat) : Instance where
  config := .file []
  database := []
  hostKey := none
  repositories := full (levels + 1)
  valid := ⟨⟨⟩, nofun, full_valid (levels + 1)⟩

theorem crowded_manifestBytes (levels : Nat) :
    2 ^ (levels + 1) * 157 ≤ (crowded levels).manifestBytes := by
  have files := full_manifestBytes (levels + 1) [repositoryDirectory]
  unfold Instance.manifestBytes Instance.entries
  simp only [crowded, Entries.nodes, List.map_append, List.sum_append, List.nil_append]
  omega

/-- A backup succeeds at every number of levels, and its archive is refused from some on. -/
theorem crowded_large {levels : Nat} (many : maxManifestBytes < 2 ^ (levels + 1) * 157) :
    ∃ archive, createArchive (fun _ => emptyDigest) (crowded levels) = .ok archive ∧
      ∀ parse, checkArchive (fun _ => emptyDigest) parse archive = .error .missingManifest := by
  obtain ⟨files, listed⟩ :=
    (@createArchive_of (fun _ => emptyDigest) (crowded levels)) rfl nofun rfl (full_plain (levels + 1))
  have size := archivedFiles_manifestBytes listed (fun _ => rfl)
  have large : ¬(manifestOf files).toVecPretty.length ≤ maxManifestBytes := by
    have bytes := crowded_manifestBytes levels
    omega
  refine ⟨archiveOf files, ?_, fun parse => ?_⟩
  · unfold createArchive
    rw [listed]
    rfl
  · unfold checkArchive
    rw [readManifest_large large]
    rfl

/-- 2^17 files are too many. -/
theorem crowded_refused :
    ∃ archive, createArchive (fun _ => emptyDigest) (crowded 16) = .ok archive ∧
      ∀ parse, checkArchive (fun _ => emptyDigest) parse archive = .error .missingManifest :=
  crowded_large (by decide)

end Tit.Backup
