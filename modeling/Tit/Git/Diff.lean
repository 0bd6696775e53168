/-
# Git.Diff -- what a comparison lists

The files of a diff are at different paths, and each has the data of both of its versions and,
when it is not binary, the hunks that the library makes of them.
-/
import Tit.Git.Read
import Mathlib.Data.List.Dedup

namespace Tit.Git

open Tit.Theory Tit.Store

set_option autoImplicit false

variable {limits : ReadLimits} {objects : Objects} {gix : Gix}

/-- The versions of a file, with their data. -/
structure Versions (limits : ReadLimits) (objects : Objects) where
  old : Option TreeFile
  new : Option TreeFile
  oldData : Bytes
  newData : Bytes
  readOld : diffBlob limits objects old = .ok oldData
  readNew : diffBlob limits objects new = .ok newData

/-- The entry of a diff for these versions. -/
def Versions.file (v : Versions limits objects) (gix : Gix) (path : GitPath) : DiffFile where
  path
  oldId := v.old.map (·.id)
  newId := v.new.map (·.id)
  oldMode := v.old.map (·.mode)
  newMode := v.new.map (·.mode)
  binary := isBinary v.old v.new v.oldData v.newData
  hunks := if isBinary v.old v.new v.oldData v.newData then []
    else unifiedDiff gix v.oldData v.newData
  oldData := v.old.map fun _ => v.oldData
  newData := v.new.map fun _ => v.newData

theorem readBlob_length {id : ObjectId} {data : Bytes} (ok : readBlob limits objects id = .ok data) :
    data.length ≤ limits.maxBlobBytes := by
  unfold readBlob at ok
  rw [bind_eq_ok] at ok
  obtain ⟨object, -, ok⟩ := ok
  cases object with
  | blob stored =>
      simp only [bind_eq_ok, ensure_eq_ok, pure_eq_ok, Except.ok.injEq] at ok
      obtain ⟨_, small, rfl⟩ := ok
      exact small
  | _ => cases ok

theorem diffBlob_length {file : Option TreeFile} {data : Bytes}
    (ok : diffBlob limits objects file = .ok data) : data.length ≤ limits.maxBlobBytes := by
  unfold diffBlob at ok
  split at ok
  · cases ok
    exact Nat.zero_le _
  · split at ok
    · cases ok
      exact Nat.zero_le _
    · exact readBlob_length ok

/-- A version that is not there has no data. -/
theorem diffBlob_none {data : Bytes} (ok : diffBlob limits objects none = .ok data) : data = [] := by
  cases ok
  rfl

theorem diffFile_eq_ok {path : GitPath} {old new : Option TreeFile} {bytes bytes' : Nat}
    {file : DiffFile}
    (ok : diffFile limits objects gix path old new bytes = .ok (file, bytes')) :
    ∃ v : Versions limits objects, v.old = old ∧ v.new = new ∧ file = v.file gix path := by
  unfold diffFile at ok
  simp only [bind_eq_ok, pure_eq_ok, Except.ok.injEq, Prod.mk.injEq] at ok
  obtain ⟨oldData, readOld, newData, readNew, _, -, _, -, _, -, rfl, -⟩ := ok
  exact ⟨⟨old, new, oldData, newData, readOld, readNew⟩, rfl, rfl, rfl⟩

/-- Every file of a diff is at one of the paths, in the order of the paths. -/
theorem diffPaths_eq_ok {oldFiles newFiles : Files} {paths : List GitPath} {bytes : Nat}
    {files : List DiffFile}
    (ok : diffPaths limits objects gix oldFiles newFiles paths bytes = .ok files) :
    (files.map (·.path)).Sublist paths ∧
      ∀ file ∈ files, ∃ v : Versions limits objects, file = v.file gix file.path := by
  induction paths generalizing bytes files with
  | nil =>
      cases ok
      exact ⟨List.Sublist.refl _, nofun⟩
  | cons path rest ih =>
      unfold diffPaths at ok
      simp only at ok
      split at ok
      · obtain ⟨sublist, all⟩ := ih ok
        exact ⟨sublist.cons _, all⟩
      · simp only [bind_eq_ok, pure_eq_ok, Except.ok.injEq] at ok
        obtain ⟨⟨file, bytes'⟩, turned, later, looped, rfl⟩ := ok
        obtain ⟨sublist, all⟩ := ih looped
        obtain ⟨v, -, -, rfl⟩ := diffFile_eq_ok turned
        refine ⟨sublist.cons_cons path, fun g member => ?_⟩
        rcases List.mem_cons.mp member with rfl | old
        · exact ⟨v, rfl⟩
        · exact all g old

/-- A file is listed with the versions of the two trees, and a path without a file has the same
version in both. -/
theorem diffPaths_versions {oldFiles newFiles : Files} {paths : List GitPath} {bytes : Nat}
    {files : List DiffFile}
    (ok : diffPaths limits objects gix oldFiles newFiles paths bytes = .ok files) :
    (∀ file ∈ files, ∃ v : Versions limits objects, v.old = oldFiles.lookup file.path ∧
      v.new = newFiles.lookup file.path ∧ v.old ≠ v.new ∧ file = v.file gix file.path) ∧
    ∀ path ∈ paths, path ∉ files.map (·.path) → oldFiles.lookup path = newFiles.lookup path := by
  induction paths generalizing bytes files with
  | nil =>
      cases ok
      exact ⟨nofun, nofun⟩
  | cons path rest ih =>
      unfold diffPaths at ok
      simp only at ok
      split at ok
      · rename_i same
        obtain ⟨listed, unlisted⟩ := ih ok
        refine ⟨listed, fun p member absent => ?_⟩
        rcases List.mem_cons.mp member with rfl | later
        · exact same
        · exact unlisted p later absent
      · rename_i differs
        simp only [bind_eq_ok, pure_eq_ok, Except.ok.injEq] at ok
        obtain ⟨⟨file, bytes'⟩, turned, later, looped, rfl⟩ := ok
        obtain ⟨listed, unlisted⟩ := ih looped
        obtain ⟨v, old, new, rfl⟩ := diffFile_eq_ok turned
        refine ⟨fun g member => ?_, fun p member absent => ?_⟩
        · rcases List.mem_cons.mp member with rfl | tail
          · exact ⟨v, old, new, by rw [old, new]; exact differs, rfl⟩
          · exact listed g tail
        · rw [List.map_cons, List.mem_cons, not_or] at absent
          rcases List.mem_cons.mp member with rfl | tail
          · exact absurd rfl absent.1
          · exact unlisted p tail absent.2

theorem allPaths_nodup (oldFiles newFiles : Files) : (allPaths oldFiles newFiles).Nodup :=
  (List.perm_insertionSort _ _).nodup_iff.mpr (List.nodup_dedup _)

/-- What a diff lists. -/
structure Lists (limits : ReadLimits) (objects : Objects) (gix : Gix) (files : List DiffFile) :
    Prop where
  distinct : (files.map (·.path)).Nodup
  versions : ∀ file ∈ files, ∃ v : Versions limits objects, file = v.file gix file.path

theorem diffTrees_lists {oldTree : Option ObjectId} {newTree : ObjectId} {files : List DiffFile}
    (ok : diffTrees limits objects gix oldTree newTree = .ok files) :
    Lists limits objects gix files := by
  unfold diffTrees at ok
  cases oldTree with
  | none =>
      simp only [bind_eq_ok] at ok
      obtain ⟨oldFiles, -, newFiles, -, ok⟩ := ok
      obtain ⟨sublist, all⟩ := diffPaths_eq_ok ok
      exact ⟨sublist.nodup (allPaths_nodup _ _), all⟩
  | some tree =>
      simp only [bind_eq_ok] at ok
      obtain ⟨oldFiles, -, newFiles, -, ok⟩ := ok
      obtain ⟨sublist, all⟩ := diffPaths_eq_ok ok
      exact ⟨sublist.nodup (allPaths_nodup _ _), all⟩

theorem diffCommits_lists {oldCommit newCommit : ObjectId} {files : List DiffFile}
    (ok : diffCommits limits objects gix oldCommit newCommit = .ok files) :
    Lists limits objects gix files := by
  unfold diffCommits at ok
  simp only [bind_eq_ok] at ok
  obtain ⟨old, -, new, -, ok⟩ := ok
  exact diffTrees_lists ok

theorem comparison_lists {baseCommit headCommit : ObjectId} {c : Comparison}
    (ok : comparison limits objects gix baseCommit headCommit = .ok c) :
    Lists limits objects gix c.files := by
  unfold comparison at ok
  simp only [bind_eq_ok, pure_eq_ok] at ok
  obtain ⟨_, -, _, -, _, -, first, -, mergeBase, -, _, -, ok⟩ := ok
  cases mergeBase with
  | none =>
      simp only [bind_eq_ok, Except.ok.injEq] at ok
      obtain ⟨files, listed, _, -, rfl⟩ := ok
      exact diffTrees_lists listed
  | some mergeBase =>
      simp only [bind_eq_ok, Except.ok.injEq] at ok
      obtain ⟨files, listed, _, -, rfl⟩ := ok
      exact diffCommits_lists listed

/-- A path names one file of a diff. -/
theorem Lists.find {files : List DiffFile} (lists : Lists limits objects gix files)
    {file : DiffFile} (member : file ∈ files) :
    files.find? (fun f => decide (f.path = file.path)) = some file := by
  cases found : files.find? (fun f => decide (f.path = file.path)) with
  | none =>
      have absent := List.find?_eq_none.mp found file member
      simp at absent
  | some g =>
      have here : g ∈ files := List.mem_of_find?_eq_some found
      have same : g.path = file.path := by simpa using List.find?_some found
      rw [List.inj_on_of_nodup_map lists.distinct here member same]

end Tit.Git
