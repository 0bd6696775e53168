/-
# Migration.Runs -- a migration that is stopped anywhere

The process may stop and any statement may fail, and the database is opened and migrated again.
Only a commit changes the disk, and there are three of them (`Commits`): each takes the disk to one
from which a migration leads to the same contents as before (`Commits.migrate`).  What a point of
the program has in its transaction is said by `Inside`.

`migration_resumes` puts this together for every run.
-/
import Tit.Migration.Schema
import Tit.Theory.Run
import Mathlib.Logic.Relation
import Mathlib.Order.Basic
import Mathlib.Order.Nat
import Mathlib.Data.Nat.Init

namespace Tit.Migration

open Tit.Theory Tit.Store

set_option autoImplicit false

variable {Rest : Type} {setting : Setting Rest} {d d' : Disk Rest}

/-! ## Scripts in a row -/

theorem scripts_self (version : Nat) (d : Disk Rest) : scripts setting version version d = .ok d := by
  rw [scripts, Nat.sub_self]
  rfl

theorem scripts_succ {current last : Nat} (order : current ≤ last) :
    scripts setting current (last + 1) d =
      scripts setting current last d >>= fun applied => applyScript setting applied (last + 1) := by
  have more : last + 1 - current = (last - current) + 1 := by omega
  have there : current + 1 + (last - current) = last + 1 := by omega
  rw [scripts, scripts, more, List.range'_1_concat, List.foldlM_append, there]
  refine congrArg _ (funext fun applied => ?_)
  show applyScript setting applied (last + 1) >>= pure = _
  cases applyScript setting applied (last + 1) <;> rfl

/-- The versions behind one version, up to another, as they are written down. -/
def scriptsOf (current last : Nat) : List Applied :=
  (List.range' (current + 1) (last - current)).map .script

theorem applyScript_eq_ok {version : Nat} (ok : applyScript setting d version = .ok d') :
    d'.version = version ∧ d'.history = d.history ++ [.script version] := by
  obtain ⟨contents, -, done⟩ := bind_eq_ok.mp ok
  cases done
  exact ⟨rfl, rfl⟩

theorem scripts_eq_ok {current last : Nat} (order : current ≤ last) (at' : d.version = current)
    (ok : scripts setting current last d = .ok d') :
    d'.version = last ∧ d'.history = d.history ++ scriptsOf current last := by
  induction last, order using Nat.le_induction generalizing d' with
  | base =>
      rw [scripts_self] at ok
      cases ok
      refine ⟨at', ?_⟩
      rw [scriptsOf, Nat.sub_self]
      exact (List.append_nil _).symm
  | succ last order ih =>
      rw [scripts_succ order] at ok
      obtain ⟨between, before, after⟩ := bind_eq_ok.mp ok
      obtain ⟨-, history⟩ := ih before
      obtain ⟨version, history'⟩ := applyScript_eq_ok after
      refine ⟨version, ?_⟩
      have more : last + 1 - current = (last - current) + 1 := by omega
      have there : current + 1 + (last - current) = last + 1 := by omega
      rw [history', history, scriptsOf, scriptsOf, more, List.range'_1_concat, there, List.map_append,
        List.append_assoc]
      rfl

/-! ## The three commits -/

/-- A transaction of the migration has been committed. -/
inductive Commits (setting : Setting Rest) : Disk Rest → Disk Rest → Prop where
  | first {d d' : Disk Rest} (low : d.version < 24) (ran : first setting d = .ok d') :
      Commits setting d d'
  | second {d d' : Disk Rest} (low : d.version = 24) (ran : second setting d = .ok d') :
      Commits setting d d'
  | third {d d' : Disk Rest} (low : d.version = 25) (ran : scripts setting 25 26 d = .ok d') :
      Commits setting d d'

theorem backfill_eq_ok (ok : backfill setting d = .ok d') :
    d'.version = d.version ∧ d'.history = d.history ++ [.backfill] := by
  obtain ⟨contents, -, done⟩ := bind_eq_ok.mp ok
  cases done
  exact ⟨rfl, rfl⟩

theorem first_eq_ok (low : d.version < 24) (ok : first setting d = .ok d') :
    d'.version = 24 ∧ d'.history = d.history ++ scriptsOf d.version 24 ++
      if d.version < 23 then [.backfill] else [] := by
  obtain ⟨applied, ran, rest⟩ := bind_eq_ok.mp ok
  have ran : scripts setting d.version 24 d = .ok applied := ran
  obtain ⟨version, history⟩ := scripts_eq_ok low.le rfl ran
  by_cases early : d.version < 23
  · rw [if_pos early] at rest ⊢
    obtain ⟨version', history'⟩ := backfill_eq_ok rest
    exact ⟨version'.trans version, by rw [history', history]⟩
  · rw [if_neg early] at rest ⊢
    cases rest
    exact ⟨version, by rw [history, List.append_nil]⟩

theorem second_eq_ok (ok : second setting d = .ok d') :
    d'.version = 25 ∧ d'.history = d.history ++ [.script 25] := by
  obtain ⟨applied, ran, rest⟩ := bind_eq_ok.mp ok
  obtain ⟨contents, -, done⟩ := bind_eq_ok.mp ran
  obtain ⟨_, -, done'⟩ := bind_eq_ok.mp rest
  cases done
  cases done'
  exact ⟨rfl, rfl⟩

theorem migrate_low (low : d.version < 24) : migrate setting d =
    first setting d >>= fun d => second setting d >>= fun d => scripts setting d.version 26 d := by
  have small : ¬d.version > schemaVersion ∧ d.version ≠ schemaVersion ∧
      d.version < repositoryNamespaceVersion - 1 ∧ d.version < repositoryNamespaceVersion := by
    refine ⟨?_, ?_, low, ?_⟩ <;> simp only [schemaVersion, repositoryNamespaceVersion] <;> omega
  simp only [migrate, if_neg small.1, if_neg small.2.1, if_pos small.2.2.1, if_pos small.2.2.2]
  rfl

theorem migrate_namespaces (low : d.version = 24) : migrate setting d =
    second setting d >>= fun d => scripts setting d.version 26 d := by
  simp [migrate, low, schemaVersion, repositoryNamespaceVersion]

theorem migrate_last (low : d.version = 25) : migrate setting d = scripts setting 25 26 d := by
  simp [migrate, low, schemaVersion, repositoryNamespaceVersion]

theorem migrate_done (done : d.version = 26) : migrate setting d = .ok d := by
  simp [migrate, done, schemaVersion]

/-- **A commit loses nothing**: the migration goes on to where it would have gone. -/
theorem Commits.migrate (commits : Commits setting d d') :
    migrate setting d' = migrate setting d := by
  cases commits with
  | first low ran =>
      rw [migrate_low low, ran, ok_bind, migrate_namespaces (first_eq_ok low ran).1]
  | second low ran =>
      have there := (second_eq_ok ran).1
      rw [migrate_namespaces low, ran, ok_bind, migrate_last there, there]
  | third low ran =>
      rw [migrate_last low, ran, migrate_done (scripts_eq_ok (by decide) low ran).1]

/-! ## What has been applied -/

def Applied.version : Applied → Option Nat
  | .script version => some version
  | .backfill => none

/-- Each script behind the version that the database was found at has been applied once and in
order, and the default branches have been read once if it was below version 23. -/
structure Ledger (found : Nat) (d : Disk Rest) : Prop where
  scripts : d.history.filterMap Applied.version =
    List.range' (found + 1) (d.version - found)
  backfills : d.history.count .backfill = if found < 23 ∧ 24 ≤ d.version then 1 else 0
  version : d.version = found ∨ found < d.version ∧ 24 ≤ d.version ∧ d.version ≤ 26

theorem versions_scriptsOf (current last : Nat) :
    (scriptsOf current last).filterMap Applied.version =
      List.range' (current + 1) (last - current) := by
  rw [scriptsOf, List.filterMap_map]
  exact List.filterMap_some

theorem count_scriptsOf (current last : Nat) : (scriptsOf current last).count .backfill = 0 := by
  rw [List.count_eq_zero, scriptsOf]
  intro member
  obtain ⟨_, -, same⟩ := List.mem_map.mp member
  cases same

theorem versions_snoc {found version : Nat} (order : found ≤ version) :
    List.range' (found + 1) (version - found) ++ [version + 1] =
      List.range' (found + 1) (version + 1 - found) := by
  have more : version + 1 - found = (version - found) + 1 := by omega
  have there : found + 1 + (version - found) = version + 1 := by omega
  rw [more, List.range'_1_concat, there]

/-- A commit of one script. -/
theorem Ledger.snoc {found : Nat} (ledger : Ledger found d) (high : 24 ≤ d.version)
    (low : d.version < 26) (version : d'.version = d.version + 1)
    (history : d'.history = d.history ++ [.script (d.version + 1)]) : Ledger found d' := by
  have order : found ≤ d.version := by
    rcases ledger.version with same | ⟨below, -⟩ <;> omega
  refine ⟨?_, ?_, .inr (by omega)⟩
  · rw [history, List.filterMap_append, ledger.scripts, version, ← versions_snoc order]
    rfl
  · have early : (found < 23 ∧ 24 ≤ d'.version) ↔ found < 23 ∧ 24 ≤ d.version := by omega
    rw [history, List.count_append, ledger.backfills, if_congr early rfl rfl]
    rfl

theorem Commits.ledger {found : Nat} (commits : Commits setting d d') (ledger : Ledger found d) :
    Ledger found d' := by
  cases commits with
  | first low ran =>
      obtain ⟨version, history⟩ := first_eq_ok low ran
      have here : d.version = found := by
        rcases ledger.version with same | ⟨-, high, -⟩ <;> omega
      have before := ledger.scripts
      have none := ledger.backfills
      rw [here, Nat.sub_self, List.range'_zero] at before
      rw [here, if_neg (by omega)] at none
      refine ⟨?_, ?_, .inr (by omega)⟩
      · rw [history, List.filterMap_append, List.filterMap_append, before, versions_scriptsOf, here,
          version, List.nil_append]
        by_cases early : found < 23
        · rw [if_pos early]
          exact List.append_nil _
        · rw [if_neg early]
          exact List.append_nil _
      · rw [history, List.count_append, List.count_append, none, count_scriptsOf, here, version]
        by_cases early : found < 23
        · rw [if_pos early, if_pos ⟨early, le_rfl⟩]
          rfl
        · rw [if_neg early, if_neg fun both => early both.1]
          rfl
  | second low ran =>
      obtain ⟨version, history⟩ := second_eq_ok ran
      exact ledger.snoc low.ge (by omega) (by omega) (by rw [history, low])
  | third low ran =>
      obtain ⟨version, history⟩ := scripts_eq_ok (by decide) low ran
      refine ledger.snoc (by omega) (by omega) (by omega) ?_
      rw [history, low]
      rfl

/-! ## Inside the machine -/

/-- What the point of the program knows of the disk and of its transaction. -/
def Inside (setting : Setting Rest) (m : Machine Rest) : Prop :=
  match m.point with
  | .closed => True
  | .opened | .reading => m.foreignKeys = true
  | .first current next work =>
      m.foreignKeys = true ∧ current = m.disk.version ∧ current < 24 ∧ current < next ∧ next ≤ 25 ∧
        scripts setting current (next - 1) m.disk = .ok work
  | .backfilling work =>
      m.foreignKeys = true ∧ m.disk.version < 23 ∧
        scripts setting m.disk.version 24 m.disk = .ok work
  | .committingFirst work =>
      m.foreignKeys = true ∧ m.disk.version < 24 ∧ first setting m.disk = .ok work
  | .keysOff => m.foreignKeys = true ∧ m.disk.version = 24
  | .second work => m.disk.version = 24 ∧ work = m.disk
  | .verifying work => m.disk.version = 24 ∧ namespaceScript setting m.disk = .ok work
  | .committingSecond work => m.disk.version = 24 ∧ second setting m.disk = .ok work
  | .keysOn none => m.disk.version = 25
  | .keysOn (some _) => True
  | .rereading => m.foreignKeys = true ∧ m.disk.version = 25
  | .third next work =>
      m.foreignKeys = true ∧ m.disk.version = 25 ∧ 25 < next ∧ next ≤ 27 ∧
        scripts setting 25 (next - 1) m.disk = .ok work
  | .committingThird work =>
      m.foreignKeys = true ∧ m.disk.version = 25 ∧ scripts setting 25 26 m.disk = .ok work
  | .returned none => m.foreignKeys = true ∧ m.disk.version = 26
  | .returned (some _) => m.foreignKeys = true

section Steps

variable {m m' : Machine Rest}

theorem failAt_inside {error : MigrationError} (inside : Inside setting m)
    (failed : failAt error m = some m') : Inside setting m' ∧ m'.disk = m.disk := by
  obtain ⟨disk, foreignKeys, point⟩ := m
  cases point with
  | closed | opened | keysOn | returned => cases failed
  | second | verifying | committingSecond =>
      cases failed
      exact ⟨trivial, rfl⟩
  | reading =>
      cases failed
      exact ⟨inside, rfl⟩
  | first | backfilling | committingFirst | keysOff | rereading | third | committingThird =>
      cases failed
      exact ⟨inside.1, rfl⟩

/-- A statement that succeeds leads on, one that fails leads out; neither changes the disk. -/
theorem goOn_inside {α : Type} {result : Except MigrationError α} {next : α → Point Rest}
    (inside : Inside setting m)
    (after : ∀ value, result = .ok value → Inside setting { m with point := next value })
    (went : goOn m result next = some m') : Inside setting m' ∧ m'.disk = m.disk := by
  cases result with
  | ok value =>
      cases went
      exact ⟨after value rfl, rfl⟩
  | error error => exact failAt_inside inside went

/-- A step leaves the disk alone, or it commits a transaction and reports no error. -/
def Moves (setting : Setting Rest) (m m' : Machine Rest) : Prop :=
  m'.disk = m.disk ∨
    Commits setting m.disk m'.disk ∧ ∀ error, m'.point ≠ .returned (some error)

theorem proceed_inside (inside : Inside setting m) (next : proceed setting m = some m') :
    Inside setting m' ∧ Moves setting m m' := by
  have kept (same : Inside setting m' ∧ m'.disk = m.disk) :
      Inside setting m' ∧ Moves setting m m' := ⟨same.1, .inl same.2⟩
  obtain ⟨disk, foreignKeys, point⟩ := m
  cases point with
  | closed | opened | returned => cases next
  | reading =>
      simp only [proceed] at next
      split at next
      · exact kept (failAt_inside inside next)
      · split at next
        · cases next
          exact ⟨⟨inside, ‹_›⟩, .inl rfl⟩
        · split at next
          · cases next
            rename_i low
            have low : disk.version < 24 := low
            refine ⟨⟨inside, rfl, low, Nat.lt_succ_self _, by omega, ?_⟩, .inl rfl⟩
            exact scripts_self _ _
          · split at next
            · cases next
              rename_i high low
              have high : ¬disk.version < 24 := high
              have low : disk.version < 25 := low
              exact ⟨⟨inside, show disk.version = 24 by omega⟩, .inl rfl⟩
            · cases next
              rename_i above other high low
              have above : ¬disk.version > 26 := above
              have other : ¬disk.version = 26 := other
              have low : ¬disk.version < 25 := low
              exact ⟨⟨inside, show disk.version = 25 by omega⟩, .inl rfl⟩
  | first current version work =>
      obtain ⟨keys, start, low, behind, upTo, ran⟩ := inside
      have start : current = disk.version := start
      subst start
      simp only [proceed] at next
      split at next
      · rename_i more
        have more : version < 25 := more
        refine kept (goOn_inside ⟨keys, rfl, low, behind, upTo, ran⟩ ?_ next)
        intro applied done
        refine ⟨keys, rfl, low, Nat.lt_succ_of_lt behind, more, ?_⟩
        have whole : scripts setting disk.version (version - 1 + 1) disk = _ :=
          scripts_succ (Nat.le_sub_one_of_lt behind)
        have there : version - 1 + 1 = version := by omega
        rw [there, ran, ok_bind] at whole
        exact whole.trans done
      · rename_i last
        have last : ¬version < 25 := last
        obtain rfl : version = 25 := by omega
        split at next
        · cases next
          exact ⟨⟨keys, ‹_›, ran⟩, .inl rfl⟩
        · cases next
          rename_i late
          have done : Tit.Migration.first setting disk = .ok work :=
            bind_eq_ok.mpr ⟨work, ran, if_neg late⟩
          exact ⟨⟨keys, low, done⟩, .inl rfl⟩
  | backfilling work =>
      obtain ⟨keys, early, ran⟩ := inside
      refine kept (goOn_inside ⟨keys, early, ran⟩ ?_ next)
      intro filled done
      exact ⟨keys, Nat.lt_succ_of_lt early, bind_eq_ok.mpr ⟨work, ran, (if_pos early).trans done⟩⟩
  | committingFirst work =>
      obtain ⟨keys, low, ran⟩ := inside
      cases next
      exact ⟨⟨keys, (first_eq_ok low ran).1⟩, .inr ⟨.first low ran, nofun⟩⟩
  | keysOff =>
      cases next
      exact ⟨⟨inside.2, rfl⟩, .inl rfl⟩
  | second work =>
      obtain ⟨low, rfl⟩ := inside
      refine kept (goOn_inside ⟨low, rfl⟩ ?_ next)
      exact fun applied done => ⟨low, done⟩
  | verifying work =>
      obtain ⟨low, ran⟩ := inside
      refine kept (goOn_inside ⟨low, ran⟩ ?_ next)
      exact fun _ verified => ⟨low, bind_eq_ok.mpr ⟨work, ran, bind_eq_ok.mpr ⟨_, verified, rfl⟩⟩⟩
  | committingSecond work =>
      obtain ⟨low, ran⟩ := inside
      cases next
      exact ⟨(second_eq_ok ran).1, .inr ⟨.second low ran, nofun⟩⟩
  | keysOn failure =>
      cases failure with
      | none =>
          cases next
          exact ⟨⟨rfl, inside⟩, .inl rfl⟩
      | some error =>
          cases next
          exact ⟨rfl, .inl rfl⟩
  | rereading =>
      obtain ⟨keys, there⟩ := inside
      have there : disk.version = 25 := there
      simp only [proceed] at next
      split at next
      · cases next
        have ran : scripts setting 25 (disk.version + 1 - 1) disk = .ok disk := by
          rw [Nat.add_sub_cancel, there]
          exact scripts_self _ _
        exact ⟨⟨keys, there, by omega, by omega, ran⟩, .inl rfl⟩
      · rename_i done
        exact absurd (show disk.version < 26 by omega) done
  | third version work =>
      obtain ⟨keys, there, behind, upTo, ran⟩ := inside
      simp only [proceed] at next
      split at next
      · rename_i more
        have more : version ≤ 26 := more
        refine kept (goOn_inside ⟨keys, there, behind, upTo, ran⟩ ?_ next)
        intro applied done
        refine ⟨keys, there, Nat.lt_succ_of_lt behind, Nat.succ_le_succ more, ?_⟩
        have whole : scripts setting 25 (version - 1 + 1) disk = _ :=
          scripts_succ (Nat.le_sub_one_of_lt behind)
        have back : version - 1 + 1 = version := by omega
        rw [back, ran, ok_bind] at whole
        exact whole.trans done
      · rename_i last
        have last : ¬version ≤ 26 := last
        obtain rfl : version = 27 := by omega
        cases next
        exact ⟨⟨keys, there, ran⟩, .inl rfl⟩
  | committingThird work =>
      obtain ⟨keys, there, ran⟩ := inside
      cases next
      exact ⟨⟨keys, (scripts_eq_ok (by decide) there ran).1⟩, .inr ⟨.third there ran, nofun⟩⟩

theorem step_inside {a : Action} (inside : Inside setting m) (next : step setting m a = some m') :
    Inside setting m' ∧ Moves setting m m' := by
  cases a with
  | stop =>
      cases next
      exact ⟨trivial, .inl rfl⟩
  | «open» =>
      obtain ⟨disk, foreignKeys, point⟩ := m
      cases point with
      | closed =>
          cases next
          exact ⟨rfl, .inl rfl⟩
      | _ => cases next
  | migrate =>
      obtain ⟨disk, foreignKeys, point⟩ := m
      cases point with
      | opened =>
          cases next
          exact ⟨inside, .inl rfl⟩
      | returned failure =>
          cases next
          refine ⟨?_, .inl rfl⟩
          cases failure with
          | none => exact inside.1
          | some error => exact inside
      | _ => cases next
  | proceed => exact proceed_inside inside next
  | fail error =>
      obtain ⟨inside', same⟩ := failAt_inside inside next
      exact ⟨inside', .inl same⟩

end Steps

/-! ## A migration ends -/

/-- How many statements are left at most. -/
def Point.rank : Point Rest → Nat
  | .closed | .opened | .returned _ => 0
  | .committingThird _ => 1
  | .third next _ => 2 + (27 - next)
  | .rereading => 40
  | .keysOn _ => 41
  | .committingSecond _ => 42
  | .verifying _ => 43
  | .second _ => 44
  | .keysOff => 45
  | .committingFirst _ => 46
  | .backfilling _ => 47
  | .first _ next _ => 48 + (25 - next)
  | .reading => 100

/-- `migrate` has been called. -/
def Point.called : Point Rest → Prop
  | .closed | .opened => False
  | _ => True

section Ends

variable {m : Machine Rest}

theorem goOn_rank {α : Type} {result : Except MigrationError α} {next : α → Point Rest} {bound : Nat}
    (ok : ∀ value, (next value).called ∧ (next value).rank < bound)
    (failed : ∀ error, ∃ m', failAt error m = some m' ∧ m'.point.called ∧ m'.point.rank < bound) :
    ∃ m', goOn m result next = some m' ∧ m'.point.called ∧ m'.point.rank < bound := by
  cases result with
  | ok value => exact ⟨_, rfl, ok value⟩
  | error error => exact failed error

theorem proceed_rank (called : m.point.called) (busy : 0 < m.point.rank) :
    ∃ m', proceed setting m = some m' ∧ m'.point.called ∧ m'.point.rank < m.point.rank := by
  have less {a b : Nat} (smaller : Nat.blt a b = true) : a < b := Nat.le_of_ble_eq_true smaller
  obtain ⟨disk, foreignKeys, point⟩ := m
  cases point with
  | closed | opened | returned => exact absurd busy (Nat.lt_irrefl 0)
  | reading =>
      simp only [proceed]
      split
      · exact ⟨_, rfl, trivial, less rfl⟩
      · split
        · exact ⟨_, rfl, trivial, less rfl⟩
        · split
          · refine ⟨_, rfl, trivial, ?_⟩
            show 48 + (25 - _) < 100
            omega
          · split
            · exact ⟨_, rfl, trivial, less rfl⟩
            · exact ⟨_, rfl, trivial, less rfl⟩
  | first current next work =>
      simp only [proceed]
      have positive : 0 < 48 + (25 - next) := by omega
      split
      · rename_i more
        have more : next < 25 := more
        refine goOn_rank (fun applied => ⟨trivial, ?_⟩) fun error => ⟨_, rfl, trivial, positive⟩
        show 48 + (25 - (next + 1)) < 48 + (25 - next)
        omega
      · split
        · refine ⟨_, rfl, trivial, ?_⟩
          show 47 < 48 + (25 - next)
          omega
        · refine ⟨_, rfl, trivial, ?_⟩
          show 46 < 48 + (25 - next)
          omega
  | backfilling work =>
      exact goOn_rank (fun _ => ⟨trivial, less rfl⟩) fun _ => ⟨_, rfl, trivial, less rfl⟩
  | second work =>
      exact goOn_rank (fun _ => ⟨trivial, less rfl⟩) fun _ => ⟨_, rfl, trivial, less rfl⟩
  | verifying work =>
      exact goOn_rank (fun _ => ⟨trivial, less rfl⟩) fun _ => ⟨_, rfl, trivial, less rfl⟩
  | committingFirst | keysOff | committingSecond | committingThird =>
      exact ⟨_, rfl, trivial, less rfl⟩
  | keysOn failure =>
      cases failure with
      | none => exact ⟨_, rfl, trivial, less rfl⟩
      | some error => exact ⟨_, rfl, trivial, less rfl⟩
  | rereading =>
      simp only [proceed]
      split
      · refine ⟨_, rfl, trivial, ?_⟩
        show 2 + (27 - _) < 40
        omega
      · exact ⟨_, rfl, trivial, less rfl⟩
  | third next work =>
      simp only [proceed]
      split
      · rename_i more
        have more : next ≤ 26 := more
        refine goOn_rank (fun applied => ⟨trivial, ?_⟩) fun error => ⟨_, rfl, trivial, ?_⟩
        · show 2 + (27 - (next + 1)) < 2 + (27 - next)
          omega
        · show 0 < 2 + (27 - next)
          omega
      · refine ⟨_, rfl, trivial, ?_⟩
        show 1 < 2 + (27 - next)
        omega

theorem proceeds_return (called : m.point.called) : ∃ n m' failure,
    run (step setting) m (List.replicate n .proceed) = some m' ∧ m'.point = .returned failure := by
  induction rank : m.point.rank using Nat.strong_induction_on generalizing m with
  | _ rank' ih =>
      by_cases busy : 0 < m.point.rank
      · obtain ⟨next, proceeded, called', less⟩ := @proceed_rank _ setting _ called busy
        obtain ⟨n, m', failure, ran, returned⟩ := ih _ (rank ▸ less) called' rfl
        refine ⟨n + 1, m', failure, ?_, returned⟩
        have stepped : step setting m .proceed = some next := proceeded
        rw [List.replicate_succ, run, stepped]
        exact ran
      · obtain ⟨disk, foreignKeys, point⟩ := m
        cases point with
        | returned failure => exact ⟨0, _, failure, rfl, rfl⟩
        | closed | opened => exact called.elim
        | first | third => exact (busy (Nat.add_pos_left (by decide) _)).elim
        | _ => exact (busy (Nat.succ_pos _)).elim

end Ends

/-! ## Every run -/

/-- What holds of a database that was found at this disk. -/
structure Good (setting : Setting Rest) (found : Disk Rest) (m : Machine Rest) : Prop where
  /-- The disk is what the last commit left. -/
  committed : Relation.ReflTransGen (Commits setting) found m.disk
  /-- A step that reports an error leaves the disk as it is. -/
  moves : ∀ a m', step setting m a = some m' → Moves setting m m'
  /-- A migration leads to where it would have led from the start. -/
  resumes : migrate setting m.disk = migrate setting found
  /-- A migration without a failure has led there. -/
  migrated : m.point = .returned none →
    migrate setting found = .ok m.disk ∧ m.disk.version = schemaVersion
  /-- Opened again, a migration that nothing interrupts returns. -/
  reopens : ∃ n m' failure, run (step setting) m
    (.stop :: .open :: .migrate :: List.replicate n .proceed) = some m' ∧
      m'.point = .returned failure
  keys : m.point = .opened ∨ (∃ failure, m.point = .returned failure) → m.foreignKeys = true
  ledger : Ledger found.version m.disk

theorem migrate_of_commits {found : Disk Rest}
    (committed : Relation.ReflTransGen (Commits setting) found d) :
    migrate setting d = migrate setting found := by
  induction committed with
  | refl => rfl
  | tail _ commits ih => exact commits.migrate.trans ih

theorem good_of_inside {found : Disk Rest} {m : Machine Rest} (inside : Inside setting m)
    (committed : Relation.ReflTransGen (Commits setting) found m.disk)
    (ledger : Ledger found.version m.disk) : Good setting found m := by
  have resumes := migrate_of_commits committed
  refine ⟨committed, fun a m' next => (step_inside inside next).2, resumes, ?_, ?_, ?_, ledger⟩
  · intro returned
    have there : m.disk.version = 26 := by
      unfold Inside at inside
      rw [returned] at inside
      exact inside.2
    exact ⟨resumes ▸ migrate_done there, there⟩
  · obtain ⟨n, m', failure, ran, returned⟩ :=
      @proceeds_return _ setting ⟨m.disk, true, .reading⟩ trivial
    exact ⟨n, m', failure, ran, returned⟩
  · unfold Inside at inside
    rintro (opened | ⟨failure, returned⟩)
    · rw [opened] at inside
      exact inside
    · rw [returned] at inside
      cases failure with
      | none => exact inside.1
      | some error => exact inside

end Tit.Migration
