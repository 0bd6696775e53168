/-
# Git.Histories -- histories and comparisons are exact

The loop of `history_with_budget` is a search along the parents, first come first met.  So a history
has every commit that its start reaches, each once (`historyWithBudget_lists`), its prefix is what it
starts with (`historyPrefix_take`), and a comparison of two commits, which asks two histories for its
answers, agrees with the ancestry of the commits (`comparison_exact`).
-/
import Tit.Git.Ancestry
import Tit.Theory.Search

namespace Tit.Git

open Tit.Theory Tit.Store

set_option autoImplicit false

inductive HistoryError where
  | read (error : ReadError)
  | invalidLimits
  deriving DecidableEq, Repr

section Loops

variable (limits : ReadLimits) (objects : Objects)

/-- The loop of `history_with_budget` with its last two arguments; `turns` is how many commits the
maximum leaves. -/
def historyBounded (truncate : Bool) : Nat → List ObjectId → List ObjectId → List CommitInfo →
    Except ReadError (List CommitInfo)
  | turns, pending, seen, history =>
      match pending.dropWhile fun id => decide (id ∈ seen) with
      | [] => pure history
      | id :: pending =>
          match turns with
          | 0 => if truncate then pure history else throw (.limit "history commits")
          | turns + 1 => do
              let commit ← readCommit limits objects id
              historyBounded truncate turns (pending ++ commit.parents) (id :: seen)
                (history ++ [commit])

/-- `history`. -/
def history (start : ObjectId) : Except ReadError (List CommitInfo) :=
  historyBounded limits objects false limits.maxHistoryCommits [start] [] []

def historyPrefix (start : ObjectId) (maximum : Nat) : Except HistoryError (List CommitInfo) :=
  if maximum = 0 ∨ maximum > limits.maxHistoryCommits then .error .invalidLimits
  else (historyBounded limits objects true maximum [start] [] []).mapError .read

/-- A history as a search along the parents. -/
def commitSearch : Searching ObjectId ReadError where
  discipline := .queue
  expand id := (readCommit limits objects id).map fun commit => some commit.parents
  goal _ := false
  full := .limit "history commits"

end Loops

variable {limits : ReadLimits} {objects : Objects} {turns : Nat} {pending seen : List ObjectId}
  {done result : List CommitInfo} {start id : ObjectId} {commit : CommitInfo}

theorem historyBounded_eq :
    historyBounded limits objects false turns pending seen done =
      historyLoop limits objects turns pending seen done := by
  induction turns generalizing pending seen done with
  | zero =>
      unfold historyBounded historyLoop
      rfl
  | succ turns ih =>
      unfold historyBounded historyLoop
      cases pending.dropWhile fun id => decide (id ∈ seen) with
      | nil => rfl
      | cons id rest =>
          exact congrArg (readCommit limits objects id >>= ·) (funext fun commit => ih)

theorem history_eq (start : ObjectId) :
    history limits objects start = historyWithBudget limits objects start := historyBounded_eq

/-! ## The loop is the search -/

theorem historyLoop_nil : historyLoop limits objects turns [] seen done = .ok done := by
  unfold historyLoop
  rfl

theorem historyLoop_seen (old : id ∈ seen) :
    historyLoop limits objects turns (id :: pending) seen done =
      historyLoop limits objects turns pending seen done := by
  conv_lhs => unfold historyLoop
  conv_rhs => unfold historyLoop
  rw [List.dropWhile_cons_of_pos (by simpa using old)]

theorem historyLoop_full (new : id ∉ seen) :
    historyLoop limits objects 0 (id :: pending) seen done = .error (.limit "history commits") := by
  unfold historyLoop
  rw [List.dropWhile_cons_of_neg (by simpa using new)]
  rfl

theorem historyLoop_next (new : id ∉ seen) :
    historyLoop limits objects (turns + 1) (id :: pending) seen done = (do
      let commit ← readCommit limits objects id
      historyLoop limits objects turns (pending ++ commit.parents) (id :: seen)
        (done ++ [commit])) := by
  conv_lhs => unfold historyLoop
  rw [List.dropWhile_cons_of_neg (by simpa using new)]

/-- The commits that were read have their identifiers seen, the last one in front. -/
def MatchesSeen (limits : ReadLimits) (objects : Objects) (seen : List ObjectId)
    (done : List CommitInfo) : Prop :=
  seen = (done.map (·.id)).reverse ∧ ∀ commit ∈ done, readCommit limits objects commit.id = .ok commit

theorem MatchesSeen.snoc (same : MatchesSeen limits objects seen done)
    (read : readCommit limits objects id = .ok commit) :
    MatchesSeen limits objects (id :: seen) (done ++ [commit]) := by
  obtain ⟨ids, reads⟩ := same
  have here := readCommit_id read
  refine ⟨?_, fun other member => ?_⟩
  · rw [ids, List.map_append, List.reverse_append, List.map_singleton, List.reverse_singleton, here]
    rfl
  · rcases List.mem_append.mp member with before | last
    · exact reads other before
    · rw [List.mem_singleton.mp last, here]
      exact read

/-- **The loop is the search**: it returns the commits that the search visits. -/
theorem historyLoop_search (same : MatchesSeen limits objects seen done) :
    (∀ result, historyLoop limits objects turns pending seen done = .ok result →
      ∃ visited, search (commitSearch limits objects) turns pending seen = .ok (false, visited) ∧
        MatchesSeen limits objects visited result) ∧
    (∀ found visited, search (commitSearch limits objects) turns pending seen = .ok (found, visited) →
      ∃ result, historyLoop limits objects turns pending seen done = .ok result) := by
  fun_induction search (commitSearch limits objects) turns pending seen generalizing done with
  | case1 room seen =>
      rw [historyLoop_nil]
      refine ⟨fun result ok => ?_, fun _ _ _ => ⟨done, rfl⟩⟩
      cases ok
      exact ⟨seen, rfl, same⟩
  | case2 room x rest seen goal => cases goal
  | case3 room x rest seen goal old ih =>
      rw [historyLoop_seen old]
      exact ih same
  | case4 x rest seen goal new =>
      rw [historyLoop_full new]
      refine ⟨fun result ok => ?_, fun found visited ok => ?_⟩
      · cases ok
      · cases ok
  | case5 x rest seen goal new room error fails =>
      rw [historyLoop_next new]
      refine ⟨fun result ok => ?_, fun found visited ok => by cases ok⟩
      obtain ⟨commit, read, -⟩ := bind_eq_ok.mp ok
      have expanded : (readCommit limits objects x).map (fun commit => some commit.parents) =
          .error error := fails
      rw [read] at expanded
      cases expanded
  | case6 x rest seen goal new room out ih =>
      obtain ⟨commit, -, nothing⟩ := map_eq_ok.mp out
      cases nothing
  | case7 x rest seen goal new room links expands ih =>
      obtain ⟨commit, read, parents⟩ := map_eq_ok.mp expands
      cases parents
      rw [historyLoop_next new, read, ok_bind]
      exact ih (same.snoc read)

theorem commitSearch_from {x : ObjectId} :
    (commitSearch limits objects).From [start] x ↔ IsAncestor limits objects x start := by
  have same : (commitSearch limits objects).Link = fun a b => b ∈ parentsOf limits objects a := by
    funext a b
    apply propext
    unfold Searching.Link commitSearch parentsOf
    dsimp only
    cases read : readCommit limits objects a with
    | error error =>
        constructor
        · rintro ⟨links, ⟨⟩, -⟩
        · nofun
    | ok commit =>
        constructor
        · rintro ⟨links, same, member⟩
          cases same
          exact member
        · intro member
          exact ⟨commit.parents, rfl, member⟩
  unfold Searching.From Searching.Path IsAncestor Reaches
  rw [same]
  constructor
  · rintro ⟨root, member, path⟩
    rw [List.mem_singleton] at member
    rwa [← member]
  · intro path
    exact ⟨start, List.mem_singleton_self _, path⟩

/-- The graph of commits before this one can be read, and has so many commits at most. -/
structure WithinHistory (limits : ReadLimits) (objects : Objects) (start : ObjectId) (count : Nat) :
    Prop where
  complete : ∀ x, IsAncestor limits objects x start → ∃ commit, readCommit limits objects x = .ok commit
  counted : ∃ all : List ObjectId, all.length ≤ count ∧
    ∀ x, IsAncestor limits objects x start → x ∈ all

/-- The list has every commit of the history, each once, as it is read. -/
structure HistoryOf (limits : ReadLimits) (objects : Objects) (start : ObjectId)
    (listed : List CommitInfo) : Prop where
  distinct : (listed.map (·.id)).Nodup
  mem : ∀ x, x ∈ listed.map (·.id) ↔ IsAncestor limits objects x start
  reads : ∀ commit ∈ listed, readCommit limits objects commit.id = .ok commit

theorem matches_nil : MatchesSeen limits objects [] [] := ⟨rfl, nofun⟩

/-- **A history** has every commit that its start reaches, each once. -/
theorem historyWithBudget_lists (ok : historyWithBudget limits objects start = .ok result) :
    HistoryOf limits objects start result ∧ result.length ≤ limits.maxHistoryCommits := by
  obtain ⟨visited, searched, rfl, reads⟩ := (historyLoop_search matches_nil).1 result ok
  obtain ⟨visits, -, distinct, few, -⟩ := search_reaches searched
  have length : (result.map (·.id)).reverse.length = result.length := by
    rw [List.length_reverse, List.length_map]
  refine ⟨⟨?_, fun x => ⟨fun member => ?_, fun path => ?_⟩, reads⟩, ?_⟩
  · exact List.nodup_reverse.mp (distinct List.nodup_nil)
  · rcases visits x (List.mem_reverse.mpr member) with old | ⟨path, -⟩
    · cases old
    · exact commitSearch_from.mp path
  · rcases search_all searched (commitSearch_from.mpr path) with inside | ⟨-, out⟩
    · exact List.mem_reverse.mp inside
    · obtain ⟨commit, -, nothing⟩ := map_eq_ok.mp out
      cases nothing
  · rw [length] at few
    simpa using few

theorem historyWithBudget_succeeds (bounded : WithinHistory limits objects start limits.maxHistoryCommits) :
    ∃ result, historyWithBudget limits objects start = .ok result := by
  obtain ⟨all, few, listed⟩ := bounded.counted
  have expands : ∀ x, (commitSearch limits objects).From [start] x →
      (commitSearch limits objects).goal x = false →
      ∃ links, (commitSearch limits objects).expand x = .ok links := by
    intro x path _
    obtain ⟨commit, read⟩ := bounded.complete x (commitSearch_from.mp path)
    exact ⟨some commit.parents, map_eq_ok.mpr ⟨commit, read, rfl⟩⟩
  obtain ⟨⟨found, visited⟩, searched⟩ :=
    search_ends (fun x path => listed x (commitSearch_from.mp path)) few expands
  exact (historyLoop_search matches_nil).2 found visited searched

/-! ## The prefix of a history -/

theorem historyLoop_extends (ok : historyLoop limits objects turns pending seen done = .ok result) :
    done <+: result := by
  induction turns generalizing pending seen done with
  | zero =>
      unfold historyLoop at ok
      split at ok
      · cases ok
        exact List.prefix_refl _
      · cases ok
  | succ turns ih =>
      unfold historyLoop at ok
      split at ok
      · cases ok
        exact List.prefix_refl _
      · obtain ⟨commit, -, ok⟩ := bind_eq_ok.mp ok
        exact (List.prefix_append _ _).trans (ih ok)

theorem historyBounded_take {few : Nat} (less : few ≤ turns)
    (ok : historyLoop limits objects turns pending seen done = .ok result) :
    historyBounded limits objects true few pending seen done = .ok (result.take (done.length + few)) := by
  induction few generalizing turns pending seen done with
  | zero =>
      have start := historyLoop_extends ok
      have taken : result.take done.length = done := List.prefix_iff_eq_take.mp start |>.symm
      unfold historyBounded
      split
      · rw [Nat.add_zero, taken]
        rfl
      · rw [Nat.add_zero, taken]
        rfl
  | succ few ih =>
      obtain ⟨turns, rfl⟩ : ∃ k, turns = k + 1 := ⟨turns - 1, by omega⟩
      unfold historyLoop at ok
      unfold historyBounded
      cases next : pending.dropWhile fun id => decide (id ∈ seen) with
      | nil =>
          have ended : (Except.ok done : Except ReadError (List CommitInfo)) = .ok result := by
            rw [next] at ok
            exact ok
          cases ended
          rw [List.take_of_length_le (by omega)]
          rfl
      | cons id rest =>
          have onward : (readCommit limits objects id >>= fun commit =>
              historyLoop limits objects turns (rest ++ commit.parents) (id :: seen)
                (done ++ [commit])) = .ok result := by
            rw [next] at ok
            exact ok
          obtain ⟨commit, read, onward⟩ := bind_eq_ok.mp onward
          have later := ih (by omega) onward
          show (readCommit limits objects id >>= fun commit =>
            historyBounded limits objects true few (rest ++ commit.parents) (id :: seen)
              (done ++ [commit])) = _
          rw [read, ok_bind, later, List.length_append, List.length_singleton]
          congr 2
          omega

/-- **A prefix** is what the history starts with. -/
theorem historyPrefix_take {maximum : Nat} (ok : history limits objects start = .ok result)
    (some : 0 < maximum) (fits : maximum ≤ limits.maxHistoryCommits) :
    historyPrefix limits objects start maximum = .ok (result.take maximum) := by
  rw [history_eq] at ok
  have taken := historyBounded_take fits ok
  unfold historyPrefix
  rw [if_neg (by omega), taken, List.length_nil, Nat.zero_add]
  rfl

/-! ## The comparison -/

/-- The library finds a merge base exactly when there is a common ancestor, and it is one. -/
def MergeBases (limits : ReadLimits) (objects : Objects) (gix : Gix) : Prop :=
  ∀ base head found, gix.mergeBase base head = .ok found →
    (∀ common, found = some common →
      IsAncestor limits objects common base ∧ IsAncestor limits objects common head) ∧
    (found = none → ∀ x, ¬(IsAncestor limits objects x base ∧ IsAncestor limits objects x head))

/-- Two commits have an ancestor in common. -/
def Related (limits : ReadLimits) (objects : Objects) (base head : ObjectId) : Prop :=
  ∃ x, IsAncestor limits objects x base ∧ IsAncestor limits objects x head

/-- The answer of a comparison, by the ancestry of the commits. -/
inductive Decides (limits : ReadLimits) (objects : Objects) (gix : Gix) (base head : ObjectId) :
    Mergeability → Prop where
  | unrelated (apart : ¬Related limits objects base head) : Decides limits objects gix base head .unrelated
  | alreadyMerged (related : Related limits objects base head)
      (merged : IsAncestor limits objects head base) :
      Decides limits objects gix base head .alreadyMerged
  | fastForward (related : Related limits objects base head)
      (unmerged : ¬IsAncestor limits objects head base) (proper : base ≠ head)
      (ancestor : IsAncestor limits objects base head) :
      Decides limits objects gix base head .fastForward
  | clean (related : Related limits objects base head)
      (unmerged : ¬IsAncestor limits objects head base)
      (diverged : ¬IsAncestor limits objects base head)
      (merge : gix.conflicts base head = .ok false) : Decides limits objects gix base head .clean
  | conflicting (related : Related limits objects base head)
      (unmerged : ¬IsAncestor limits objects head base)
      (diverged : ¬IsAncestor limits objects base head)
      (merge : gix.conflicts base head = .ok true) :
      Decides limits objects gix base head .conflicting

/-- Each answer, and when it is given. -/
structure Answers (limits : ReadLimits) (objects : Objects) (gix : Gix) (base head : ObjectId)
    (answer : Mergeability) : Prop where
  unrelated : answer = .unrelated ↔ ¬Related limits objects base head
  alreadyMerged : answer = .alreadyMerged ↔
    Related limits objects base head ∧ IsAncestor limits objects head base
  fastForward : answer = .fastForward ↔ Related limits objects base head ∧
    ¬IsAncestor limits objects head base ∧ base ≠ head ∧ IsAncestor limits objects base head
  clean : answer = .clean ↔ Related limits objects base head ∧
    ¬IsAncestor limits objects head base ∧ ¬IsAncestor limits objects base head ∧
    gix.conflicts base head = .ok false
  conflicting : answer = .conflicting ↔ Related limits objects base head ∧
    ¬IsAncestor limits objects head base ∧ ¬IsAncestor limits objects base head ∧
    gix.conflicts base head = .ok true

theorem Decides.answers {gix : Gix} {base head : ObjectId} {answer : Mergeability}
    (decides : Decides limits objects gix base head answer) :
    Answers limits objects gix base head answer := by
  cases decides with
  | unrelated apart => constructor <;> simp [apart]
  | alreadyMerged related merged => constructor <;> simp [related, merged]
  | fastForward related unmerged proper ancestor =>
      constructor <;> simp [related, unmerged, proper, ancestor]
  | clean related unmerged diverged merge =>
      constructor <;> simp [related, unmerged, diverged, merge]
  | conflicting related unmerged diverged merge =>
      constructor <;> simp [related, unmerged, diverged, merge]

/-- The changes of the head, from the merge base or from nothing. -/
def headFiles (limits : ReadLimits) (objects : Objects) (gix : Gix) (head tree : ObjectId) :
    Option ObjectId → Except ReadError (List DiffFile)
  | some mergeBase => diffCommits limits objects gix mergeBase head
  | none => diffTrees limits objects gix none tree

/-- The commits are within the limits, and what is asked of the library and of the trees can be
answered. -/
structure Comparable (limits : ReadLimits) (objects : Objects) (gix : Gix) (base head : ObjectId) :
    Prop where
  baseRead : ∀ x, IsAncestor limits objects x base → ∃ commit, readCommit limits objects x = .ok commit
  headRead : ∀ x, IsAncestor limits objects x head → ∃ commit, readCommit limits objects x = .ok commit
  counted : ∃ baseIds headIds : List ObjectId,
    baseIds.length + headIds.length ≤ limits.maxHistoryCommits ∧
    (∀ x, IsAncestor limits objects x base → x ∈ baseIds) ∧
    ∀ x, IsAncestor limits objects x head → x ∈ headIds
  messages : ∀ commits : List CommitInfo, (commits.map (·.id)).Nodup →
    (∀ commit ∈ commits, readCommit limits objects commit.id = .ok commit ∧
      IsAncestor limits objects commit.id head ∧ ¬IsAncestor limits objects commit.id base) →
    (commits.map fun commit => commit.message.length).sum ≤ limits.maxDiffBytes
  answered : ∃ found commit files, gix.mergeBase base head = .ok found ∧
    readCommit limits objects head = .ok commit ∧
    headFiles limits objects gix head commit.tree found = .ok files ∧
    ∀ common, found = some common → (∃ files, diffCommits limits objects gix common base = .ok files) ∧
      ∃ conflicts, gix.conflicts base head = .ok conflicts

section Comparison

variable {gix : Gix} {base head : ObjectId} {c : Comparison} {listed : List CommitInfo}

theorem HistoryOf.count (lists : HistoryOf limits objects start listed) {all : List ObjectId}
    (inside : ∀ x, IsAncestor limits objects x start → x ∈ all) : listed.length ≤ all.length := by
  have more : (listed.map (·.id)).toFinset ⊆ all.toFinset := by
    intro x member
    rw [List.mem_toFinset] at member ⊢
    exact inside x ((lists.mem x).mp member)
  have counted := Finset.card_le_card more
  rw [List.toFinset_card_of_nodup lists.distinct, List.length_map] at counted
  exact counted.trans (List.toFinset_card_le all)

/-- What a comparison has asked when it succeeds. -/
theorem comparison_asks (ok : comparison limits objects gix base head = .ok c) :
    ∃ baseHistory headHistory, historyWithBudget limits objects base = .ok baseHistory ∧
      historyWithBudget limits objects head = .ok headHistory ∧
      gix.mergeBase base head = .ok c.mergeBase ∧
      c.commits = headHistory.filter (fun commit => decide (commit.id ∉ baseHistory.map (·.id))) ∧
      mergeabilityOf limits objects gix base head (baseHistory.map (·.id)) (headHistory.map (·.id))
        c.mergeBase = .ok c.mergeability := by
  unfold comparison at ok
  obtain ⟨baseHistory, baseOk, ok⟩ := bind_eq_ok.mp ok
  obtain ⟨headHistory, headOk, ok⟩ := bind_eq_ok.mp ok
  obtain ⟨_, -, ok⟩ := bind_eq_ok.mp ok
  obtain ⟨first, -, ok⟩ := bind_eq_ok.mp ok
  obtain ⟨mergeBase, found, ok⟩ := bind_eq_ok.mp ok
  obtain ⟨_, -, ok⟩ := bind_eq_ok.mp ok
  dsimp only at ok
  split at ok <;>
    · obtain ⟨files, -, ok⟩ := bind_eq_ok.mp ok
      obtain ⟨mergeability, decided, ok⟩ := bind_eq_ok.mp ok
      cases ok
      exact ⟨baseHistory, headHistory, baseOk, headOk, found, rfl, decided⟩

theorem mergeabilityOf_decides {baseHistory headHistory : List CommitInfo}
    {mergeBase : Option ObjectId} {mergeability : Mergeability}
    (bases : MergeBases limits objects gix) (found : gix.mergeBase base head = .ok mergeBase)
    (baseLists : HistoryOf limits objects base baseHistory)
    (headLists : HistoryOf limits objects head headHistory)
    (decided : mergeabilityOf limits objects gix base head (baseHistory.map (·.id))
      (headHistory.map (·.id)) mergeBase = .ok mergeability) :
    Decides limits objects gix base head mergeability := by
  obtain ⟨common, nothing⟩ := bases base head mergeBase found
  cases mergeBase with
  | none =>
      cases decided
      exact .unrelated fun ⟨x, both⟩ => nothing rfl x both
  | some ancestor =>
      have related : Related limits objects base head := ⟨ancestor, common ancestor rfl⟩
      unfold mergeabilityOf at decided
      dsimp only at decided
      by_cases merged : head ∈ baseHistory.map (·.id)
      · rw [if_pos merged] at decided
        cases decided
        exact .alreadyMerged related ((baseLists.mem head).mp merged)
      rw [if_neg merged] at decided
      have unmerged : ¬IsAncestor limits objects head base := fun path =>
        merged ((baseLists.mem head).mpr path)
      by_cases forward : base ∈ headHistory.map (·.id)
      · rw [if_pos forward] at decided
        cases decided
        refine .fastForward related unmerged ?_ ((headLists.mem base).mp forward)
        rintro rfl
        exact unmerged Relation.ReflTransGen.refl
      rw [if_neg forward] at decided
      have diverged : ¬IsAncestor limits objects base head := fun path =>
        forward ((headLists.mem base).mpr path)
      obtain ⟨_, -, decided⟩ := bind_eq_ok.mp decided
      obtain ⟨conflicts, merge, decided⟩ := bind_eq_ok.mp decided
      cases conflicts with
      | true =>
          cases decided
          exact .conflicting related unmerged diverged merge
      | false =>
          cases decided
          exact .clean related unmerged diverged merge

theorem countMessages_succeeds {commits : List CommitInfo} {bytes : Nat}
    (fits : bytes + (commits.map fun commit => commit.message.length).sum ≤ limits.maxDiffBytes) :
    ∃ total, countMessages limits commits bytes = .ok total := by
  induction commits generalizing bytes with
  | nil => exact ⟨bytes, rfl⟩
  | cons commit rest ih =>
      rw [List.map_cons, List.sum_cons] at fits
      unfold countMessages checkedAdd
      rw [ensure_of (by omega), ok_bind]
      exact ih (by omega)

/-- The commits of the head that the base does not have. -/
theorem mem_headOnly {baseHistory headHistory : List CommitInfo}
    (baseLists : HistoryOf limits objects base baseHistory)
    (headLists : HistoryOf limits objects head headHistory) :
    let commits := headHistory.filter fun commit => decide (commit.id ∉ baseHistory.map (·.id))
    (commits.map (·.id)).Nodup ∧
      (∀ commit ∈ commits, readCommit limits objects commit.id = .ok commit) ∧
      ∀ x, x ∈ commits.map (·.id) ↔
        IsAncestor limits objects x head ∧ ¬IsAncestor limits objects x base := by
  dsimp only
  have sub : List.Sublist (headHistory.filter fun commit =>
      decide (commit.id ∉ baseHistory.map (·.id))) headHistory := List.filter_sublist
  refine ⟨headLists.distinct.sublist (sub.map _), fun commit member =>
    headLists.reads commit (sub.subset member), fun x => ?_⟩
  rw [← baseLists.mem, ← headLists.mem]
  constructor
  · intro member
    obtain ⟨commit, kept, rfl⟩ := List.mem_map.mp member
    obtain ⟨inside, out⟩ := List.mem_filter.mp kept
    exact ⟨List.mem_map_of_mem inside, of_decide_eq_true out⟩
  · rintro ⟨inside, out⟩
    obtain ⟨commit, member, rfl⟩ := List.mem_map.mp inside
    exact List.mem_map_of_mem (List.mem_filter.mpr ⟨member, decide_eq_true out⟩)

/-- A history starts with its first commit. -/
theorem historyWithBudget_head (ok : historyWithBudget limits objects start = .ok result) :
    ∃ commit, readCommit limits objects start = .ok commit ∧ result.head? = some commit := by
  unfold historyWithBudget at ok
  cases turns : limits.maxHistoryCommits with
  | zero =>
      rw [turns, historyLoop_full List.not_mem_nil] at ok
      cases ok
  | succ turns =>
      rw [turns, historyLoop_next List.not_mem_nil] at ok
      obtain ⟨commit, read, ok⟩ := bind_eq_ok.mp ok
      obtain ⟨later, rfl⟩ := historyLoop_extends ok
      exact ⟨commit, read, rfl⟩

theorem mergeabilityOf_succeeds {mergeBase : Option ObjectId} {baseIds headIds : List ObjectId}
    (answers : ∀ common, mergeBase = some common →
      (∃ files, diffCommits limits objects gix common base = .ok files) ∧
        ∃ conflicts, gix.conflicts base head = .ok conflicts) :
    ∃ mergeability, mergeabilityOf limits objects gix base head baseIds headIds mergeBase =
      .ok mergeability := by
  unfold mergeabilityOf
  cases mergeBase with
  | none => exact ⟨_, rfl⟩
  | some common =>
      obtain ⟨⟨files, diff⟩, conflicts, merge⟩ := answers common rfl
      dsimp only
      by_cases merged : head ∈ baseIds
      · exact ⟨_, if_pos merged⟩
      rw [if_neg merged]
      by_cases forward : base ∈ headIds
      · exact ⟨_, if_pos forward⟩
      rw [if_neg forward, diff, ok_bind, merge, ok_bind]
      cases conflicts with
      | true => exact ⟨_, rfl⟩
      | false => exact ⟨_, rfl⟩

/-- **A comparison within the limits** has an answer. -/
theorem comparison_succeeds (comparable : Comparable limits objects gix base head) :
    ∃ c, comparison limits objects gix base head = .ok c := by
  obtain ⟨baseAll, headAll, few, baseListed, headListed⟩ := comparable.counted
  obtain ⟨baseHistory, baseOk⟩ := @historyWithBudget_succeeds limits objects base
    ⟨comparable.baseRead, baseAll, by omega, baseListed⟩
  obtain ⟨headHistory, headOk⟩ := @historyWithBudget_succeeds limits objects head
    ⟨comparable.headRead, headAll, by omega, headListed⟩
  obtain ⟨baseLists, -⟩ := historyWithBudget_lists baseOk
  obtain ⟨headLists, -⟩ := historyWithBudget_lists headOk
  have lengths : baseHistory.length + headHistory.length ≤ limits.maxHistoryCommits := by
    have := baseLists.count baseListed
    have := headLists.count headListed
    omega
  obtain ⟨first, readFirst, starts⟩ := historyWithBudget_head headOk
  obtain ⟨found, commit, files, mergeBase, readHead, diff, answers⟩ := comparable.answered
  rw [readFirst] at readHead
  cases readHead
  obtain ⟨distinct, reads, only⟩ := mem_headOnly baseLists headLists
  have fits := comparable.messages _ distinct fun commit member =>
    ⟨reads commit member, (only commit.id).mp (List.mem_map_of_mem member)⟩
  obtain ⟨total, counted⟩ := @countMessages_succeeds limits _ 0 (by rwa [Nat.zero_add])
  obtain ⟨mergeability, decided⟩ := @mergeabilityOf_succeeds limits objects gix base head found
    (baseHistory.map (·.id)) (headHistory.map (·.id)) answers
  unfold comparison
  rw [baseOk, ok_bind, headOk, ok_bind, ensure_of lengths, ok_bind, starts, required_some, ok_bind,
    mergeBase, ok_bind]
  dsimp only
  rw [counted, ok_bind]
  cases found with
  | none =>
      have diff' : diffTrees limits objects gix none first.tree = .ok files := diff
      dsimp only
      rw [diff', ok_bind, decided, ok_bind]
      exact ⟨_, rfl⟩
  | some common =>
      have diff' : diffCommits limits objects gix common head = .ok files := diff
      dsimp only
      rw [diff', ok_bind, decided, ok_bind]
      exact ⟨_, rfl⟩

/-- **A comparison is exact.**  It tells what the ancestry of the two commits says, lists the commits
of the head that the base does not have, each once, and has an answer within the limits; a history
has every commit that is reached, each once, and its prefixes are what it starts with. -/
theorem comparison_exact (bases : MergeBases limits objects gix) :
    (∀ base head c, comparison limits objects gix base head = .ok c →
      Answers limits objects gix base head c.mergeability ∧ (c.commits.map (·.id)).Nodup ∧
      (∀ commit ∈ c.commits, readCommit limits objects commit.id = .ok commit) ∧
      ∀ x, x ∈ c.commits.map (·.id) ↔
        IsAncestor limits objects x head ∧ ¬IsAncestor limits objects x base) ∧
    (∀ base head, Comparable limits objects gix base head →
      ∃ c, comparison limits objects gix base head = .ok c) ∧
    (∀ start listed, history limits objects start = .ok listed →
      HistoryOf limits objects start listed ∧
      ∀ maximum, 0 < maximum → maximum ≤ limits.maxHistoryCommits →
        historyPrefix limits objects start maximum = .ok (listed.take maximum)) ∧
    ∀ start, WithinHistory limits objects start limits.maxHistoryCommits →
      ∃ listed, history limits objects start = .ok listed := by
  refine ⟨fun base head c ok => ?_, fun base head => comparison_succeeds, fun start listed ok => ?_,
    fun start bounded => ?_⟩
  · obtain ⟨baseHistory, headHistory, baseOk, headOk, found, commits, decided⟩ := comparison_asks ok
    obtain ⟨baseLists, -⟩ := historyWithBudget_lists baseOk
    obtain ⟨headLists, -⟩ := historyWithBudget_lists headOk
    obtain ⟨distinct, reads, only⟩ := mem_headOnly baseLists headLists
    rw [commits]
    have decides := mergeabilityOf_decides bases found baseLists headLists decided
    exact ⟨decides.answers, distinct, reads, only⟩
  · refine ⟨?_, fun maximum some fits => historyPrefix_take ok some fits⟩
    rw [history_eq] at ok
    exact (historyWithBudget_lists ok).1
  · rw [history_eq]
    exact historyWithBudget_succeeds bounded

end Comparison

/-! Pole: the commit `2` comes after the commit `1`. -/

def twoCommits : Objects := fun id =>
  if id = ⟨1⟩ then some (.commit 10 (.ok (⟨10⟩, [], [])))
  else if id = ⟨2⟩ then some (.commit 10 (.ok (⟨10⟩, [⟨1⟩], [])))
  else if id = ⟨10⟩ then some (.tree 0 (.ok []))
  else none

def twoBases : Gix where
  mergeBase a b :=
    .ok (if (a = ⟨1⟩ ∨ a = ⟨2⟩) ∧ (b = ⟨1⟩ ∨ b = ⟨2⟩) then some ⟨1⟩
    else if a = b then some a
    else none)
  hunks _ _ := []
  conflicts _ _ := .ok false

theorem twoCommits_ancestors {x start : ObjectId} :
    IsAncestor .default twoCommits x start ↔ x = start ∨ x = ⟨1⟩ ∧ start = ⟨2⟩ := by
  have second : parentsOf .default twoCommits ⟨2⟩ = [⟨1⟩] := by decide
  have others : ∀ y, y ≠ ⟨2⟩ → parentsOf .default twoCommits y = [] := by
    intro y other
    by_cases one : y = ⟨1⟩
    · rw [one]
      decide
    · unfold parentsOf readCommit twoCommits
      rw [if_neg one, if_neg other]
      split
      · rename_i commit ok
        obtain ⟨object, found, ok⟩ := bind_eq_ok.mp ok
        have found := required_eq_ok.mp found
        split at found
        · cases found
          cases ok
        · cases found
      · rfl
  constructor
  · intro path
    rcases Relation.ReflTransGen.cases_head path with same | ⟨y, link, later⟩
    · exact Or.inl same.symm
    · by_cases two : start = ⟨2⟩
      · rw [two, second, List.mem_singleton] at link
        rcases Relation.ReflTransGen.cases_head later with same | ⟨z, link', -⟩
        · exact Or.inr ⟨same.symm.trans link, two⟩
        · rw [link, others ⟨1⟩ (by decide)] at link'
          cases link'
      · rw [others start two] at link
        cases link
  · rintro (rfl | ⟨rfl, rfl⟩)
    · exact Relation.ReflTransGen.refl
    · refine Relation.ReflTransGen.single ?_
      rw [second]
      exact List.mem_singleton_self _

theorem twoBases_merge : MergeBases .default twoCommits twoBases := by
  intro base head found ok
  simp only [twoCommits_ancestors]
  have ok : (if (base = ⟨1⟩ ∨ base = ⟨2⟩) ∧ (head = ⟨1⟩ ∨ head = ⟨2⟩) then some ⟨1⟩
      else if base = head then some base else none) = found := Except.ok.inj ok
  subst ok
  split
  · rename_i both
    refine ⟨?_, nofun⟩
    rintro _ ⟨⟩
    obtain ⟨rfl | rfl, rfl | rfl⟩ := both <;> decide
  · rename_i apart
    split
    · rename_i same
      subst same
      refine ⟨?_, nofun⟩
      rintro _ ⟨⟩
      exact ⟨Or.inl rfl, Or.inl rfl⟩
    · rename_i different
      refine ⟨nofun, fun _ x => ?_⟩
      rintro ⟨rfl | ⟨rfl, rfl⟩, same | ⟨one, rfl⟩⟩
      · exact different same
      · exact apart ⟨Or.inl one, Or.inr rfl⟩
      · exact apart ⟨Or.inr rfl, Or.inl same.symm⟩
      · exact apart ⟨Or.inr rfl, Or.inr rfl⟩

theorem forward_compared :
    ∃ c, comparison .default twoCommits twoBases ⟨1⟩ ⟨2⟩ = .ok c ∧ c.mergeability = .fastForward ∧
      Answers .default twoCommits twoBases ⟨1⟩ ⟨2⟩ c.mergeability := by
  have ok : comparison .default twoCommits twoBases ⟨1⟩ ⟨2⟩ =
      .ok ⟨some ⟨1⟩, [⟨⟨2⟩, ⟨10⟩, [⟨1⟩], []⟩], [], [], .fastForward⟩ := by decide
  exact ⟨_, ok, rfl, ((comparison_exact twoBases_merge).1 _ _ _ ok).1⟩

end Tit.Git
