/-
# Events.Timeline -- the pages of an issue show its whole history

An issue never moves between repositories, so its events have rising sequences in the order of their
insertion and the sort of a page by sequence is that order (`timelineRows_eq`).  The pages, cut by
number from the newest event on and each shown oldest first, join to the whole history of the issue,
which ends in what every one of the pages shows of it.
-/
import Tit.Events.IssueHistory
import Tit.Theory.Paging

namespace Tit.Events

open Tit.Theory Tit.Store Tit.Store.Database

set_option autoImplicit false

/-! ## The order of the events -/

/-- Issues do not move between repositories: all their events are in theirs. -/
theorem repository_of_run {events : List RepositoryEvent} {l : Life}
    (ran : run issueCycle.advance none events = some (some l)) :
    ∀ e ∈ events, e.repositoryId = l.repositoryId :=
  LifeCycle.constant_of_run Life.repository_of_first Life.repository_of_next ran

/-- The events of an issue are numbered upwards. -/
theorem issueEvents_increasing {t : Table RepositoryEvent} {id repositoryId : Identifier}
    (contiguous : Contiguous t)
    (located : ∀ e ∈ issueEvents t id, e.repositoryId = repositoryId) :
    (issueEvents t id).Pairwise fun a b => a.sequence < b.sequence := by
  have numbered : (sequencesOf t repositoryId).Pairwise (· < ·) := by
    rw [contiguous repositoryId]
    exact List.pairwise_lt_range'
  have inside : (issueEvents t id).filter (fun e => decide (e.repositoryId = repositoryId)) =
      issueEvents t id :=
    List.filter_eq_self.mpr fun e he => decide_eq_true (located e he)
  rw [← inside]
  exact (List.pairwise_map.mp numbered).sublist (List.filter_sublist.filter _)

/-- An event as the page of its issue shows it. -/
def timelineRecord (e : RepositoryEvent) : TimelineRecord where
  sequence := e.sequence
  kind := e.kind
  actor := e.actor
  createdAt := e.createdAt

/-- The order of the sequences is that of the insertion. -/
theorem timelineRows_eq {db : Database} {id : Identifier}
    (increasing : (issueEvents db.repositoryEvents id).Pairwise fun a b =>
      a.sequence < b.sequence) :
    db.timelineRows (fun e => decide (e.issueId = some id)) =
      ((issueEvents db.repositoryEvents id).map timelineRecord).reverse := by
  have one : ((issueEvents db.repositoryEvents id).map (·.sequence)).Nodup :=
    List.pairwise_map.mpr (increasing.imp Nat.ne_of_lt)
  have total : Std.Total fun a b : TimelineRecord => b.sequence ≤ a.sequence :=
    ⟨fun a b => Nat.le_total b.sequence a.sequence⟩
  have trans : IsTrans TimelineRecord fun a b => b.sequence ≤ a.sequence :=
    ⟨fun a b c first second => Nat.le_trans second first⟩
  refine @List.Perm.eq_of_pairwise _ (fun a b : TimelineRecord => b.sequence ≤ a.sequence) _ _ ?_
    (List.pairwise_insertionSort _ _) ?_ ?_
  · intro a b ha hb below above
    have ha := (List.mem_insertionSort _).mp ha
    rw [List.mem_reverse] at hb
    obtain ⟨x, hx, rfl⟩ := List.mem_map.mp ha
    obtain ⟨y, hy, rfl⟩ := List.mem_map.mp hb
    have same : x = y := List.inj_on_of_nodup_map one hx hy (Nat.le_antisymm above below)
    rw [same]
    rfl
  · rw [List.pairwise_reverse, List.pairwise_map]
    exact increasing.imp Nat.le_of_lt
  · exact (List.perm_insertionSort _ _).trans (List.reverse_perm _).symm

/-! ## The pages of an issue -/

section Pages

variable {db : Database} {owner repository : String} {number : Nat} {actor : Option String}
  {pageSize : Nat}

/-- The issue that a page is about. -/
def PageOf (db : Database) (owner repository : String) (number : Nat) (actor : Option String)
    (i : Issue) : Prop :=
  ∃ access, db.readableRepository owner repository actor .issueHidden = .ok access ∧
    db.issues.find (fun i => decide (i.repositoryId = access.repository.id ∧ i.number = number)) =
      some i

theorem PageOf.eq {i j : Issue} (first : PageOf db owner repository number actor i)
    (second : PageOf db owner repository number actor j) : i = j := by
  obtain ⟨access, read, found⟩ := first
  obtain ⟨access', read', found'⟩ := second
  rw [read, Except.ok.injEq] at read'
  subst read'
  rw [found, Option.some.injEq] at found'
  exact found'

theorem issueDetail_eq_ok {pagination : TimelinePagination} {d : IssueDetail}
    (ok : db.issueDetail owner repository number actor pagination = .ok d) :
    ∃ i, PageOf db owner repository number actor i ∧ (∃ author, d.issue = issueRecord i author) ∧
      (d.timeline, d.timelineHasNext) =
        Prod.map List.reverse id (pageRows
          (db.timelineRows fun e => decide (e.issueId = some i.id))
          ((pagination.timelinePage - 1) * pagination.pageSize) pagination.pageSize) := by
  simp only [issueDetail, findIssue, pageOffset, eventLimited, bind_eq_ok, required_eq_ok,
    pure_eq_ok, Except.ok.injEq] at ok
  obtain ⟨access, read, current, ⟨i, found, record, shown, rfl⟩, _, -, _, -, _, ⟨_, -, _, -, rfl⟩,
    rfl⟩ := ok
  obtain ⟨author, -, rfl⟩ := Option.map_eq_some_iff.mp shown
  exact ⟨i, ⟨access, read, found⟩, ⟨author, rfl⟩, rfl⟩

/-- The pages of an issue's timeline, read one after another in one database, up to the last one. -/
structure ReadThrough (db : Database) (owner repository : String) (number : Nat)
    (actor : Option String) (pageSize : Nat) (details : List IssueDetail) : Prop where
  pages : ∀ k d, details[k]? = some d → ∃ primaryPage,
    db.issueDetail owner repository number actor ⟨primaryPage, k + 1, pageSize⟩ = .ok d
  last : ∃ d, details.getLast? = some d ∧ d.timelineHasNext = false

/-- **The pages, the last one first, are all the events of the issue.** -/
theorem ReadThrough.timeline {details : List IssueDetail}
    (contiguous : Contiguous db.repositoryEvents) (told : Told db)
    (read : ReadThrough db owner repository number actor pageSize details) :
    ∃ i ∈ db.issues, i.number = number ∧ (∀ d ∈ details, ∃ author, d.issue = issueRecord i author) ∧
      (details.reverse.map (·.timeline)).flatten =
        (issueEvents db.repositoryEvents i.id).map timelineRecord ∧
      run issueCycle.advance none (issueEvents db.repositoryEvents i.id) =
        some (some (lifeOf db i)) := by
  obtain ⟨last, latest, ended⟩ := read.last
  rw [List.getLast?_eq_getElem?] at latest
  obtain ⟨_, shown⟩ := read.pages _ _ latest
  obtain ⟨i, here, -, lastPage⟩ := issueDetail_eq_ok shown
  have every : ∀ k d, details[k]? = some d → (∃ author, d.issue = issueRecord i author) ∧
      (d.timeline, d.timelineHasNext) = Prod.map List.reverse id (pageRows
        (db.timelineRows fun e => decide (e.issueId = some i.id)) (k * pageSize) pageSize) := by
    intro k d found
    obtain ⟨_, shown⟩ := read.pages k d found
    obtain ⟨j, there, same, page⟩ := issueDetail_eq_ok shown
    obtain rfl := here.eq there
    exact ⟨same, page⟩
  obtain ⟨access, -, found⟩ := here
  obtain ⟨hi, chosen⟩ := Table.mem_of_find found
  have lives := told.lives i.id
  rw [show lifeAt db i.id = some (lifeOf db i) from congrArg (Option.map _) (Table.get_of_mem hi)]
    at lives
  refine ⟨i, hi, (of_decide_eq_true chosen).2, fun d hd => ?_, ?_, lives⟩
  · obtain ⟨k, at_⟩ := List.getElem?_of_mem hd
    exact (every k d at_).1
  · have rows := timelineRows_eq (issueEvents_increasing contiguous (repository_of_run lives))
    have cut : ∀ k page, (details.map (·.timeline.reverse))[k]? = some page → page =
        ((db.timelineRows fun e => decide (e.issueId = some i.id)).drop (k * pageSize)).take
          pageSize := by
      intro k page found
      rw [List.getElem?_map, Option.map_eq_some_iff] at found
      obtain ⟨d, at_, rfl⟩ := found
      have page := congrArg Prod.fst (every k d at_).2
      simp only [pageRows, Prod.map_fst] at page
      rw [page, List.reverse_reverse, List.take_take, Nat.min_eq_left (Nat.le_succ pageSize)]
    have whole : (db.timelineRows fun e => decide (e.issueId = some i.id)).length ≤
        (details.map (·.timeline.reverse)).length * pageSize := by
      have short := congrArg Prod.snd lastPage
      simp only [pageRows, Prod.map_snd, id_eq, ended, List.length_take, List.length_drop,
        Nat.add_sub_cancel] at short
      have short := of_decide_eq_false short.symm
      have nonempty : details.length ≠ 0 := by
        intro empty
        rw [List.length_eq_zero_iff.mp empty] at latest
        cases latest
      obtain ⟨n, count⟩ := Nat.exists_eq_succ_of_ne_zero nonempty
      rw [List.length_map, count, Nat.succ_mul]
      rw [count, Nat.succ_sub_one] at short
      omega
    have joined := Paging.offset_pages_all cut whole
    rw [rows] at joined
    rw [← List.reverse_inj, ← joined, List.reverse_flatten]
    simp only [List.map_reverse, List.reverse_reverse, List.map_map, Function.comp_def]

end Pages

/-- **In every run the pages of an issue show all that happened to it.** -/
theorem timelines_read (operations : List Operation) :
    Always step (fun w => ∀ owner repository number actor pageSize details,
      ReadThrough w.db owner repository number actor pageSize details →
        ∃ i ∈ w.db.issues, i.number = number ∧
          (∀ d ∈ details, ∃ author, d.issue = issueRecord i author) ∧
          (details.reverse.map (·.timeline)).flatten =
            (issueEvents w.db.repositoryEvents i.id).map timelineRecord ∧
          run issueCycle.advance none (issueEvents w.db.repositoryEvents i.id) =
            some (some (lifeOf w.db i))) .initial operations :=
  (always_told operations).mono fun _ ⟨logged, told⟩ _ _ _ _ _ _ read =>
    read.timeline logged.recorded.contiguous told

/-- An issue of `alice` that was closed, on pages of one event. -/
example :
    let w := [.elsewhere oneRepository, .createIssue ⟨5, "alice", "tit", "alice", "Title", "", 7⟩,
      .setIssueState "alice" "tit" 1 "alice" .closed 8].foldl World.perform .initial
    [1, 2].map (fun page =>
      (w.db.issueDetail "alice" "tit" 1 (some "alice") ⟨1, page, 1⟩).toOption.map fun d =>
        (d.issue.state, d.timeline.map (·.kind), d.timelineHasNext)) =
      [some (.closed, [.issueClosed], true), some (.closed, [.issueCreated], false)] := by
  decide +kernel

end Tit.Events
