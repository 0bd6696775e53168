/-
# Events.IssueHistory -- an issue is what its events tell

The life of an issue (`issueCycle`) begins with its creation and nowhere else, it is closed only
while it is open and reopened only while it is closed, and edits and comments change nothing but the
times.  In every state of a run of store operations (`Events.System`) the events of an issue, in the
order of their insertion, are such a life, which ends in the row of the issue and in its comments
(`Told.lives`), and an issue that is not there has no events; so the events of an issue are never
lost, doubled or mixed with those of another one, whatever other transactions run in between.
-/
import Tit.Events.System
import Tit.Theory.Chronicle

namespace Tit.Events

open Tit.Theory Tit.Store Tit.Store.Database

set_option autoImplicit false

/-! ## The life of an issue -/

/-- What an issue shows of what happened to it. -/
structure Life where
  repositoryId : Identifier
  state : IssueState
  createdAt : Int
  updatedAt : Int
  closedAt : Option Int
  comments : List Int
  deriving DecidableEq, Repr

/-- An event that may happen to this issue leaves this of it. -/
def Life.next (l : Life) (e : RepositoryEvent) : Option Life :=
  if e.repositoryId ≠ l.repositoryId then none
  else
    match e.kind with
    | .issueEdited => some { l with updatedAt := e.createdAt }
    | .issueCommented =>
        some { l with updatedAt := e.createdAt, comments := l.comments ++ [e.createdAt] }
    | .issueClosed =>
        if l.state = .open then
          some { l with
            state := .closed, updatedAt := e.createdAt, closedAt := some e.createdAt }
        else none
    | .issueReopened =>
        if l.state = .closed then
          some { l with state := .open, updatedAt := e.createdAt, closedAt := none }
        else none
    | _ => none

theorem Life.repository_of_next {l l' : Life} {e : RepositoryEvent} (next : l.next e = some l') :
    e.repositoryId = l.repositoryId ∧ l'.repositoryId = l.repositoryId := by
  unfold Life.next at next
  split at next
  · cases next
  · rename_i same
    refine ⟨not_not.mp same, ?_⟩
    split at next
    · cases next
      rfl
    · cases next
      rfl
    · split at next
      · cases next
        rfl
      · cases next
    · split at next
      · cases next
        rfl
      · cases next
    · cases next

/-- The first event of an issue. -/
def Life.first (e : RepositoryEvent) : Option Life :=
  if e.kind = .issueCreated then
    some
      { repositoryId := e.repositoryId, state := .open, createdAt := e.createdAt
        updatedAt := e.createdAt, closedAt := none, comments := [] }
  else none

theorem Life.repository_of_first {l : Life} {e : RepositoryEvent} (born : Life.first e = some l) :
    e.repositoryId = l.repositoryId := by
  unfold Life.first at born
  split at born
  · cases born
    rfl
  · cases born

def issueCycle : LifeCycle RepositoryEvent Life := ⟨Life.first, Life.next⟩

/-! ## The events and comments of an issue -/

def issueEvents (t : Table RepositoryEvent) (id : Identifier) : List RepositoryEvent :=
  historyOf (·.issueId) t.rows id

/-- When the comments were made, in the order of their insertion. -/
def commentTimes (t : Table IssueComment) (id : Identifier) : List Int :=
  (t.rows.filter fun c => decide (c.issueId = id)).map (·.createdAt)

def lifeOf (db : Database) (i : Issue) : Life where
  repositoryId := i.repositoryId
  state := i.state
  createdAt := i.createdAt
  updatedAt := i.updatedAt
  closedAt := i.closedAt
  comments := commentTimes db.issueComments i.id

def lifeAt (db : Database) (id : Identifier) : Option Life := (db.issues.get id).map (lifeOf db)

theorem commentTimes_insert {t t' : Table IssueComment} {c : IssueComment}
    (inserted : t.insert c = .ok t') (id : Identifier) :
    commentTimes t' id =
      commentTimes t id ++ if c.issueId = id then [c.createdAt] else [] := by
  unfold commentTimes
  rw [Table.ofRows_eq_ok inserted, List.filter_append, List.map_append]
  congr 1
  by_cases own : c.issueId = id
  · rw [if_pos own, List.filter_cons_of_pos (by simpa using own), List.filter_nil, List.map_cons,
      List.map_nil]
  · rw [if_neg own, List.filter_cons_of_neg (by simpa using own), List.filter_nil, List.map_nil]

/-- Events of no subject leave all histories alone. -/
theorem historyOf_appended {subject : RepositoryEvent → Option Identifier}
    {t t' : Table RepositoryEvent} (appended : Appended (subject · = none) t t') (id : Identifier) :
    historyOf subject t'.rows id = historyOf subject t.rows id := by
  induction appended with
  | refl => rfl
  | snoc _ fits _ rows ih =>
      rw [rows, historyOf_other (by rw [fits]; nofun)]
      exact ih

/-! ## The invariant -/

/-- **Issues and comments are what the events of the issues tell.** -/
structure Told (db : Database) : Prop where
  lives : Tells issueCycle (·.issueId) db.repositoryEvents.rows (lifeAt db)
  comments : ∀ c ∈ db.issueComments, ∃ i ∈ db.issues, i.id = c.issueId

/-- The issues, the comments and the histories stay. -/
structure IssuesKept (db db' : Database) : Prop where
  issues : db'.issues = db.issues
  comments : db'.issueComments = db.issueComments
  events : ∀ id, issueEvents db'.repositoryEvents id = issueEvents db.repositoryEvents id

namespace Told

variable {db db' : Database}

theorem initial : Told .initial :=
  ⟨Tells.empty, fun c hc => absurd hc (Table.not_mem_empty c)⟩

theorem of_kept (told : Told db) (kept : IssuesKept db db') : Told db' := by
  refine ⟨fun id => ?_, fun c hc => ?_⟩
  · have events := kept.events id
    unfold issueEvents at events
    have same : lifeOf db' = lifeOf db := by
      unfold lifeOf
      rw [kept.comments]
    rw [events, told.lives id, lifeAt, lifeAt, same, kept.issues]
  · rw [kept.comments] at hc
    rw [kept.issues]
    exact told.comments c hc

/-- **One more event of one issue.** -/
theorem snoc (told : Told db) {id : Identifier} {row : RepositoryEvent}
    (rows : db'.repositoryEvents.rows = db.repositoryEvents.rows ++ [row])
    (own : row.issueId = some id)
    (here : issueCycle.advance (lifeAt db id) row = some (lifeAt db' id))
    (elsewhere : ∀ other, other ≠ id → lifeAt db' other = lifeAt db other)
    (comments : ∀ c ∈ db'.issueComments, ∃ i ∈ db'.issues, i.id = c.issueId) : Told db' := by
  refine ⟨?_, comments⟩
  rw [rows]
  exact told.lives.snoc own here elsewhere

/-- An issue that is not there has no comments. -/
theorem silent (told : Told db) {id : Identifier} (missing : db.issues.get id = none) :
    commentTimes db.issueComments id = [] := by
  unfold commentTimes
  rw [List.map_eq_nil_iff, List.filter_eq_nil_iff]
  intro c hc own
  obtain ⟨i, hi, same⟩ := told.comments c hc
  rw [Table.get_eq_none] at missing
  exact missing i hi (same.trans (of_decide_eq_true own))

end Told

/-! ## Other transactions -/

section Kept

variable {db db' : Database}

theorem IssuesKept.of_log (appended : Appended (·.issueId = none) db.repositoryEvents
      db'.repositoryEvents) (issues : db'.issues = db.issues)
    (comments : db'.issueComments = db.issueComments) : IssuesKept db db' :=
  ⟨issues, comments, historyOf_appended appended⟩

theorem insertPullRequestEvent_kept {repositoryId pullRequestId : Identifier} {actor : String}
    {createdAt : Int} {event : VersionedEvent}
    (ok : db.insertPullRequestEvent repositoryId pullRequestId actor createdAt event = .ok db') :
    IssuesKept db db' := by
  obtain ⟨_, -, inserted⟩ := bind_eq_ok.mp ok
  obtain ⟨events, rfl, appended⟩ :=
    @insertDomainEvent_appended _ _ _ (·.issueId = none) inserted rfl
  exact .of_log appended rfl rfl

/-- An event of no issue and of no pull request. -/
def Bare (e : RepositoryEvent) : Prop := e.issueId = none ∧ e.pullRequestId = none

theorem insertInitialReferences_bare {repository : NewRepository}
    {references : List NewRepositoryReference}
    (ok : references.foldlM (insertInitialReference repository) db = .ok db') :
    ∃ repositoryEvents, db' = { db with repositoryEvents } ∧
      Appended Bare db.repositoryEvents repositoryEvents := by
  induction references generalizing db with
  | nil =>
      cases ok
      exact ⟨_, rfl, .refl⟩
  | cons reference references ih =>
      rw [List.foldlM_cons, bind_eq_ok] at ok
      obtain ⟨db₁, first, rest⟩ := ok
      obtain ⟨tag, -, inserted⟩ := bind_eq_ok.mp first
      obtain ⟨events, rfl, appended⟩ := @insertDomainEvent_appended _ _ _ Bare inserted ⟨rfl, rfl⟩
      obtain ⟨events', rfl, appended'⟩ := ih rest
      exact ⟨events', rfl, appended.trans appended'⟩

theorem createRepository_bare {repository : NewRepository}
    (ok : db.createRepository repository = .ok db') :
    ∃ repositories repositoryDefaultBranches repositoryEvents auditEvents,
      db' = { db with
        repositories, repositoryDefaultBranches, repositoryEvents, auditEvents } ∧
      Appended Bare db.repositoryEvents repositoryEvents := by
  simp only [createRepository, bind_eq_ok, sqlite_eq_ok] at ok
  obtain ⟨_, -, _, -, repositories, -, branches, -, db₁, created, db₂, references, audit⟩ := ok
  obtain ⟨events, rfl, appended⟩ := @insertDomainEvent_appended _ _ _ Bare created ⟨rfl, rfl⟩
  obtain ⟨events', rfl, appended'⟩ := insertInitialReferences_bare references
  obtain ⟨auditEvents, -, rfl⟩ := insertAuditEvent_eq_ok.mp audit
  exact ⟨repositories, branches, events', auditEvents, rfl, appended.trans appended'⟩

theorem insertRefEvents_bare {i : GitOperationIntent} {repositoryId : Identifier}
    {pairs : List ((RefName × ObjectId) × (RefName × ObjectId))} {ordinal : Nat}
    (ok : insertRefEvents i repositoryId db ordinal pairs = .ok db') :
    ∃ repositoryEvents, db' = { db with repositoryEvents } ∧
      Appended Bare db.repositoryEvents repositoryEvents := by
  induction pairs generalizing db ordinal with
  | nil =>
      cases ok
      exact ⟨_, rfl, .refl⟩
  | cons pair rest ih =>
      obtain ⟨⟨oldName, old⟩, newName, new⟩ := pair
      simp only [insertRefEvents, bind_eq_ok] at ok
      obtain ⟨_, -, tag, -, db₁, inserted, later⟩ := ok
      obtain ⟨events, rfl, first⟩ := @insertDomainEvent_appended _ _ _ Bare inserted ⟨rfl, rfl⟩
      obtain ⟨events', rfl, second⟩ := ih later
      exact ⟨events', rfl, first.trans second⟩

theorem insertPushEvents_bare {i : GitOperationIntent} (ok : db.insertPushEvents i = .ok db') :
    ∃ repositoryEvents auditEvents, db' = { db with repositoryEvents, auditEvents } ∧
      Appended Bare db.repositoryEvents repositoryEvents := by
  unfold insertPushEvents at ok
  split at ok
  · cases ok
    exact ⟨_, _, rfl, .refl⟩
  · simp only [bind_eq_ok] at ok
    obtain ⟨_, -, db₁, push, db₂, refs, audit⟩ := ok
    obtain ⟨events, rfl, first⟩ := @insertDomainEvent_appended _ _ _ Bare push ⟨rfl, rfl⟩
    obtain ⟨events', rfl, second⟩ := insertRefEvents_bare refs
    obtain ⟨auditEvents, -, rfl⟩ := insertAuditEvent_eq_ok.mp audit
    exact ⟨events', auditEvents, rfl, first.trans second⟩

theorem createRepository_kept {repository : NewRepository}
    (ok : db.createRepository repository = .ok db') : IssuesKept db db' := by
  obtain ⟨repositories, branches, events, auditEvents, rfl, appended⟩ := createRepository_bare ok
  exact .of_log (appended.mono fun _ bare => bare.1) rfl rfl

theorem beginPullRequestOpen_kept {intent : NewPullRequestRefIntent} {row : PullRequestRefIntent}
    (ok : db.beginPullRequestOpen intent = .ok (db', row)) : IssuesKept db db' := by
  simp only [beginPullRequestOpen, bind_eq_ok, sqlite_eq_ok, pure_eq_ok, Except.ok.injEq,
    Prod.mk.injEq] at ok
  obtain ⟨⟨repositoryId, actorId⟩, -, ⟨db₁, number⟩, taken, intents, inserted, rfl, rfl⟩ := ok
  obtain ⟨counters, rfl, -, -⟩ := takePullRequestNumber_eq_ok taken
  exact .of_log .refl rfl rfl

theorem beginPullRequestRevision_kept {number : Nat} {intent : NewPullRequestRefIntent}
    {row : PullRequestRefIntent}
    (ok : db.beginPullRequestRevision number intent = .ok (db', row)) : IssuesKept db db' := by
  simp only [beginPullRequestRevision, bind_eq_ok, pure_eq_ok, Except.ok.injEq, Prod.mk.injEq] at ok
  obtain ⟨⟨repositoryId, actorId⟩, -, stored, -, _, -, _, -, intents, -, rfl, -⟩ := ok
  exact .of_log .refl rfl rfl

theorem completePullRequestRefIntent_kept {id : Identifier}
    (ok : db.completePullRequestRefIntent id = .ok db') : IssuesKept db db' := by
  simp only [completePullRequestRefIntent, bind_eq_ok, sqlite_eq_ok, pure_eq_ok,
    Except.ok.injEq] at ok
  obtain ⟨intent, -, _, -, pullRequests, -, revisions, -, db₁, event, intents, -, rfl⟩ := ok
  obtain ⟨events, rfl, appended⟩ :=
    @insertDomainEvent_appended _ _ _ (·.issueId = none) event rfl
  exact .of_log appended rfl rfl

theorem abandonPullRequestRefIntent_kept {id : Identifier}
    (ok : db.abandonPullRequestRefIntent id = .ok db') : IssuesKept db db' := by
  obtain ⟨intents, -, rfl⟩ := abandonPullRequestRefIntent_eq_ok ok
  exact .of_log .refl rfl rfl

theorem editPullRequest_kept {edit : PullRequestEdit} (ok : db.editPullRequest edit = .ok db') :
    IssuesKept db db' := by
  simp only [editPullRequest, bind_eq_ok, sqlite_eq_ok] at ok
  obtain ⟨access, -, current, -, _, -, _, -, pullRequests, updated, event⟩ := ok
  have kept := insertPullRequestEvent_kept event
  exact ⟨kept.issues, kept.comments, kept.events⟩

theorem createPullRequestReview_kept {review : NewPullRequestReview} {id : Nat}
    (ok : db.createPullRequestReview review = .ok (db', id)) : IssuesKept db db' := by
  simp only [createPullRequestReview, bind_eq_ok, sqlite_eq_ok, pure_eq_ok, Except.ok.injEq,
    Prod.mk.injEq] at ok
  obtain ⟨access, -, _, -, actorId, -, p, -, _, -, r, -, _, -, reviews, -, pullRequests, updated,
    db₁, event, rfl, -⟩ := ok
  have kept := insertPullRequestEvent_kept event
  exact ⟨kept.issues, kept.comments, kept.events⟩

theorem setPullRequestState_kept {owner repository : String} {number : Nat} {actor : String}
    {state : PullRequestState} {changedAt : Int}
    (ok : db.setPullRequestState owner repository number actor state changedAt = .ok db') :
    IssuesKept db db' := by
  simp only [setPullRequestState, bind_eq_ok, sqlite_eq_ok] at ok
  obtain ⟨access, -, current, -, _, -, _, -, pullRequests, updated, event⟩ := ok
  have kept := insertPullRequestEvent_kept event
  exact ⟨kept.issues, kept.comments, kept.events⟩

theorem beginGitIntent_kept {intent : NewGitOperationIntent}
    (ok : db.beginGitIntent intent = .ok db') : IssuesKept db db' := by
  obtain ⟨intents, -, rfl⟩ := beginGitIntent_eq_ok ok
  exact .of_log .refl rfl rfl

theorem beginPullRequestMerge_kept {merge : NewPullRequestMerge} {intent : NewGitOperationIntent}
    (ok : db.beginPullRequestMerge merge intent = .ok db') : IssuesKept db db' := by
  obtain ⟨_, _, _, intents, merges, -, -, -, -, -, -, -, rfl⟩ := beginPullRequestMerge_eq_ok ok
  exact .of_log .refl rfl rfl

theorem markGitObjectsPromoted_kept {id : Identifier} {packName : Option PackName}
    (ok : db.markGitObjectsPromoted id packName = .ok db') : IssuesKept db db' := by
  obtain ⟨i, -, -, -, intents, rfl, -⟩ := Git.markGitObjectsPromoted_rows ok
  exact .of_log .refl rfl rfl

theorem abandonGitIntent_kept {id : Identifier} (ok : db.abandonGitIntent id = .ok db') :
    IssuesKept db db' := by
  obtain ⟨i, -, -, -, intents, -, rfl⟩ := abandonGitIntent_eq_ok ok
  exact .of_log .refl rfl rfl

/-- A push is of no issue, and a merge of its pull request. -/
theorem completeGitIntent_kept {id : Identifier} (ok : db.completeGitIntent id = .ok db') :
    IssuesKept db db' := by
  simp only [completeGitIntent, bind_eq_ok, required_eq_ok, sqlite_eq_ok] at ok
  obtain ⟨i, -, intents, -, _, -, gitEvents, -, db₁, pushed, merged⟩ := ok
  obtain ⟨events, auditEvents, rfl, appended⟩ := insertPushEvents_bare pushed
  have pushed := appended.mono fun e (bare : Bare e) => bare.1
  unfold completePullRequestMerge at merged
  split at merged
  · cases merged
    exact .of_log pushed rfl rfl
  · simp only [bind_eq_ok, sqlite_eq_ok] at merged
    obtain ⟨_, -, pullRequests, -, _, -, event⟩ := merged
    obtain ⟨events', rfl, appended'⟩ :=
      @insertDomainEvent_appended _ _ _ (·.issueId = none) event rfl
    exact .of_log (pushed.trans appended') rfl rfl

end Kept

/-! ## The transactions on issues -/

section Issues

variable {db db' : Database}

/-- What the context of a mutation names is a row of the table. -/
theorem issueMutationContext_eq_ok {owner repository actor : String} {number : Nat}
    {access : RepositoryIssueAccess} {current : StoredIssue}
    (ok : db.issueMutationContext owner repository number actor = .ok (access, current)) :
    ∃ i ∈ db.issues, i.repositoryId = access.repository.id ∧ i.number = number ∧
      current.issue.id = i.id ∧ current.issue.state = i.state := by
  simp only [issueMutationContext, findIssue, bind_eq_ok, required_eq_ok, pure_eq_ok,
    Except.ok.injEq, Prod.mk.injEq] at ok
  obtain ⟨_, -, _, -, _, -, _, ⟨i, found, record, shown, rfl⟩, rfl, rfl⟩ := ok
  obtain ⟨hi, chosen⟩ := Table.mem_of_find found
  obtain ⟨inRepository, numbered⟩ := of_decide_eq_true chosen
  obtain ⟨author, -, rfl⟩ := Option.map_eq_some_iff.mp shown
  exact ⟨i, hi, inRepository, numbered, rfl, rfl⟩

/-- The update of one issue. -/
theorem get_update_issue {issues issues' : Table Issue} {id : Identifier} {f : Issue → Issue}
    (updated : issues.update (fun i => decide (i.id = id)) f = .ok issues')
    (same : ∀ i, (f i).id = i.id) (other : Identifier) :
    issues'.get other = if other = id then (issues.get other).map f else issues.get other := by
  rw [Table.get_update updated same other]
  cases found : issues.get other with
  | none => rw [Option.map_none, Option.map_none, ite_self]
  | some i =>
      obtain ⟨-, own⟩ := Table.get_eq_some.mp found
      have own : i.id = other := own
      rw [Option.map_some, Option.map_some, own]
      by_cases here : other = id
      · rw [if_pos here, if_pos (decide_eq_true here)]
      · rw [if_neg here, if_neg (by simpa using here)]

/-- The rows that are left have the keys that there were. -/
theorem kept_issue {issues issues' : Table Issue} {id key : Identifier} {f : Issue → Issue}
    (updated : issues.update (fun i => decide (i.id = id)) f = .ok issues')
    (same : ∀ i, (f i).id = i.id) (there : ∃ i ∈ issues, i.id = key) :
    ∃ i ∈ issues', i.id = key := by
  obtain ⟨i, hi, rfl⟩ := there
  refine ⟨_, (Table.mem_update updated).mpr ⟨i, hi, rfl⟩, ?_⟩
  split
  · exact same i
  · rfl

/-- The event of an issue is the last of the log. -/
theorem insertIssueEvent_rows {repositoryId issueId : Identifier} {actor : String}
    {createdAt : Int} {event : VersionedEvent}
    (ok : db.insertIssueEvent repositoryId issueId actor createdAt event = .ok db') :
    ∃ repositoryEvents row, db' = { db with repositoryEvents } ∧
      repositoryEvents.rows = db.repositoryEvents.rows ++ [row] ∧ row.issueId = some issueId ∧
      row.repositoryId = repositoryId ∧ row.kind = event.kind ∧ row.createdAt = createdAt := by
  obtain ⟨_, -, inserted⟩ := bind_eq_ok.mp ok
  obtain ⟨events, added, rfl⟩ := insertDomainEvent_eq_ok.mp inserted
  exact ⟨events, _, rfl, Table.ofRows_eq_ok added, rfl, rfl, rfl, rfl⟩

/-- **A change of one row is told by the event that comes with it.** -/
theorem Told.update (told : Told db) {i : Issue} (hi : i ∈ db.issues) {issues : Table Issue}
    {f : Issue → Issue} (updated : db.issues.update (fun j => decide (j.id = i.id)) f = .ok issues)
    (same : ∀ j, (f j).id = j.id) {actor : String} {createdAt : Int} {event : VersionedEvent}
    (ok : { db with issues }.insertIssueEvent i.repositoryId i.id actor createdAt event = .ok db')
    (fits : ∀ e : RepositoryEvent, e.repositoryId = i.repositoryId → e.kind = event.kind →
      e.createdAt = createdAt → (lifeOf db i).next e = some (lifeOf db (f i))) : Told db' := by
  obtain ⟨events, row, rfl, rows, own, inRepository, kind, at_⟩ := insertIssueEvent_rows ok
  have found := get_update_issue updated same
  have here : db.issues.get i.id = some i := Table.get_of_mem hi
  refine told.snoc rows own ?_ ?_ fun c hc => kept_issue updated same (told.comments c hc)
  · have after : lifeAt { db with issues, repositoryEvents := events } i.id =
        some (lifeOf db (f i)) := by
      unfold lifeAt
      rw [found, if_pos rfl, here]
      rfl
    rw [after, lifeAt, here, Option.map_some, LifeCycle.advance_some]
    exact congrArg (Option.map some) (fits row inRepository kind at_)
  · intro other apart
    unfold lifeAt
    rw [found, if_neg apart]
    rfl

theorem createIssue_told {issue : NewIssue} {record : IssueRecord} (told : Told db)
    (ok : db.createIssue issue = .ok (db', record)) : Told db' := by
  simp only [createIssue, bind_eq_ok, sqlite_eq_ok, pure_eq_ok, Except.ok.injEq,
    Prod.mk.injEq] at ok
  obtain ⟨access, -, _, -, actorId, -, ⟨db₁, number⟩, taken, issues, inserted, db₂, event, rfl,
    -⟩ := ok
  obtain ⟨counters, rfl, -⟩ := takeIssueNumber_eq_ok taken
  obtain ⟨events, row, rfl, rows, own, inRepository, kind, at_⟩ := insertIssueEvent_rows event
  have missing : db.issues.get issue.id = none := by
    rw [Table.get_eq_none]
    exact fun i hi same => Table.insert_fresh inserted i hi (Schema.clash_of_key _ _ same)
  have stored := Table.get_of_mem ((Table.mem_insert inserted).mpr (Or.inr rfl))
  have others : ∀ other, other ≠ issue.id → issues.get other = db.issues.get other :=
    fun other apart => (Table.get_insert inserted other).trans (if_neg fun same => apart same.symm)
  refine told.snoc rows own ?_ ?_ ?_
  · have created : row.kind = .issueCreated := kind
    have born :
        lifeAt { db with repositoryCounters := counters, issues, repositoryEvents := events }
          issue.id =
        some ⟨access.repository.id, .open, issue.createdAt, issue.createdAt, none, []⟩ := by
      rw [lifeAt]
      refine (congrArg (Option.map _) stored).trans ?_
      simp only [Option.map_some, lifeOf, told.silent missing]
    have first : issueCycle.first row =
        some ⟨access.repository.id, .open, issue.createdAt, issue.createdAt, none, []⟩ := by
      show Life.first row = _
      rw [Life.first, if_pos created, inRepository, at_]
    rw [lifeAt, missing, Option.map_none, LifeCycle.advance_none, first, born, Option.map_some]
  · intro other apart
    unfold lifeAt
    exact congrArg (Option.map _) (others other apart)
  · intro c hc
    obtain ⟨i, hi, same⟩ := told.comments c hc
    exact ⟨i, (Table.mem_insert inserted).mpr (Or.inl hi), same⟩

theorem editIssue_told {change : IssueChange} {title body : String} (told : Told db)
    (ok : db.editIssue change title body = .ok db') : Told db' := by
  simp only [editIssue, bind_eq_ok, sqlite_eq_ok] at ok
  obtain ⟨⟨access, current⟩, context, _, -, issues, updated, event⟩ := ok
  obtain ⟨i, hi, inRepository, -, same, -⟩ := issueMutationContext_eq_ok context
  rw [same] at updated
  rw [same, ← inRepository] at event
  refine told.update hi updated (fun _ => rfl) event fun e here kind at_ => ?_
  have edited : e.kind = .issueEdited := kind
  simp only [Life.next, lifeOf, here, edited, at_, ne_eq, not_true_eq_false, if_false]

theorem setIssueState_told {owner repository : String} {number : Nat} {actor : String}
    {state : IssueState} {changedAt : Int} (told : Told db)
    (ok : db.setIssueState owner repository number actor state changedAt = .ok db') :
    Told db' := by
  simp only [setIssueState, bind_eq_ok, sqlite_eq_ok, ensure_eq_ok] at ok
  obtain ⟨⟨access, current⟩, context, _, -, _, changes, issues, updated, event⟩ := ok
  obtain ⟨i, hi, inRepository, -, same, before⟩ := issueMutationContext_eq_ok context
  rw [before] at changes
  rw [same] at updated
  rw [same, ← inRepository] at event
  refine told.update hi updated (fun _ => rfl) event fun e here kind at_ => ?_
  cases state with
  | «open» =>
      have reopened : e.kind = .issueReopened := kind
      have closed : i.state = .closed := by
        cases was : i.state with
        | «open» => exact absurd was changes
        | closed => rfl
      simp only [Life.next, lifeOf, here, reopened, closed, at_, ne_eq, not_true_eq_false, if_false,
        if_true]
  | closed =>
      have closes : e.kind = .issueClosed := kind
      have isOpen : i.state = .open := by
        cases was : i.state with
        | «open» => rfl
        | closed => exact absurd was changes
      simp only [Life.next, lifeOf, here, closes, isOpen, at_, ne_eq, not_true_eq_false, if_false,
        if_true]

/-- A comment is one row more and one event more. -/
theorem commentIssue_told {owner repository : String} {number : Nat} {actor body : String}
    {createdAt : Int} {id : Nat} (told : Told db)
    (ok : db.commentIssue owner repository number actor body createdAt = .ok (db', id)) :
    Told db' := by
  simp only [commentIssue, bind_eq_ok, sqlite_eq_ok, pure_eq_ok, Except.ok.injEq,
    Prod.mk.injEq] at ok
  obtain ⟨⟨access, current⟩, context, actorId, -, _, -, comments, added, issues, updated, db₁,
    event, rfl, -⟩ := ok
  obtain ⟨i, hi, inRepository, -, same, -⟩ := issueMutationContext_eq_ok context
  rw [same] at updated added
  rw [same, ← inRepository] at event
  obtain ⟨events, row, rfl, rows, own, located, kind, at_⟩ := insertIssueEvent_rows event
  have found := get_update_issue updated fun _ => rfl
  have here : db.issues.get i.id = some i := Table.get_of_mem hi
  have times := commentTimes_insert added
  refine told.snoc rows own ?_ ?_ ?_
  · have commented : row.kind = .issueCommented := kind
    have located : row.repositoryId = i.repositoryId := located
    unfold lifeAt
    rw [found, if_pos rfl, here, Option.map_some, LifeCycle.advance_some]
    simp only [issueCycle, Life.next, lifeOf, located, commented, at_, times, ne_eq,
      not_true_eq_false, if_false, if_true, Option.map_some]
  · intro other apart
    unfold lifeAt
    rw [found, if_neg apart]
    cases there : db.issues.get other with
    | none => rfl
    | some j =>
        obtain ⟨-, key⟩ := Table.get_eq_some.mp there
        have key : j.id = other := key
        have silent : ¬i.id = j.id := fun both => apart (key.symm.trans both.symm)
        simp only [Option.map_some, lifeOf, times, if_neg silent, List.append_nil]
  · intro c hc
    rcases (Table.mem_insert added).mp hc with before | rfl
    · exact kept_issue updated (fun _ => rfl) (told.comments c before)
    · exact kept_issue updated (fun _ => rfl) ⟨i, hi, rfl⟩

end Issues

/-! ## The issues of every run -/

/-- **Every operation keeps the issues told by their events.** -/
theorem Told.perform {w : World} (told : Told w.db) (operation : Operation) :
    Told (w.perform operation).db := by
  have committed : ∀ result : Except StoreError Database,
      (∀ db', result = .ok db' → Told db') → Told (w.commit result).db := by
    intro result keeps
    cases result with
    | error e => exact told
    | ok db' => exact keeps db' rfl
  have kept : ∀ result : Except StoreError Database,
      (∀ db', result = .ok db' → IssuesKept w.db db') → Told (w.commit result).db :=
    fun result keeps => committed result fun db' ok => told.of_kept (keeps db' ok)
  cases operation with
  | createRepository repository => exact kept _ fun _ => createRepository_kept
  | createIssue issue =>
      simp only [World.perform]
      split
      · rename_i db record ok
        exact createIssue_told told ok
      · exact told
  | editIssue change title body => exact committed _ fun _ => editIssue_told told
  | commentIssue owner repository number actor body createdAt =>
      refine committed _ fun db' ok => ?_
      obtain ⟨⟨db₁, id⟩, first, rfl⟩ := map_eq_ok.mp ok
      exact commentIssue_told told first
  | setIssueState owner repository number actor state changedAt =>
      exact committed _ fun _ => setIssueState_told told
  | beginPullRequestOpen intent =>
      simp only [World.perform]
      split
      · rename_i db row ok
        exact told.of_kept (beginPullRequestOpen_kept ok)
      · exact told
  | beginPullRequestRevision number intent =>
      refine kept _ fun db' ok => ?_
      obtain ⟨⟨db₁, row⟩, first, rfl⟩ := map_eq_ok.mp ok
      exact beginPullRequestRevision_kept first
  | completePullRequestRefIntent id => exact kept _ fun _ => completePullRequestRefIntent_kept
  | abandonPullRequestRefIntent id => exact kept _ fun _ => abandonPullRequestRefIntent_kept
  | editPullRequest edit => exact kept _ fun _ => editPullRequest_kept
  | createPullRequestReview review =>
      refine kept _ fun db' ok => ?_
      obtain ⟨⟨db₁, id⟩, first, rfl⟩ := map_eq_ok.mp ok
      exact createPullRequestReview_kept first
  | setPullRequestState owner repository number actor state changedAt =>
      exact kept _ fun _ => setPullRequestState_kept
  | beginGitIntent intent => exact kept _ fun _ => beginGitIntent_kept
  | beginPullRequestMerge merge intent => exact kept _ fun _ => beginPullRequestMerge_kept
  | markGitObjectsPromoted id packName => exact kept _ fun _ => markGitObjectsPromoted_kept
  | completeGitIntent id =>
      simp only [World.perform]
      split
      · rename_i db ok
        exact told.of_kept (completeGitIntent_kept ok)
      · exact told
  | abandonGitIntent id => exact kept _ fun _ => abandonGitIntent_kept
  | elsewhere others => exact told.of_kept ⟨rfl, rfl, fun _ => rfl⟩

/-- What the log says of the issues of a database. -/
structure Chronicled (db : Database) : Prop where
  /-- An issue and its comments are where its events end. -/
  issue : ∀ i ∈ db.issues,
    run issueCycle.advance none (issueEvents db.repositoryEvents i.id) = some (some (lifeOf db i))
  /-- There are no events of other issues. -/
  others : ∀ e ∈ db.repositoryEvents, ∀ id, e.issueId = some id → ∃ i ∈ db.issues, i.id = id
  /-- Nor comments. -/
  comments : ∀ c ∈ db.issueComments, ∃ i ∈ db.issues, i.id = c.issueId

theorem Told.chronicled {db : Database} (told : Told db) : Chronicled db := by
  refine ⟨fun i hi => ?_, fun e he id own => ?_, told.comments⟩
  · have ends := told.lives i.id
    rw [lifeAt] at ends
    exact ends.trans (congrArg (fun found => some (Option.map _ found)) (Table.get_of_mem hi))
  · obtain ⟨l, there⟩ := told.lives.exists_life he own
    obtain ⟨i, found, -⟩ := Option.map_eq_some_iff.mp there
    exact ⟨i, Table.get_eq_some.mp found⟩

theorem always_told (operations : List Operation) :
    Always step (fun w => Logged w ∧ Told w.db) .initial operations := by
  apply always_of_steps
  · rintro w operation w' ⟨logged, told⟩ next
    cases next
    exact ⟨logged.perform operation, told.perform operation⟩
  · exact ⟨.initial, .initial⟩

/-- **In every run the issues are what their events tell.** -/
theorem issues_chronicled (operations : List Operation) :
    Always step (fun w => Chronicled w.db) .initial operations :=
  (always_told operations).mono fun _ ⟨_, told⟩ => told.chronicled

end Tit.Events
