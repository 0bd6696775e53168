/-
# Store.EventLog -- the log takes events one after another

`insert_domain_event` gives an event the next sequence of its repository.  `Appended P t t'` says that
the log went from `t` to `t'` by such events, each of which satisfies `P`; it composes, it keeps the
sequences of every repository without a gap (`Appended.contiguous`), and events without a source leave
the events of every Git intent alone (`Appended.unsourced`).

A transaction is `Plain` when all its events are without a source and it touches neither the Git
intents nor the counters.  New issues and new pull requests are plain but for the number they take,
and the completion of an intent appends events of that intent alone, in the repository of its path.
-/
import Tit.Store.GitCompletion
import Tit.Store.Review
import Tit.Store.Issue

namespace Tit.Store

open Tit.Theory

set_option autoImplicit false

/-! ## Sequences -/

/-- The sequences of a repository, in the order in which its events were inserted. -/
def sequencesOf (t : Table RepositoryEvent) (repositoryId : Identifier) : List Nat :=
  (t.rows.filter fun e => decide (e.repositoryId = repositoryId)).map (·.sequence)

/-- They are `1, 2, …` in every repository. -/
def Contiguous (t : Table RepositoryEvent) : Prop :=
  ∀ repositoryId, sequencesOf t repositoryId =
    List.range' 1 (sequencesOf t repositoryId).length

inductive Appended (P : RepositoryEvent → Prop) (t : Table RepositoryEvent) :
    Table RepositoryEvent → Prop where
  | refl : Appended P t t
  | snoc {t₁ t' : Table RepositoryEvent} {row : RepositoryEvent} (before : Appended P t t₁)
      (fits : P row)
      (next : row.sequence = (sequencesOf t₁ row.repositoryId).max?.getD 0 + 1)
      (rows : t'.rows = t₁.rows ++ [row]) : Appended P t t'

theorem max_range (n : Nat) : (List.range' 1 n).max?.getD 0 = n := by
  cases n with
  | zero => rfl
  | succ n =>
      have largest : (List.range' 1 (n + 1)).max? = some (n + 1) := by
        rw [List.max?_eq_some_iff]
        refine ⟨List.mem_range'_1.mpr (by omega), fun k member => ?_⟩
        have inside := List.mem_range'_1.mp member
        omega
      rw [largest, Option.getD_some]

/-- The next sequence closes the row of numbers. -/
theorem Contiguous.snoc {t t' : Table RepositoryEvent} {row : RepositoryEvent}
    (contiguous : Contiguous t)
    (next : row.sequence = (sequencesOf t row.repositoryId).max?.getD 0 + 1)
    (rows : t'.rows = t.rows ++ [row]) : Contiguous t' := by
  intro repositoryId
  have before := contiguous repositoryId
  by_cases own : row.repositoryId = repositoryId
  · subst own
    have added : sequencesOf t' row.repositoryId =
        sequencesOf t row.repositoryId ++ [row.sequence] := by
      unfold sequencesOf
      rw [rows, List.filter_append, List.map_append, List.filter_cons_of_pos (by simp)]
      rfl
    have sequence : row.sequence = (sequencesOf t row.repositoryId).length + 1 := by
      rw [next, before, max_range, List.length_range']
    rw [added, List.length_append, List.length_singleton, List.range'_1_concat, ← before, sequence,
      Nat.add_comm 1]
  · have same : sequencesOf t' repositoryId = sequencesOf t repositoryId := by
      unfold sequencesOf
      rw [rows, List.filter_append, List.filter_cons_of_neg (by simpa using own), List.filter_nil,
        List.append_nil]
    rw [same]
    exact before

namespace Appended

variable {P Q : RepositoryEvent → Prop} {t t₁ t' : Table RepositoryEvent}

theorem trans (first : Appended P t t₁) (second : Appended P t₁ t') : Appended P t t' := by
  induction second with
  | refl => exact first
  | snoc _ fits next rows ih => exact ih.snoc fits next rows

theorem mono (weaker : ∀ e, P e → Q e) (appended : Appended P t t') : Appended Q t t' := by
  induction appended with
  | refl => exact .refl
  | snoc _ fits next rows ih => exact ih.snoc (weaker _ fits) next rows

/-- **No gap opens in the sequences of a repository.** -/
theorem contiguous (appended : Appended P t t') (before : Contiguous t) : Contiguous t' := by
  induction appended with
  | refl => exact before
  | snoc _ _ next rows ih => exact ih.snoc next rows

theorem member (appended : Appended P t t') {e : RepositoryEvent} (later : e ∈ t') :
    e ∈ t ∨ P e := by
  induction appended with
  | refl => exact Or.inl later
  | snoc _ fits _ rows ih =>
      rw [← Table.mem_rows, rows, List.mem_append, List.mem_singleton] at later
      rcases later with before | rfl
      · exact ih before
      · exact Or.inr fits

theorem unsourced (appended : Appended (·.sourceIntentId = none) t t') (id : Identifier) :
    eventsOf t' id = eventsOf t id := by
  induction appended with
  | refl => rfl
  | snoc _ fits _ rows ih =>
      rw [← ih]
      unfold eventsOf
      rw [rows, List.filter_append, List.filter_cons_of_neg (by simp [fits]), List.filter_nil,
        List.append_nil]

end Appended

namespace Database

variable {db db' : Database}

theorem insertDomainEvent_appended {event : NewDomainEvent} {P : RepositoryEvent → Prop}
    (ok : db.insertDomainEvent event = .ok db') (fits : P (db.eventRow event)) :
    ∃ repositoryEvents, db' = { db with repositoryEvents } ∧
      Appended P db.repositoryEvents repositoryEvents := by
  obtain ⟨events, inserted, rfl⟩ := insertDomainEvent_eq_ok.mp ok
  exact ⟨events, rfl, Appended.refl.snoc fits rfl (Table.ofRows_eq_ok inserted)⟩

theorem insertPullRequestEvent_appended {repositoryId pullRequestId : Identifier} {actor : String}
    {createdAt : Int} {event : VersionedEvent}
    (ok : db.insertPullRequestEvent repositoryId pullRequestId actor createdAt event = .ok db') :
    ∃ repositoryEvents, db' = { db with repositoryEvents } ∧
      Appended (·.sourceIntentId = none) db.repositoryEvents repositoryEvents := by
  obtain ⟨_, -, inserted⟩ := bind_eq_ok.mp ok
  exact insertDomainEvent_appended inserted rfl

theorem insertIssueEvent_appended {repositoryId issueId : Identifier} {actor : String}
    {createdAt : Int} {event : VersionedEvent}
    (ok : db.insertIssueEvent repositoryId issueId actor createdAt event = .ok db') :
    ∃ repositoryEvents, db' = { db with repositoryEvents } ∧
      Appended (·.sourceIntentId = none) db.repositoryEvents repositoryEvents := by
  obtain ⟨_, -, inserted⟩ := bind_eq_ok.mp ok
  exact insertDomainEvent_appended inserted rfl

/-! ## Plain transactions -/

structure Plain (db db' : Database) : Prop where
  log : Appended (·.sourceIntentId = none) db.repositoryEvents db'.repositoryEvents
  intents : db'.gitOperationIntents = db.gitOperationIntents
  merges : db'.pullRequestMergeIntents = db.pullRequestMergeIntents
  counters : db'.repositoryCounters = db.repositoryCounters
  pullRequests : ∀ p ∈ db.pullRequests, ∃ p' ∈ db'.pullRequests, p'.id = p.id
  revisions : ∀ r ∈ db.pullRequestRevisions, ∃ r' ∈ db'.pullRequestRevisions, r'.id = r.id

/-- The rows of the pull requests are updated at most. -/
theorem kept_of_update {p : PullRequest → Bool} {f : PullRequest → PullRequest}
    {pullRequests : Table PullRequest} (updated : db.pullRequests.update p f = .ok pullRequests)
    (same : ∀ r, (f r).id = r.id) :
    ∀ r ∈ db.pullRequests, ∃ r' ∈ pullRequests, r'.id = r.id := by
  intro r hr
  refine ⟨_, (Table.mem_update updated).mpr ⟨r, hr, rfl⟩, ?_⟩
  split
  · exact same r
  · rfl

theorem insertInitialReference_appended {repository : NewRepository}
    {reference : NewRepositoryReference}
    (ok : insertInitialReference repository db reference = .ok db') :
    ∃ repositoryEvents, db' = { db with repositoryEvents } ∧
      Appended (·.sourceIntentId = none) db.repositoryEvents repositoryEvents := by
  obtain ⟨tag, -, inserted⟩ := bind_eq_ok.mp ok
  exact insertDomainEvent_appended inserted rfl

theorem insertInitialReferences_appended {repository : NewRepository}
    {references : List NewRepositoryReference}
    (ok : references.foldlM (insertInitialReference repository) db = .ok db') :
    ∃ repositoryEvents, db' = { db with repositoryEvents } ∧
      Appended (·.sourceIntentId = none) db.repositoryEvents repositoryEvents := by
  induction references generalizing db with
  | nil =>
      cases ok
      exact ⟨_, rfl, .refl⟩
  | cons reference references ih =>
      rw [List.foldlM_cons, bind_eq_ok] at ok
      obtain ⟨db₁, first, rest⟩ := ok
      obtain ⟨events, rfl, appended⟩ := insertInitialReference_appended first
      obtain ⟨events', rfl, appended'⟩ := ih rest
      exact ⟨events', rfl, appended.trans appended'⟩

theorem createRepository_plain {repository : NewRepository}
    (ok : db.createRepository repository = .ok db') : Plain db db' := by
  simp only [createRepository, bind_eq_ok] at ok
  obtain ⟨ownerId, -, _, -, repositories, -, branches, -, db₁, created, db₂, references, audit⟩ := ok
  obtain ⟨events, rfl, appended⟩ :=
    @insertDomainEvent_appended _ _ _ (·.sourceIntentId = none) created rfl
  obtain ⟨events', rfl, appended'⟩ := insertInitialReferences_appended references
  obtain ⟨auditEvents, -, rfl⟩ := insertAuditEvent_eq_ok.mp audit
  exact ⟨appended.trans appended', rfl, rfl, rfl, fun p hp => ⟨p, hp, rfl⟩, fun r hr => ⟨r, hr, rfl⟩⟩

theorem editPullRequest_plain {edit : PullRequestEdit} (ok : db.editPullRequest edit = .ok db') :
    Plain db db' := by
  simp only [editPullRequest, bind_eq_ok, sqlite_eq_ok] at ok
  obtain ⟨access, -, current, -, _, -, _, -, pullRequests, updated, event⟩ := ok
  obtain ⟨events, rfl, appended⟩ := insertPullRequestEvent_appended event
  exact ⟨appended, rfl, rfl, rfl, kept_of_update updated fun _ => rfl, fun r hr => ⟨r, hr, rfl⟩⟩

theorem setPullRequestState_plain {owner repository : String} {number : Nat} {actor : String}
    {state : PullRequestState} {changedAt : Int}
    (ok : db.setPullRequestState owner repository number actor state changedAt = .ok db') :
    Plain db db' := by
  simp only [setPullRequestState, bind_eq_ok, sqlite_eq_ok] at ok
  obtain ⟨access, -, current, -, _, -, _, -, pullRequests, updated, event⟩ := ok
  obtain ⟨events, rfl, appended⟩ := insertPullRequestEvent_appended event
  exact ⟨appended, rfl, rfl, rfl, kept_of_update updated fun _ => rfl, fun r hr => ⟨r, hr, rfl⟩⟩

theorem createPullRequestReview_plain {review : NewPullRequestReview} {id : Nat}
    (ok : db.createPullRequestReview review = .ok (db', id)) : Plain db db' := by
  simp only [createPullRequestReview, bind_eq_ok, sqlite_eq_ok, pure_eq_ok, Except.ok.injEq,
    Prod.mk.injEq] at ok
  obtain ⟨access, -, _, -, actorId, -, p, -, _, -, r, -, _, -, reviews, -, pullRequests, updated, db₁,
    event, rfl, -⟩ := ok
  obtain ⟨events, rfl, appended⟩ := insertPullRequestEvent_appended event
  exact ⟨appended, rfl, rfl, rfl, kept_of_update updated fun _ => rfl, fun r hr => ⟨r, hr, rfl⟩⟩

theorem beginPullRequestRevision_plain {number : Nat} {intent : NewPullRequestRefIntent}
    {row : PullRequestRefIntent}
    (ok : db.beginPullRequestRevision number intent = .ok (db', row)) : Plain db db' := by
  simp only [beginPullRequestRevision, bind_eq_ok, pure_eq_ok, Except.ok.injEq, Prod.mk.injEq] at ok
  obtain ⟨⟨repositoryId, actorId⟩, -, stored, -, _, -, _, -, intents, -, rfl, -⟩ := ok
  exact ⟨.refl, rfl, rfl, rfl, fun p hp => ⟨p, hp, rfl⟩, fun r hr => ⟨r, hr, rfl⟩⟩

theorem completePullRequestRefIntent_plain {id : Identifier}
    (ok : db.completePullRequestRefIntent id = .ok db') : Plain db db' := by
  simp only [completePullRequestRefIntent, bind_eq_ok, sqlite_eq_ok, pure_eq_ok,
    Except.ok.injEq] at ok
  obtain ⟨intent, -, _, -, pullRequests, stored, revisions, added, db₁, event, intents, -, rfl⟩ := ok
  obtain ⟨events, rfl, appended⟩ :=
    @insertDomainEvent_appended _ _ _ (·.sourceIntentId = none) event rfl
  refine ⟨appended, rfl, rfl, rfl, ?_,
    fun r hr => ⟨r, (Table.mem_insert added).mpr (Or.inl hr), rfl⟩⟩
  unfold storePullRequest at stored
  split at stored
  · rw [sqlite_eq_ok] at stored
    exact fun p hp => ⟨p, (Table.mem_insert stored).mpr (Or.inl hp), rfl⟩
  · simp only [bind_eq_ok, sqlite_eq_ok, pure_eq_ok, Except.ok.injEq] at stored
    obtain ⟨_, updated, _, -, rfl⟩ := stored
    exact kept_of_update updated fun _ => rfl

theorem abandonPullRequestRefIntent_plain {id : Identifier}
    (ok : db.abandonPullRequestRefIntent id = .ok db') : Plain db db' := by
  obtain ⟨intents, -, rfl⟩ := abandonPullRequestRefIntent_eq_ok ok
  exact ⟨.refl, rfl, rfl, rfl, fun p hp => ⟨p, hp, rfl⟩, fun r hr => ⟨r, hr, rfl⟩⟩

theorem editIssue_plain {change : IssueChange} {title body : String}
    (ok : db.editIssue change title body = .ok db') : Plain db db' := by
  simp only [editIssue, bind_eq_ok] at ok
  obtain ⟨⟨access, current⟩, -, _, -, issues, -, event⟩ := ok
  obtain ⟨events, rfl, appended⟩ := insertIssueEvent_appended event
  exact ⟨appended, rfl, rfl, rfl, fun p hp => ⟨p, hp, rfl⟩, fun r hr => ⟨r, hr, rfl⟩⟩

theorem commentIssue_plain {owner repository : String} {number : Nat} {actor body : String}
    {createdAt : Int} {id : Nat}
    (ok : db.commentIssue owner repository number actor body createdAt = .ok (db', id)) :
    Plain db db' := by
  simp only [commentIssue, bind_eq_ok, pure_eq_ok, Except.ok.injEq, Prod.mk.injEq] at ok
  obtain ⟨⟨access, current⟩, -, actorId, -, _, -, comments, -, issues, -, db₁, event, rfl, -⟩ := ok
  obtain ⟨events, rfl, appended⟩ := insertIssueEvent_appended event
  exact ⟨appended, rfl, rfl, rfl, fun p hp => ⟨p, hp, rfl⟩, fun r hr => ⟨r, hr, rfl⟩⟩

theorem setIssueState_plain {owner repository : String} {number : Nat} {actor : String}
    {state : IssueState} {changedAt : Int}
    (ok : db.setIssueState owner repository number actor state changedAt = .ok db') :
    Plain db db' := by
  simp only [setIssueState, bind_eq_ok] at ok
  obtain ⟨⟨access, current⟩, -, _, -, _, -, issues, -, event⟩ := ok
  obtain ⟨events, rfl, appended⟩ := insertIssueEvent_appended event
  exact ⟨appended, rfl, rfl, rfl, fun p hp => ⟨p, hp, rfl⟩, fun r hr => ⟨r, hr, rfl⟩⟩

/-! ## Numbers -/

/-- The value of `next_issue_number`, which a missing row starts at `1`. -/
def nextIssueNumber (db : Database) (repositoryId : Identifier) : Nat :=
  ((db.repositoryCounters.get repositoryId).map (·.nextIssueNumber)).getD 1

theorem takeIssueNumber_eq_ok {repositoryId : Identifier} {number : Nat}
    (ok : db.takeIssueNumber repositoryId = .ok (db', number)) :
    ∃ repositoryCounters, db' = { db with repositoryCounters } ∧
      number = db.nextIssueNumber repositoryId ∧
      (∀ id, db'.nextIssueNumber id =
        if id = repositoryId then number + 1 else db.nextIssueNumber id) ∧
      ∀ id, db'.nextPullRequestNumber id = db.nextPullRequestNumber id := by
  simp only [takeIssueNumber, bind_eq_ok, required_eq_ok, sqlite_eq_ok, pure_eq_ok, Except.ok.injEq,
    Prod.mk.injEq] at ok
  obtain ⟨started, first, counters, updated, counter, found, rfl, rfl⟩ := ok
  have after : ∀ id, ((counters.get id).map (·.nextIssueNumber)).getD 1 =
      db.nextIssueNumber id + if id = repositoryId then 1 else 0 := fun id =>
    next_advanced first updated (fun _ => rfl) (fun _ => rfl) rfl id
  have other : ∀ id, ((counters.get id).map (·.nextPullRequestNumber)).getD 1 =
      db.nextPullRequestNumber id + if id = repositoryId then 0 else 0 := fun id =>
    next_advanced first updated (fun _ => rfl) (fun _ => rfl) rfl id
  have taken : counter.nextIssueNumber = db.nextIssueNumber repositoryId + 1 := by
    have here := after repositoryId
    rwa [found, if_pos rfl] at here
  refine ⟨counters, rfl, by omega, fun id => (after id).trans ?_, fun id => ?_⟩
  · by_cases here : id = repositoryId
    · rw [if_pos here, if_pos here, here]
      omega
    · rw [if_neg here, if_neg here, Nat.add_zero]
  · exact (other id).trans (by rw [ite_self, Nat.add_zero])

/-- A number for a pull request leaves the numbers of the issues. -/
theorem takePullRequestNumber_issues {repositoryId : Identifier} {number : Nat}
    (ok : db.takePullRequestNumber repositoryId = .ok (db', number)) (id : Identifier) :
    db'.nextIssueNumber id = db.nextIssueNumber id := by
  simp only [takePullRequestNumber, bind_eq_ok, required_eq_ok, sqlite_eq_ok, pure_eq_ok,
    Except.ok.injEq, Prod.mk.injEq] at ok
  obtain ⟨started, first, counters, updated, counter, found, rfl, rfl⟩ := ok
  have other : ((counters.get id).map (·.nextIssueNumber)).getD 1 =
      db.nextIssueNumber id + if id = repositoryId then 0 else 0 :=
    next_advanced first updated (fun _ => rfl) (fun _ => rfl) rfl id
  exact other.trans (by rw [ite_self, Nat.add_zero])

/-- A new issue takes the next number of its repository. -/
theorem createIssue_plain {issue : NewIssue} {record : IssueRecord}
    (ok : db.createIssue issue = .ok (db', record)) :
    ∃ repositoryCounters row, Plain { db with repositoryCounters } db' ∧
      db'.issues.get issue.id = some row ∧ row.number = db.nextIssueNumber row.repositoryId ∧
      (∀ id, db'.nextIssueNumber id =
        if id = row.repositoryId then row.number + 1 else db.nextIssueNumber id) ∧
      ∀ id, db'.nextPullRequestNumber id = db.nextPullRequestNumber id := by
  simp only [createIssue, bind_eq_ok, sqlite_eq_ok, pure_eq_ok, Except.ok.injEq,
    Prod.mk.injEq] at ok
  obtain ⟨access, -, _, -, actorId, -, ⟨db₁, number⟩, taken, issues, inserted, db₂, event, rfl, -⟩ := ok
  obtain ⟨counters, rfl, next, after, other⟩ := takeIssueNumber_eq_ok taken
  obtain ⟨events, rfl, appended⟩ := insertIssueEvent_appended event
  have stored := Table.get_of_mem ((Table.mem_insert inserted).mpr (Or.inr rfl))
  exact ⟨counters, _, ⟨appended, rfl, rfl, rfl, fun p hp => ⟨p, hp, rfl⟩, fun r hr => ⟨r, hr, rfl⟩⟩,
    stored, next, after, other⟩

/-- A new pull request takes the next number of its repository. -/
theorem beginPullRequestOpen_plain {intent : NewPullRequestRefIntent} {row : PullRequestRefIntent}
    (ok : db.beginPullRequestOpen intent = .ok (db', row)) :
    ∃ repositoryCounters, Plain { db with repositoryCounters } db' ∧
      row.pullRequestNumber = db.nextPullRequestNumber row.repositoryId ∧
      (∀ id, db'.nextPullRequestNumber id =
        if id = row.repositoryId then row.pullRequestNumber + 1 else db.nextPullRequestNumber id) ∧
      ∀ id, db'.nextIssueNumber id = db.nextIssueNumber id := by
  simp only [beginPullRequestOpen, bind_eq_ok, sqlite_eq_ok, pure_eq_ok, Except.ok.injEq,
    Prod.mk.injEq] at ok
  obtain ⟨⟨repositoryId, actorId⟩, -, ⟨db₁, number⟩, taken, intents, inserted, rfl, rfl⟩ := ok
  have issues := takePullRequestNumber_issues taken
  obtain ⟨counters, rfl, next, after⟩ := takePullRequestNumber_eq_ok taken
  exact ⟨counters, ⟨.refl, rfl, rfl, rfl, fun p hp => ⟨p, hp, rfl⟩, fun r hr => ⟨r, hr, rfl⟩⟩, next,
    after, issues⟩

/-! ## The completion of an intent -/

/-- An event of the intent, in the repository that its path names. -/
def Sourced (i : GitOperationIntent) (e : RepositoryEvent) : Prop :=
  e.sourceIntentId = some i.id ∧ managedRepositoryId i.repositoryPath = some e.repositoryId

/-- The references are logged one after another; each pair of them had to fit. -/
theorem insertRefEvents_appended {i : GitOperationIntent} {repositoryId : Identifier}
    (managed : managedRepositoryId i.repositoryPath = some repositoryId)
    {pairs : List ((RefName × ObjectId) × (RefName × ObjectId))} {ordinal : Nat}
    (ok : insertRefEvents i repositoryId db ordinal pairs = .ok db') :
    Appended (Sourced i) db.repositoryEvents db'.repositoryEvents ∧ ∀ pair ∈ pairs, PairFits pair := by
  induction pairs generalizing db ordinal with
  | nil =>
      cases ok
      exact ⟨.refl, nofun⟩
  | cons pair rest ih =>
      obtain ⟨⟨oldName, old⟩, newName, new⟩ := pair
      simp only [insertRefEvents, bind_eq_ok, ensure_eq_ok, required_eq_ok] at ok
      obtain ⟨_, ⟨names, valued⟩, tag, tagged, db₁, inserted, later⟩ := ok
      obtain ⟨events, rfl, first⟩ :=
        @insertDomainEvent_appended _ _ _ (Sourced i) inserted ⟨rfl, managed⟩
      obtain ⟨second, fits⟩ := ih later
      refine ⟨first.trans second, fun pair member => ?_⟩
      rcases List.mem_cons.mp member with rfl | after
      · exact ⟨names, valued, by rw [tagged]; rfl⟩
      · exact fits pair after

theorem managedRepository_eq_some {path : RepositoryPath} {repositoryId : Identifier}
    (managed : db.managedRepository path = some repositoryId) :
    managedRepositoryId path = some repositoryId :=
  (Option.filter_eq_some_iff.mp managed).1

/-- The push of a managed repository is logged only when its references are shaped. -/
theorem insertPushEvents_appended {i : GitOperationIntent} (ok : db.insertPushEvents i = .ok db') :
    Appended (Sourced i) db.repositoryEvents db'.repositoryEvents ∧
      (db.managedRepository i.repositoryPath ≠ none → Shaped i) := by
  unfold insertPushEvents at ok
  cases managed : db.managedRepository i.repositoryPath with
  | none =>
      rw [managed] at ok
      cases ok
      exact ⟨.refl, fun some => absurd rfl some⟩
  | some repositoryId =>
      rw [managed] at ok
      simp only [bind_eq_ok, ensure_eq_ok] at ok
      obtain ⟨_, lengths, db₁, push, db₂, refs, audit⟩ := ok
      have named := managedRepository_eq_some managed
      obtain ⟨events, rfl, first⟩ :=
        @insertDomainEvent_appended _ _ _ (Sourced i) push ⟨rfl, named⟩
      obtain ⟨second, fits⟩ := insertRefEvents_appended named refs
      obtain ⟨auditEvents, -, rfl⟩ := insertAuditEvent_eq_ok.mp audit
      exact ⟨first.trans second, fun _ => ⟨lengths, fits⟩⟩

theorem completePullRequestMerge_appended {i : GitOperationIntent}
    (ok : db.completePullRequestMerge i = .ok db')
    (merges : ∀ m ∈ db.pullRequestMergeIntents, m.intentId = i.id →
      managedRepositoryId i.repositoryPath = some m.repositoryId) :
    Appended (Sourced i) db.repositoryEvents db'.repositoryEvents := by
  unfold completePullRequestMerge at ok
  split at ok
  · cases ok
    exact .refl
  · rename_i m p r found
    simp only [bind_eq_ok, ensure_eq_ok, sqlite_eq_ok] at ok
    obtain ⟨_, -, pullRequests, -, _, -, event⟩ := ok
    obtain ⟨⟨hm, own⟩, -⟩ := mergeOf_eq_some.mp found
    obtain ⟨events, rfl, appended⟩ :=
      @insertDomainEvent_appended _ _ _ (Sourced i) event ⟨rfl, merges m hm own⟩
    exact appended

/-- **What a completion adds to the log**, and that it leaves the counters alone. -/
theorem completeGitIntent_appended {id : Identifier} (ok : db.completeGitIntent id = .ok db')
    (merges : ∀ m ∈ db.pullRequestMergeIntents, ∀ i ∈ db.gitOperationIntents, m.intentId = i.id →
      managedRepositoryId i.repositoryPath = some m.repositoryId) :
    ∃ i ∈ db.gitOperationIntents, i.id = id ∧
      Appended (Sourced i) db.repositoryEvents db'.repositoryEvents ∧
      (db.managedRepository i.repositoryPath ≠ none → Shaped i) ∧
      db'.repositoryCounters = db.repositoryCounters := by
  simp only [completeGitIntent, bind_eq_ok, required_eq_ok, sqlite_eq_ok,
    Option.filter_eq_some_iff] at ok
  obtain ⟨i, ⟨found, -⟩, intents, updated, _, -, gitEvents, added, db₁, pushed, merged⟩ := ok
  obtain ⟨member, same⟩ := Table.get_eq_some.mp found
  obtain ⟨first, shaped⟩ := insertPushEvents_appended pushed
  obtain ⟨events, auditEvents, rfl, -⟩ := insertPushEvents_eq_ok pushed
  have second := completePullRequestMerge_appended merged fun m hm own => merges m hm i member own
  obtain ⟨-, pullRequests, events', rfl, -⟩ := completePullRequestMerge_eq_ok merged
  exact ⟨i, member, same, first.trans second, shaped, rfl⟩

/-- The ordinals of one intent differ; the table sees to it. -/
theorem ordinals_nodup (t : Table RepositoryEvent) (id : Identifier) :
    ((eventsOf t id).map (·.ordinal)).Nodup := by
  unfold eventsOf
  rw [List.map_map, List.Nodup, List.pairwise_map]
  refine (t.distinct.filter _).imp_of_mem ?_
  intro e e' he he' apart same
  obtain ⟨member, sourced⟩ := List.mem_filter.mp he
  have source : e.sourceIntentId = some id := of_decide_eq_true sourced
  have source' : e'.sourceIntentId = some id := of_decide_eq_true (List.mem_filter.mp he').2
  have numbered : e.sourceOrdinal ≠ none := by
    have checked := t.checked e member
    simp only [Schema.check, Bool.and_eq_true, beq_iff_eq] at checked
    rw [source, Option.isSome_some] at checked
    exact Option.isSome_iff_ne_none.mp checked.1.2.symm
  exact apart (decide_eq_true (Or.inr (Or.inr
    ⟨by rw [source]; nofun, source.trans source'.symm, numbered, same⟩)))

end Database

end Tit.Store
