/-
# Store.GitCompletion -- what the transactions on a Git intent do

The events of one intent are read as a list of `EventView`s, in the order of their
rows.  `Logs t t' id views` says that a transaction appended exactly `views` to the
events of the intent `id` and left the events of every other intent alone; it composes.
The completion of an intent appends the push event, one event for each reference in
order, and for a merge one event more.
-/
import Tit.Store.GitIntent

namespace Tit.Store

open Tit.Theory

set_option autoImplicit false

/-! ## The events of an intent -/

structure EventView where
  ordinal : Option Nat
  kind : EventKind
  refName : Option RefName
  oldTarget : Option ObjectId
  newTarget : Option ObjectId
  deriving DecidableEq, Repr

def RepositoryEvent.view (e : RepositoryEvent) : EventView where
  ordinal := e.sourceOrdinal
  kind := e.kind
  refName := e.refName
  oldTarget := e.oldTarget
  newTarget := e.newTarget

def eventsOf (t : Table RepositoryEvent) (id : Identifier) : List EventView :=
  (t.rows.filter fun e => decide (e.sourceIntentId = some id)).map (·.view)

theorem view_mem_eventsOf {t : Table RepositoryEvent} {e : RepositoryEvent} {id : Identifier}
    (member : e ∈ t) (source : e.sourceIntentId = some id) : e.view ∈ eventsOf t id :=
  List.mem_map_of_mem (List.mem_filter.mpr ⟨member, decide_eq_true source⟩)

/-- `views` were appended to the events of the intent, and no other intent has more. -/
structure Logs (t t' : Table RepositoryEvent) (id : Identifier) (views : List EventView) :
    Prop where
  own : eventsOf t' id = eventsOf t id ++ views
  others : ∀ id', id' ≠ id → eventsOf t' id' = eventsOf t id'

theorem Logs.refl (t : Table RepositoryEvent) (id : Identifier) : Logs t t id [] :=
  ⟨(List.append_nil _).symm, fun _ _ => rfl⟩

theorem Logs.trans {t t' t'' : Table RepositoryEvent} {id : Identifier}
    {views views' : List EventView} (first : Logs t t' id views) (second : Logs t' t'' id views') :
    Logs t t'' id (views ++ views') := by
  refine ⟨?_, fun id' other => (second.others id' other).trans (first.others id' other)⟩
  rw [second.own, first.own, List.append_assoc]

namespace Database

def NewDomainEvent.view (event : NewDomainEvent) : EventView where
  ordinal := event.sourceOrdinal
  kind := event.kind
  refName := event.refName
  oldTarget := event.oldTarget
  newTarget := event.newTarget

theorem insertDomainEvent_logs {db : Database} {event : NewDomainEvent}
    {t : Table RepositoryEvent} {id : Identifier} (source : event.sourceIntentId = some id)
    (inserted : db.repositoryEvents.insert (db.eventRow event) = .ok t) :
    Logs db.repositoryEvents t id [event.view] := by
  have rows : t.rows = db.repositoryEvents.rows ++ [db.eventRow event] :=
    Table.ofRows_eq_ok inserted
  have sourced : (db.eventRow event).sourceIntentId = some id := source
  refine ⟨?_, fun id' other => ?_⟩
  · unfold eventsOf
    rw [rows, List.filter_append, List.map_append,
      List.filter_cons_of_pos (by simpa using sourced)]
    rfl
  · unfold eventsOf
    rw [rows, List.filter_append, List.filter_cons_of_neg (by simpa [sourced] using other.symm),
      List.filter_nil, List.append_nil]

/-- The log takes an event of an intent whose ordinal is new. -/
theorem insertDomainEvent_sourced {db : Database} {event : NewDomainEvent} {id : Identifier}
    {ordinal : Nat} (source : event.sourceIntentId = some id)
    (ordinals : event.sourceOrdinal = some ordinal)
    (actor : 1 ≤ event.actor.length ∧ event.actor.length ≤ 256) (since : 0 ≤ event.createdAt)
    (shaped : (db.eventRow event).shaped = true)
    (fresh : ∀ v ∈ eventsOf db.repositoryEvents id, v.ordinal ≠ some ordinal) :
    ∃ db', db.insertDomainEvent event = .ok db' := by
  refine insertDomainEvent_succeeds actor since (by rw [source, ordinals]; rfl) shaped ?_
  intro e he _ same taken
  rw [source] at same
  rw [ordinals] at taken
  exact fresh e.view (view_mem_eventsOf he same) taken

/-- An event without a source belongs to no intent. -/
theorem insertDomainEvent_unsourced {db : Database} {event : NewDomainEvent}
    {t : Table RepositoryEvent} (source : event.sourceIntentId = none)
    (inserted : db.repositoryEvents.insert (db.eventRow event) = .ok t) (id : Identifier) :
    eventsOf t id = eventsOf db.repositoryEvents id := by
  have rows : t.rows = db.repositoryEvents.rows ++ [db.eventRow event] :=
    Table.ofRows_eq_ok inserted
  have unsourced : (db.eventRow event).sourceIntentId = none := source
  unfold eventsOf
  rw [rows, List.filter_append, List.filter_cons_of_neg (by simp [unsourced]), List.filter_nil,
    List.append_nil]

/-- A change of state adds an event to no intent. -/
theorem setPullRequestState_unsourced {db db' : Database} {owner repository : String}
    {number : Nat} {actor : String} {state : PullRequestState} {changedAt : Int}
    (ok : db.setPullRequestState owner repository number actor state changedAt = .ok db')
    (id : Identifier) : eventsOf db'.repositoryEvents id = eventsOf db.repositoryEvents id := by
  unfold setPullRequestState insertPullRequestEvent at ok
  simp only [bind_eq_ok] at ok
  obtain ⟨_, -, _, -, _, -, _, -, _, -, _, -, event⟩ := ok
  obtain ⟨repositoryEvents, inserted, rfl⟩ := insertDomainEvent_eq_ok.mp event
  exact insertDomainEvent_unsourced rfl inserted id

/-! ## Beginning, promoting and abandoning -/

/-- Only an owner or a maintainer begins a merge. -/
theorem beginPullRequestMerge_maintains {db db' : Database} {merge : NewPullRequestMerge}
    {intent : NewGitOperationIntent} (ok : db.beginPullRequestMerge merge intent = .ok db') :
    ∃ access, db.repositoryIssueAccess merge.owner merge.repository (some merge.actor) =
        .ok access ∧ managedRepositoryId intent.repositoryPath = some access.repository.id ∧
      (access.role = some .owner ∨ access.role = some .maintainer) := by
  unfold beginPullRequestMerge at ok
  simp only [bind_eq_ok, ensure_eq_ok] at ok
  obtain ⟨access, accessed, _, -, _, maintains, _, managed, -⟩ := ok
  simp only [RepositoryIssueAccess.canMaintain, Bool.and_eq_true, decide_eq_true_eq] at maintains
  exact ⟨access, accessed, managed, maintains.2⟩

theorem beginGitIntent_eq_ok {db db' : Database} {intent : NewGitOperationIntent}
    (ok : db.beginGitIntent intent = .ok db') :
    ∃ gitOperationIntents, db.gitOperationIntents.insert (gitIntentRow intent)
        = .ok gitOperationIntents ∧ db' = { db with gitOperationIntents } := by
  unfold beginGitIntent at ok
  simp only [bind_eq_ok, sqlite_eq_ok, pure_eq_ok, Except.ok.injEq] at ok
  obtain ⟨intents, inserted, rfl⟩ := ok
  exact ⟨intents, inserted, rfl⟩

/-- The pull request and the revision that a merge is begun for. -/
structure MergeOf (db : Database) (merge : NewPullRequestMerge) (repositoryId : Identifier)
    (p : PullRequest) (r : PullRequestRevision) : Prop where
  pullRequest : p ∈ db.pullRequests
  revision : r ∈ db.pullRequestRevisions
  repositoryId : p.repositoryId = repositoryId
  number : p.number = merge.number
  ofPullRequest : r.pullRequestId = p.id
  latest : r.number + 1 = db.nextRevisionNumber p.id
  «open» : p.state = .open
  baseRef : p.baseRef = merge.baseRef
  base : p.baseObjectId = merge.oldTarget
  head : p.headObjectId = merge.headTarget
  revisionNumber : r.number = merge.revision

theorem beginPullRequestMerge_eq_ok {db db' : Database} {merge : NewPullRequestMerge}
    {intent : NewGitOperationIntent} (ok : db.beginPullRequestMerge merge intent = .ok db') :
    ∃ repositoryId p r gitOperationIntents pullRequestMergeIntents,
      managedRepositoryId intent.repositoryPath = some repositoryId ∧
      MergeOf db merge repositoryId p r ∧
      intent.initialRefs = [(merge.baseRef, merge.oldTarget)] ∧
      intent.proposedRefs = [(merge.baseRef, merge.newTarget)] ∧
      (∃ q ∈ db.repositories, q.id = repositoryId) ∧
      db.gitOperationIntents.insert (gitIntentRow intent) = .ok gitOperationIntents ∧
      db.pullRequestMergeIntents.insert (mergeIntentRow repositoryId merge intent.id p r)
        = .ok pullRequestMergeIntents ∧
      db' = { db with gitOperationIntents, pullRequestMergeIntents } := by
  unfold beginPullRequestMerge at ok
  simp only [bind_eq_ok, ensure_eq_ok, required_eq_ok, sqlite_eq_ok, pure_eq_ok,
    Except.ok.injEq] at ok
  obtain ⟨access, accessed, _, -, _, -, _, managed, p, foundPullRequest, r, foundRevision, _,
    isOpen, _, ⟨baseRef, base, head, number⟩, _, ⟨initial, proposed⟩, intents, inserted, merges,
    added, rfl⟩ := ok
  obtain ⟨hp, repository, numbered⟩ := mem_of_numbered foundPullRequest
  obtain ⟨hr, latest⟩ := Table.mem_of_find foundRevision
  obtain ⟨ofPullRequest, latest⟩ := of_decide_eq_true latest
  obtain ⟨n, -, q, hq, -, -, -, same, -⟩ := repositoryIssueAccess_eq_ok accessed
  exact ⟨access.repository.id, p, r, intents, merges, managed,
    ⟨hp, hr, repository, numbered, ofPullRequest, latest, isOpen, baseRef, base, head, number⟩,
    initial, proposed, ⟨q, hq, same.symm⟩, inserted, added, rfl⟩

theorem inState_iff {id : Identifier} {state : IntentState} {i : GitOperationIntent} :
    inState id state i = true ↔ i.id = id ∧ i.state = state := decide_eq_true_iff

theorem unsettled_iff {id : Identifier} {i : GitOperationIntent} :
    unsettled id i = true ↔ i.id = id ∧ i.incomplete = true := by
  simp [unsettled]

theorem markGitObjectsPromoted_eq_ok {db db' : Database} {id : Identifier}
    {packName : Option PackName} (ok : db.markGitObjectsPromoted id packName = .ok db') :
    ∃ i ∈ db.gitOperationIntents, i.id = id ∧ i.state = .pending ∧
      ∃ gitOperationIntents, db.gitOperationIntents.update (inState id .pending)
          (fun i => { i with state := .promoted, packName }) = .ok gitOperationIntents ∧
        db' = { db with gitOperationIntents } := by
  unfold markGitObjectsPromoted at ok
  simp only [bind_eq_ok, ensure_eq_ok, sqlite_eq_ok, pure_eq_ok, Except.ok.injEq] at ok
  obtain ⟨intents, updated, _, counted, rfl⟩ := ok
  obtain ⟨i, hi, chosen⟩ := Table.exists_of_count (by rw [counted]; decide)
  obtain ⟨same, pending⟩ := inState_iff.mp chosen
  exact ⟨i, hi, same, pending, intents, updated, rfl⟩

theorem count_inState {db : Database} {i : GitOperationIntent} {state : IntentState}
    (member : i ∈ db.gitOperationIntents) (at' : i.state = state) :
    db.gitOperationIntents.count (inState i.id state) = 1 :=
  Table.count_eq_one member (inState_iff.mpr ⟨rfl, at'⟩) fun _ _ chosen =>
    (inState_iff.mp chosen).1

theorem markGitObjectsPromoted_succeeds {db : Database} {i : GitOperationIntent}
    (member : i ∈ db.gitOperationIntents) (pending : i.state = .pending)
    (packName : Option PackName) : ∃ db', db.markGitObjectsPromoted i.id packName = .ok db' := by
  obtain ⟨intents, updated⟩ := Table.update_of (t := db.gitOperationIntents)
    (p := inState i.id .pending) (f := fun i => { i with state := .promoted, packName })
    (fun _ _ => Iff.rfl) fun j hj _ => db.gitOperationIntents.checked j hj
  unfold markGitObjectsPromoted
  simp only [bind_eq_ok, ensure_eq_ok, sqlite_eq_ok, pure_eq_ok]
  exact ⟨_, intents, updated, ⟨⟩, count_inState member pending, rfl⟩

theorem abandonGitIntent_eq_ok {db db' : Database} {id : Identifier}
    (ok : db.abandonGitIntent id = .ok db') :
    ∃ i ∈ db.gitOperationIntents, i.id = id ∧ i.incomplete = true ∧
      ∃ gitOperationIntents, db.gitOperationIntents.update (unsettled id)
          (fun i => { i with state := .abandoned }) = .ok gitOperationIntents ∧
        db' = { db with
          gitOperationIntents
          pullRequestMergeIntents := db.pullRequestMergeIntents.delete fun m =>
            decide (m.intentId = id) } := by
  unfold abandonGitIntent at ok
  simp only [bind_eq_ok, ensure_eq_ok, sqlite_eq_ok, pure_eq_ok, Except.ok.injEq] at ok
  obtain ⟨intents, updated, _, counted, rfl⟩ := ok
  obtain ⟨i, hi, chosen⟩ := Table.exists_of_count (by rw [counted]; decide)
  obtain ⟨same, incomplete⟩ := unsettled_iff.mp chosen
  exact ⟨i, hi, same, incomplete, intents, updated, rfl⟩

theorem abandonGitIntent_succeeds {db : Database} {i : GitOperationIntent}
    (member : i ∈ db.gitOperationIntents) (incomplete : i.incomplete = true) :
    ∃ db', db.abandonGitIntent i.id = .ok db' := by
  obtain ⟨intents, updated⟩ := Table.update_of (t := db.gitOperationIntents)
    (p := unsettled i.id) (f := fun i => { i with state := .abandoned }) (fun _ _ => Iff.rfl)
    fun j hj _ => db.gitOperationIntents.checked j hj
  have counted : db.gitOperationIntents.count (unsettled i.id) = 1 :=
    Table.count_eq_one member (unsettled_iff.mpr ⟨rfl, incomplete⟩) fun _ _ chosen =>
      (unsettled_iff.mp chosen).1
  unfold abandonGitIntent
  simp only [bind_eq_ok, ensure_eq_ok, sqlite_eq_ok, pure_eq_ok]
  exact ⟨_, intents, updated, ⟨⟩, counted, rfl⟩

/-! ## The events of a push -/

def pushView : EventView := ⟨some 0, .push, none, none, none⟩

def mergeView : EventView := ⟨some 2, .pullRequestMerged, none, none, none⟩

def refView (ordinal : Nat) (name : RefName) (old new : ObjectId) : EventView :=
  ⟨some ordinal, refEventKind ((isTag name).getD false) old new, some name, target old,
    target new⟩

/-- The events of the references, numbered from `ordinal`. -/
def refViews : Nat → List ((RefName × ObjectId) × (RefName × ObjectId)) → List EventView
  | _, [] => []
  | ordinal, ((name, old), (_, new)) :: rest =>
      refView ordinal name old new :: refViews (ordinal + 1) rest

theorem ordinal_of_refViews {pairs : List ((RefName × ObjectId) × (RefName × ObjectId))}
    {ordinal : Nat} {v : EventView} (member : v ∈ refViews ordinal pairs) :
    ∃ k, v.ordinal = some k ∧ ordinal ≤ k ∧ k < ordinal + pairs.length := by
  induction pairs generalizing ordinal with
  | nil => cases member
  | cons pair rest ih =>
      rcases List.mem_cons.mp member with rfl | later
      · exact ⟨ordinal, rfl, le_rfl, by simp⟩
      · obtain ⟨k, same, low, high⟩ := ih later
        refine ⟨k, same, by omega, ?_⟩
        rw [List.length_cons]
        omega

/-- Names that agree and are branches or tags, and a value on one side. -/
def PairFits (pair : (RefName × ObjectId) × (RefName × ObjectId)) : Prop :=
  pair.1.1 = pair.2.1 ∧ ¬(pair.1.2.isNull = true ∧ pair.2.2.isNull = true) ∧
    (isTag pair.1.1).isSome = true

theorem insertRefEvents_eq_ok {intent : GitOperationIntent} {repositoryId : Identifier}
    {pairs : List ((RefName × ObjectId) × (RefName × ObjectId))} {db db' : Database}
    {ordinal : Nat} (ok : insertRefEvents intent repositoryId db ordinal pairs = .ok db') :
    ∃ repositoryEvents, db' = { db with repositoryEvents } ∧
      Logs db.repositoryEvents repositoryEvents intent.id (refViews ordinal pairs) := by
  induction pairs generalizing db ordinal with
  | nil =>
      cases ok
      exact ⟨_, rfl, Logs.refl _ _⟩
  | cons pair rest ih =>
      obtain ⟨⟨oldName, old⟩, ⟨newName, new⟩⟩ := pair
      simp only [insertRefEvents, bind_eq_ok, ensure_eq_ok, required_eq_ok] at ok
      obtain ⟨_, -, tag, tagged, db₁, inserted, rest⟩ := ok
      obtain ⟨events, added, rfl⟩ := insertDomainEvent_eq_ok.mp inserted
      obtain ⟨events', rfl, logs⟩ := ih rest
      have first := insertDomainEvent_logs rfl added
      refine ⟨events', rfl, ?_⟩
      have view : (refEvent intent repositoryId ordinal tag oldName old new).view =
          refView ordinal oldName old new := by
        unfold refView
        rw [tagged]
        rfl
      rw [view] at first
      exact first.trans logs

theorem insertRefEvents_succeeds {intent : GitOperationIntent} {repositoryId : Identifier}
    (actor : 1 ≤ intent.actor.length ∧ intent.actor.length ≤ 256) (since : 0 ≤ intent.createdAt)
    {pairs : List ((RefName × ObjectId) × (RefName × ObjectId))}
    (fits : ∀ pair ∈ pairs, PairFits pair) {db : Database} {ordinal : Nat}
    (fresh : ∀ v ∈ eventsOf db.repositoryEvents intent.id, ∀ k, v.ordinal = some k → k < ordinal) :
    ∃ db', insertRefEvents intent repositoryId db ordinal pairs = .ok db' := by
  induction pairs generalizing db ordinal with
  | nil => exact ⟨db, rfl⟩
  | cons pair rest ih =>
      obtain ⟨⟨oldName, old⟩, ⟨newName, new⟩⟩ := pair
      obtain ⟨names, valued, tagged⟩ := fits _ List.mem_cons_self
      obtain ⟨tag, tagged⟩ := Option.isSome_iff_exists.mp tagged
      have shaped : (db.eventRow
          (refEvent intent repositoryId ordinal tag oldName old new)).shaped = true := by
        have some : target old ≠ none ∨ target new ≠ none := by
          unfold target
          by_cases oldNull : old.isNull = true
          · by_cases newNull : new.isNull = true
            · exact absurd ⟨oldNull, newNull⟩ valued
            · right
              simp [newNull]
          · left
            simp [oldNull]
        unfold RepositoryEvent.shaped
        have kind : (refEventKind tag old new).shape = .reference := by
          unfold refEventKind
          split
          · split <;> rfl
          · split
            · split <;> rfl
            · split <;> rfl
        simp only [eventRow, refEvent, sourcedEvent, kind]
        exact decide_eq_true ⟨trivial, trivial, nofun, some⟩
      obtain ⟨db₁, inserted⟩ := insertDomainEvent_sourced rfl rfl actor since shaped
        fun v hv same => absurd (fresh v hv ordinal same) (Nat.lt_irrefl _)
      obtain ⟨events, added, rfl⟩ := insertDomainEvent_eq_ok.mp inserted
      have logs := insertDomainEvent_logs rfl added
      have fresh' : ∀ v ∈ eventsOf events intent.id, ∀ k, v.ordinal = some k → k < ordinal + 1 := by
        intro v hv k same
        rw [logs.own] at hv
        rcases List.mem_append.mp hv with before | new
        · exact Nat.lt_succ_of_lt (fresh v before k same)
        · obtain rfl := List.mem_singleton.mp new
          cases same
          exact Nat.lt_succ_self _
      have later : ∀ pair ∈ rest, PairFits pair := fun pair member =>
        fits pair (List.mem_cons_of_mem _ member)
      have continued : ∃ db', insertRefEvents intent repositoryId
          { db with repositoryEvents := events } (ordinal + 1) rest = .ok db' := ih later fresh'
      obtain ⟨db', ok⟩ := continued
      refine ⟨db', ?_⟩
      simp only [insertRefEvents, bind_eq_ok, ensure_eq_ok, required_eq_ok]
      exact ⟨⟨⟩, ⟨names, valued⟩, tag, tagged, _, inserted, ok⟩

/-- What the recorded references of an intent have to be like. -/
structure Shaped (i : GitOperationIntent) : Prop where
  lengths : i.initialRefs.length = i.proposedRefs.length
  pairs : ∀ pair ∈ i.initialRefs.zip i.proposedRefs, PairFits pair

/-- The events that `insert_push_events` writes. -/
def pushViews (db : Database) (i : GitOperationIntent) : List EventView :=
  match db.managedRepository i.repositoryPath with
  | none => []
  | some _ => pushView :: refViews 1 (i.initialRefs.zip i.proposedRefs)

theorem insertPushEvents_eq_ok {db db' : Database} {i : GitOperationIntent}
    (ok : db.insertPushEvents i = .ok db') :
    ∃ repositoryEvents auditEvents, db' = { db with repositoryEvents, auditEvents } ∧
      Logs db.repositoryEvents repositoryEvents i.id (db.pushViews i) := by
  unfold insertPushEvents at ok
  unfold pushViews
  cases managed : db.managedRepository i.repositoryPath with
  | none =>
      rw [managed] at ok
      cases ok
      exact ⟨_, _, rfl, Logs.refl _ _⟩
  | some repositoryId =>
      rw [managed] at ok
      simp only [bind_eq_ok] at ok
      obtain ⟨_, -, db₁, push, db₂, refs, audit⟩ := ok
      obtain ⟨events, added, rfl⟩ := insertDomainEvent_eq_ok.mp push
      obtain ⟨events', rfl, logs⟩ := insertRefEvents_eq_ok refs
      obtain ⟨auditEvents, -, rfl⟩ := insertAuditEvent_eq_ok.mp audit
      exact ⟨events', auditEvents, rfl, (insertDomainEvent_logs rfl added).trans logs⟩

theorem actor_since {db : Database} {i : GitOperationIntent}
    (member : i ∈ db.gitOperationIntents) :
    (1 ≤ i.actor.length ∧ i.actor.length ≤ 256) ∧ 0 ≤ i.createdAt := by
  have checked := db.gitOperationIntents.checked i member
  simp only [Schema.check, Bool.and_eq_true, decide_eq_true_eq, lengthBetween_iff] at checked
  exact checked

theorem insertPushEvents_succeeds {db : Database} {i : GitOperationIntent}
    (actor : 1 ≤ i.actor.length ∧ i.actor.length ≤ 256) (since : 0 ≤ i.createdAt)
    (shaped : Shaped i) (fresh : eventsOf db.repositoryEvents i.id = []) :
    ∃ db', db.insertPushEvents i = .ok db' := by
  unfold insertPushEvents
  split
  · exact ⟨db, rfl⟩
  · rename_i repositoryId _
    obtain ⟨db₁, push⟩ : ∃ db₁, db.insertDomainEvent (sourcedEvent i repositoryId 0 .push)
        = .ok db₁ :=
      insertDomainEvent_sourced rfl rfl actor since rfl (by rw [fresh]; nofun)
    obtain ⟨events, added, rfl⟩ := insertDomainEvent_eq_ok.mp push
    have logs := insertDomainEvent_logs rfl added
    have numbered : ∀ v ∈ eventsOf events i.id, ∀ k, v.ordinal = some k → k < 1 := by
      intro v hv k same
      rw [logs.own, fresh, List.nil_append, List.mem_singleton] at hv
      subst hv
      cases same
      exact Nat.one_pos
    have refs : ∃ db₂, insertRefEvents i repositoryId { db with repositoryEvents := events } 1
        (i.initialRefs.zip i.proposedRefs) = .ok db₂ :=
      insertRefEvents_succeeds actor since shaped.pairs numbered
    obtain ⟨db₂, refs⟩ := refs
    have audit : ∃ db₃, db₂.insertAuditEvent (refUpdateAudit i repositoryId) = .ok db₃ := by
      refine (insertAuditEvent_succeeds _).mpr ?_
      simp only [refUpdateAudit, identifierText_length]
      exact ⟨by decide, actor, by decide, by decide, since⟩
    obtain ⟨db₃, audit⟩ := audit
    simp only [bind_eq_ok, ensure_eq_ok]
    exact ⟨db₃, ⟨⟩, shaped.lengths, _, push, db₂, refs, audit⟩

/-! ## The merge of a pull request -/

theorem mergeOf_eq_some {db : Database} {id : Identifier} {m : PullRequestMergeIntent}
    {p : PullRequest} {r : PullRequestRevision} :
    db.mergeOf id = some (m, p, r) ↔
      (m ∈ db.pullRequestMergeIntents ∧ m.intentId = id) ∧
      (p ∈ db.pullRequests ∧ p.id = m.pullRequestId) ∧
      r ∈ db.pullRequestRevisions ∧ r.id = m.revisionId := by
  unfold mergeOf
  simp only [Option.bind_eq_bind, Option.bind_eq_some_iff, Option.pure_def, Option.some.injEq,
    Prod.mk.injEq, Table.get_eq_some, Schema.key]
  constructor
  · rintro ⟨m, hm, p, hp, r, hr, rfl, rfl, rfl⟩
    exact ⟨hm, hp, hr⟩
  · rintro ⟨hm, hp, hr⟩
    exact ⟨m, hm, p, hp, r, hr, rfl, rfl, rfl⟩

def mergeViews (db : Database) (i : GitOperationIntent) : List EventView :=
  match db.mergeOf i.id with
  | none => []
  | some _ => [mergeView]

/-- A row of the pull requests after the completion of the intent. -/
def mergedRow (db : Database) (i : GitOperationIntent) (p : PullRequest) : PullRequest :=
  match db.mergeOf i.id with
  | none => p
  | some (m, _, _) =>
      if openPullRequest m.pullRequestId p then
        { p with state := .merged, updatedAt := i.createdAt }
      else p

theorem openPullRequest_iff {id : Identifier} {p : PullRequest} :
    openPullRequest id p = true ↔ p.id = id ∧ p.state = .open := decide_eq_true_iff

theorem stillMergeable_open {db : Database} {m : PullRequestMergeIntent} {p : PullRequest}
    {r : PullRequestRevision} (still : db.stillMergeable m p r = true) : p.state = .open :=
  (of_decide_eq_true still).1

/-- A merge can be recorded: its pull request is as it was when the merge was begun, and
is no younger than the merge. -/
def Mergeable (db : Database) (i : GitOperationIntent) : Prop :=
  ∀ m p r, db.mergeOf i.id = some (m, p, r) →
    db.stillMergeable m p r = true ∧ p.createdAt ≤ i.createdAt

theorem completePullRequestMerge_eq_ok {db db' : Database} {i : GitOperationIntent}
    (ok : db.completePullRequestMerge i = .ok db') :
    Mergeable db i ∧ ∃ pullRequests repositoryEvents,
      db' = { db with pullRequests, repositoryEvents } ∧
      Logs db.repositoryEvents repositoryEvents i.id (db.mergeViews i) ∧
      ∀ q, q ∈ pullRequests ↔ ∃ p ∈ db.pullRequests, q = db.mergedRow i p := by
  unfold completePullRequestMerge at ok
  unfold Mergeable mergeViews mergedRow
  split at ok
  · rename_i none
    cases ok
    rw [none]
    refine ⟨?_, _, _, rfl, Logs.refl _ _, fun q => ⟨fun hq => ⟨q, hq, rfl⟩, ?_⟩⟩
    · intro m p r found
      cases found
    · rintro ⟨p, hp, same⟩
      exact same ▸ hp
  · rename_i m p r found
    rw [found]
    simp only [bind_eq_ok, ensure_eq_ok, sqlite_eq_ok] at ok
    obtain ⟨_, still, pullRequests, updated, _, -, event⟩ := ok
    obtain ⟨events, added, rfl⟩ := insertDomainEvent_eq_ok.mp event
    obtain ⟨-, ⟨hp, own⟩, -⟩ := mergeOf_eq_some.mp found
    refine ⟨?_, pullRequests, events, rfl, insertDomainEvent_logs rfl added,
      fun q => Table.mem_update updated⟩
    intro m' p' r' same
    cases same
    refine ⟨still, ?_⟩
    have row : { p with state := .merged, updatedAt := i.createdAt } ∈ pullRequests :=
      (Table.mem_update updated).mpr ⟨p, hp, by
        rw [if_pos (openPullRequest_iff.mpr ⟨own, stillMergeable_open still⟩)]⟩
    exact (PullRequest.check_iff.mp (pullRequests.checked _ row)).2

theorem completePullRequestMerge_succeeds {db : Database} {i : GitOperationIntent}
    (actor : 1 ≤ i.actor.length ∧ i.actor.length ≤ 256) (since : 0 ≤ i.createdAt)
    (mergeable : Mergeable db i)
    (fresh : ∀ m p r, db.mergeOf i.id = some (m, p, r) →
      ∀ v ∈ eventsOf db.repositoryEvents i.id, v.ordinal ≠ some 2) :
    ∃ db', db.completePullRequestMerge i = .ok db' := by
  unfold completePullRequestMerge
  split
  · exact ⟨db, rfl⟩
  · rename_i m p r found
    obtain ⟨still, created⟩ := mergeable m p r found
    obtain ⟨-, ⟨hp, own⟩, -⟩ := mergeOf_eq_some.mp found
    have chosen : openPullRequest m.pullRequestId p = true :=
      openPullRequest_iff.mpr ⟨own, stillMergeable_open still⟩
    have only : ∀ q ∈ db.pullRequests, openPullRequest m.pullRequestId q = true → q = p :=
      fun q hq h => Table.eq_of_key hq hp ((openPullRequest_iff.mp h).1.trans own.symm)
    obtain ⟨pullRequests, updated⟩ := Table.update_of (t := db.pullRequests)
      (p := openPullRequest m.pullRequestId)
      (f := fun p => { p with state := .merged, updatedAt := i.createdAt }) (fun _ _ => Iff.rfl) (by
        intro q hq h
        rw [only q hq h]
        exact PullRequest.check_iff.mpr
          ⟨(PullRequest.check_iff.mp (db.pullRequests.checked p hp)).1, created⟩)
    have counted : db.pullRequests.count (openPullRequest m.pullRequestId) = 1 :=
      Table.count_eq_one hp chosen fun q hq h => congrArg Schema.key (only q hq h)
    have event : ∃ db', ({ db with pullRequests } : Database).insertDomainEvent
        { sourcedEvent i m.repositoryId 2 .pullRequestMerged with
          pullRequestId := some m.pullRequestId } = .ok db' :=
      insertDomainEvent_sourced rfl rfl actor since rfl (fresh m p r found)
    obtain ⟨db', event⟩ := event
    simp only [bind_eq_ok, ensure_eq_ok, sqlite_eq_ok]
    exact ⟨db', ⟨⟩, still, pullRequests, updated, ⟨⟩, counted, event⟩

/-! ## The completion of an intent -/

/-- **What a completion does**: the promoted intent becomes completed, its events are
appended, and the pull request of a merge becomes merged. -/
theorem completeGitIntent_eq_ok {db db' : Database} {id : Identifier}
    (ok : db.completeGitIntent id = .ok db') :
    ∃ i ∈ db.gitOperationIntents, i.id = id ∧ i.state = .promoted ∧ Mergeable db i ∧
      ∃ gitOperationIntents gitOperationEvents repositoryEvents auditEvents pullRequests,
        db.gitOperationIntents.update (inState id .promoted)
          (fun i => { i with state := .completed }) = .ok gitOperationIntents ∧
        db.gitOperationEvents.insert (db.gitEventRow i) = .ok gitOperationEvents ∧
        Logs db.repositoryEvents repositoryEvents id (db.pushViews i ++ db.mergeViews i) ∧
        (∀ q, q ∈ pullRequests ↔ ∃ p ∈ db.pullRequests, q = db.mergedRow i p) ∧
        db' = { db with
          gitOperationIntents, gitOperationEvents, repositoryEvents, auditEvents
          pullRequests } := by
  unfold completeGitIntent at ok
  simp only [bind_eq_ok, required_eq_ok, sqlite_eq_ok, Option.filter_eq_some_iff,
    decide_eq_true_eq] at ok
  obtain ⟨i, ⟨found, promoted⟩, intents, updated, _, -, gitEvents, added, db₁, pushed, merged⟩ := ok
  obtain ⟨member, same⟩ := Table.get_eq_some.mp found
  obtain ⟨events, auditEvents, rfl, logs⟩ := insertPushEvents_eq_ok pushed
  obtain ⟨mergeable, pullRequests, events', rfl, logs', rows⟩ :=
    completePullRequestMerge_eq_ok merged
  simp only [Schema.key] at same
  refine ⟨i, member, same, promoted, mergeable, intents, gitEvents, events', auditEvents,
    pullRequests, updated, added, ?_, rows, rfl⟩
  rw [← same]
  exact logs.trans logs'

/-- A promoted intent of the right shape is completed, when nothing of it is recorded
yet and its merge, if it has one, can be recorded. -/
theorem completeGitIntent_succeeds {db : Database} {i : GitOperationIntent}
    (member : i ∈ db.gitOperationIntents) (promoted : i.state = .promoted) (shaped : Shaped i)
    (unrecorded : ∀ e ∈ db.gitOperationEvents, e.intentId ≠ i.id)
    (unlogged : eventsOf db.repositoryEvents i.id = []) (mergeable : Mergeable db i)
    (single : ∀ m p r, db.mergeOf i.id = some (m, p, r) → i.initialRefs.length = 1) :
    ∃ db', db.completeGitIntent i.id = .ok db' := by
  obtain ⟨actor, since⟩ := actor_since member
  obtain ⟨intents, updated⟩ := Table.update_of (t := db.gitOperationIntents)
    (p := inState i.id .promoted) (f := fun i => { i with state := .completed })
    (fun _ _ => Iff.rfl) fun j hj _ => db.gitOperationIntents.checked j hj
  obtain ⟨gitEvents, added⟩ := Table.insert_of (t := db.gitOperationEvents)
    (r := db.gitEventRow i) rfl (by
      intro e he clash
      rcases of_decide_eq_true clash with id | intent
      · exact absurd id (Nat.ne_of_lt (Table.key_lt_nextRowid he))
      · exact unrecorded e he intent)
  have pushes : ∃ db₁, ({ db with
      gitOperationIntents := intents, gitOperationEvents := gitEvents } :
      Database).insertPushEvents i = .ok db₁ :=
    insertPushEvents_succeeds actor since shaped unlogged
  obtain ⟨db₁, pushed⟩ := pushes
  obtain ⟨events, auditEvents, rfl, logs⟩ := insertPushEvents_eq_ok pushed
  have merges : ∃ db', ({ db with
      gitOperationIntents := intents, gitOperationEvents := gitEvents
      repositoryEvents := events, auditEvents } : Database).completePullRequestMerge i
      = .ok db' := by
    refine completePullRequestMerge_succeeds actor since mergeable ?_
    intro m p r found v hv second
    dsimp only at hv
    rw [logs.own, unlogged, List.nil_append] at hv
    unfold pushViews at hv
    split at hv
    · cases hv
    · rcases List.mem_cons.mp hv with rfl | later
      · cases second
      · obtain ⟨k, same, -, high⟩ := ordinal_of_refViews later
        have one := single m p r found
        rw [List.length_zip, ← shaped.lengths, one] at high
        rw [same] at second
        cases second
        omega
  obtain ⟨db', merged⟩ := merges
  have found : db.gitOperationIntents.get i.id = some i := Table.get_of_mem member
  refine ⟨db', ?_⟩
  unfold completeGitIntent
  simp only [bind_eq_ok, ensure_eq_ok, required_eq_ok, sqlite_eq_ok, Option.filter_eq_some_iff,
    decide_eq_true_eq]
  exact ⟨i, ⟨found, promoted⟩, intents, updated, ⟨⟩, count_inState member promoted, gitEvents,
    added, _, pushed, merged⟩

/-! ## The incomplete intents -/

theorem mem_incompleteGitIntents {db : Database} {i : GitOperationIntent} :
    i ∈ db.incompleteGitIntents ↔ i ∈ db.gitOperationIntents ∧ i.incomplete = true := by
  unfold incompleteGitIntents
  rw [List.mem_insertionSort, List.mem_filter, Table.mem_rows]

theorem incompleteGitIntents_distinct (db : Database) :
    db.incompleteGitIntents.Pairwise fun i j => i.id ≠ j.id := by
  refine (List.Perm.pairwise_iff (fun {_ _} apart => Ne.symm apart)
    (List.perm_insertionSort _ _)).mpr ?_
  exact db.gitOperationIntents.pairwise_key.sublist List.filter_sublist

theorem incomplete_iff {i : GitOperationIntent} :
    i.incomplete = true ↔ i.state = .pending ∨ i.state = .promoted := decide_eq_true_iff

end Database

end Tit.Store
