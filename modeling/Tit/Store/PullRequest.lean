/-
# Store.PullRequest -- opening, revising, editing and closing pull requests

The head of a pull request is written twice: in its row and in the reference
`refs/pull/N/head` of the Git repository.  A pending row of
`pull_request_ref_intent` stands for an opening or a revision between the two.
Edits and changes of state are single transactions and write no reference.

The JSON payload of an event is kept only as the number of its characters, which a
`CHECK` bounds, and only where the texts in it can exceed that bound.
-/
import Tit.Store.DefaultBranch

namespace Tit.Store

open Tit.Theory

set_option autoImplicit false

/-! ## Payloads -/

/-- The characters that `serde_json` writes for one character of a text. -/
def escapedLength (c : Char) : Nat :=
  if c = '"' ∨ c = '\\' then 2
  else if c.toNat = 8 ∨ c.toNat = 9 ∨ c.toNat = 10 ∨ c.toNat = 12 ∨ c.toNat = 13 then 2
  else if c.toNat < 32 then 6
  else 1

def jsonStringLength (text : String) : Nat := (text.toList.map escapedLength).sum + 2

def jsonNumberLength (n : Nat) : Nat := (Nat.toDigits 10 n).length

/-- The length of an object with these keys and lengths of values. -/
def jsonObjectLength (fields : List (String × Nat)) : Nat :=
  (fields.map fun field => field.1.length + 4 + field.2).sum + 1

structure VersionedEvent where
  kind : EventKind
  payloadLength : Nat

def PullRequestState.text : PullRequestState → String
  | .open => "open"
  | .closed => "closed"
  | .merged => "merged"

def pullRequestChange (kind : EventKind) (pullRequestId : Identifier) (number : Nat)
    (title body : String) (state : PullRequestState) : VersionedEvent where
  kind
  payloadLength := jsonObjectLength
    [("version", 1), ("pull_request_id", jsonStringLength (identifierText pullRequestId)),
      ("number", jsonNumberLength number), ("title", jsonStringLength title),
      ("body", jsonStringLength body), ("state", jsonStringLength state.text)]

def maxPayloadLength : Nat := 1048576

/-! ## Requests -/

structure NewPullRequestRefIntent where
  id : Identifier
  pullRequestId : Identifier
  owner : String
  repository : String
  actor : String
  title : String
  body : String
  baseRef : RefName
  headRef : RefName
  baseObjectId : ObjectId
  headObjectId : ObjectId
  createdAt : Int

structure PullRequestIntentInsertion where
  repositoryId : Identifier
  authorAccountId : Nat
  pullRequestNumber : Nat
  revisionNumber : Nat
  oldHeadObjectId : Option ObjectId
  operation : RefOperation

structure PullRequestEdit where
  owner : String
  repository : String
  number : Nat
  actor : String
  title : String
  body : String
  changedAt : Int

namespace RepositoryIssueAccess

def canWriteIssue (access : RepositoryIssueAccess) (authorAccountId : Nat) : Bool :=
  access.canRead &&
    (decide (access.activeActorId = some authorAccountId) ||
      decide (access.role = some .owner ∨ access.role = some .maintainer ∨
        access.role = some .writer))

end RepositoryIssueAccess

/-- The row of a new intent (`insert_pull_request_intent`). -/
def pullRequestIntentRow (intent : NewPullRequestRefIntent)
    (insertion : PullRequestIntentInsertion) : PullRequestRefIntent where
  id := intent.id
  repositoryId := insertion.repositoryId
  pullRequestId := intent.pullRequestId
  pullRequestNumber := insertion.pullRequestNumber
  revisionNumber := insertion.revisionNumber
  operation := insertion.operation
  title := intent.title
  body := intent.body
  authorAccountId := insertion.authorAccountId
  actor := intent.actor
  baseRef := intent.baseRef
  headRef := intent.headRef
  baseObjectId := intent.baseObjectId
  oldHeadObjectId := insertion.oldHeadObjectId
  headObjectId := intent.headObjectId
  state := .pending
  createdAt := intent.createdAt

namespace Database

/-- The pull request with this number; repository and number are `UNIQUE`. -/
def pullRequestNumbered (db : Database) (repositoryId : Identifier) (number : Nat) :
    Option PullRequest :=
  db.pullRequests.find fun p => decide (p.repositoryId = repositoryId ∧ p.number = number)

/-- The value of `next_pull_request_number`, which a missing row starts at `1`. -/
def nextPullRequestNumber (db : Database) (repositoryId : Identifier) : Nat :=
  ((db.repositoryCounters.get repositoryId).map (·.nextPullRequestNumber)).getD 1

/-- `INSERT … ON CONFLICT (repository_id) DO NOTHING`. -/
def startedCounters (db : Database) (repositoryId : Identifier) :
    Except StoreError (Table RepositoryCounter) :=
  match db.repositoryCounters.get repositoryId with
  | some _ => .ok db.repositoryCounters
  | none => sqlite (db.repositoryCounters.insert
      { repositoryId, nextIssueNumber := 1, nextPullRequestNumber := 1 })

/-- The two statements that take the next number of a repository. -/
def takePullRequestNumber (db : Database) (repositoryId : Identifier) :
    Except StoreError (Database × Nat) := do
  let repositoryCounters ← db.startedCounters repositoryId
  let repositoryCounters ← sqlite (repositoryCounters.update
    (fun c => decide (c.repositoryId = repositoryId))
    fun c => { c with nextPullRequestNumber := c.nextPullRequestNumber + 1 })
  let counter ← required (repositoryCounters.get repositoryId) .noRows
  pure ({ db with repositoryCounters }, counter.nextPullRequestNumber - 1)

/-! ## Opening and revising -/

/-- The repository of a request whose actor may write, and the account of the actor. -/
def pullRequestWriter (db : Database) (intent : NewPullRequestRefIntent) :
    Except StoreError (Identifier × Nat) := do
  let access ← db.repositoryIssueAccess intent.owner intent.repository (some intent.actor)
  ensure (access.canRead = true) .pullRequestHidden
  ensure (access.canWriteRepository = true) .pullRequestDenied
  let actorId ← required access.activeActorId .pullRequestDenied
  pure (access.repository.id, actorId)

def beginPullRequestOpen (db : Database) (intent : NewPullRequestRefIntent) :
    Except StoreError (Database × PullRequestRefIntent) := do
  let (repositoryId, actorId) ← db.pullRequestWriter intent
  let (db, number) ← db.takePullRequestNumber repositoryId
  let row := pullRequestIntentRow intent
    { repositoryId, authorAccountId := actorId, pullRequestNumber := number,
      revisionNumber := 1, oldHeadObjectId := none, operation := .open }
  let pullRequestRefIntents ← sqlite (db.pullRequestRefIntents.insert row)
  pure ({ db with pullRequestRefIntents }, row)

/-- `COALESCE(MAX(number), 0) + 1` over the revisions of the pull request. -/
def nextRevisionNumber (db : Database) (pullRequestId : Identifier) : Nat :=
  ((db.pullRequestRevisions.rows.filter fun r =>
    decide (r.pullRequestId = pullRequestId)).map (·.number)).max?.getD 0 + 1

/-- The texts of a revision are those of the stored pull request. -/
def revises (stored : PullRequest) (intent : NewPullRequestRefIntent) : Prop :=
  stored.id = intent.pullRequestId ∧ stored.title = intent.title ∧ stored.body = intent.body ∧
    stored.baseRef = intent.baseRef ∧ stored.headRef = intent.headRef

instance (stored : PullRequest) (intent : NewPullRequestRefIntent) :
    Decidable (revises stored intent) :=
  inferInstanceAs (Decidable (_ ∧ _))

def beginPullRequestRevision (db : Database) (number : Nat) (intent : NewPullRequestRefIntent) :
    Except StoreError (Database × PullRequestRefIntent) := do
  let (repositoryId, actorId) ← db.pullRequestWriter intent
  let stored ← required (db.pullRequestNumbered repositoryId number)
    (.pullRequestNotFound intent.owner intent.repository number)
  ensure (stored.state = .open) .pullRequestState
  ensure (revises stored intent) (.pullRequestIntentState intent.id)
  let row := pullRequestIntentRow intent
    { repositoryId, authorAccountId := actorId, pullRequestNumber := number,
      revisionNumber := db.nextRevisionNumber stored.id,
      oldHeadObjectId := some stored.headObjectId, operation := .revise }
  let pullRequestRefIntents ← sqlite (db.pullRequestRefIntents.insert row)
  pure ({ db with pullRequestRefIntents }, row)

def openedRow (intent : PullRequestRefIntent) : PullRequest where
  id := intent.pullRequestId
  repositoryId := intent.repositoryId
  number := intent.pullRequestNumber
  title := intent.title
  body := intent.body
  state := .open
  authorAccountId := intent.authorAccountId
  baseRef := intent.baseRef
  headRef := intent.headRef
  baseObjectId := intent.baseObjectId
  headObjectId := intent.headObjectId
  createdAt := intent.createdAt
  updatedAt := intent.createdAt

/-- The row that a revision updates: it must still be open at the old head. -/
def revisable (intent : PullRequestRefIntent) (p : PullRequest) : Bool :=
  decide (p.id = intent.pullRequestId ∧ p.state = .open ∧
    some p.headObjectId = intent.oldHeadObjectId)

def revisedRow (intent : PullRequestRefIntent) (p : PullRequest) : PullRequest :=
  { p with
    baseObjectId := intent.baseObjectId, headObjectId := intent.headObjectId
    updatedAt := intent.createdAt }

/-- The statement of `complete_pull_request_ref_intent` that writes the pull request. -/
def storePullRequest (db : Database) (intent : PullRequestRefIntent) :
    Except StoreError (Table PullRequest) :=
  match intent.operation with
  | .open => sqlite (db.pullRequests.insert (openedRow intent))
  | .revise => do
      let pullRequests ← sqlite (db.pullRequests.update (revisable intent) (revisedRow intent))
      ensure (db.pullRequests.count (revisable intent) = 1) (.pullRequestIntentState intent.id)
      pure pullRequests

def revisionRow (db : Database) (intent : PullRequestRefIntent) : PullRequestRevision where
  id := db.pullRequestRevisions.nextRowid
  pullRequestId := intent.pullRequestId
  number := intent.revisionNumber
  authorAccountId := intent.authorAccountId
  baseObjectId := intent.baseObjectId
  headObjectId := intent.headObjectId
  createdAt := intent.createdAt

def pullRequestRefEvent (intent : PullRequestRefIntent) : NewDomainEvent where
  repositoryId := intent.repositoryId
  sourceIntentId := none
  sourceOrdinal := none
  pullRequestId := some intent.pullRequestId
  kind := match intent.operation with
    | .open => .pullRequestCreated
    | .revise => .pullRequestRevised
  actor := intent.actor
  refName := none
  oldTarget := none
  newTarget := none
  createdAt := intent.createdAt

def pendingIntent (id : Identifier) (intent : PullRequestRefIntent) : Bool :=
  decide (intent.id = id ∧ intent.state = .pending)

def completePullRequestRefIntent (db : Database) (id : Identifier) :
    Except StoreError Database := do
  let intent ← required (db.pullRequestRefIntents.get id) (.pullRequestIntentState id)
  ensure (intent.state = .pending) (.pullRequestIntentState id)
  let pullRequests ← db.storePullRequest intent
  let pullRequestRevisions ← sqlite (db.pullRequestRevisions.insert (db.revisionRow intent))
  let db ← { db with pullRequests, pullRequestRevisions }.insertDomainEvent
    (pullRequestRefEvent intent)
  let pullRequestRefIntents ← sqlite (db.pullRequestRefIntents.update (pendingIntent id)
    fun i => { i with state := .completed })
  pure { db with pullRequestRefIntents }

def abandonPullRequestRefIntent (db : Database) (id : Identifier) :
    Except StoreError Database := do
  let pullRequestRefIntents ← sqlite (db.pullRequestRefIntents.update (pendingIntent id)
    fun i => { i with state := .abandoned })
  ensure (db.pullRequestRefIntents.count (pendingIntent id) = 1) (.pullRequestIntentState id)
  pure { db with pullRequestRefIntents }

def incompletePullRequestRefIntents (db : Database) : List PullRequestRefIntent :=
  (db.pullRequestRefIntents.rows.filter fun i => decide (i.state = .pending)).insertionSort
    fun i j => createdBefore i.createdAt j.createdAt i.id j.id = true

/-! ## Reading, editing and changing the state -/

/-- The row of the pull request that an actor may read (`pull_request`). -/
def pullRequest (db : Database) (owner repository : String) (number : Nat)
    (actor : Option String) : Except StoreError PullRequest := do
  let access ← db.repositoryIssueAccess owner repository actor
  ensure (access.canRead = true) .pullRequestHidden
  required (db.pullRequestNumbered access.repository.id number)
    (.pullRequestNotFound owner repository number)

def insertPullRequestEvent (db : Database) (repositoryId pullRequestId : Identifier)
    (actor : String) (createdAt : Int) (event : VersionedEvent) : Except StoreError Database := do
  ensure (event.payloadLength ≤ maxPayloadLength) (.sqlite .check)
  db.insertDomainEvent
    { repositoryId, sourceIntentId := none, sourceOrdinal := none,
      pullRequestId := some pullRequestId, kind := event.kind, actor, refName := none,
      oldTarget := none, newTarget := none, createdAt }

def editPullRequest (db : Database) (edit : PullRequestEdit) : Except StoreError Database := do
  let access ← db.repositoryIssueAccess edit.owner edit.repository (some edit.actor)
  let current ← required (db.pullRequestNumbered access.repository.id edit.number)
    (.pullRequestNotFound edit.owner edit.repository edit.number)
  ensure (access.canWriteIssue current.authorAccountId = true) .pullRequestDenied
  ensure (current.state ≠ .merged) .pullRequestState
  let pullRequests ← sqlite (db.pullRequests.update (fun p => decide (p.id = current.id))
    fun p => { p with title := edit.title, body := edit.body, updatedAt := edit.changedAt })
  { db with pullRequests }.insertPullRequestEvent access.repository.id current.id edit.actor
    edit.changedAt (pullRequestChange .pullRequestEdited current.id edit.number edit.title
      edit.body current.state)

def setPullRequestState (db : Database) (owner repository : String) (number : Nat)
    (actor : String) (state : PullRequestState) (changedAt : Int) :
    Except StoreError Database := do
  let access ← db.repositoryIssueAccess owner repository (some actor)
  let current ← required (db.pullRequestNumbered access.repository.id number)
    (.pullRequestNotFound owner repository number)
  ensure (access.canWriteIssue current.authorAccountId = true) .pullRequestDenied
  ensure (current.state ≠ .merged ∧ current.state ≠ state) .pullRequestState
  let pullRequests ← sqlite (db.pullRequests.update (fun p => decide (p.id = current.id))
    fun p => { p with state, updatedAt := changedAt })
  let kind : EventKind :=
    if state = .closed then .pullRequestClosed else .pullRequestReopened
  { db with pullRequests }.insertPullRequestEvent access.repository.id current.id actor changedAt
    (pullRequestChange kind current.id number current.title current.body state)

/-! ## The pending intents -/

/-- The intent is stored and waits to be completed. -/
def Pending (db : Database) (i : PullRequestRefIntent) : Prop :=
  i ∈ db.pullRequestRefIntents ∧ i.state = .pending

theorem mem_incompletePullRequestRefIntents {db : Database} {i : PullRequestRefIntent} :
    i ∈ db.incompletePullRequestRefIntents ↔ db.Pending i := by
  unfold incompletePullRequestRefIntents Pending
  rw [List.mem_insertionSort, List.mem_filter, decide_eq_true_eq, Table.mem_rows]

/-- After the state of one pending intent is set, the others are the pending ones. -/
theorem pending_settled {t t' : Table PullRequestRefIntent} {id : Identifier}
    {state : RefIntentState} (settled : state ≠ .pending)
    (updated : t.update (pendingIntent id) (fun i => { i with state }) = .ok t')
    (i : PullRequestRefIntent) :
    (i ∈ t' ∧ i.state = .pending) ↔ (i ∈ t ∧ i.state = .pending) ∧ i.id ≠ id := by
  rw [Table.mem_update updated]
  constructor
  · rintro ⟨⟨j, hj, rfl⟩, pending⟩
    by_cases chosen : pendingIntent id j = true
    · rw [if_pos chosen] at pending
      exact absurd pending settled
    · rw [if_neg chosen] at pending ⊢
      refine ⟨⟨hj, pending⟩, fun same => chosen ?_⟩
      exact decide_eq_true ⟨same, pending⟩
  · rintro ⟨⟨hi, pending⟩, other⟩
    refine ⟨⟨i, hi, ?_⟩, pending⟩
    rw [if_neg]
    intro chosen
    exact other (of_decide_eq_true chosen).1

theorem settle_of {t : Table PullRequestRefIntent} (id : Identifier) (state : RefIntentState) :
    ∃ t', t.update (pendingIntent id) (fun i => { i with state }) = .ok t' :=
  Table.update_of (fun _ _ => Iff.rfl) fun i hi _ => t.checked i hi

/-! ## What the transactions do -/

/-- **The counter of one repository moves on**, and only there; `g` reads a number of the row, which
`f` advances by `k`. -/
theorem next_advanced {db : Database} {repositoryId : Identifier}
    {started counters : Table RepositoryCounter} {f : RepositoryCounter → RepositoryCounter}
    {g : RepositoryCounter → Nat} {k : Nat} (first : db.startedCounters repositoryId = .ok started)
    (updated : started.update (fun c => decide (c.repositoryId = repositoryId)) f = .ok counters)
    (same : ∀ c, (f c).repositoryId = c.repositoryId) (grows : ∀ c, g (f c) = g c + k)
    (starts : g ⟨repositoryId, 1, 1⟩ = 1) (id : Identifier) :
    ((counters.get id).map g).getD 1 =
      ((db.repositoryCounters.get id).map g).getD 1 + if id = repositoryId then k else 0 := by
  have counted : (started.get id).map g =
      if id = repositoryId then some (((db.repositoryCounters.get id).map g).getD 1)
      else (db.repositoryCounters.get id).map g := by
    unfold startedCounters at first
    split at first
    · rename_i c stored
      cases first
      by_cases here : id = repositoryId
      · rw [if_pos here, here, stored, Option.map_some, Option.getD_some]
      · rw [if_neg here]
    · rename_i missing
      rw [sqlite_eq_ok] at first
      rw [Table.get_insert first]
      by_cases here : id = repositoryId
      · rw [if_pos here, here, missing]
        simp [Schema.key, starts]
      · rw [if_neg here, if_neg (by simpa [Schema.key] using Ne.symm here)]
  rw [Table.get_update updated same, Option.map_map]
  by_cases here : id = repositoryId
  · rw [if_pos here] at counted ⊢
    obtain ⟨c, stored, next⟩ := Option.map_eq_some_iff.mp counted
    obtain ⟨-, key⟩ := Table.get_eq_some.mp stored
    simp only [Schema.key] at key
    rw [stored, Option.map_some, Function.comp_apply, if_pos (decide_eq_true (key.trans here)),
      grows, next, Option.getD_some]
  · rw [if_neg here] at counted ⊢
    rw [← counted, Nat.add_zero]
    cases stored : started.get id with
    | none => rfl
    | some c =>
        obtain ⟨-, key⟩ := Table.get_eq_some.mp stored
        simp only [Schema.key] at key
        rw [Option.map_some, Option.map_some, Function.comp_apply,
          if_neg (by simpa using fun same => here (key.symm.trans same))]

theorem takePullRequestNumber_eq_ok {db db' : Database} {repositoryId : Identifier} {number : Nat}
    (ok : db.takePullRequestNumber repositoryId = .ok (db', number)) :
    ∃ repositoryCounters, db' = { db with repositoryCounters } ∧
      number = db.nextPullRequestNumber repositoryId ∧
      ∀ id, db'.nextPullRequestNumber id =
        if id = repositoryId then number + 1 else db.nextPullRequestNumber id := by
  unfold takePullRequestNumber at ok
  simp only [bind_eq_ok, required_eq_ok, sqlite_eq_ok, pure_eq_ok, Except.ok.injEq,
    Prod.mk.injEq] at ok
  obtain ⟨started, first, counters, updated, counter, found, rfl, rfl⟩ := ok
  have after : ∀ id, ((counters.get id).map (·.nextPullRequestNumber)).getD 1 =
      db.nextPullRequestNumber id + if id = repositoryId then 1 else 0 := fun id =>
    next_advanced first updated (fun _ => rfl) (fun _ => rfl) rfl id
  have taken : counter.nextPullRequestNumber = db.nextPullRequestNumber repositoryId + 1 := by
    have here := after repositoryId
    rwa [found, if_pos rfl] at here
  refine ⟨counters, rfl, by omega, fun id => (after id).trans ?_⟩
  by_cases here : id = repositoryId
  · rw [if_pos here, if_pos here, here]
    omega
  · rw [if_neg here, if_neg here, Nat.add_zero]

theorem pullRequestWriter_eq_ok {db : Database} {intent : NewPullRequestRefIntent}
    {repositoryId : Identifier} {actorId : Nat}
    (ok : db.pullRequestWriter intent = .ok (repositoryId, actorId)) :
    ∃ access, db.repositoryIssueAccess intent.owner intent.repository (some intent.actor)
      = .ok access ∧ access.repository.id = repositoryId := by
  unfold pullRequestWriter at ok
  simp only [bind_eq_ok, ensure_eq_ok, required_eq_ok, pure_eq_ok, Except.ok.injEq,
    Prod.mk.injEq] at ok
  obtain ⟨access, accessed, _, -, _, -, _, -, same, -⟩ := ok
  exact ⟨access, accessed, same⟩

/-- An opening takes the next number of its repository and stores a pending intent. -/
theorem beginPullRequestOpen_eq_ok {db db' : Database} {intent : NewPullRequestRefIntent}
    {row : PullRequestRefIntent} (ok : db.beginPullRequestOpen intent = .ok (db', row)) :
    ∃ access repositoryCounters pullRequestRefIntents,
      db.repositoryIssueAccess intent.owner intent.repository (some intent.actor) = .ok access ∧
      db.pullRequestRefIntents.insert row = .ok pullRequestRefIntents ∧
      db' = { db with repositoryCounters, pullRequestRefIntents } ∧
      row.pullRequestId = intent.pullRequestId ∧ row.repositoryId = access.repository.id ∧
      row.pullRequestNumber = db.nextPullRequestNumber row.repositoryId ∧
      row.oldHeadObjectId = none ∧ row.operation = .open ∧ row.state = .pending ∧
      ∀ id, db'.nextPullRequestNumber id =
        if id = row.repositoryId then row.pullRequestNumber + 1
        else db.nextPullRequestNumber id := by
  unfold beginPullRequestOpen at ok
  simp only [bind_eq_ok, sqlite_eq_ok, pure_eq_ok, Except.ok.injEq, Prod.mk.injEq] at ok
  obtain ⟨⟨repositoryId, actorId⟩, writer, ⟨db₁, number⟩, taken, intents, inserted, rfl, rfl⟩ := ok
  obtain ⟨access, accessed, same⟩ := pullRequestWriter_eq_ok writer
  obtain ⟨counters, rfl, next, after⟩ := takePullRequestNumber_eq_ok taken
  exact ⟨access, counters, intents, accessed, inserted, rfl, rfl, same.symm, next, rfl, rfl, rfl,
    after⟩

theorem lt_nextRevisionNumber {db : Database} {r : PullRequestRevision}
    (member : r ∈ db.pullRequestRevisions) : r.number < db.nextRevisionNumber r.pullRequestId := by
  refine Nat.lt_succ_of_le (List.le_max?_getD_of_mem (List.mem_map_of_mem ?_))
  exact List.mem_filter.mpr ⟨member, by simp⟩

theorem nextRevisionNumber_le {db : Database} {pullRequestId : Identifier} {n : Nat}
    (below : ∀ r ∈ db.pullRequestRevisions, r.pullRequestId = pullRequestId → r.number ≤ n) :
    db.nextRevisionNumber pullRequestId ≤ n + 1 := by
  refine Nat.succ_le_succ ?_
  cases largest : ((db.pullRequestRevisions.rows.filter fun r =>
      decide (r.pullRequestId = pullRequestId)).map (·.number)).max? with
  | none => exact Nat.zero_le n
  | some k =>
      obtain ⟨r, hr, rfl⟩ := List.mem_map.mp (List.max?_mem largest)
      obtain ⟨hr, of⟩ := List.mem_filter.mp hr
      exact below r hr (of_decide_eq_true of)

theorem mem_of_numbered {db : Database} {repositoryId : Identifier} {number : Nat}
    {p : PullRequest} (found : db.pullRequestNumbered repositoryId number = some p) :
    p ∈ db.pullRequests ∧ p.repositoryId = repositoryId ∧ p.number = number := by
  obtain ⟨hp, named⟩ := Table.mem_of_find found
  exact ⟨hp, of_decide_eq_true named⟩

/-- A revision stores a pending intent for an open pull request and the number after
its last revision. -/
theorem beginPullRequestRevision_eq_ok {db db' : Database} {number : Nat}
    {intent : NewPullRequestRefIntent} {row : PullRequestRefIntent}
    (ok : db.beginPullRequestRevision number intent = .ok (db', row)) :
    ∃ access pullRequestRefIntents, ∃ p ∈ db.pullRequests,
      db.repositoryIssueAccess intent.owner intent.repository (some intent.actor) = .ok access ∧
      db.pullRequestRefIntents.insert row = .ok pullRequestRefIntents ∧
      db' = { db with pullRequestRefIntents } ∧ p.state = .open ∧
      p.repositoryId = access.repository.id ∧ p.number = number ∧
      row.pullRequestId = p.id ∧ row.repositoryId = p.repositoryId ∧
      row.pullRequestNumber = p.number ∧ row.oldHeadObjectId = some p.headObjectId ∧
      row.operation = .revise ∧ row.state = .pending ∧ row.createdAt = intent.createdAt ∧
      ∀ r ∈ db.pullRequestRevisions, r.pullRequestId = p.id → r.number < row.revisionNumber := by
  unfold beginPullRequestRevision at ok
  simp only [bind_eq_ok, ensure_eq_ok, required_eq_ok, sqlite_eq_ok, pure_eq_ok,
    Except.ok.injEq, Prod.mk.injEq] at ok
  obtain ⟨⟨repositoryId, actorId⟩, writer, p, found, _, «open», _, same, intents, inserted, rfl,
    rfl⟩ := ok
  obtain ⟨access, accessed, rfl⟩ := pullRequestWriter_eq_ok writer
  obtain ⟨hp, here, numbered⟩ := mem_of_numbered found
  refine ⟨access, intents, p, hp, accessed, inserted, rfl, «open», here, numbered, same.1.symm,
    here.symm, numbered.symm, rfl, rfl, rfl, rfl, ?_⟩
  intro r hr of
  dsimp only [pullRequestIntentRow]
  rw [← of]
  exact lt_nextRevisionNumber hr

theorem beginPullRequestRevision_names {db db' : Database} {number : Nat}
    {intent : NewPullRequestRefIntent} {row : PullRequestRefIntent}
    (ok : db.beginPullRequestRevision number intent = .ok (db', row)) :
    row.pullRequestId = intent.pullRequestId := by
  unfold beginPullRequestRevision at ok
  simp only [bind_eq_ok, pure_eq_ok, Except.ok.injEq, Prod.mk.injEq] at ok
  obtain ⟨_, -, _, -, _, -, _, -, _, -, -, rfl⟩ := ok
  rfl

theorem beginPullRequestRevision_number {db db' : Database} {number : Nat}
    {intent : NewPullRequestRefIntent} {row : PullRequestRefIntent}
    (ok : db.beginPullRequestRevision number intent = .ok (db', row)) :
    row.revisionNumber = db.nextRevisionNumber row.pullRequestId := by
  unfold beginPullRequestRevision at ok
  simp only [bind_eq_ok, ensure_eq_ok, required_eq_ok, sqlite_eq_ok, pure_eq_ok,
    Except.ok.injEq, Prod.mk.injEq] at ok
  obtain ⟨_, -, stored, -, _, -, _, same, _, -, -, rfl⟩ := ok
  dsimp only [pullRequestIntentRow]
  rw [same.1]

/-- The four statements of a completion. -/
theorem completePullRequestRefIntent_eq_ok {db db' : Database} {id : Identifier}
    (ok : db.completePullRequestRefIntent id = .ok db') :
    ∃ intent pullRequests pullRequestRevisions repositoryEvents pullRequestRefIntents,
      db.Pending intent ∧ intent.id = id ∧
      db.storePullRequest intent = .ok pullRequests ∧
      db.pullRequestRevisions.insert (db.revisionRow intent) = .ok pullRequestRevisions ∧
      db.pullRequestRefIntents.update (pendingIntent id)
        (fun i => { i with state := .completed }) = .ok pullRequestRefIntents ∧
      db' = { db with
        pullRequests, pullRequestRevisions, repositoryEvents, pullRequestRefIntents } := by
  unfold completePullRequestRefIntent at ok
  simp only [bind_eq_ok, ensure_eq_ok, required_eq_ok, sqlite_eq_ok, pure_eq_ok,
    Except.ok.injEq] at ok
  obtain ⟨intent, found, _, pending, pullRequests, stored, revisions, added, db₁, event, intents,
    settled, rfl⟩ := ok
  obtain ⟨member, same⟩ := Table.get_eq_some.mp found
  obtain ⟨repositoryEvents, -, rfl⟩ := insertDomainEvent_eq_ok.mp event
  exact ⟨intent, pullRequests, revisions, repositoryEvents, intents, ⟨member, pending⟩, same,
    stored, added, settled, rfl⟩

theorem abandonPullRequestRefIntent_eq_ok {db db' : Database} {id : Identifier}
    (ok : db.abandonPullRequestRefIntent id = .ok db') :
    ∃ pullRequestRefIntents, db.pullRequestRefIntents.update (pendingIntent id)
        (fun i => { i with state := .abandoned }) = .ok pullRequestRefIntents ∧
      db' = { db with pullRequestRefIntents } := by
  unfold abandonPullRequestRefIntent at ok
  simp only [bind_eq_ok, sqlite_eq_ok, pure_eq_ok, Except.ok.injEq] at ok
  obtain ⟨intents, settled, _, -, rfl⟩ := ok
  exact ⟨intents, settled, rfl⟩

/-! ## When a completion succeeds -/

theorem storePullRequest_open {db : Database} {i : PullRequestRefIntent} (pending : db.Pending i)
    (opens : i.operation = .open)
    (fresh : ∀ p ∈ db.pullRequests, p.id ≠ i.pullRequestId ∧
      ¬(p.repositoryId = i.repositoryId ∧ p.number = i.pullRequestNumber)) :
    ∃ pullRequests, db.storePullRequest i = .ok pullRequests := by
  have checked := db.pullRequestRefIntents.checked i pending.1
  simp only [Schema.check, Bool.and_eq_true] at checked
  obtain ⟨⟨⟨⟨⟨⟨⟨⟨number, -⟩, title⟩, body⟩, -⟩, baseRef⟩, headRef⟩, since⟩, -⟩ := checked
  have row : Schema.check (openedRow i) = true := by
    simp only [Schema.check, openedRow, Bool.and_eq_true]
    exact ⟨⟨⟨⟨⟨⟨number, title⟩, body⟩, baseRef⟩, headRef⟩, since⟩, decide_eq_true le_rfl⟩
  obtain ⟨pullRequests, inserted⟩ := Table.insert_of (t := db.pullRequests) row (by
    intro p hp clash
    rcases of_decide_eq_true clash with id | numbered
    · exact (fresh p hp).1 id
    · exact (fresh p hp).2 numbered)
  unfold storePullRequest
  rw [opens]
  exact ⟨pullRequests, sqlite_eq_ok.mpr inserted⟩

theorem revisable_iff {i : PullRequestRefIntent} {p : PullRequest} :
    revisable i p = true ↔ p.id = i.pullRequestId ∧ p.state = .open ∧
      some p.headObjectId = i.oldHeadObjectId := decide_eq_true_iff

theorem check_revisedRow {i : PullRequestRefIntent} {p : PullRequest}
    (checked : Schema.check p = true) :
    Schema.check (revisedRow i p) = true ↔ p.createdAt ≤ i.createdAt := by
  rw [PullRequest.check_iff] at checked ⊢
  exact ⟨fun after => after.2, fun since => ⟨checked.1, since⟩⟩

/-- A revision of an open pull request at its old head is stored exactly when its clock
reading is not before the creation of the pull request. -/
theorem storePullRequest_revise {db : Database} {i : PullRequestRefIntent} {p : PullRequest}
    (revises : i.operation = .revise) (member : p ∈ db.pullRequests)
    (chosen : revisable i p = true) :
    (∃ pullRequests, db.storePullRequest i = .ok pullRequests) ↔ p.createdAt ≤ i.createdAt := by
  have only : ∀ q ∈ db.pullRequests, revisable i q = true → q = p := fun q hq h =>
    Table.eq_of_key hq member ((revisable_iff.mp h).1.trans (revisable_iff.mp chosen).1.symm)
  have counted : db.pullRequests.count (revisable i) = 1 :=
    Table.count_eq_one member chosen fun q hq h => congrArg Schema.key (only q hq h)
  unfold storePullRequest
  rw [revises]
  simp only [bind_eq_ok, ensure_eq_ok, sqlite_eq_ok, pure_eq_ok, Except.ok.injEq]
  constructor
  · rintro ⟨pullRequests, t, updated, -, -, -⟩
    have row : revisedRow i p ∈ t := (Table.mem_update updated).mpr ⟨p, member, by rw [if_pos chosen]⟩
    exact (check_revisedRow (db.pullRequests.checked p member)).mp (t.checked _ row)
  · intro since
    obtain ⟨t, updated⟩ := Table.update_of (t := db.pullRequests) (p := revisable i)
      (f := revisedRow i) (fun _ _ => Iff.rfl) (by
        intro q hq h
        rw [only q hq h]
        exact (check_revisedRow (db.pullRequests.checked p member)).mpr since)
    exact ⟨t, t, updated, ⟨⟩, counted, rfl⟩

/-- What a revision that is stored has found. -/
theorem storePullRequest_revise_eq_ok {db : Database} {i : PullRequestRefIntent}
    {pullRequests : Table PullRequest} (revises : i.operation = .revise)
    (ok : db.storePullRequest i = .ok pullRequests) :
    ∃ p ∈ db.pullRequests, revisable i p = true ∧
      db.pullRequests.update (revisable i) (revisedRow i) = .ok pullRequests := by
  unfold storePullRequest at ok
  rw [revises] at ok
  simp only [bind_eq_ok, ensure_eq_ok, sqlite_eq_ok, pure_eq_ok, Except.ok.injEq] at ok
  obtain ⟨t, updated, _, counted, rfl⟩ := ok
  obtain ⟨p, hp, chosen⟩ := Table.exists_of_count (by rw [counted]; decide)
  exact ⟨p, hp, chosen, updated⟩

theorem storePullRequest_open_eq_ok {db : Database} {i : PullRequestRefIntent}
    {pullRequests : Table PullRequest} (opens : i.operation = .open)
    (ok : db.storePullRequest i = .ok pullRequests) :
    db.pullRequests.insert (openedRow i) = .ok pullRequests := by
  unfold storePullRequest at ok
  rw [opens] at ok
  exact sqlite_eq_ok.mp ok

/-- A pending intent whose pull request can be written is completed. -/
theorem completePullRequestRefIntent_succeeds {db : Database} {i : PullRequestRefIntent}
    (pending : db.Pending i) (stored : ∃ pullRequests, db.storePullRequest i = .ok pullRequests)
    (fresh : ∀ r ∈ db.pullRequestRevisions, r.pullRequestId = i.pullRequestId →
      r.number ≠ i.revisionNumber) :
    ∃ db', db.completePullRequestRefIntent i.id = .ok db' := by
  obtain ⟨pullRequests, stored⟩ := stored
  have checked := db.pullRequestRefIntents.checked i pending.1
  simp only [Schema.check, Bool.and_eq_true, lengthBetween_iff] at checked
  obtain ⟨⟨⟨⟨⟨⟨⟨⟨-, revision⟩, -⟩, -⟩, actor⟩, -⟩, -⟩, since⟩, -⟩ := checked
  have row : Schema.check (db.revisionRow i) = true := by
    simp only [Schema.check, revisionRow, Bool.and_eq_true]
    exact ⟨revision, since⟩
  obtain ⟨revisions, added⟩ := Table.insert_of (t := db.pullRequestRevisions) row (by
    intro r hr clash
    rcases of_decide_eq_true clash with id | ⟨of, number⟩
    · exact absurd id (Nat.ne_of_lt (Table.key_lt_nextRowid hr))
    · exact fresh r hr of number)
  have shaped : ∀ d : Database, (d.eventRow (pullRequestRefEvent i)).shaped = true := by
    intro d
    unfold eventRow pullRequestRefEvent RepositoryEvent.shaped
    cases i.operation <;> simp [EventKind.shape]
  have event : ∃ db₁, ({ db with pullRequests, pullRequestRevisions := revisions } :
      Database).insertDomainEvent (pullRequestRefEvent i) = .ok db₁ :=
    insertDomainEvent_succeeds ⟨actor.1, actor.2.trans (by decide)⟩ (of_decide_eq_true since) rfl
      (shaped _) fun _ _ sourced => absurd rfl sourced
  obtain ⟨db₁, event⟩ := event
  obtain ⟨repositoryEvents, -, same⟩ := insertDomainEvent_eq_ok.mp event
  obtain ⟨intents, settled⟩ := settle_of (t := db.pullRequestRefIntents) i.id .completed
  have found : db.pullRequestRefIntents.get i.id = some i := Table.get_of_mem pending.1
  unfold completePullRequestRefIntent
  simp only [bind_eq_ok, ensure_eq_ok, required_eq_ok, sqlite_eq_ok, pure_eq_ok]
  refine ⟨_, i, found, ⟨⟩, pending.2, pullRequests, stored, revisions, added, db₁, event, intents,
    ?_, rfl⟩
  rw [same]
  exact settled

theorem abandonPullRequestRefIntent_succeeds {db : Database} {i : PullRequestRefIntent}
    (pending : db.Pending i) : ∃ db', db.abandonPullRequestRefIntent i.id = .ok db' := by
  obtain ⟨intents, settled⟩ := settle_of (t := db.pullRequestRefIntents) i.id .abandoned
  have counted : db.pullRequestRefIntents.count (pendingIntent i.id) = 1 :=
    Table.count_eq_one pending.1 (decide_eq_true ⟨rfl, pending.2⟩) fun _ _ chosen =>
      (of_decide_eq_true chosen).1
  unfold abandonPullRequestRefIntent
  simp only [bind_eq_ok, ensure_eq_ok, sqlite_eq_ok, pure_eq_ok]
  exact ⟨_, intents, settled, ⟨⟩, counted, rfl⟩

/-! ## Edits and changes of state -/

theorem insertPullRequestEvent_eq_ok {db db' : Database} {repositoryId pullRequestId : Identifier}
    {actor : String} {createdAt : Int} {event : VersionedEvent}
    (ok : db.insertPullRequestEvent repositoryId pullRequestId actor createdAt event = .ok db') :
    ∃ repositoryEvents, db' = { db with repositoryEvents } := by
  unfold insertPullRequestEvent at ok
  simp only [bind_eq_ok] at ok
  obtain ⟨_, -, inserted⟩ := ok
  obtain ⟨repositoryEvents, -, same⟩ := insertDomainEvent_eq_ok.mp inserted
  exact ⟨repositoryEvents, same⟩

/-- An edit finds a row that is not merged. -/
theorem editPullRequest_eq_ok {db db' : Database} {edit : PullRequestEdit}
    (ok : db.editPullRequest edit = .ok db') :
    ∃ current ∈ db.pullRequests, ∃ pullRequests repositoryEvents, current.state ≠ .merged ∧
      db.pullRequests.update (fun p => decide (p.id = current.id))
        (fun p => { p with title := edit.title, body := edit.body, updatedAt := edit.changedAt })
        = .ok pullRequests ∧
      db' = { db with pullRequests, repositoryEvents } := by
  unfold editPullRequest at ok
  simp only [bind_eq_ok, ensure_eq_ok, required_eq_ok, sqlite_eq_ok] at ok
  obtain ⟨access, -, current, found, _, -, _, unmerged, pullRequests, updated, event⟩ := ok
  obtain ⟨repositoryEvents, same⟩ := insertPullRequestEvent_eq_ok event
  exact ⟨current, (mem_of_numbered found).1, pullRequests, repositoryEvents, unmerged, updated,
    same⟩

/-- The checks in front of a change of state, on the row that the request names. -/
structure ChangesState (db : Database) (owner repository : String) (number : Nat)
    (actor : String) (state : PullRequestState) (changedAt : Int) (p : PullRequest) : Prop where
  found : ∃ access, db.repositoryIssueAccess owner repository (some actor) = .ok access ∧
    db.pullRequestNumbered access.repository.id number = some p ∧
    access.canWriteIssue p.authorAccountId = true
  changes : p.state ≠ .merged ∧ p.state ≠ state
  since : p.createdAt ≤ changedAt
  payload : (pullRequestChange .pullRequestClosed p.id number p.title p.body state).payloadLength
    ≤ maxPayloadLength

/-- A request names one row. -/
theorem ChangesState.same {db : Database} {owner repository : String} {number : Nat}
    {actor : String} {state : PullRequestState} {changedAt : Int} {p q : PullRequest}
    (first : db.ChangesState owner repository number actor state changedAt p)
    (second : db.ChangesState owner repository number actor state changedAt q) : p = q := by
  obtain ⟨access, accessed, found, -⟩ := first.found
  obtain ⟨access', accessed', found', -⟩ := second.found
  obtain rfl : access = access' := Except.ok.inj (accessed.symm.trans accessed')
  exact Option.some.inj (found.symm.trans found')

theorem setPullRequestState_eq_ok {db db' : Database} {owner repository : String} {number : Nat}
    {actor : String} {state : PullRequestState} {changedAt : Int}
    (ok : db.setPullRequestState owner repository number actor state changedAt = .ok db') :
    ∃ current ∈ db.pullRequests, ∃ pullRequests repositoryEvents,
      db.ChangesState owner repository number actor state changedAt current ∧
      db.pullRequests.update (fun p => decide (p.id = current.id))
        (fun p => { p with state, updatedAt := changedAt }) = .ok pullRequests ∧
      db' = { db with pullRequests, repositoryEvents } := by
  unfold setPullRequestState at ok
  simp only [bind_eq_ok, ensure_eq_ok, required_eq_ok, sqlite_eq_ok] at ok
  obtain ⟨access, accessed, current, found, _, allowed, _, changes, pullRequests, updated, event⟩ :=
    ok
  have member := (mem_of_numbered found).1
  have after : { current with state, updatedAt := changedAt } ∈ pullRequests :=
    (Table.mem_update updated).mpr ⟨current, member, by rw [if_pos (decide_eq_true rfl)]⟩
  have checked := PullRequest.check_iff.mp (pullRequests.checked _ after)
  have payload := event
  unfold insertPullRequestEvent at payload
  simp only [bind_eq_ok, ensure_eq_ok] at payload
  obtain ⟨_, payload, -⟩ := payload
  obtain ⟨repositoryEvents, same⟩ := insertPullRequestEvent_eq_ok event
  exact ⟨current, member, pullRequests, repositoryEvents,
    ⟨⟨access, accessed, found, allowed⟩, changes, checked.2, payload⟩, updated, same⟩

/-- Only an account can write to an issue or a pull request. -/
theorem canWriteIssue_account {db : Database} {owner slug actor : String}
    {access : RepositoryIssueAccess} {author : Nat}
    (ok : db.repositoryIssueAccess owner slug (some actor) = .ok access)
    (allowed : access.canWriteIssue author = true) : ∃ a ∈ db.accounts, a.username = actor := by
  unfold repositoryIssueAccess at ok
  simp only [bind_eq_ok, required_eq_ok, pure_eq_ok, Except.ok.injEq, Option.bind_some] at ok
  obtain ⟨⟨n, r⟩, -, rfl⟩ := ok
  cases found : db.accounts.find (fun a => decide (a.username = actor)) with
  | none =>
      rw [found] at allowed
      simp [RepositoryIssueAccess.canWriteIssue] at allowed
  | some a =>
      obtain ⟨ha, named⟩ := Table.mem_of_find found
      exact ⟨a, ha, of_decide_eq_true named⟩

/-- **These checks are all that a change of state asks for.** -/
theorem setPullRequestState_succeeds {db : Database} {owner repository : String} {number : Nat}
    {actor : String} {state : PullRequestState} {changedAt : Int} {p : PullRequest}
    (changes : db.ChangesState owner repository number actor state changedAt p) :
    ∃ db', db.setPullRequestState owner repository number actor state changedAt = .ok db' := by
  obtain ⟨⟨access, accessed, found, allowed⟩, changed, since, payload⟩ := changes
  have member := (mem_of_numbered found).1
  obtain ⟨a, ha, named⟩ := canWriteIssue_account accessed allowed
  have fits := username_fits ha
  rw [named] at fits
  obtain ⟨pullRequests, updated⟩ := Table.update_of (t := db.pullRequests)
    (p := fun q => decide (q.id = p.id)) (f := fun q => { q with state, updatedAt := changedAt })
    (fun _ _ => Iff.rfl) (by
      intro q hq same
      obtain rfl : q = p := Table.eq_of_key hq member (of_decide_eq_true same)
      have checked := PullRequest.check_iff.mp (db.pullRequests.checked q hq)
      exact PullRequest.check_iff.mpr ⟨checked.1, since⟩)
  have checked := PullRequest.check_iff.mp (db.pullRequests.checked p member)
  have created : 0 ≤ changedAt := le_trans checked.1.2 since
  unfold setPullRequestState insertPullRequestEvent
  have event : ∀ kind : EventKind, kind = .pullRequestClosed ∨ kind = .pullRequestReopened →
      ∃ db', ({ db with pullRequests } : Database).insertDomainEvent
        { repositoryId := access.repository.id, sourceIntentId := none, sourceOrdinal := none,
          pullRequestId := some p.id, kind, actor, refName := none, oldTarget := none,
          newTarget := none, createdAt := changedAt } = .ok db' := by
    intro kind kinds
    refine insertDomainEvent_succeeds ⟨fits.1, fits.2.trans (by decide)⟩ created rfl ?_
      fun _ _ sourced => absurd rfl sourced
    rcases kinds with rfl | rfl <;> rfl
  obtain ⟨db', event⟩ := event (if state = .closed then .pullRequestClosed else .pullRequestReopened)
    (by split <;> simp)
  simp only [bind_eq_ok, ensure_eq_ok, required_eq_ok, sqlite_eq_ok]
  exact ⟨db', access, accessed, p, found, ⟨⟩, allowed, ⟨⟩, changed, pullRequests, updated, ⟨⟩,
    payload, event⟩

end Database

end Tit.Store
