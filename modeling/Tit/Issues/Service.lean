/-
# Issues.Service -- what the service lets through

`IssueService` checks the names, the number and the texts of a request; the columns of the tables
check the texts again, and the payload of an event has a bound after escaping.  The body of an
issue, unlike that of a pull request, has no control characters that escape to six, so every text
that is let through fits (`fits_of_valid`).  The tables then refuse a call for one reason alone: the
clock has gone back behind the creation of its issue (`perform_refused_iff`), which no run whose
clock only goes on does (`run_stored`).

Pole: an edit by a clock that went back (`back_refused`).
-/
import Tit.PullRequests.Anchors
import Tit.PullRequests.Lifecycle
import Tit.Store.EventLog

namespace Tit.Issues

open Tit.Theory Tit.Store Tit.PullRequests

set_option autoImplicit false

/-! ## Checks of a request -/

inductive IssueError where
  | auth
  | repositoryName
  | store (error : StoreError)
  | number
  | title
  | body
  | state
  | clock
  deriving DecidableEq, Repr

def maxTitleBytes : Nat := 200

def maxBodyBytes : Nat := 256 * 1024

def validateContext (owner repository : String) (actor : Option String) :
    Except IssueError Unit := do
  ensure (validateUsername owner = true) .auth
  ensure (validateSlug repository = true) .repositoryName
  ensure (actor.all validateUsername = true) .auth

def validateNumber (number : Int) : Except IssueError Unit := ensure (1 ≤ number) .number

/-- `str::trim`, on the characters of a text. -/
def trimmed (text : List Char) : List Char :=
  ((text.dropWhile isWhiteSpace).reverse.dropWhile isWhiteSpace).reverse

def validateTitle (title : String) : Except IssueError Unit :=
  ensure (title ≠ "" ∧ title.utf8ByteSize ≤ maxTitleBytes ∧ trimmed title.toList = title.toList ∧
    title.toList.any isControl = false) .title

def validateBody (body : String) (emptyOk : Bool) : Except IssueError Unit :=
  ensure (body.utf8ByteSize ≤ maxBodyBytes ∧ (emptyOk = false → blank body = false) ∧
    (body.toList.any fun c => isControl c && !decide (c = '\n' ∨ c = '\r' ∨ c = '\t')) = false)
    .body

/-- The states that `set_state` takes. -/
def issueState (state : String) : Option IssueState :=
  if state = "open" then some .open else if state = "closed" then some .closed else none

/-! ## Calls -/

def stored {α : Type} (result : Except StoreError α) : Except IssueError α :=
  match result with
  | .ok value => .ok value
  | .error error => .error (.store error)

/-- Every call checks its request, reads the clock and runs one transaction; `now` is what
`unix_timestamp` answers. -/
def transact {α β : Type} (checks : Except IssueError α) (now : Option Nat)
    (transaction : α → Int → Except StoreError β) : Except IssueError β := do
  let checked ← checks
  let seconds ← required now .clock
  stored (transaction checked seconds)

/-- `id` is the random key that the database draws for the issue. -/
def create (db : Database) (now : Option Nat) (id : Identifier)
    (owner repository actor title body : String) : Except IssueError (Database × IssueRecord) :=
  transact (do
    validateContext owner repository (some actor)
    validateTitle title
    validateBody body true) now fun _ createdAt =>
    db.createIssue { id, owner, repository, actor, title, body, createdAt }

def edit (db : Database) (now : Option Nat) (owner repository : String) (number : Int)
    (actor title body : String) : Except IssueError Database :=
  transact (do
    validateContext owner repository (some actor)
    validateNumber number
    validateTitle title
    validateBody body true) now fun _ changedAt =>
    db.editIssue { owner, repository, number := number.toNat, actor, changedAt } title body

def comment (db : Database) (now : Option Nat) (owner repository : String) (number : Int)
    (actor body : String) : Except IssueError (Database × Nat) :=
  transact (do
    validateContext owner repository (some actor)
    validateNumber number
    validateBody body false) now fun _ createdAt =>
    db.commentIssue owner repository number.toNat actor body createdAt

def setState (db : Database) (now : Option Nat) (owner repository : String) (number : Int)
    (actor state : String) : Except IssueError Database :=
  transact (do
    validateContext owner repository (some actor)
    validateNumber number
    required (issueState state) .state) now fun state changedAt =>
    db.setIssueState owner repository number.toNat actor state changedAt

inductive Request where
  | create (id : Identifier) (owner repository actor title body : String)
  | edit (owner repository : String) (number : Int) (actor title body : String)
  | comment (owner repository : String) (number : Int) (actor body : String)
  | setState (owner repository : String) (number : Int) (actor state : String)

/-- What a call leaves in the database. -/
def perform (db : Database) (now : Option Nat) : Request → Except IssueError Database
  | .create id owner repository actor title body =>
      (create db now id owner repository actor title body).map (·.1)
  | .edit owner repository number actor title body =>
      edit db now owner repository number actor title body
  | .comment owner repository number actor body =>
      (comment db now owner repository number actor body).map (·.1)
  | .setState owner repository number actor state =>
      setState db now owner repository number actor state

/-- The call ends at a `CHECK` of the tables. -/
abbrev Refused {α : Type} (result : Except IssueError α) : Prop :=
  result = .error (.store (.sqlite .check))

/-! ## Payloads -/

section Payloads

variable {title body : String} {id : Identifier} {number : Nat}

/-- What the service asks of a text leaves characters that escape to two at most. -/
theorem escaped_le_of_valid {text : String}
    (plain : (text.toList.any fun c => isControl c && !decide (c = '\n' ∨ c = '\r' ∨ c = '\t')) =
      false) : jsonStringLength text ≤ text.utf8ByteSize * 2 + 2 := by
  refine jsonStringLength_le fun c member => escapedLength_of_valid ?_
  have fine := List.any_eq_false.mp plain c member
  cases control : isControl c with
  | false => rfl
  | true =>
      rw [control, Bool.true_and, Bool.not_eq_true, Bool.not_eq_false'] at fine
      exact fine

theorem validateTitle_eq_ok {done : Unit} (valid : validateTitle title = .ok done) :
    bytesBetween 1 200 title.utf8ByteSize = true ∧ jsonStringLength title ≤ 402 := by
  obtain ⟨some', short, -, plain⟩ := ensure_eq_ok.mp valid
  have short : title.utf8ByteSize ≤ 200 := short
  have length := @escaped_le_of_valid title (by
    refine List.any_eq_false.mpr fun c member both => ?_
    rw [Bool.and_eq_true] at both
    exact List.any_eq_false.mp plain c member both.1)
  have positive : title.utf8ByteSize ≠ 0 := fun zero =>
    some' (String.utf8ByteSize_eq_zero_iff.mp zero)
  refine ⟨decide_eq_true ⟨?_, short⟩, ?_⟩ <;> omega

theorem validateBody_eq_ok {emptyOk : Bool} {done : Unit}
    (valid : validateBody body emptyOk = .ok done) :
    bytesBetween 0 262144 body.utf8ByteSize = true ∧ jsonStringLength body ≤ 524290 := by
  obtain ⟨short, -, plain⟩ := ensure_eq_ok.mp valid
  have short : body.utf8ByteSize ≤ 262144 := short
  have length := escaped_le_of_valid plain
  exact ⟨decide_eq_true ⟨Nat.zero_le _, short⟩, by omega⟩

/-- A comment has a text. -/
theorem validateComment_eq_ok {done : Unit} (valid : validateBody body false = .ok done) :
    bytesBetween 1 262144 body.utf8ByteSize = true := by
  obtain ⟨short, nonblank, -⟩ := ensure_eq_ok.mp valid
  refine decide_eq_true ⟨Nat.one_le_iff_ne_zero.mpr fun zero => ?_, short⟩
  have text := nonblank rfl
  rw [String.utf8ByteSize_eq_zero_iff.mp zero] at text
  cases text

variable (decimal : (number : Int) ≤ maxI64)

include decimal in
theorem issueEvent_fits {kind : EventKind} (titleFits : jsonStringLength title ≤ 402)
    (bodyFits : jsonStringLength body ≤ 524290) :
    (issueEvent kind id number title body).payloadLength ≤ maxPayloadLength := by
  have digits := decimal_fits decimal
  have keys : "version".length = 7 ∧ "issue_id".length = 8 ∧ "number".length = 6 ∧
      "title".length = 5 ∧ "body".length = 4 := by decide
  obtain ⟨version, issueId, number', title', body'⟩ := keys
  show jsonObjectLength _ ≤ _
  simp only [jsonObjectLength, List.map_cons, List.map_nil, List.sum_cons, List.sum_nil, version,
    issueId, number', title', body', escaped_identifier]
  unfold maxPayloadLength
  omega

include decimal in
theorem issueCommentEvent_fits {author : String} (authorFits : author.length ≤ 40)
    (bodyFits : jsonStringLength body ≤ 524290) :
    (issueCommentEvent id number author body).payloadLength ≤ maxPayloadLength := by
  have digits := decimal_fits decimal
  have name := (@jsonStringLength_le_length author _) fun c _ => escapedLength_le c
  have keys : "version".length = 7 ∧ "issue_id".length = 8 ∧ "number".length = 6 ∧
      "comment_id".length = 10 ∧ "author".length = 6 ∧ "body".length = 4 := by decide
  obtain ⟨version, issueId, number', comment', author', body'⟩ := keys
  show jsonObjectLength _ ≤ _
  simp only [jsonObjectLength, List.map_cons, List.map_nil, List.sum_cons, List.sum_nil, version,
    issueId, number', comment', author', body', escaped_identifier]
  unfold maxPayloadLength
  omega

include decimal in
theorem issueStateEvent_fits {kind : EventKind} {state : IssueState} :
    (issueStateEvent kind id number state).payloadLength ≤ maxPayloadLength := by
  have digits := decimal_fits decimal
  have letters : jsonStringLength state.text ≤ 8 := by
    cases state <;> decide
  have keys : "version".length = 7 ∧ "issue_id".length = 8 ∧ "number".length = 6 ∧
      "state".length = 5 := by decide
  obtain ⟨version, issueId, number', state'⟩ := keys
  show jsonObjectLength _ ≤ _
  simp only [jsonObjectLength, List.map_cons, List.map_nil, List.sum_cons, List.sum_nil, version,
    issueId, number', state', escaped_identifier]
  unfold maxPayloadLength
  omega

end Payloads

/-! ## What the tables refuse -/

section Tables

variable {db : Database} {owner repository actor : String} {number room : Nat} {α : Type}

/-- The columns of the numbers are 64-bit integers, also when `room` more are given out. -/
structure Numbered (db : Database) (room : Nat) : Prop where
  issues : ∀ i ∈ db.issues, (i.number : Int) ≤ maxI64
  next : ∀ id, (db.nextIssueNumber id : Int) + room ≤ maxI64

theorem update_check {R K : Type} [Schema R K] {t : Table R} {p : R → Bool} {f : R → R} {r : R}
    (member : r ∈ t) (chosen : p r = true) (fails : ¬Schema.check (f r) = true) :
    t.update p f = .error .check := by
  unfold Table.update Table.ofRows
  rw [dif_neg]
  intro checked
  have here := checked (f r) (List.mem_map.mpr ⟨r, member, if_pos chosen⟩)
  exact fails here

/-- The update of one issue, with what comes behind it, fails at the row or not at all. -/
theorem update_refused_iff {i : Issue} {f : Issue → Issue} {now : Int}
    {next : Table Issue → Except StoreError α} (member : i ∈ db.issues)
    (keys : ∀ j, (f j).id = j.id ∧ (f j).repositoryId = j.repositoryId ∧ (f j).number = j.number)
    (checked : Schema.check (f i) = true ↔ i.createdAt ≤ now)
    (rest : i.createdAt ≤ now → ∀ issues, ¬CheckFails (next issues)) :
    CheckFails (sqlite (db.issues.update (fun j => decide (j.id = i.id)) f) >>= next) ↔
      now < i.createdAt := by
  by_cases since : i.createdAt ≤ now
  · obtain ⟨issues, updated⟩ := Table.update_of (t := db.issues)
      (p := fun j => decide (j.id = i.id)) (f := f) (fun j k => by
        obtain ⟨id, inside, number⟩ := keys j
        show decide _ = true ↔ decide _ = true
        rw [id, inside, number]) (by
      intro j hj same
      obtain rfl : j = i := Table.eq_of_key hj member (of_decide_eq_true same)
      exact checked.mpr since)
    rw [updated]
    refine ⟨fun failed => absurd failed (rest since issues), fun behind => ?_⟩
    omega
  · have refused : db.issues.update (fun j => decide (j.id = i.id)) f = .error .check :=
      update_check member (decide_eq_true rfl) fun fine => since (checked.mp fine)
    rw [refused]
    refine ⟨fun _ => ?_, fun _ => rfl⟩
    omega

/-- No `CHECK` refuses an event whose payload fits. -/
theorem event_unrefused {repositoryId issueId : Identifier} {now : Int} {event : VersionedEvent}
    (named : ∃ a ∈ db.accounts, a.username = actor) (since : 0 ≤ now)
    (kinds : event.kind ∈ [EventKind.issueCreated, .issueEdited, .issueCommented, .issueClosed,
      .issueReopened])
    (payload : event.payloadLength ≤ maxPayloadLength) {db' : Database} :
    ¬CheckFails (db'.insertIssueEvent repositoryId issueId actor now event) := by
  obtain ⟨a, ha, rfl⟩ := named
  have fits := username_fits ha
  unfold CheckFails Database.insertIssueEvent
  rw [ensure_of payload, ok_bind]
  have stored := @Database.insertDomainEvent_succeeds db'
    { repositoryId, sourceIntentId := none, sourceOrdinal := none, issueId := some issueId,
      pullRequestId := none, kind := event.kind, actor := a.username, refName := none,
      oldTarget := none, newTarget := none, createdAt := now }
    ⟨fits.1, fits.2.trans (by decide)⟩ since rfl (by
      simp only [List.mem_cons, List.not_mem_nil, or_false] at kinds
      rcases kinds with kind | kind | kind | kind | kind <;> rw [kind] <;> rfl)
    fun _ _ sourced => absurd rfl sourced
  obtain ⟨after, inserted⟩ := stored
  rw [inserted]
  intro failed
  cases failed

/-- What the context of a change names: a row of the table, and an account that asks. -/
theorem context_eq_ok {access : RepositoryIssueAccess} {current : StoredIssue}
    (ok : db.issueMutationContext owner repository number actor = .ok (access, current)) :
    access.canRead = true ∧ access.activeActorId.isSome = true ∧
      (∃ a ∈ db.accounts, a.username = actor) ∧
      ∃ i ∈ db.issues, i.number = number ∧ current.issue.id = i.id ∧
        current.issue.state = i.state ∧ current.issue.createdAt = i.createdAt := by
  simp only [Database.issueMutationContext, Database.findIssue, bind_eq_ok, required_eq_ok,
    ensure_eq_ok, pure_eq_ok, Except.ok.injEq, Prod.mk.injEq] at ok
  obtain ⟨_, accessed, _, readable, _, active, _, ⟨i, found, record, shown, rfl⟩, rfl, rfl⟩ := ok
  obtain ⟨hi, chosen⟩ := Table.mem_of_find found
  obtain ⟨-, numbered⟩ := of_decide_eq_true chosen
  obtain ⟨author, -, rfl⟩ := Option.map_eq_some_iff.mp shown
  obtain ⟨actorId, active'⟩ := Option.isSome_iff_exists.mp active
  exact ⟨readable, active, Database.active_account accessed active', i, hi, numbered, rfl, rfl, rfl⟩

theorem context_unrefused :
    ¬CheckFails (db.issueMutationContext owner repository number actor) := by
  unfold CheckFails Database.issueMutationContext
  intro failed
  rcases bind_eq_error.mp failed with denied | ⟨access, -, failed⟩
  · exact access_unrejected denied
  rcases bind_eq_error.mp failed with hidden | ⟨_, -, failed⟩
  · cases (ensure_eq_error.mp hidden).2
  rcases bind_eq_error.mp failed with denied | ⟨_, -, failed⟩
  · cases (ensure_eq_error.mp denied).2
  rcases bind_eq_error.mp failed with missing | ⟨_, -, done⟩
  · unfold Database.findIssue at missing
    rcases bind_eq_error.mp missing with missing | ⟨i, -, missing⟩
    · cases (required_eq_error.mp missing).2
    rcases bind_eq_error.mp missing with missing | ⟨_, -, done⟩
    · cases (required_eq_error.mp missing).2
    · cases done
  · cases done

/-- The request names an issue that its actor may change so, and the clock stands before the
creation of the issue. -/
def Behind (db : Database) (owner repository : String) (number : Nat) (actor : String) (now : Int)
    (allowed : RepositoryIssueAccess → StoredIssue → Prop) : Prop :=
  ∃ access current, db.issueMutationContext owner repository number actor = .ok (access, current) ∧
    allowed access current ∧ now < current.issue.createdAt

theorem context_refused_iff {now : Int} {allowed : RepositoryIssueAccess → StoredIssue → Prop}
    {next : RepositoryIssueAccess × StoredIssue → Except StoreError α}
    (each : ∀ access current,
      db.issueMutationContext owner repository number actor = .ok (access, current) →
      (CheckFails (next (access, current)) ↔
        allowed access current ∧ now < current.issue.createdAt)) :
    CheckFails (db.issueMutationContext owner repository number actor >>= next) ↔
      Behind db owner repository number actor now allowed := by
  constructor
  · intro failed
    rcases bind_eq_error.mp failed with denied | ⟨⟨access, current⟩, context, failed⟩
    · exact absurd denied context_unrefused
    · exact ⟨access, current, context, (each access current context).mp failed⟩
  · rintro ⟨access, current, context, behind⟩
    rw [context, ok_bind]
    exact (each access current context).mpr behind

/-- A row stays within the columns when the clock has not gone back. -/
theorem issue_check_iff {i : Issue} (title body : String) {now : Int} (member : i ∈ db.issues)
    (titleFits : bytesBetween 1 200 title.utf8ByteSize = true)
    (bodyFits : bytesBetween 0 262144 body.utf8ByteSize = true) :
    Schema.check { i with title, body, updatedAt := now } = true ↔ i.createdAt ≤ now := by
  have checked := db.issues.checked i member
  simp only [Schema.check, Bool.and_eq_true, decide_eq_true_eq] at checked ⊢
  obtain ⟨⟨⟨⟨⟨⟨number, -⟩, -⟩, created⟩, -⟩, closed⟩, consistent⟩ := checked
  exact ⟨fun fine => fine.1.1.2,
    fun since => ⟨⟨⟨⟨⟨⟨number, titleFits⟩, bodyFits⟩, created⟩, since⟩, closed⟩, consistent⟩⟩

theorem own_texts_fit {i : Issue} (member : i ∈ db.issues) :
    bytesBetween 1 200 i.title.utf8ByteSize = true ∧
      bytesBetween 0 262144 i.body.utf8ByteSize = true := by
  have checked := db.issues.checked i member
  simp only [Schema.check, Bool.and_eq_true] at checked
  exact ⟨checked.1.1.1.1.1.2, checked.1.1.1.1.2⟩

theorem edit_refused_iff (numbered : Numbered db room) {now : Int} (since : 0 ≤ now)
    {title body : String} (titleFits : bytesBetween 1 200 title.utf8ByteSize = true)
    (titleEscaped : jsonStringLength title ≤ 402)
    (bodyFits : bytesBetween 0 262144 body.utf8ByteSize = true)
    (bodyEscaped : jsonStringLength body ≤ 524290) :
    CheckFails (db.editIssue { owner, repository, number, actor, changedAt := now } title body) ↔
      Behind db owner repository number actor now fun access current =>
        access.canWriteIssue current.authorAccountId = true := by
  refine context_refused_iff fun access current context => ?_
  obtain ⟨-, -, named, i, member, rfl, id, -, created⟩ := context_eq_ok context
  by_cases allowed : access.canWriteIssue current.authorAccountId = true
  · show CheckFails (ensure _ _ >>= _) ↔ _
    rw [ensure_of allowed, ok_bind, id, created]
    refine Iff.trans ?_ (and_iff_right allowed).symm
    refine update_refused_iff member (fun _ => ⟨rfl, rfl, rfl⟩) ?_ fun _ issues => ?_
    · exact issue_check_iff title body member titleFits bodyFits
    exact event_unrefused named since (by simp [issueEvent])
      (issueEvent_fits (numbered.issues i member) titleEscaped bodyEscaped)
  · show CheckFails (ensure _ _ >>= _) ↔ _
    rw [ensure_of_not allowed]
    exact ⟨fun failed => (by cases failed), fun behind => absurd behind.1 allowed⟩

theorem comment_refused_iff (numbered : Numbered db room) {now : Int} (since : 0 ≤ now)
    {body : String} (bodyFits : bytesBetween 1 262144 body.utf8ByteSize = true)
    (bodyEscaped : jsonStringLength body ≤ 524290) :
    CheckFails (db.commentIssue owner repository number actor body now) ↔
      Behind db owner repository number actor now fun _ _ => True := by
  refine context_refused_iff fun access current context => ?_
  obtain ⟨readable, active, named, i, member, rfl, id, -, created⟩ := context_eq_ok context
  obtain ⟨actorId, found⟩ := Option.isSome_iff_exists.mp active
  obtain ⟨issueComments, inserted⟩ := @Table.insert_of _ _ _ db.issueComments
    (IssueComment.mk db.issueComments.nextRowid current.issue.id actorId body now)
    (by
      simp only [Schema.check, Bool.and_eq_true]
      exact ⟨bodyFits, decide_eq_true since⟩)
    fun c hc clash => absurd (of_decide_eq_true clash) (Nat.ne_of_lt (Table.key_lt_nextRowid hc))
  show CheckFails (required _ _ >>= _) ↔ _
  rw [found, required_some, ok_bind, ensure_of readable, ok_bind]
  show CheckFails (sqlite (db.issueComments.insert _) >>= _) ↔ _
  rw [inserted, sqlite, ok_bind, id, created]
  refine Iff.trans ?_ (and_iff_right trivial).symm
  refine update_refused_iff member (fun _ => ⟨rfl, rfl, rfl⟩) ?_ fun _ issues failed => ?_
  · obtain ⟨titleFits, ownBody⟩ := own_texts_fit member
    exact issue_check_iff i.title i.body member titleFits ownBody
  obtain ⟨a, ha, rfl⟩ := named
  rcases bind_eq_error.mp failed with refused | ⟨_, -, done⟩
  · exact event_unrefused ⟨a, ha, rfl⟩ since (by simp [issueCommentEvent])
      (issueCommentEvent_fits (numbered.issues i member) (username_fits ha).2 bodyEscaped) refused
  · cases done

/-- A change of state keeps the columns of its row together, whichever state it is. -/
theorem state_refused_iff (numbered : Numbered db room) {i : Issue} (member : i ∈ db.issues)
    {now : Int} (since : 0 ≤ now) (named : ∃ a ∈ db.accounts, a.username = actor)
    {state : IssueState} {closedAt : Option Int} {kind : EventKind} {repositoryId : Identifier}
    (closed : closedAt = none ∨ closedAt = some now) (consistent : state = .open ↔ closedAt = none)
    (kinds : kind = .issueClosed ∨ kind = .issueReopened) :
    CheckFails (do
      let issues ← sqlite (db.issues.update (fun j => decide (j.id = i.id))
        fun j => { j with state, updatedAt := now, closedAt })
      ({ db with issues } : Database).insertIssueEvent repositoryId i.id actor now
        (issueStateEvent kind i.id i.number state)) ↔ now < i.createdAt := by
  refine update_refused_iff member (fun _ => ⟨rfl, rfl, rfl⟩) ?_ fun _ issues => ?_
  · have checked := db.issues.checked i member
    simp only [Schema.check, Bool.and_eq_true, decide_eq_true_eq] at checked ⊢
    obtain ⟨⟨⟨⟨⟨⟨number, title⟩, body⟩, created⟩, -⟩, -⟩, -⟩ := checked
    refine ⟨fun fine => fine.1.1.2, fun later =>
      ⟨⟨⟨⟨⟨⟨number, title⟩, body⟩, created⟩, later⟩, ?_⟩, consistent⟩⟩
    rcases closed with rfl | rfl
    · rfl
    · exact decide_eq_true later
  · refine event_unrefused named since ?_ (issueStateEvent_fits (numbered.issues i member))
    rcases kinds with rfl | rfl <;> simp [issueStateEvent]

theorem setState_refused_iff (numbered : Numbered db room) {now : Int} (since : 0 ≤ now)
    {state : IssueState} :
    CheckFails (db.setIssueState owner repository number actor state now) ↔
      Behind db owner repository number actor now fun access current =>
        access.canWriteIssue current.authorAccountId = true ∧ current.issue.state ≠ state := by
  refine context_refused_iff fun access current context => ?_
  obtain ⟨-, -, named, i, member, rfl, id, -, created⟩ := context_eq_ok context
  show CheckFails (ensure _ _ >>= _) ↔ _
  by_cases allowed : access.canWriteIssue current.authorAccountId = true
  · by_cases changes : current.issue.state ≠ state
    · rw [ensure_of allowed, ok_bind, ensure_of changes, ok_bind, id, created]
      refine Iff.trans ?_ (and_iff_right ⟨allowed, changes⟩).symm
      cases state with
      | «open» =>
          exact state_refused_iff numbered member since named (.inl rfl) (by simp) (.inr rfl)
      | closed =>
          exact state_refused_iff numbered member since named (.inr rfl) (by simp) (.inl rfl)
    · rw [ensure_of allowed, ok_bind, ensure_of_not changes]
      exact ⟨fun failed => (by cases failed), fun behind => absurd behind.1.2 changes⟩
  · rw [ensure_of_not allowed]
    exact ⟨fun failed => (by cases failed), fun behind => absurd behind.1.1 allowed⟩

theorem takeNumber_unrefused {repositoryId : Identifier} :
    ¬CheckFails (db.takeIssueNumber repositoryId) := by
  unfold CheckFails Database.takeIssueNumber
  intro failed
  rcases bind_eq_error.mp failed with refused | ⟨counters, -, failed⟩
  · unfold Database.startedCounters at refused
    split at refused
    · cases refused
    · exact sqlite_insert_unrejected rfl refused
  · obtain ⟨counters', updated⟩ := @Table.update_of _ _ _ counters
      (fun c => decide (c.repositoryId = repositoryId))
      (fun c => { c with nextIssueNumber := c.nextIssueNumber + 1 })
      (fun _ _ => Iff.rfl) (by
        intro c member _
        have checked := counters.checked c member
        simp only [Schema.check, Bool.and_eq_true, decide_eq_true_eq] at checked ⊢
        exact ⟨Nat.succ_le_succ (Nat.zero_le _), checked.2⟩)
    rw [sqlite_eq_ok.mpr updated, ok_bind] at failed
    rcases bind_eq_error.mp failed with missing | ⟨_, -, done⟩
    · cases (required_eq_error.mp missing).2
    · cases done

theorem one_le_nextIssueNumber {repositoryId : Identifier} :
    1 ≤ db.nextIssueNumber repositoryId := by
  unfold Database.nextIssueNumber
  cases found : db.repositoryCounters.get repositoryId with
  | none => exact le_rfl
  | some counter =>
      have checked := db.repositoryCounters.checked counter (Table.get_eq_some.mp found).1
      simp only [Schema.check, Bool.and_eq_true, decide_eq_true_eq] at checked
      exact checked.1

theorem create_unrefused (numbered : Numbered db room) {issue : NewIssue}
    (since : 0 ≤ issue.createdAt)
    (titleFits : bytesBetween 1 200 issue.title.utf8ByteSize = true)
    (titleEscaped : jsonStringLength issue.title ≤ 402)
    (bodyFits : bytesBetween 0 262144 issue.body.utf8ByteSize = true)
    (bodyEscaped : jsonStringLength issue.body ≤ 524290) : ¬CheckFails (db.createIssue issue) := by
  unfold CheckFails Database.createIssue
  intro failed
  rcases bind_eq_error.mp failed with denied | ⟨access, accessed, failed⟩
  · exact access_unrejected denied
  rcases bind_eq_error.mp failed with hidden | ⟨_, -, failed⟩
  · cases (ensure_eq_error.mp hidden).2
  rcases bind_eq_error.mp failed with denied | ⟨actorId, active, failed⟩
  · cases (required_eq_error.mp denied).2
  have named := Database.active_account accessed (required_eq_ok.mp active)
  rcases bind_eq_error.mp failed with refused | ⟨⟨db₁, number⟩, taken, failed⟩
  · exact takeNumber_unrefused refused
  obtain ⟨counters, rfl, next, -⟩ := Database.takeIssueNumber_eq_ok taken
  rcases bind_eq_error.mp failed with refused | ⟨issues, -, failed⟩
  · refine sqlite_insert_unrejected ?_ refused
    have positive : 1 ≤ number := next ▸ one_le_nextIssueNumber
    simp only [Schema.check, Bool.and_eq_true]
    exact ⟨⟨⟨⟨⟨⟨decide_eq_true positive, titleFits⟩, bodyFits⟩, decide_eq_true since⟩,
      decide_eq_true le_rfl⟩, rfl⟩, by simp⟩
  rcases bind_eq_error.mp failed with refused | ⟨_, -, done⟩
  · have decimal : (number : Int) ≤ maxI64 := by
      have bound := numbered.next access.repository.id
      omega
    exact event_unrefused named since (by simp [issueEvent])
      (issueEvent_fits decimal titleEscaped bodyEscaped) refused
  · cases done

end Tables

/-! ## Calls of the service -/

/-- What the validators ask of the texts and names of a request. -/
def Request.Valid : Request → Prop
  | .create _ owner repository actor title body =>
      validateContext owner repository (some actor) = .ok () ∧ validateTitle title = .ok () ∧
        validateBody body true = .ok ()
  | .edit owner repository number actor title body =>
      validateContext owner repository (some actor) = .ok () ∧ validateNumber number = .ok () ∧
        validateTitle title = .ok () ∧ validateBody body true = .ok ()
  | .comment owner repository number actor body =>
      validateContext owner repository (some actor) = .ok () ∧ validateNumber number = .ok () ∧
        validateBody body false = .ok ()
  | .setState owner repository number actor state =>
      validateContext owner repository (some actor) = .ok () ∧ validateNumber number = .ok () ∧
        (issueState state).isSome = true

/-- The issue that a request names, and that its actor may change so, is younger than the clock
admits. -/
def Request.Late (db : Database) (now : Int) : Request → Prop
  | .create .. => False
  | .edit owner repository number actor _ _ =>
      Behind db owner repository number.toNat actor now fun access current =>
        access.canWriteIssue current.authorAccountId = true
  | .comment owner repository number actor _ =>
      Behind db owner repository number.toNat actor now fun _ _ => True
  | .setState owner repository number actor state =>
      ∃ changed, issueState state = some changed ∧
        Behind db owner repository number.toNat actor now fun access current =>
          access.canWriteIssue current.authorAccountId = true ∧ current.issue.state ≠ changed

theorem transact_refused_iff {α β : Type} {checks : Except IssueError α} {now : Option Nat}
    {transaction : α → Int → Except StoreError β} (own : ∀ error, checks ≠ .error (.store error)) :
    Refused (transact checks now transaction) ↔
      ∃ a, checks = .ok a ∧ ∃ seconds, now = some seconds ∧ CheckFails (transaction a seconds) := by
  cases checks with
  | error error =>
      refine ⟨fun refused => ?_, fun ⟨_, same, _⟩ => by cases same⟩
      cases refused
      exact absurd rfl (own _)
  | ok a =>
      cases now with
      | none => exact ⟨fun refused => (by cases refused), fun ⟨_, _, _, same, _⟩ => by cases same⟩
      | some seconds =>
          unfold transact Refused CheckFails
          rw [ok_bind, required_some, ok_bind]
          unfold stored
          cases result : transaction a seconds with
          | ok value =>
              refine ⟨fun refused => (by cases refused), ?_⟩
              rintro ⟨_, ⟨⟩, _, ⟨⟩, failed⟩
              rw [result] at failed
              cases failed
          | error error =>
              constructor
              · intro refused
                cases refused
                exact ⟨a, rfl, seconds, rfl, result⟩
              · rintro ⟨_, ⟨⟩, _, ⟨⟩, failed⟩
                rw [result] at failed
                cases failed
                rfl

theorem stored_eq_ok {α : Type} {result : Except StoreError α} {value : α} :
    stored result = .ok value ↔ result = .ok value := by
  cases result <;> simp [stored]

theorem map_refused_iff {α β : Type} {result : Except IssueError α} {f : α → β} :
    Refused (result.map f) ↔ Refused result := by
  cases result with
  | ok value => exact ⟨fun refused => (by cases refused), fun refused => (by cases refused)⟩
  | error error =>
      constructor
      · intro refused
        cases refused
        rfl
      · intro refused
        cases refused
        rfl

section Own

variable {error : StoreError} {owner repository title body : String} {actor : Option String}
  {number : Int} {emptyOk : Bool}

theorem bind_own {α β : Type} {first : Except IssueError α} {next : α → Except IssueError β}
    (here : first ≠ .error (.store error)) (later : ∀ a, next a ≠ .error (.store error)) :
    (first >>= next) ≠ .error (.store error) := by
  intro failed
  rcases bind_eq_error.mp failed with failed | ⟨a, -, failed⟩
  · exact here failed
  · exact later a failed

theorem ensure_own {condition : Prop} [Decidable condition] {own : IssueError}
    (other : own ≠ .store error) :
    (ensure condition own : Except IssueError Unit) ≠ .error (.store error) := fun failed =>
  other (ensure_eq_error.mp failed).2

theorem validateContext_own : validateContext owner repository actor ≠ .error (.store error) := by
  apply bind_own (ensure_own (by simp)) fun _ => ?_
  exact bind_own (ensure_own (by simp)) fun _ => ensure_own (by simp)

theorem validateNumber_own : validateNumber number ≠ .error (.store error) :=
  ensure_own (by simp)

theorem validateTitle_own : validateTitle title ≠ .error (.store error) := ensure_own (by simp)

theorem validateBody_own : validateBody body emptyOk ≠ .error (.store error) :=
  ensure_own (by simp)

end Own

/-- A `CHECK` refuses exactly the requests that are let through by a clock that went back. -/
theorem perform_refused_iff {db : Database} {room : Nat} (numbered : Numbered db room)
    (now : Option Nat) (request : Request) :
    Refused (perform db now request) ↔
      request.Valid ∧ ∃ seconds : Nat, now = some seconds ∧ request.Late db seconds := by
  cases request with
  | create id owner repository actor title body =>
      refine map_refused_iff.trans ⟨fun refused => ?_, fun ⟨_, _, _, late⟩ => late.elim⟩
      obtain ⟨_, checks, seconds, rfl, failed⟩ := (transact_refused_iff fun _ =>
        bind_own validateContext_own fun _ =>
          bind_own validateTitle_own fun _ => validateBody_own).mp refused
      obtain ⟨_, -, checks⟩ := bind_eq_ok.mp checks
      obtain ⟨_, titleValid, bodyValid⟩ := bind_eq_ok.mp checks
      obtain ⟨titleFits, titleEscaped⟩ := validateTitle_eq_ok titleValid
      obtain ⟨bodyFits, bodyEscaped⟩ := validateBody_eq_ok bodyValid
      exact absurd failed (create_unrefused numbered (Int.natCast_nonneg seconds) titleFits
        titleEscaped bodyFits bodyEscaped)
  | edit owner repository number actor title body =>
      show Refused (edit db now owner repository number actor title body) ↔ _
      unfold edit
      refine (transact_refused_iff fun _ => bind_own validateContext_own fun _ =>
        bind_own validateNumber_own fun _ =>
          bind_own validateTitle_own fun _ => validateBody_own).trans ?_
      constructor
      · rintro ⟨_, checks, seconds, rfl, failed⟩
        obtain ⟨_, context, checks⟩ := bind_eq_ok.mp checks
        obtain ⟨_, positive, checks⟩ := bind_eq_ok.mp checks
        obtain ⟨_, titleValid, bodyValid⟩ := bind_eq_ok.mp checks
        obtain ⟨titleFits, titleEscaped⟩ := validateTitle_eq_ok titleValid
        obtain ⟨bodyFits, bodyEscaped⟩ := validateBody_eq_ok bodyValid
        exact ⟨⟨context, positive, titleValid, bodyValid⟩, seconds, rfl,
          (edit_refused_iff numbered (Int.natCast_nonneg seconds) titleFits titleEscaped bodyFits
            bodyEscaped).mp failed⟩
      · rintro ⟨⟨context, positive, titleValid, bodyValid⟩, seconds, rfl, late⟩
        obtain ⟨titleFits, titleEscaped⟩ := validateTitle_eq_ok titleValid
        obtain ⟨bodyFits, bodyEscaped⟩ := validateBody_eq_ok bodyValid
        refine ⟨(), ?_, seconds, rfl, (edit_refused_iff numbered (Int.natCast_nonneg seconds)
          titleFits titleEscaped bodyFits bodyEscaped).mpr late⟩
        rw [context, ok_bind, positive, ok_bind, titleValid, ok_bind, bodyValid]
  | comment owner repository number actor body =>
      refine map_refused_iff.trans ((transact_refused_iff fun _ =>
        bind_own validateContext_own fun _ =>
          bind_own validateNumber_own fun _ => validateBody_own).trans ?_)
      constructor
      · rintro ⟨_, checks, seconds, rfl, failed⟩
        obtain ⟨_, context, checks⟩ := bind_eq_ok.mp checks
        obtain ⟨_, positive, bodyValid⟩ := bind_eq_ok.mp checks
        exact ⟨⟨context, positive, bodyValid⟩, seconds, rfl,
          (comment_refused_iff numbered (Int.natCast_nonneg seconds)
            (validateComment_eq_ok bodyValid) (validateBody_eq_ok bodyValid).2).mp failed⟩
      · rintro ⟨⟨context, positive, bodyValid⟩, seconds, rfl, late⟩
        refine ⟨(), ?_, seconds, rfl, (comment_refused_iff numbered (Int.natCast_nonneg seconds)
          (validateComment_eq_ok bodyValid) (validateBody_eq_ok bodyValid).2).mpr late⟩
        rw [context, ok_bind, positive, ok_bind, bodyValid]
  | setState owner repository number actor state =>
      refine (transact_refused_iff fun _ => bind_own validateContext_own fun _ =>
        bind_own validateNumber_own fun _ => ?_).trans ?_
      · intro failed
        cases (required_eq_error.mp failed).2
      constructor
      · rintro ⟨changed, checks, seconds, rfl, failed⟩
        obtain ⟨_, context, checks⟩ := bind_eq_ok.mp checks
        obtain ⟨_, positive, known⟩ := bind_eq_ok.mp checks
        have known := required_eq_ok.mp known
        exact ⟨⟨context, positive, by rw [known]; rfl⟩, seconds, rfl, changed, known,
          (setState_refused_iff numbered (Int.natCast_nonneg seconds)).mp failed⟩
      · rintro ⟨⟨context, positive, -⟩, seconds, rfl, changed, known, late⟩
        refine ⟨changed, ?_, seconds, rfl,
          (setState_refused_iff numbered (Int.natCast_nonneg seconds)).mpr late⟩
        rw [context, ok_bind, positive, ok_bind, known, required_some]

/-! ## Runs -/

/-- The database after a call; a failed one is rolled back. -/
def after (db : Database) (call : Option Nat × Request) : Database :=
  committed db (perform db call.1 call.2)

def run (db : Database) (calls : List (Option Nat × Request)) : Database := calls.foldl after db

/-- A call adds no issue but one of its own time, with the next number of a repository. -/
structure Grows (db db' : Database) (now : Int) : Prop where
  issues : ∀ i' ∈ db'.issues,
    (∃ i ∈ db.issues, i.createdAt = i'.createdAt ∧ i.number = i'.number) ∨
      (i'.createdAt = now ∧ ∃ id, i'.number = db.nextIssueNumber id)
  next : ∀ id, db'.nextIssueNumber id ≤ db.nextIssueNumber id + 1

section Runs

variable {db db' : Database} {now : Int}

theorem Grows.of_update {issues : Table Issue} {p : Issue → Bool} {f : Issue → Issue}
    (updated : db.issues.update p f = .ok issues) (own : db'.issues = issues)
    (counters : db'.repositoryCounters = db.repositoryCounters)
    (keeps : ∀ i, (f i).createdAt = i.createdAt ∧ (f i).number = i.number) :
    Grows db db' now := by
  constructor
  · intro i' member
    rw [own] at member
    obtain ⟨i, hi, rfl⟩ := (Table.mem_update updated).mp member
    refine .inl ⟨i, hi, ?_⟩
    split
    · exact ⟨(keeps i).1.symm, (keeps i).2.symm⟩
    · exact ⟨rfl, rfl⟩
  · intro id
    unfold Database.nextIssueNumber
    rw [counters]
    exact Nat.le_succ _

theorem createIssue_grows {issue : NewIssue} {record : IssueRecord}
    (ok : db.createIssue issue = .ok (db', record)) : Grows db db' issue.createdAt := by
  simp only [Database.createIssue, bind_eq_ok, sqlite_eq_ok, pure_eq_ok, Except.ok.injEq,
    Prod.mk.injEq] at ok
  obtain ⟨access, -, _, -, actorId, -, ⟨db₁, number⟩, taken, issues, inserted, db₂, event, rfl,
    -⟩ := ok
  obtain ⟨counters, rfl, next, numbers, -⟩ := Database.takeIssueNumber_eq_ok taken
  obtain ⟨events, rfl, -⟩ := Database.insertIssueEvent_appended event
  constructor
  · intro i' member
    rcases (Table.mem_insert inserted).mp member with old | rfl
    · exact .inl ⟨i', old, rfl, rfl⟩
    · exact .inr ⟨rfl, access.repository.id, next⟩
  · intro id
    have here := numbers id
    show Database.nextIssueNumber { db with repositoryCounters := counters } id ≤ _
    rw [here]
    split
    · rename_i same
      rw [same, next]
    · exact Nat.le_succ _

theorem transact_eq_ok {α β : Type} {checks : Except IssueError α} {now : Option Nat}
    {transaction : α → Int → Except StoreError β} {value : β}
    (ok : transact checks now transaction = .ok value) :
    ∃ a, ∃ seconds : Nat, now = some seconds ∧ transaction a seconds = .ok value := by
  obtain ⟨a, -, ok⟩ := bind_eq_ok.mp ok
  obtain ⟨seconds, clock, ok⟩ := bind_eq_ok.mp ok
  exact ⟨a, seconds, required_eq_ok.mp clock, stored_eq_ok.mp ok⟩

theorem perform_grows {now : Option Nat} {request : Request}
    (ok : perform db now request = .ok db') :
    ∃ seconds : Nat, now = some seconds ∧ Grows db db' seconds := by
  cases request with
  | create id owner repository actor title body =>
      obtain ⟨⟨_, record⟩, made, rfl⟩ := map_eq_ok.mp ok
      obtain ⟨_, seconds, clock, stored⟩ := transact_eq_ok made
      exact ⟨seconds, clock, createIssue_grows stored⟩
  | edit owner repository number actor title body =>
      have made : edit db now owner repository number actor title body = .ok db' := ok
      unfold edit at made
      obtain ⟨_, seconds, clock, stored⟩ := transact_eq_ok made
      simp only [Database.editIssue, bind_eq_ok, sqlite_eq_ok] at stored
      obtain ⟨_, -, _, -, issues, updated, event⟩ := stored
      obtain ⟨events, rfl, -⟩ := Database.insertIssueEvent_appended event
      exact ⟨seconds, clock, .of_update updated rfl rfl fun _ => ⟨rfl, rfl⟩⟩
  | comment owner repository number actor body =>
      obtain ⟨⟨_, comment⟩, made, rfl⟩ := map_eq_ok.mp ok
      obtain ⟨_, seconds, clock, stored⟩ := transact_eq_ok made
      simp only [Database.commentIssue, bind_eq_ok, sqlite_eq_ok, pure_eq_ok, Except.ok.injEq,
        Prod.mk.injEq] at stored
      obtain ⟨_, -, _, -, _, -, _, -, issues, updated, _, event, rfl, -⟩ := stored
      obtain ⟨events, rfl, -⟩ := Database.insertIssueEvent_appended event
      exact ⟨seconds, clock, .of_update updated rfl rfl fun _ => ⟨rfl, rfl⟩⟩
  | setState owner repository number actor state =>
      obtain ⟨_, seconds, clock, stored⟩ := transact_eq_ok ok
      simp only [Database.setIssueState, bind_eq_ok, sqlite_eq_ok] at stored
      obtain ⟨_, -, _, -, _, -, issues, updated, event⟩ := stored
      obtain ⟨events, rfl, -⟩ := Database.insertIssueEvent_appended event
      exact ⟨seconds, clock, .of_update updated rfl rfl fun _ => ⟨rfl, rfl⟩⟩

/-- The clock of the calls only goes on, and none of its readings is before an issue that there
is. -/
structure Onward (db : Database) (calls : List (Option Nat × Request)) : Prop where
  issues : ∀ i ∈ db.issues, ∀ call ∈ calls, ∀ seconds ∈ call.1, i.createdAt ≤ (seconds : Nat)
  calls : calls.Pairwise fun first second =>
    ∀ seconds ∈ first.1, ∀ seconds' ∈ second.1, seconds ≤ seconds'

theorem Numbered.after {call : Option Nat × Request} {room : Nat}
    (numbered : Numbered db (room + 1)) : Numbered (after db call) room := by
  rcases committed_eq_or db (perform db call.1 call.2) with same | done
  · unfold Issues.after
    rw [same]
    exact ⟨numbered.issues, fun id => by have bound := numbered.next id; omega⟩
  · obtain ⟨seconds, -, grows⟩ := perform_grows done
    constructor
    · intro i' member
      rcases grows.issues i' member with ⟨i, hi, -, same⟩ | ⟨-, id, next⟩
      · exact same ▸ numbered.issues i hi
      · have bound := numbered.next id
        omega
    · intro id
      have step := grows.next id
      have bound := numbered.next id
      unfold Issues.after
      omega

theorem Onward.after {call : Option Nat × Request} {calls : List (Option Nat × Request)}
    (onward : Onward db (call :: calls)) : Onward (after db call) calls := by
  obtain ⟨first, rest⟩ := List.pairwise_cons.mp onward.calls
  refine ⟨fun i' member later hlater seconds' reads => ?_, rest⟩
  rcases committed_eq_or db (perform db call.1 call.2) with same | done
  · unfold Issues.after at member
    rw [same] at member
    exact onward.issues i' member later (List.mem_cons_of_mem _ hlater) seconds' reads
  · obtain ⟨seconds, clock, grows⟩ := perform_grows done
    rcases grows.issues i' member with ⟨i, hi, same, -⟩ | ⟨same, -⟩
    · exact same ▸ onward.issues i hi later (List.mem_cons_of_mem _ hlater) seconds' reads
    · rw [same]
      exact Int.ofNat_le.mpr (first later hlater seconds clock seconds' reads)

theorem numbered_run {calls later : List (Option Nat × Request)}
    (numbered : Numbered db (calls.length + later.length)) :
    Numbered (run db calls) later.length := by
  induction calls generalizing db with
  | nil => simpa [run] using numbered
  | cons call calls ih =>
      rw [List.length_cons, Nat.add_right_comm] at numbered
      exact ih numbered.after

theorem onward_run {calls later : List (Option Nat × Request)}
    (onward : Onward db (calls ++ later)) : Onward (run db calls) later := by
  induction calls generalizing db with
  | nil => exact onward
  | cons call calls ih => exact ih onward.after

/-- An issue that a late request names is there. -/
theorem Late.issue {request : Request} (late : request.Late db now) :
    ∃ i ∈ db.issues, now < i.createdAt := by
  have named {owner repository actor : String} {number : Nat}
      {allowed : RepositoryIssueAccess → StoredIssue → Prop}
      (behind : Behind db owner repository number actor now allowed) :
      ∃ i ∈ db.issues, now < i.createdAt := by
    obtain ⟨access, current, context, -, behind⟩ := behind
    obtain ⟨-, -, -, i, member, -, -, -, created⟩ := context_eq_ok context
    exact ⟨i, member, created ▸ behind⟩
  cases request with
  | create => exact late.elim
  | edit => exact named late
  | comment => exact named late
  | setState =>
      obtain ⟨_, -, behind⟩ := late
      exact named behind

/-- **In every run of the service the tables refuse the requests that are let through by a clock
that went back behind their issue, and no others; in none, while the clock goes on.** -/
theorem issues_stored {calls before later : List (Option Nat × Request)}
    {call : Option Nat × Request} (numbered : Numbered db calls.length)
    (split : calls = before ++ call :: later) :
    (Refused (perform (run db before) call.1 call.2) ↔
      call.2.Valid ∧ ∃ seconds : Nat, call.1 = some seconds ∧
        call.2.Late (run db before) seconds) ∧
    (Onward db calls → ¬Refused (perform (run db before) call.1 call.2)) := by
  subst split
  rw [List.length_append] at numbered
  have exact' := perform_refused_iff (numbered_run numbered) call.1 call.2
  refine ⟨exact', fun onward refused => ?_⟩
  obtain ⟨-, seconds, reads, late⟩ := exact'.mp refused
  obtain ⟨i, member, behind⟩ := Late.issue late
  have since := (onward_run onward).issues i member call List.mem_cons_self seconds reads
  omega

end Runs

/-! Pole: a clock that goes back while an issue is edited. -/

def openThenEdit : List (Option Nat × Request) :=
  [(some 5, .create 7 "alice" "tit" "alice" "Title" ""),
    (some 3, .edit "alice" "tit" 1 "alice" "Other" "")]

def firstIssue : StoredIssue where
  issue :=
    { id := 7, number := 1, title := "Title", body := "", state := .open, author := "alice",
      createdAt := 5, updatedAt := 5, closedAt := none }
  authorAccountId := 1

theorem back_refused :
    Refused (perform (run Database.oneRepository (openThenEdit.take 1)) (some 3)
      (.edit "alice" "tit" 1 "alice" "Other" "")) := by
  have numbered : Numbered Database.oneRepository openThenEdit.length := by
    refine ⟨fun _ member => absurd member List.not_mem_nil, fun _ => ?_⟩
    show ((1 : Nat) : Int) + (2 : Nat) ≤ maxI64
    decide
  have current : (run Database.oneRepository (openThenEdit.take 1)).issueMutationContext
      "alice" "tit" 1 "alice" = .ok (Database.aliceAccess, firstIssue) := by decide +kernel
  refine (@issues_stored _ _ (openThenEdit.take 1) [] _ numbered rfl).1.mpr ⟨?_, 3, rfl, ?_⟩
  · exact ⟨by decide, by decide, by decide, by decide⟩
  · exact ⟨Database.aliceAccess, firstIssue, current, by decide, by decide⟩

end Tit.Issues
