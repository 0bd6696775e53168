/-
# PullRequests.Lifecycle -- what the validators accept and the tables refuse

The service checks the texts of a pull request, the columns check them again, and the payload of
an event has a bound of its own, after escaping.  Opening writes no text into a payload; editing,
closing and reopening write both.

`unrejected_iff` says which calls of a run no `CHECK` refuses: all openings, and the edits and
changes of state whose texts fit escaped.  A body of control characters is accepted and stored,
and its pull request can then not be closed (`heavy_stuck`).
-/
import Tit.PullRequests.System
import Tit.Store.Review

namespace Tit.PullRequests

open Tit.Theory Tit.Store

set_option autoImplicit false

/-! ## The length of a payload -/

/-- The characters of a text between its quotes, escaped. -/
def escaped (text : String) : Nat := (text.toList.map escapedLength).sum

/-- What the keys, the identifier and the punctuation of the payload leave. -/
def maxTexts : Nat := 1048468

/-- The texts, the number and the state fit into a payload. -/
def TextsFit (number : Nat) (title body : String) (state : PullRequestState) : Prop :=
  escaped title + escaped body + jsonNumberLength number + state.text.length ≤ maxTexts

instance (number : Nat) (title body : String) (state : PullRequestState) :
    Decidable (TextsFit number title body state) :=
  inferInstanceAs (Decidable (_ ≤ _))

section Payload

variable {number : Nat} {title body : String} {state : PullRequestState} {id : Identifier}

theorem escaped_identifier : jsonStringLength (identifierText id) = 34 := by
  have digit : ∀ n < 16, escapedLength (Nat.digitChar n) = 1 := by decide
  have digits : (identifierText id).toList.map escapedLength = List.replicate 32 1 := by
    rw [identifierText, String.toList_ofList, List.map_map]
    refine List.eq_replicate_iff.mpr ⟨by rw [List.length_map, List.length_range], ?_⟩
    intro n member
    obtain ⟨i, -, rfl⟩ := List.mem_map.mp member
    exact digit _ (Nat.mod_lt _ (by decide))
  rw [jsonStringLength, digits]
  rfl

theorem payload_iff (kind : EventKind) :
    (pullRequestChange kind id number title body state).payloadLength ≤ maxPayloadLength ↔
      TextsFit number title body state := by
  have letters : jsonStringLength state.text = state.text.length + 2 := by
    cases state <;> decide
  have keys : "version".length = 7 ∧ "pull_request_id".length = 15 ∧ "number".length = 6 ∧
      "title".length = 5 ∧ "body".length = 4 ∧ "state".length = 5 := by decide
  obtain ⟨version, identifier, number', title', body', state'⟩ := keys
  show jsonObjectLength _ ≤ _ ↔ _
  rw [letters, escaped_identifier]
  simp only [jsonObjectLength, jsonStringLength, List.map_cons, List.map_nil, List.sum_cons,
    List.sum_nil, version, identifier, number', title', body', state']
  unfold TextsFit maxTexts maxPayloadLength escaped
  omega

end Payload

/-! ## What the tables refuse -/

/-- The row that a request names, for an actor who may write to it. -/
def Writes (db : Database) (owner repository : String) (number : Nat) (actor : String)
    (p : PullRequest) : Prop :=
  ∃ access, db.repositoryIssueAccess owner repository (some actor) = .ok access ∧
    db.pullRequestNumbered access.repository.id number = some p ∧
    access.canWriteIssue p.authorAccountId = true

/-- The transaction ends at a `CHECK`. -/
abbrev CheckFails {α : Type} (result : Except StoreError α) : Prop :=
  result = .error (.sqlite .check)

section Calls

variable {db : Database} {owner repository actor : String} {number : Nat} {p : PullRequest}

theorem Writes.unique {q : PullRequest} (first : Writes db owner repository number actor p)
    (second : Writes db owner repository number actor q) : p = q := by
  obtain ⟨access, accessed, found, -⟩ := first
  obtain ⟨access', accessed', found', -⟩ := second
  obtain rfl : access = access' := Except.ok.inj (accessed.symm.trans accessed')
  exact Option.some.inj (found.symm.trans found')

theorem access_unrejected {actor : Option String} :
    ¬CheckFails (db.repositoryIssueAccess owner repository actor) := by
  unfold CheckFails Database.repositoryIssueAccess
  simp [bind_eq_error, required_eq_error]

/-- Only a `CHECK` on a row of the table can refuse an update that keeps the keys. -/
theorem update_succeeds {f : PullRequest → PullRequest} (member : p ∈ db.pullRequests)
    (keys : ∀ q, (f q).id = q.id ∧ (f q).repositoryId = q.repositoryId ∧ (f q).number = q.number)
    (checked : Schema.check (f p) = true) :
    ∃ pullRequests, db.pullRequests.update (fun q => decide (q.id = p.id)) f = .ok pullRequests := by
  refine Table.update_of (fun q r => ?_) fun q hq same => ?_
  · obtain ⟨id, repository, number⟩ := keys q
    show decide _ = true ↔ decide _ = true
    rw [id, repository, number]
  · obtain rfl : q = p := Table.eq_of_key hq member (of_decide_eq_true same)
    exact checked

/-- An event of a pull request is refused for its payload alone. -/
theorem event_iff {repositoryId id : Identifier} {changedAt : Int} {kind : EventKind}
    {title body : String} {state : PullRequestState}
    (actorFits : 1 ≤ actor.length ∧ actor.length ≤ 256) (since : 0 ≤ changedAt)
    (kinds : kind = .pullRequestEdited ∨ kind = .pullRequestClosed ∨ kind = .pullRequestReopened) :
    CheckFails (db.insertPullRequestEvent repositoryId id actor changedAt
        (pullRequestChange kind id number title body state)) ↔
      ¬TextsFit number title body state := by
  unfold Database.insertPullRequestEvent
  rw [← payload_iff kind]
  by_cases fits : (pullRequestChange kind id number title body state).payloadLength ≤
      maxPayloadLength
  · obtain ⟨db', inserted⟩ : ∃ db', db.insertDomainEvent
        { repositoryId, sourceIntentId := none, sourceOrdinal := none, pullRequestId := some id,
          kind, actor, refName := none, oldTarget := none, newTarget := none,
          createdAt := changedAt } = .ok db' := by
      refine Database.insertDomainEvent_succeeds actorFits since rfl ?_
        fun _ _ sourced => absurd rfl sourced
      rcases kinds with rfl | rfl | rfl <;> rfl
    rw [ensure_of fits, ok_bind]
    refine ⟨fun failed => ?_, fun large => absurd fits large⟩
    exact nomatch failed.symm.trans inserted
  · rw [ensure_of_not fits]
    exact ⟨fun _ => fits, fun _ => rfl⟩

/-- The actor of a request that may write has the name of an account. -/
theorem Writes.actor_fits (writes : Writes db owner repository number actor p) :
    1 ≤ actor.length ∧ actor.length ≤ 256 := by
  obtain ⟨access, accessed, -, allowed⟩ := writes
  obtain ⟨a, ha, named⟩ := Database.canWriteIssue_account accessed allowed
  have fits := username_fits ha
  rw [named] at fits
  exact ⟨fits.1, fits.2.trans (by decide)⟩

theorem Writes.member (writes : Writes db owner repository number actor p) :
    p ∈ db.pullRequests := by
  obtain ⟨access, -, found, -⟩ := writes
  exact (Database.mem_of_numbered found).1

/-- Edits and changes of state are one transaction: the row that the request names is written and
its new texts and state go into an event. -/
def change (db : Database) (owner repository : String) (number : Nat) (actor : String)
    (allowed : PullRequest → Prop) [DecidablePred allowed] (f : PullRequest → PullRequest)
    (kind : EventKind) (changedAt : Int) : Except StoreError Database := do
  let access ← db.repositoryIssueAccess owner repository (some actor)
  let current ← required (db.pullRequestNumbered access.repository.id number)
    (.pullRequestNotFound owner repository number)
  ensure (access.canWriteIssue current.authorAccountId = true) .pullRequestDenied
  ensure (allowed current) .pullRequestState
  let pullRequests ← sqlite (db.pullRequests.update (fun p => decide (p.id = current.id)) f)
  { db with pullRequests }.insertPullRequestEvent access.repository.id current.id actor changedAt
    (pullRequestChange kind current.id number (f current).title (f current).body (f current).state)

/-- A write that the columns accept is refused for its payload alone. -/
theorem change_iff {allowed : PullRequest → Prop} [DecidablePred allowed]
    {f : PullRequest → PullRequest} {kind : EventKind} {changedAt : Int}
    (keys : ∀ q, (f q).id = q.id ∧ (f q).repositoryId = q.repositoryId ∧ (f q).number = q.number)
    (stored : ∀ p ∈ db.pullRequests, Schema.check (f p) = true)
    (kinds : kind = .pullRequestEdited ∨ kind = .pullRequestClosed ∨ kind = .pullRequestReopened)
    (clock : ∀ p ∈ db.pullRequests, p.createdAt ≤ changedAt) :
    CheckFails (change db owner repository number actor allowed f kind changedAt) ↔
      ∃ p, Writes db owner repository number actor p ∧ allowed p ∧
        ¬TextsFit number (f p).title (f p).body (f p).state := by
  have event {repositoryId : Identifier} {pullRequests : Table PullRequest} {p : PullRequest}
      (writes : Writes db owner repository number actor p) :
      CheckFails (({ db with pullRequests } : Database).insertPullRequestEvent repositoryId p.id
          actor changedAt (pullRequestChange kind p.id number (f p).title (f p).body (f p).state)) ↔
        ¬TextsFit number (f p).title (f p).body (f p).state := by
    have checked := PullRequest.check_iff.mp (db.pullRequests.checked p writes.member)
    exact event_iff writes.actor_fits (le_trans checked.1.2 (clock p writes.member)) kinds
  unfold CheckFails change
  constructor
  · intro failed
    rcases bind_eq_error.mp failed with denied | ⟨access, accessed, failed⟩
    · exact absurd denied access_unrejected
    rcases bind_eq_error.mp failed with missing | ⟨p, found, failed⟩
    · cases (required_eq_error.mp missing).2
    rcases bind_eq_error.mp failed with denied | ⟨_, granted, failed⟩
    · cases (ensure_eq_error.mp denied).2
    rcases bind_eq_error.mp failed with refused | ⟨_, fine, failed⟩
    · cases (ensure_eq_error.mp refused).2
    have writes : Writes db owner repository number actor p :=
      ⟨access, accessed, required_eq_ok.mp found, ensure_eq_ok.mp granted⟩
    obtain ⟨pullRequests, updated⟩ := update_succeeds writes.member keys (stored p writes.member)
    rw [sqlite_eq_ok.mpr updated, ok_bind] at failed
    exact ⟨p, writes, ensure_eq_ok.mp fine, (event writes).mp failed⟩
  · rintro ⟨p, writes, fine, large⟩
    obtain ⟨pullRequests, updated⟩ := update_succeeds writes.member keys (stored p writes.member)
    have here := writes
    obtain ⟨access, accessed, found, granted⟩ := here
    rw [accessed, ok_bind, found, required_some, ok_bind, ensure_of granted, ok_bind,
      ensure_of fine, ok_bind, sqlite_eq_ok.mpr updated, ok_bind]
    exact (event writes).mpr large

/-- An edit of accepted texts is refused for its payload alone. -/
theorem edit_iff {edit : PullRequestEdit} (content : validateContent edit.title edit.body = true)
    (clock : ∀ p ∈ db.pullRequests, p.createdAt ≤ edit.changedAt) :
    CheckFails (db.editPullRequest edit) ↔
      ∃ p, Writes db edit.owner edit.repository edit.number edit.actor p ∧ p.state ≠ .merged ∧
        ¬TextsFit edit.number edit.title edit.body p.state := by
  simp only [validateContent, Bool.and_eq_true] at content
  apply @change_iff db edit.owner edit.repository edit.actor edit.number (fun p => p.state ≠ .merged)
    _ (fun p => { p with title := edit.title, body := edit.body, updatedAt := edit.changedAt })
    .pullRequestEdited edit.changedAt (fun _ => ⟨rfl, rfl, rfl⟩) ?_ (.inl rfl) clock
  intro p member
  have checked := PullRequest.check_iff.mp (db.pullRequests.checked p member)
  obtain ⟨⟨⟨⟨⟨⟨number, -⟩, -⟩, baseRef⟩, headRef⟩, created⟩, -⟩ := checked
  exact PullRequest.check_iff.mpr
    ⟨⟨⟨⟨⟨⟨number, content.1.1⟩, content.2⟩, baseRef⟩, headRef⟩, created⟩, clock p member⟩

/-- A change of state is refused for its payload alone: its texts are the stored ones. -/
theorem setState_iff {state : PullRequestState} {changedAt : Int}
    (clock : ∀ p ∈ db.pullRequests, p.createdAt ≤ changedAt) :
    CheckFails (db.setPullRequestState owner repository number actor state changedAt) ↔
      ∃ p, Writes db owner repository number actor p ∧ (p.state ≠ .merged ∧ p.state ≠ state) ∧
        ¬TextsFit number p.title p.body state := by
  have kinds : (if state = .closed then EventKind.pullRequestClosed else .pullRequestReopened) =
      .pullRequestEdited ∨
      (if state = .closed then EventKind.pullRequestClosed else .pullRequestReopened) =
      .pullRequestClosed ∨
      (if state = .closed then EventKind.pullRequestClosed else .pullRequestReopened) =
      .pullRequestReopened := by
    by_cases closes : state = .closed
    · exact .inr (.inl (if_pos closes))
    · exact .inr (.inr (if_neg closes))
  apply @change_iff db owner repository actor number
    (fun p => p.state ≠ .merged ∧ p.state ≠ state) _
    (fun p => { p with state, updatedAt := changedAt }) _ changedAt (fun _ => ⟨rfl, rfl, rfl⟩) ?_
    kinds clock
  intro p member
  have checked := PullRequest.check_iff.mp (db.pullRequests.checked p member)
  exact PullRequest.check_iff.mpr ⟨checked.1, clock p member⟩

theorem sqlite_insert_unrejected {R K : Type} [Schema R K] {t : Table R} {r : R}
    (checked : Schema.check r = true) : ¬CheckFails (sqlite (t.insert r)) := by
  intro failed
  cases inserted : t.insert r with
  | ok t' =>
      rw [inserted] at failed
      cases failed
  | error constraint =>
      rw [inserted] at failed
      cases failed
      exact Table.insert_ne_check checked inserted

/-- What the columns ask of the texts and names of an opening. -/
structure Opens (intent : NewPullRequestRefIntent) : Prop where
  actor : validateUsername intent.actor = true
  content : validateContent intent.title intent.body = true
  branches : bytesBetween 12 1024 intent.baseRef.length = true ∧
    bytesBetween 12 1024 intent.headRef.length = true
  since : 0 ≤ intent.createdAt

theorem takeNumber_unrejected {repositoryId : Identifier} :
    ¬CheckFails (db.takePullRequestNumber repositoryId) := by
  unfold CheckFails Database.takePullRequestNumber
  intro failed
  rcases bind_eq_error.mp failed with refused | ⟨counters, -, failed⟩
  · unfold Database.startedCounters at refused
    split at refused
    · cases refused
    · exact sqlite_insert_unrejected rfl refused
  · obtain ⟨counters', updated⟩ := Table.update_of (t := counters)
      (p := fun c => decide (c.repositoryId = repositoryId))
      (f := fun c => { c with nextPullRequestNumber := c.nextPullRequestNumber + 1 })
      (fun _ _ => Iff.rfl) (by
        intro c member _
        have checked := counters.checked c member
        simp only [Schema.check, Bool.and_eq_true, decide_eq_true_eq] at checked ⊢
        exact ⟨checked.1, Nat.succ_le_succ (Nat.zero_le _)⟩)
    rw [sqlite_eq_ok.mpr updated, ok_bind] at failed
    rcases bind_eq_error.mp failed with missing | ⟨_, -, done⟩
    · cases (required_eq_error.mp missing).2
    · cases done

/-- The next number of a repository starts at one. -/
theorem one_le_next {repositoryId : Identifier} : 1 ≤ db.nextPullRequestNumber repositoryId := by
  unfold Database.nextPullRequestNumber
  cases found : db.repositoryCounters.get repositoryId with
  | none => exact le_rfl
  | some counter =>
      have checked := db.repositoryCounters.checked counter (Table.get_eq_some.mp found).1
      simp only [Schema.check, Bool.and_eq_true, decide_eq_true_eq] at checked
      exact checked.2

theorem begin_unrejected {intent : NewPullRequestRefIntent} (opens : Opens intent) :
    ¬CheckFails (db.beginPullRequestOpen intent) := by
  have content := opens.content
  simp only [validateContent, Bool.and_eq_true] at content
  have actor := opens.actor
  simp only [validateUsername, Bool.and_eq_true] at actor
  unfold CheckFails Database.beginPullRequestOpen
  intro failed
  rcases bind_eq_error.mp failed with refused | ⟨⟨repositoryId, actorId⟩, -, failed⟩
  · unfold Database.pullRequestWriter at refused
    rcases bind_eq_error.mp refused with denied | ⟨access, -, refused⟩
    · exact access_unrejected denied
    rcases bind_eq_error.mp refused with hidden | ⟨_, -, refused⟩
    · cases (ensure_eq_error.mp hidden).2
    rcases bind_eq_error.mp refused with denied | ⟨_, -, refused⟩
    · cases (ensure_eq_error.mp denied).2
    rcases bind_eq_error.mp refused with denied | ⟨_, -, done⟩
    · cases (required_eq_error.mp denied).2
    · cases done
  rcases bind_eq_error.mp failed with refused | ⟨⟨db₁, number⟩, taken, failed⟩
  · exact takeNumber_unrejected refused
  rcases bind_eq_error.mp failed with refused | ⟨_, -, done⟩
  · obtain ⟨-, -, next, -⟩ := Database.takePullRequestNumber_eq_ok taken
    have positive : 1 ≤ number := next ▸ one_le_next
    refine sqlite_insert_unrejected ?_ refused
    simp only [Schema.check, pullRequestIntentRow, Bool.and_eq_true]
    exact ⟨⟨⟨⟨⟨⟨⟨⟨decide_eq_true positive, rfl⟩, content.1.1⟩, content.2⟩, actor.1.1.1.1⟩,
      opens.branches.1⟩, opens.branches.2⟩, decide_eq_true opens.since⟩, rfl⟩
  · cases done

/-- The completion of an opening stores what the intent has been checked for. -/
theorem complete_unrejected {id : Identifier} {i : PullRequestRefIntent}
    (stored : db.pullRequestRefIntents.get id = some i) (opens : i.operation = .open) :
    ¬CheckFails (db.completePullRequestRefIntent id) := by
  have checked := db.pullRequestRefIntents.checked i (Table.get_eq_some.mp stored).1
  simp only [Schema.check, Bool.and_eq_true, lengthBetween_iff] at checked
  obtain ⟨⟨⟨⟨⟨⟨⟨⟨number, revision⟩, title⟩, body⟩, actor⟩, baseRef⟩, headRef⟩, since⟩, -⟩ := checked
  unfold CheckFails Database.completePullRequestRefIntent
  intro failed
  rw [stored, required_some, ok_bind] at failed
  rcases bind_eq_error.mp failed with settled | ⟨_, -, failed⟩
  · cases (ensure_eq_error.mp settled).2
  rcases bind_eq_error.mp failed with refused | ⟨pullRequests, -, failed⟩
  · unfold Database.storePullRequest at refused
    rw [opens] at refused
    refine sqlite_insert_unrejected ?_ refused
    simp only [Schema.check, Database.openedRow, Bool.and_eq_true]
    exact ⟨⟨⟨⟨⟨⟨number, title⟩, body⟩, baseRef⟩, headRef⟩, since⟩, decide_eq_true le_rfl⟩
  rcases bind_eq_error.mp failed with refused | ⟨revisions, -, failed⟩
  · refine sqlite_insert_unrejected ?_ refused
    simp only [Schema.check, Database.revisionRow, Bool.and_eq_true]
    exact ⟨revision, since⟩
  rcases bind_eq_error.mp failed with refused | ⟨db₁, -, failed⟩
  · unfold Database.insertDomainEvent at refused
    rcases bind_eq_error.mp refused with clash | ⟨_, -, done⟩
    · refine sqlite_insert_unrejected ?_ clash
      simp only [Schema.check, Database.eventRow, Database.pullRequestRefEvent, opens,
        Bool.and_eq_true, decide_eq_true_eq, lengthBetween_iff, beq_iff_eq]
      exact ⟨⟨⟨⟨Nat.succ_le_succ (Nat.zero_le _), actor.1, actor.2.trans (by decide)⟩,
        of_decide_eq_true since⟩, rfl⟩, rfl⟩
    · cases done
  rcases bind_eq_error.mp failed with refused | ⟨_, -, done⟩
  · obtain ⟨intents, settled⟩ := Database.settle_of (t := db₁.pullRequestRefIntents) id .completed
    rw [settled] at refused
    cases refused
  · cases done

end Calls

/-! ## Runs -/

theorem fromStore_eq_error {α : Type} {result : Except StoreError α} {error : StoreError} :
    fromStore result = .error (.store error) ↔ result = .error error := by
  cases result <;> simp [fromStore]

/-- The action is a call of the service that ends at a `CHECK`. -/
def CheckRejects (w : World) : Action → Prop
  | .beginOpen intentId pullRequestId base head createdAt =>
      ∃ request, w.call = some (.opening request) ∧
        beginOpen w request intentId pullRequestId base head createdAt =
          .error (.store (.sqlite .check))
  | .complete =>
      ∃ intent stored, w.call = some (.completing intent) ∧
        w.db.pullRequestRefIntents.get intent.id = some stored ∧ stored.operation = .open ∧
        CheckFails (w.db.completePullRequestRefIntent intent.id)
  | .edit edit => CheckFails (w.db.editPullRequest edit)
  | .setState r =>
      CheckFails (w.db.setPullRequestState r.owner r.repository r.number r.actor r.state
        r.changedAt)
  | _ => False

/-- The branch is one that Git can resolve: its name goes on behind `refs/heads/`. -/
def Resolvable (name : RefName) : Prop := name ≠ asciiBytes "refs/heads/"

/-- What the clock and Git give to a call: a reading that is not before the creation of a pull
request, and branches that exist. -/
def Given (w : World) : Action → Prop
  | .beginOpen _ _ _ _ createdAt =>
      0 ≤ createdAt ∧ ∀ request, w.call = some (.opening request) →
        Resolvable request.baseRef ∧ Resolvable request.headRef
  | .edit edit => ∀ p ∈ w.db.pullRequests, p.createdAt ≤ edit.changedAt
  | .setState r => ∀ p ∈ w.db.pullRequests, p.createdAt ≤ r.changedAt
  | _ => True

/-- The texts of an edit or a change of state that the service would make fit a payload. -/
def Fits (w : World) : Action → Prop
  | .edit edit =>
      ∀ p, Writes w.db edit.owner edit.repository edit.number edit.actor p → p.state ≠ .merged →
        TextsFit edit.number edit.title edit.body p.state
  | .setState r =>
      ∀ p, Writes w.db r.owner r.repository r.number r.actor p →
        p.state ≠ .merged ∧ p.state ≠ r.state → TextsFit r.number p.title p.body r.state
  | _ => True

/-- The request of a call that opens has passed the validators. -/
def ValidCall (w : World) : Prop := ∀ request, w.call = some (.opening request) → request.valid = true

theorem recoverReference_call {w w' : World} {intent : PullRequestRefIntent}
    (ok : recoverReference w intent = .ok w') : w'.call = w.call := by
  obtain ⟨current, -, moved⟩ := bind_eq_ok.mp ok
  split at moved
  · cases moved
    rfl
  · split at moved
    · unfold updateReference at moved
      split at moved
      · cases moved
        rfl
      · cases moved
    · cases moved

theorem recoverIntents_call (w : World) (intents : List PullRequestRefIntent) :
    (recoverIntents w intents).1.call = w.call := by
  induction intents generalizing w with
  | nil => rfl
  | cons intent rest ih =>
      rw [recoverIntents]
      cases moved : recoverReference w intent with
      | error error => rfl
      | ok w' =>
          have kept := recoverReference_call moved
          cases completed : w'.db.completePullRequestRefIntent intent.id with
          | error error => simp only [completed]; exact kept
          | ok db => simp only [completed]; exact (ih _).trans kept

theorem enter_call {w : World} {stage : Stage} {request : NewPullRequest} (idle : w.call = none)
    (opening : (enter w stage).call = some (.opening request)) : stage = .opening request := by
  have kept := recoverIntents_call w w.db.incompletePullRequestRefIntents
  unfold enter recover at opening
  split at opening
  · exact Option.some.inj opening
  · rename_i failed
    rw [failed, idle] at kept
    rw [kept] at opening
    cases opening

theorem recoverUntil_call (w : World) (limit : Nat) (moved : Bool) :
    (recoverUntil w limit moved).call = w.call := by
  have kept := recoverIntents_call w (w.db.incompletePullRequestRefIntents.take limit)
  rcases recovered : recoverIntents w (w.db.incompletePullRequestRefIntents.take limit) with
    ⟨w', failed⟩
  rw [recovered] at kept
  simp only [recoverUntil, recovered]
  split
  · unfold committed
    split
    · exact (recoverReference_call ‹_›).trans kept
    · exact kept
  · exact kept

theorem afterFailure_ne {w : World} {intent : PullRequestRefIntent} {request : NewPullRequest} :
    afterFailure w intent ≠ some (.opening request) := by
  unfold afterFailure
  split
  · nofun
  · split
    · nofun
    · split <;> nofun

theorem step_validCall {w w' : World} {a : Action} (valid : ValidCall w) (next : step w a = some w') :
    ValidCall w' := by
  intro request opening
  cases a with
  | «open» r =>
      simp only [step] at next
      split at next
      · split at next
        · cases next
          cases enter_call ‹_› opening
          assumption
        · cases next
      · cases next
  | revise r =>
      simp only [step] at next
      split at next
      · split at next
        · cases next
          cases enter_call ‹_› opening
        · cases next
      · cases next
  | beginOpen intentId pullRequestId base head createdAt =>
      simp only [step] at next
      split at next
      · split at next
        · cases next
          unfold continued at opening
          split at opening
          · rename_i begun
            obtain ⟨_, -, rest⟩ := bind_eq_ok.mp begun
            obtain ⟨_, -, done⟩ := bind_eq_ok.mp rest
            cases done
            cases opening
          · cases opening
        · cases next
      · cases next
  | readCurrent =>
      simp only [step] at next
      split at next
      · cases next
        unfold continued at opening
        split at opening
        · rename_i read
          obtain ⟨_, -, done⟩ := bind_eq_ok.mp read
          cases done
          cases opening
        · cases opening
      · cases next
  | beginRevision intentId base head createdAt =>
      simp only [step] at next
      split at next
      · cases next
        unfold continued at opening
        split at opening
        · rename_i begun
          obtain ⟨_, -, rest⟩ := bind_eq_ok.mp begun
          obtain ⟨_, -, rest⟩ := bind_eq_ok.mp rest
          obtain ⟨_, -, done⟩ := bind_eq_ok.mp rest
          cases done
          cases opening
        · cases opening
      · cases next
  | applyIntent =>
      simp only [step] at next
      split at next
      · cases next
        unfold applyIntent at opening
        split at opening
        · cases opening
        · exact absurd opening afterFailure_ne
      · cases next
  | applyIntentFails moved =>
      simp only [step] at next
      split at next
      · cases next
        exact absurd opening afterFailure_ne
      · cases next
  | complete | abandon =>
      simp only [step] at next
      split at next
      · cases next
        cases opening
      · cases next
  | stop =>
      cases next
      cases opening
  | recoverUntil limit moved =>
      simp only [step] at next
      split at next
      · cases next
        rw [recoverUntil_call] at opening
        exact valid request opening
      · cases next
  | edit | setState =>
      simp only [step] at next
      split at next
      · cases next
        exact valid request opening
      · cases next

theorem branch_length {name : RefName} (valid : validateBranch name = true)
    (resolvable : Resolvable name) : bytesBetween 12 1024 name.length = true := by
  simp only [validateBranch, Bool.and_eq_true, decide_eq_true_eq] at valid
  obtain ⟨⟨heads, short⟩, -⟩ := valid
  obtain ⟨rest, rfl⟩ := List.isPrefixOf_iff_prefix.mp heads
  have length : (asciiBytes "refs/heads/").length = 11 := rfl
  have more : rest ≠ [] := by
    rintro rfl
    exact resolvable (List.append_nil _)
  have := List.length_pos_iff.mpr more
  rw [List.length_append, length] at short ⊢
  exact decide_eq_true ⟨by omega, short⟩

theorem requireRepository_unrejected {w : World} {owner repository actor : String} :
    requireRepository w owner repository actor ≠ .error (.store (.sqlite .check)) := by
  intro missing
  unfold requireRepository at missing
  rcases bind_eq_error.mp missing with denied | ⟨access, -, missing⟩
  · exact access_unrejected (fromStore_eq_error.mp denied)
  rcases bind_eq_error.mp missing with missing | ⟨_, -, done⟩
  · cases (required_eq_error.mp missing).2
  · cases done

theorem beginOpen_unrejected {w : World} {request : NewPullRequest}
    {intentId pullRequestId : Identifier} {base head : ObjectId} {createdAt : Int}
    (valid : request.valid = true) (baseRef : Resolvable request.baseRef)
    (headRef : Resolvable request.headRef) (since : 0 ≤ createdAt) :
    beginOpen w request intentId pullRequestId base head createdAt ≠
      .error (.store (.sqlite .check)) := by
  simp only [NewPullRequest.valid, validateContext, Bool.and_eq_true] at valid
  obtain ⟨⟨⟨⟨-, actor⟩, content⟩, base'⟩, head'⟩ := valid
  intro failed
  unfold beginOpen at failed
  rcases bind_eq_error.mp failed with missing | ⟨_, -, failed⟩
  · exact requireRepository_unrejected missing
  rcases bind_eq_error.mp failed with refused | ⟨_, -, done⟩
  · refine begin_unrejected ?_ (fromStore_eq_error.mp refused)
    exact ⟨actor, content, ⟨branch_length base' baseRef, branch_length head' headRef⟩, since⟩
  · cases done

/-- One step: a call ends at a `CHECK` exactly when its texts do not fit. -/
theorem step_unrejected {w w' : World} {a : Action} (valid : ValidCall w) (given' : Given w a)
    (next : step w a = some w') : ¬CheckRejects w a ↔ Fits w a := by
  cases a with
  | beginOpen intentId pullRequestId base head createdAt =>
      refine iff_of_true ?_ trivial
      rintro ⟨request, opening, failed⟩
      have resolvable := given'.2 request opening
      exact beginOpen_unrejected (valid request opening) resolvable.1 resolvable.2 given'.1 failed
  | complete =>
      refine iff_of_true ?_ trivial
      rintro ⟨intent, stored, -, found, opens, failed⟩
      exact complete_unrejected found opens failed
  | edit edit =>
      simp only [step, Bool.and_eq_true] at next
      split at next
      · rename_i accepted
        show ¬CheckFails _ ↔ _
        rw [edit_iff accepted.1.2 given']
        simp only [Fits, not_exists, not_and, not_not]
      · cases next
  | setState r =>
      show ¬CheckFails _ ↔ _
      rw [setState_iff given']
      simp only [Fits, not_exists, not_and, not_not]
  | _ => exact iff_of_true id trivial

/-- **Which calls the tables accept**: in every run, under a clock that does not go backwards, no
call of the service ends at a `CHECK` exactly when the texts of its edits and changes of state
fit. -/
theorem unrejected_iff (w : World) (actions : List Action) (idle : w.call = none)
    (given' : Meets step Given w actions) :
    Meets step (fun w a => ¬CheckRejects w a) w actions ↔ Meets step Fits w actions := by
  refine meets_iff_meets (fun w a w' valid _ next => step_validCall valid next)
    (fun w a w' valid given' next => step_unrejected valid given' next) ?_ given'
  intro request opening
  rw [idle] at opening
  cases opening

/-! ## Poles: a light and a heavy pull request -/

/-- The store of `alice`, with one repository and no reference of a pull request. -/
def aliceWorld : World := ⟨Database.oneRepository, fun _ => some fun _ => none, none⟩

def opening (body : String) : NewPullRequest where
  owner := "alice"
  repository := "tit"
  actor := "alice"
  title := "t"
  body
  baseRef := asciiBytes "refs/heads/main"
  headRef := asciiBytes "refs/heads/topic"

/-- `alice` opens a pull request with this body. -/
def opens (body : String) : List Action :=
  [.open (opening body), .beginOpen 1 1 ⟨1⟩ ⟨2⟩ 0, .applyIntent, .complete]

def closing : SetState := ⟨"alice", "tit", 1, "alice", .closed, 0⟩

def lightWorld : World :=
  { aliceWorld with
    db := { Database.oneRepository with
      pullRequests := ⟨[
        { id := 1, repositoryId := 1, number := 1, title := "t", body := "", state := .open,
          authorAccountId := 1, baseRef := asciiBytes "refs/heads/main",
          headRef := asciiBytes "refs/heads/topic", baseObjectId := ⟨1⟩, headObjectId := ⟨2⟩
          createdAt := 0, updatedAt := 0 }], by decide, by decide⟩ } }

/-- A pull request without a body can be closed. -/
theorem light_closes :
    Meets step (fun w a => ¬CheckRejects w a) lightWorld [.setState closing] := by
  have only : ∀ p ∈ lightWorld.db.pullRequests, p.createdAt = 0 ∧ p.title = "t" ∧ p.body = "" := by
    intro p member
    obtain rfl := List.mem_singleton.mp member
    exact ⟨rfl, rfl, rfl⟩
  refine (unrejected_iff lightWorld [.setState closing] rfl ?_).mpr ?_
  · exact fun _ _ => ⟨fun p member => (only p member).1.le, trivial⟩
  · refine fun _ _ => ⟨fun p writes _ => ?_, trivial⟩
    obtain ⟨-, title, body⟩ := only p writes.member
    rw [title, body]
    decide

/-- A body of so many control characters. -/
def controls (n : Nat) : String := String.ofList (List.replicate n (Char.ofNat 1))

theorem controls_size (n : Nat) : (controls n).utf8ByteSize = n := by
  rw [← String.size_toByteArray, ← String.utf8Encode_toList, controls, String.toList_ofList]
  induction n with
  | zero => simp
  | succ n ih =>
      have one : [Char.ofNat 1].utf8Encode.size = 1 := by
        rw [List.utf8Encode_singleton]
        rfl
      rw [List.replicate_succ, ← List.singleton_append, List.utf8Encode_append,
        ByteArray.size_append, ih, one, Nat.add_comm]

theorem controls_escaped (n : Nat) : escaped (controls n) = n * 6 := by
  rw [escaped, controls, String.toList_ofList, List.map_replicate, List.sum_replicate_nat]
  rfl

theorem controls_valid {n : Nat} (fits : n ≤ 262144) : validateContent "t" (controls n) = true := by
  have title : bytesBetween 1 200 "t".utf8ByteSize = true ∧
      "t".toList.all (fun c => c ≠ '\r' && c ≠ '\n') = true := by decide
  rw [validateContent, controls_size, title.1, title.2]
  exact decide_eq_true ⟨Nat.zero_le n, fits⟩

/-- Escaped, each of these characters is six. -/
theorem controls_large {n : Nat} (large : 174744 ≤ n) : ¬TextsFit 1 "t" (controls n) .closed := by
  have rest : escaped "t" = 1 ∧ jsonNumberLength 1 = 1 ∧ PullRequestState.closed.text.length = 6 := by
    decide
  rw [TextsFit, controls_escaped, rest.1, rest.2.1, rest.2.2, maxTexts]
  omega

theorem alice_access : Database.oneRepository.repositoryIssueAccess "alice" "tit" (some "alice") =
    .ok Database.aliceAccess := by
  decide

theorem alice_takes : ∃ repositoryCounters, Database.oneRepository.takePullRequestNumber 1 =
    .ok ({ Database.oneRepository with repositoryCounters }, 1) := by
  have taken : ((Database.oneRepository.takePullRequestNumber 1).toOption.map (·.2)) = some 1 := by
    decide
  obtain ⟨⟨db, number⟩, found, rfl⟩ := Option.map_eq_some_iff.mp taken
  have ok := ok_of_toOption found
  obtain ⟨repositoryCounters, rfl, -⟩ := Database.takePullRequestNumber_eq_ok ok
  exact ⟨repositoryCounters, ok⟩

/-- The intent of the opening. -/
def openingIntent (body : String) : PullRequestRefIntent where
  id := 1
  repositoryId := 1
  pullRequestId := 1
  pullRequestNumber := 1
  revisionNumber := 1
  operation := .open
  title := "t"
  body
  authorAccountId := 1
  actor := "alice"
  baseRef := asciiBytes "refs/heads/main"
  headRef := asciiBytes "refs/heads/topic"
  baseObjectId := ⟨1⟩
  oldHeadObjectId := none
  headObjectId := ⟨2⟩
  state := .pending
  createdAt := 0

theorem opens_begins {body : String} (valid : validateContent "t" body = true) :
    ∃ repositoryCounters pullRequestRefIntents,
      openingIntent body ∈ pullRequestRefIntents ∧
      step { aliceWorld with call := some (.opening (opening body)) }
          (.beginOpen 1 1 ⟨1⟩ ⟨2⟩ 0) =
        some { aliceWorld with
          db := { Database.oneRepository with repositoryCounters, pullRequestRefIntents }
          call := some (.applying (openingIntent body)) } := by
  simp only [validateContent, Bool.and_eq_true] at valid
  obtain ⟨repositoryCounters, taken⟩ := alice_takes
  have checked : Schema.check (openingIntent body) = true := by
    have rest : lengthBetween 1 40 "alice" = true ∧
        bytesBetween 12 1024 (asciiBytes "refs/heads/main").length = true ∧
        bytesBetween 12 1024 (asciiBytes "refs/heads/topic").length = true := by decide
    simp only [Schema.check, openingIntent, Bool.and_eq_true]
    exact ⟨⟨⟨⟨⟨⟨⟨⟨rfl, rfl⟩, valid.1.1⟩, valid.2⟩, rest.1⟩, rest.2.1⟩, rest.2.2⟩, rfl⟩, rfl⟩
  obtain ⟨intents, inserted⟩ := Table.insert_of (t := Database.oneRepository.pullRequestRefIntents)
    checked nofun
  refine ⟨repositoryCounters, intents, (Table.mem_insert inserted).mpr (.inr rfl), ?_⟩
  have writer : Database.oneRepository.pullRequestWriter
      { id := 1, pullRequestId := 1, owner := "alice", repository := "tit", actor := "alice",
        title := "t", body, baseRef := asciiBytes "refs/heads/main",
        headRef := asciiBytes "refs/heads/topic", baseObjectId := ⟨1⟩, headObjectId := ⟨2⟩,
        createdAt := 0 } = .ok (1, 1) := by
    simp only [Database.pullRequestWriter, alice_access, ok_bind]
    rfl
  have stored : Database.oneRepository.beginPullRequestOpen
      { id := 1, pullRequestId := 1, owner := "alice", repository := "tit", actor := "alice",
        title := "t", body, baseRef := asciiBytes "refs/heads/main",
        headRef := asciiBytes "refs/heads/topic", baseObjectId := ⟨1⟩, headObjectId := ⟨2⟩,
        createdAt := 0 } =
      .ok ({ Database.oneRepository with
          repositoryCounters := repositoryCounters, pullRequestRefIntents := intents },
        openingIntent body) := by
    simp only [Database.beginPullRequestOpen, writer, ok_bind, taken]
    exact bind_eq_ok.mpr ⟨intents, sqlite_eq_ok.mpr inserted, rfl⟩
  have there : requireRepository { aliceWorld with call := some (.opening (opening body)) }
      "alice" "tit" "alice" = .ok () := by
    show (fromStore (Database.oneRepository.repositoryIssueAccess "alice" "tit" (some "alice")) >>=
      _) = _
    rw [alice_access]
    rfl
  have begun : beginOpen { aliceWorld with call := some (.opening (opening body)) } (opening body)
      1 1 ⟨1⟩ ⟨2⟩ 0 = .ok { aliceWorld with
        db := { Database.oneRepository with
          repositoryCounters := repositoryCounters, pullRequestRefIntents := intents }
        call := some (.applying (openingIntent body)) } :=
    bind_eq_ok.mpr ⟨(), there, bind_eq_ok.mpr ⟨_, fromStore_eq_ok.mpr stored, rfl⟩⟩
  have unused : unusedPullRequestId Database.oneRepository 1 = true := by decide
  show (if unusedPullRequestId Database.oneRepository 1 then some (continued _ (beginOpen
    { aliceWorld with call := some (.opening (opening body)) } (opening body) 1 1 ⟨1⟩ ⟨2⟩ 0))
    else none) = _
  rw [if_pos unused, begun]
  rfl

/-- What `alice` opens is stored as she wrote it. -/
theorem opens_stored {body : String} (valid : validateContent "t" body = true) :
    ∃ w p, run step aliceWorld (opens body) = some w ∧ w.call = none ∧
      Writes w.db "alice" "tit" 1 "alice" p ∧ p.state = .open ∧ p.title = "t" ∧ p.body = body ∧
      ∀ q ∈ w.db.pullRequests, q.createdAt = 0 := by
  have fine : (opening body).valid = true := by
    have rest : validateContext "alice" "tit" "alice" = true ∧
        validateBranch (asciiBytes "refs/heads/main") = true ∧
        validateBranch (asciiBytes "refs/heads/topic") = true := by decide
    simp only [NewPullRequest.valid, opening, Bool.and_eq_true]
    exact ⟨⟨⟨rest.1, valid⟩, rest.2.1⟩, rest.2.2⟩
  have entered : step aliceWorld (.open (opening body)) =
      some { aliceWorld with call := some (.opening (opening body)) } := if_pos fine
  obtain ⟨repositoryCounters, intents, member, begun⟩ := opens_begins valid
  let db₁ : Database := { Database.oneRepository with
    repositoryCounters := repositoryCounters, pullRequestRefIntents := intents }
  let w₁ : World :=
    { aliceWorld with db := db₁, call := some (.applying (openingIntent body)) }
  have applied : step w₁ .applyIntent =
      some { w₁.setRef 1 1 ⟨2⟩ with call := some (.completing (openingIntent body)) } := by
    have at' : w₁.pullRef 1 1 = some none := rfl
    show some (applyIntent w₁ (openingIntent body)) = _
    rw [applyIntent, updateReference]
    simp only [openingIntent, at', if_true]
  have pending : db₁.Pending (openingIntent body) := ⟨member, rfl⟩
  obtain ⟨db₂, completed⟩ := Database.completePullRequestRefIntent_succeeds pending
    (Database.storePullRequest_open pending rfl nofun) nofun
  obtain ⟨i, pullRequests, revisions, events, intents', pending', id, stored, -, -, rfl⟩ :=
    Database.completePullRequestRefIntent_eq_ok completed
  obtain rfl : i = openingIntent body := Table.eq_of_key pending'.1 member id
  have inserted := Database.storePullRequest_open_eq_ok rfl stored
  have only : ∀ q, q ∈ pullRequests ↔ q = Database.openedRow (openingIntent body) := by
    intro q
    rw [Table.mem_insert inserted]
    exact or_iff_right nofun
  let db₂ : Database := { db₁ with
    pullRequests, pullRequestRevisions := revisions, repositoryEvents := events
    pullRequestRefIntents := intents' }
  have done : step { w₁.setRef 1 1 ⟨2⟩ with call := some (.completing (openingIntent body)) }
      .complete = some { w₁.setRef 1 1 ⟨2⟩ with db := db₂, call := none } := by
    show some { w₁.setRef 1 1 ⟨2⟩ with
      db := committed db₁ (db₁.completePullRequestRefIntent (openingIntent body).id)
      call := none } = _
    rw [completed]
    rfl
  refine ⟨{ w₁.setRef 1 1 ⟨2⟩ with db := db₂, call := none },
    Database.openedRow (openingIntent body), ?_, rfl, ?_, rfl, rfl, rfl, ?_⟩
  · simp only [opens, run, entered, begun, applied, done, w₁, db₁]
  · refine ⟨Database.aliceAccess, alice_access, ?_, rfl⟩
    refine Table.find_eq_some ((only _).mpr rfl) rfl ?_
    exact fun q hq _ => (only q).mp hq
  · intro q hq
    rw [(only q).mp hq]
    rfl

/-- **A pull request that cannot be closed**: its texts are accepted and it is opened, and to close
it ends at a `CHECK`. -/
theorem heavy_stuck :
    validateContent "t" (controls 200000) = true ∧
    ∃ w, run step aliceWorld (opens (controls 200000)) = some w ∧ Given w (.setState closing) ∧
      (step w (.setState closing)).isSome = true ∧ CheckRejects w (.setState closing) := by
  have valid := controls_valid (n := 200000) (by decide)
  obtain ⟨w, p, ran, -, writes, isOpen, title, body, created⟩ := opens_stored valid
  have given' : Given w (.setState closing) := fun q hq => (created q hq).le
  refine ⟨valid, w, ran, given', rfl, (setState_iff given').mpr ⟨p, writes, ?_, ?_⟩⟩
  · rw [isOpen]
    decide
  · rw [title, body]
    exact controls_large (by decide)

end Tit.PullRequests
