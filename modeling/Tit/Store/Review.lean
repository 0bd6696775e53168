/-
# Store.Review -- reviews of a revision

A review belongs to one revision of an open pull request.  A line comment names, in
addition, a commit of that revision, a path and a line.
-/
import Tit.Store.PullRequest

namespace Tit.Store

open Tit.Theory

set_option autoImplicit false

structure NewPullRequestReview where
  owner : String
  repository : String
  number : Nat
  revision : Nat
  actor : String
  kind : ReviewKind
  body : String
  commitObjectId : Option ObjectId
  path : Option GitPath
  side : Option ReviewSide
  line : Option Nat
  createdAt : Int

def ReviewSide.text : ReviewSide → String
  | .base => "base"
  | .head => "head"

/-- The hexadecimal digits of an object identifier. -/
def objectIdLength : ObjectFormat → Nat
  | .sha1 => 40
  | .sha256 => 64

/-- A field that is `null` when it is absent. -/
def jsonOptionLength {α : Type} (length : α → Nat) (value : Option α) : Nat :=
  (value.map length).getD 4

def ReviewKind.event : ReviewKind → EventKind
  | .comment => .pullRequestCommented
  | .lineComment => .pullRequestLineCommented
  | .approved => .pullRequestApproved
  | .changesRequested => .pullRequestChangesRequested

/-- `event::pull_request_review`. -/
def pullRequestReviewEvent (format : ObjectFormat) (pullRequestId : Identifier)
    (review : NewPullRequestReview) : VersionedEvent where
  kind := review.kind.event
  payloadLength := jsonObjectLength
    [("version", 1), ("pull_request_id", jsonStringLength (identifierText pullRequestId)),
      ("number", jsonNumberLength review.number), ("review_id", 34),
      ("revision", jsonNumberLength review.revision), ("body", jsonStringLength review.body),
      ("commit_object_id",
        jsonOptionLength (fun _ => objectIdLength format + 2) review.commitObjectId),
      ("path_hex", jsonOptionLength (fun path => 2 * path.length + 2) review.path),
      ("side", jsonOptionLength (fun side => jsonStringLength side.text) review.side),
      ("line", jsonOptionLength jsonNumberLength review.line)]

/-- The commit of the revision on a side. -/
def PullRequestRevision.commit (r : PullRequestRevision) : ReviewSide → ObjectId
  | .base => r.baseObjectId
  | .head => r.headObjectId

/-- The anchor of a line comment names the commit of its side. -/
def NewPullRequestReview.anchoredAt (review : NewPullRequestReview) (r : PullRequestRevision) :
    Bool :=
  match review.side with
  | none => false
  | some side => decide (review.commitObjectId = some (r.commit side))

theorem anchoredAt_iff {review : NewPullRequestReview} {r : PullRequestRevision} :
    review.anchoredAt r = true ↔
      ∃ side, review.side = some side ∧ review.commitObjectId = some (r.commit side) := by
  unfold NewPullRequestReview.anchoredAt
  cases review.side with
  | none => simp
  | some side => simp

namespace Database

def reviewRow (db : Database) (review : NewPullRequestReview) (p : PullRequest)
    (r : PullRequestRevision) (authorAccountId : Nat) : PullRequestReview where
  id := db.pullRequestReviews.nextRowid
  pullRequestId := p.id
  revisionId := r.id
  authorAccountId := authorAccountId
  kind := review.kind
  body := review.body
  commitObjectId := review.commitObjectId
  path := review.path
  side := review.side
  line := review.line
  createdAt := review.createdAt

def createPullRequestReview (db : Database) (review : NewPullRequestReview) :
    Except StoreError (Database × Nat) := do
  let access ← db.repositoryIssueAccess review.owner review.repository (some review.actor)
  ensure (access.canRead = true) .pullRequestHidden
  let actorId ← required access.activeActorId .pullRequestDenied
  let p ← required (db.pullRequestNumbered access.repository.id review.number)
    (.pullRequestNotFound review.owner review.repository review.number)
  ensure (p.state = .open) .pullRequestState
  let r ← required
    (db.pullRequestRevisions.find fun r =>
      decide (r.pullRequestId = p.id ∧ r.number = review.revision))
    .pullRequestRevisionNotFound
  ensure (review.kind = .lineComment → review.anchoredAt r = true) .pullRequestReviewAnchor
  let row := db.reviewRow review p r actorId
  let pullRequestReviews ← sqlite (db.pullRequestReviews.insert row)
  let pullRequests ← sqlite (db.pullRequests.update (fun q => decide (q.id = p.id))
    fun q => { q with updatedAt := review.createdAt })
  let db ← { db with pullRequestReviews, pullRequests }.insertPullRequestEvent
    access.repository.id p.id review.actor review.createdAt
    (pullRequestReviewEvent access.repository.objectFormat p.id review)
  pure (db, row.id)

/-- A review adds its row and touches its pull request, which is open. -/
theorem createPullRequestReview_eq_ok {db db' : Database} {review : NewPullRequestReview} {id : Nat}
    (ok : db.createPullRequestReview review = .ok (db', id)) :
    ∃ p ∈ db.pullRequests, ∃ r ∈ db.pullRequestRevisions,
      ∃ actorId pullRequestReviews pullRequests repositoryEvents,
        p.state = .open ∧ r.pullRequestId = p.id ∧ r.number = review.revision ∧
        (review.kind = .lineComment → review.anchoredAt r = true) ∧
        db.pullRequestReviews.insert (db.reviewRow review p r actorId) = .ok pullRequestReviews ∧
        db.pullRequests.update (fun q => decide (q.id = p.id))
          (fun q => { q with updatedAt := review.createdAt }) = .ok pullRequests ∧
        db' = { db with pullRequestReviews, pullRequests, repositoryEvents } := by
  unfold createPullRequestReview at ok
  simp only [bind_eq_ok, ensure_eq_ok, required_eq_ok, sqlite_eq_ok, pure_eq_ok,
    Except.ok.injEq, Prod.mk.injEq] at ok
  obtain ⟨access, -, _, -, actorId, -, p, found, _, isOpen, r, revision, _, anchored, reviews,
    inserted, pullRequests, updated, db₁, event, rfl, -⟩ := ok
  obtain ⟨hr, named⟩ := Table.mem_of_find revision
  obtain ⟨ofPullRequest, number⟩ := of_decide_eq_true named
  obtain ⟨repositoryEvents, rfl⟩ := insertPullRequestEvent_eq_ok event
  exact ⟨p, (mem_of_numbered found).1, r, hr, actorId, reviews, pullRequests, repositoryEvents,
    isOpen, ofPullRequest, number, anchored, inserted, updated, rfl⟩

/-- An active actor is an account. -/
theorem active_account {db : Database} {owner slug actor : String}
    {access : RepositoryIssueAccess} {actorId : Nat}
    (ok : db.repositoryIssueAccess owner slug (some actor) = .ok access)
    (active : access.activeActorId = some actorId) : ∃ a ∈ db.accounts, a.username = actor := by
  unfold repositoryIssueAccess at ok
  simp only [bind_eq_ok, required_eq_ok, pure_eq_ok, Except.ok.injEq, Option.bind_some] at ok
  obtain ⟨⟨n, r⟩, -, rfl⟩ := ok
  cases found : db.accounts.find (fun a => decide (a.username = actor)) with
  | none =>
      rw [found] at active
      cases active
  | some a =>
      obtain ⟨ha, named⟩ := Table.mem_of_find found
      exact ⟨a, ha, of_decide_eq_true named⟩

/-- The checks in front of a review, and those of its row and of its event. -/
structure Reviews (db : Database) (review : NewPullRequestReview) (p : PullRequest)
    (r : PullRequestRevision) : Prop where
  access : ∃ access actorId,
    db.repositoryIssueAccess review.owner review.repository (some review.actor) = .ok access ∧
      access.canRead = true ∧ access.activeActorId = some actorId ∧
      db.pullRequestNumbered access.repository.id review.number = some p ∧
      Schema.check (db.reviewRow review p r actorId) = true ∧
      (pullRequestReviewEvent access.repository.objectFormat p.id review).payloadLength ≤
        maxPayloadLength
  isOpen : p.state = .open
  revision : (db.pullRequestRevisions.find fun r =>
    decide (r.pullRequestId = p.id ∧ r.number = review.revision)) = some r
  anchored : review.kind = .lineComment → review.anchoredAt r = true
  since : p.createdAt ≤ review.createdAt

/-- **These checks are all that a review asks for.** -/
theorem createPullRequestReview_succeeds {db : Database} {review : NewPullRequestReview}
    {p : PullRequest} {r : PullRequestRevision} (reviews : db.Reviews review p r) :
    ∃ db' actorId, db.createPullRequestReview review = .ok (db', db.pullRequestReviews.nextRowid) ∧
      db.reviewRow review p r actorId ∈ db'.pullRequestReviews := by
  obtain ⟨⟨access, actorId, accessed, readable, active, found, checked, payload⟩, isOpen, revision,
    anchored, since⟩ := reviews
  have member := (mem_of_numbered found).1
  obtain ⟨a, ha, named⟩ := active_account accessed active
  have fits := username_fits ha
  rw [named] at fits
  obtain ⟨pullRequestReviews, inserted⟩ := Table.insert_of (t := db.pullRequestReviews)
    (r := db.reviewRow review p r actorId) checked fun v hv clash =>
      absurd (of_decide_eq_true clash) (Nat.ne_of_lt (Table.key_lt_nextRowid hv))
  obtain ⟨pullRequests, updated⟩ := Table.update_of (t := db.pullRequests)
    (p := fun q => decide (q.id = p.id)) (f := fun q => { q with updatedAt := review.createdAt })
    (fun _ _ => Iff.rfl) (by
      intro q hq same
      obtain rfl : q = p := Table.eq_of_key hq member (of_decide_eq_true same)
      have checked := PullRequest.check_iff.mp (db.pullRequests.checked q hq)
      exact PullRequest.check_iff.mpr ⟨checked.1, since⟩)
  have created : 0 ≤ review.createdAt := by
    have checked := PullRequest.check_iff.mp (db.pullRequests.checked p member)
    exact le_trans checked.1.2 since
  have event : ∃ db', ({ db with pullRequestReviews, pullRequests } : Database).insertDomainEvent
      { repositoryId := access.repository.id, sourceIntentId := none, sourceOrdinal := none,
        pullRequestId := some p.id,
        kind := (pullRequestReviewEvent access.repository.objectFormat p.id review).kind,
        actor := review.actor, refName := none, oldTarget := none, newTarget := none,
        createdAt := review.createdAt } = .ok db' := by
    refine insertDomainEvent_succeeds ⟨fits.1, fits.2.trans (by decide)⟩ created rfl ?_
      fun _ _ sourced => absurd rfl sourced
    cases kind : review.kind <;> simp only [pullRequestReviewEvent, kind] <;> rfl
  obtain ⟨db', event⟩ := event
  have kept : db'.pullRequestReviews = pullRequestReviews := by
    obtain ⟨_, -, rfl⟩ := insertDomainEvent_eq_ok.mp event
    rfl
  refine ⟨db', actorId, ?_, ?_⟩
  · unfold createPullRequestReview insertPullRequestEvent
    simp only [bind_eq_ok, ensure_eq_ok, required_eq_ok, sqlite_eq_ok, pure_eq_ok]
    exact ⟨access, accessed, ⟨⟩, readable, actorId, active, p, found, ⟨⟩, isOpen, r, revision, ⟨⟩,
      anchored, pullRequestReviews, inserted, pullRequests, updated, db', ⟨⟨⟩, payload, event⟩, rfl⟩
  · rw [kept]
    exact (Table.mem_insert inserted).mpr (Or.inr rfl)

end Database

/-! ## The payload of a review -/

theorem length_le_utf8ByteSize (text : String) : text.toList.length ≤ text.utf8ByteSize := by
  have size : text.toList.utf8Encode.size = text.utf8ByteSize := by
    rw [String.utf8Encode_toList, String.size_toByteArray]
  rw [← size]
  generalize text.toList = cs
  induction cs with
  | nil => simp
  | cons c cs ih =>
      have one := Char.utf8Size_pos c
      rw [← List.singleton_append, List.utf8Encode_append, ByteArray.size_append,
        List.utf8Encode_singleton]
      simp
      omega

theorem escapedLength_le (c : Char) : escapedLength c ≤ 6 := by
  unfold escapedLength
  split
  · omega
  · split
    · omega
    · split <;> omega

theorem jsonStringLength_le_length {text : String} {each : Nat}
    (short : ∀ c ∈ text.toList, escapedLength c ≤ each) :
    jsonStringLength text ≤ text.length * each + 2 := by
  have sum : (text.toList.map escapedLength).sum ≤ text.toList.length * each := by
    generalize text.toList = cs at short
    induction cs with
    | nil => simp
    | cons c cs ih =>
        have here := short c List.mem_cons_self
        have later := ih fun d hd => short d (List.mem_cons_of_mem _ hd)
        rw [List.map_cons, List.sum_cons, List.length_cons, Nat.succ_mul]
        omega
  rw [String.length_toList] at sum
  unfold jsonStringLength
  omega

theorem jsonStringLength_le {text : String} {each : Nat}
    (short : ∀ c ∈ text.toList, escapedLength c ≤ each) :
    jsonStringLength text ≤ text.utf8ByteSize * each + 2 := by
  have characters := length_le_utf8ByteSize text
  rw [String.length_toList] at characters
  exact (jsonStringLength_le_length short).trans
    (Nat.add_le_add_right (Nat.mul_le_mul_right each characters) 2)

theorem jsonNumberLength_le {n : Nat} (fits : n < 10 ^ 19) : jsonNumberLength n ≤ 19 :=
  (Nat.length_toDigits_le_iff (by omega) (by omega)).mpr fits

end Tit.Store
