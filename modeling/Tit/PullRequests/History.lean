/-
# PullRequests.History -- what the rows of a pull request can become

Any sequence of the store transactions on pull requests: openings and revisions, which
are begun and completed or abandoned apart from each other, edits, reviews, changes of
state, and the Git intents whose completion merges a pull request.  Intents may be
completed late, twice, or in another order than they were begun.

`History` is what holds in every state, `Follows` what one transaction may change.  The
revision number of a stale intent is no obstacle: it is at most one above the last
revision, so that its completion either adds the next revision or is refused by the
`UNIQUE` constraint.
-/
import Tit.Store.GitCompletion
import Tit.Store.Review
import Tit.Theory.Run

namespace Tit.PullRequests

open Tit.Theory Tit.Store

set_option autoImplicit false

/-- A transaction on pull requests.  `elsewhere` is any transaction on other tables. -/
inductive Operation where
  | beginOpen (intent : NewPullRequestRefIntent)
  | beginRevision (number : Nat) (intent : NewPullRequestRefIntent)
  | completeRefIntent (id : Identifier)
  | abandonRefIntent (id : Identifier)
  | edit (edit : PullRequestEdit)
  | review (review : NewPullRequestReview)
  | setState (owner repository : String) (number : Nat) (actor : String) (closed : Bool)
      (changedAt : Int)
  | beginMerge (merge : NewPullRequestMerge) (intent : NewGitOperationIntent)
  | beginGitIntent (intent : NewGitOperationIntent)
  | markObjectsPromoted (id : Identifier) (packName : Option PackName)
  | completeGitIntent (id : Identifier)
  | abandonGitIntent (id : Identifier)
  | elsewhere (others : Database)

/-- `others` with the tables of the pull requests of `db`. -/
def withPullRequests (db others : Database) : Database :=
  { others with
    pullRequests := db.pullRequests
    pullRequestRevisions := db.pullRequestRevisions
    pullRequestReviews := db.pullRequestReviews
    pullRequestRefIntents := db.pullRequestRefIntents
    pullRequestMergeIntents := db.pullRequestMergeIntents
    gitOperationIntents := db.gitOperationIntents
    gitOperationEvents := db.gitOperationEvents
    repositoryEvents := db.repositoryEvents }

/-- The two states that `set_state` accepts. -/
def requestedState (closed : Bool) : PullRequestState := if closed then .closed else .open

def Operation.transact (db : Database) : Operation → Except StoreError Database
  | .beginOpen intent => (db.beginPullRequestOpen intent).map (·.1)
  | .beginRevision number intent => (db.beginPullRequestRevision number intent).map (·.1)
  | .completeRefIntent id => db.completePullRequestRefIntent id
  | .abandonRefIntent id => db.abandonPullRequestRefIntent id
  | .edit request => db.editPullRequest request
  | .review request => (db.createPullRequestReview request).map (·.1)
  | .setState owner repository number actor closed changedAt =>
      db.setPullRequestState owner repository number actor (requestedState closed) changedAt
  | .beginMerge merge intent => db.beginPullRequestMerge merge intent
  | .beginGitIntent intent => db.beginGitIntent intent
  | .markObjectsPromoted id packName => db.markGitObjectsPromoted id packName
  | .completeGitIntent id => db.completeGitIntent id
  | .abandonGitIntent id => db.abandonGitIntent id
  | .elsewhere others => .ok (withPullRequests db others)

namespace History

/-- One transaction, rolled back when it fails. -/
def step (db : Database) (operation : Operation) : Option Database :=
  some (committed db (operation.transact db))

end History

/-! ## What holds -/

/-- `r` is the last revision of `p`: the numbers of the revisions are `1..r.number`, and
the row of the pull request has its commits. -/
structure LastRevision (db : Database) (p : PullRequest) (r : PullRequestRevision) : Prop where
  member : r ∈ db.pullRequestRevisions
  ofPullRequest : r.pullRequestId = p.id
  base : p.baseObjectId = r.baseObjectId
  head : p.headObjectId = r.headObjectId
  numbers : ∀ k, (∃ q ∈ db.pullRequestRevisions, q.pullRequestId = p.id ∧ q.number = k) ↔
    1 ≤ k ∧ k ≤ r.number

/-- The review is one of a revision of its own pull request, and a line comment names the
commit of its side. -/
structure ReviewsRevision (v : PullRequestReview) (r : PullRequestRevision) : Prop where
  revision : r.id = v.revisionId
  ofPullRequest : r.pullRequestId = v.pullRequestId
  anchored : v.kind = .lineComment →
    ∃ side, v.side = some side ∧ v.commitObjectId = some (r.commit side)

structure History (db : Database) : Prop where
  revisions : ∀ p ∈ db.pullRequests, ∃ r, LastRevision db p r
  reviews : ∀ v ∈ db.pullRequestReviews, ∃ r ∈ db.pullRequestRevisions, ReviewsRevision v r

/-- The states that one transaction may lead to. -/
inductive StateMove : PullRequestState → PullRequestState → Prop where
  | stay (state : PullRequestState) : StateMove state state
  | close : StateMove .open .closed
  | reopen : StateMove .closed .open
  | merge : StateMove .open .merged

/-- The transaction is the completion of a Git intent that merges `p`. -/
def MergedBy (db : Database) (p : PullRequest) : Operation → Prop
  | .completeGitIntent id => ∃ m r, db.mergeOf id = some (m, p, r) ∧ p.state = .open
  | _ => False

/-- What the transaction made of the rows of one pull request. -/
structure RowFollows (operation : Operation) (db : Database) (p p' : PullRequest) : Prop where
  same : p'.id = p.id ∧ p'.repositoryId = p.repositoryId ∧ p'.number = p.number
  moves : StateMove p.state p'.state
  merges : p'.state = .merged → p.state = .merged ∨ MergedBy db p operation

structure Follows (operation : Operation) (db db' : Database) : Prop where
  rows : ∀ p ∈ db.pullRequests, ∃ p' ∈ db'.pullRequests, RowFollows operation db p p'
  opened : ∀ p' ∈ db'.pullRequests, p'.state = .open ∨ ∃ p ∈ db.pullRequests, p.id = p'.id
  merged : ∀ p ∈ db.pullRequests, p.state = .merged → p ∈ db'.pullRequests
  mergedRevisions : ∀ p ∈ db.pullRequests, p.state = .merged →
    ∀ r, r.pullRequestId = p.id → (r ∈ db'.pullRequestRevisions ↔ r ∈ db.pullRequestRevisions)
  mergedReviews : ∀ p ∈ db.pullRequests, p.state = .merged →
    ∀ v, v.pullRequestId = p.id → (v ∈ db'.pullRequestReviews ↔ v ∈ db.pullRequestReviews)

/-- The state is sound, and so is whatever one transaction makes of it. -/
def SoundHistory (db : Database) : Prop :=
  History db ∧ ∀ operation db', History.step db operation = some db' → Follows operation db db'

/-! ## The invariant -/

/-- `History`, and what a pending revision may still rely on. -/
structure Recorded (db : Database) : Prop where
  history : History db
  owned : ∀ r ∈ db.pullRequestRevisions, ∃ p ∈ db.pullRequests, p.id = r.pullRequestId
  intents : ∀ i, db.Pending i → i.operation = .revise →
    i.revisionNumber ≤ db.nextRevisionNumber i.pullRequestId

section Invariant

variable {db db' : Database}

theorem LastRevision.next {p : PullRequest} {r : PullRequestRevision} (last : LastRevision db p r) :
    db.nextRevisionNumber p.id = r.number + 1 := by
  have below := Database.lt_nextRevisionNumber last.member
  rw [last.ofPullRequest] at below
  have above : db.nextRevisionNumber p.id ≤ r.number + 1 := by
    refine Database.nextRevisionNumber_le fun q hq of => ?_
    exact ((last.numbers q.number).mp ⟨q, hq, of, rfl⟩).2
  omega

/-- The row of a pull request keeps its name and its commits. -/
structure Carried (p p' : PullRequest) : Prop where
  same : p'.id = p.id ∧ p'.repositoryId = p.repositoryId ∧ p'.number = p.number
  base : p'.baseObjectId = p.baseObjectId
  head : p'.headObjectId = p.headObjectId

theorem Carried.refl (p : PullRequest) : Carried p p := ⟨⟨rfl, rfl, rfl⟩, rfl, rfl⟩

theorem LastRevision.carried {p p' : PullRequest} {r : PullRequestRevision}
    (last : LastRevision db p r) (carried : Carried p p')
    (revisions : db'.pullRequestRevisions = db.pullRequestRevisions) : LastRevision db' p' r where
  member := revisions ▸ last.member
  ofPullRequest := last.ofPullRequest.trans carried.same.1.symm
  base := carried.base.trans last.base
  head := carried.head.trans last.head
  numbers := by
    rw [revisions, carried.same.1]
    exact last.numbers

/-- A transaction that adds no revision keeps the invariant. -/
theorem Recorded.carried (recorded : Recorded db)
    (forth : ∀ p ∈ db.pullRequests, ∃ p' ∈ db'.pullRequests, Carried p p')
    (back : ∀ p' ∈ db'.pullRequests, ∃ p ∈ db.pullRequests, Carried p p')
    (revisions : db'.pullRequestRevisions = db.pullRequestRevisions)
    (reviews : ∀ v ∈ db'.pullRequestReviews,
      v ∈ db.pullRequestReviews ∨ ∃ r ∈ db.pullRequestRevisions, ReviewsRevision v r)
    (intents : ∀ i, db'.Pending i → i.operation = .revise →
      db.Pending i ∨ i.revisionNumber ≤ db.nextRevisionNumber i.pullRequestId) :
    Recorded db' where
  history :=
    { revisions := by
        intro p' hp'
        obtain ⟨p, hp, carried⟩ := back p' hp'
        obtain ⟨r, last⟩ := recorded.history.revisions p hp
        exact ⟨r, last.carried carried revisions⟩
      reviews := by
        rw [revisions]
        intro v hv
        exact (reviews v hv).elim (recorded.history.reviews v) id }
  owned := by
    rw [revisions]
    intro r hr
    obtain ⟨p, hp, same⟩ := recorded.owned r hr
    obtain ⟨p', hp', carried⟩ := forth p hp
    exact ⟨p', hp', carried.same.1.trans same⟩
  intents := by
    intro i pending revises
    have next : db'.nextRevisionNumber i.pullRequestId = db.nextRevisionNumber i.pullRequestId := by
      unfold Database.nextRevisionNumber
      rw [revisions]
    rw [next]
    exact (intents i pending revises).elim (fun before => recorded.intents i before revises) id

/-- A transaction on other rows. -/
theorem Recorded.frame (recorded : Recorded db)
    (pullRequests : ∀ p, p ∈ db'.pullRequests ↔ p ∈ db.pullRequests)
    (revisions : db'.pullRequestRevisions = db.pullRequestRevisions)
    (reviews : db'.pullRequestReviews = db.pullRequestReviews)
    (intents : ∀ i, db'.Pending i → i.operation = .revise →
      db.Pending i ∨ i.revisionNumber ≤ db.nextRevisionNumber i.pullRequestId) :
    Recorded db' := by
  refine recorded.carried (fun p hp => ⟨p, (pullRequests p).mpr hp, Carried.refl p⟩)
    (fun p hp => ⟨p, (pullRequests p).mp hp, Carried.refl p⟩) revisions ?_ intents
  rw [reviews]
  exact fun v hv => Or.inl hv

theorem Follows.frame (operation : Operation)
    (pullRequests : ∀ p, p ∈ db'.pullRequests ↔ p ∈ db.pullRequests)
    (revisions : db'.pullRequestRevisions = db.pullRequestRevisions)
    (reviews : db'.pullRequestReviews = db.pullRequestReviews) : Follows operation db db' where
  rows p hp := ⟨p, (pullRequests p).mpr hp, ⟨rfl, rfl, rfl⟩, .stay _, Or.inl⟩
  opened p hp := Or.inr ⟨p, (pullRequests p).mp hp, rfl⟩
  merged p hp _ := (pullRequests p).mpr hp
  mergedRevisions := by
    rw [revisions]
    exact fun _ _ _ _ _ => Iff.rfl
  mergedReviews := by
    rw [reviews]
    exact fun _ _ _ _ _ => Iff.rfl

/-! ## Updates of one row that is not merged -/

/-- What an edit, a review, a change of state or a revision does to the row. -/
structure Rewrites (operation : Operation) (db : Database) (current : PullRequest)
    (f : PullRequest → PullRequest) : Prop where
  unmerged : current.state ≠ .merged
  row : RowFollows operation db current (f current)

variable {operation : Operation} {current : PullRequest} {f : PullRequest → PullRequest}
  {chosen : PullRequest → Bool} {pullRequests : Table PullRequest}

/-- The row `current` has become `f current`, and the others are as they were. -/
structure Updates (db db' : Database) (current : PullRequest) (f : PullRequest → PullRequest) :
    Prop where
  member : current ∈ db.pullRequests
  rows : ∀ p', p' ∈ db'.pullRequests ↔ (p' ∈ db.pullRequests ∧ p' ≠ current) ∨ p' = f current

/-- An update that chooses by the identifier of the row, and perhaps by more. -/
theorem updates_of (member : current ∈ db.pullRequests) (selected : chosen current = true)
    (only : ∀ p, chosen p = true → p.id = current.id)
    (updated : db.pullRequests.update chosen f = .ok pullRequests)
    (result : db'.pullRequests = pullRequests) : Updates db db' current f := by
  refine ⟨member, fun p' => ?_⟩
  rw [result, Table.mem_update updated]
  constructor
  · rintro ⟨p, hp, rfl⟩
    split
    · rename_i passed
      rw [Table.eq_of_key hp member (only p passed)]
      exact Or.inr rfl
    · rename_i failed
      exact Or.inl ⟨hp, fun same => failed (same ▸ selected)⟩
  · rintro (⟨hp, other⟩ | rfl)
    · refine ⟨p', hp, ?_⟩
      rw [if_neg fun passed => other (Table.eq_of_key hp member (only p' passed))]
    · exact ⟨current, member, by rw [if_pos selected]⟩

theorem Rewrites.follows (rewrites : Rewrites operation db current f)
    (updates : Updates db db' current f)
    (revisions : ∀ r, r.pullRequestId ≠ current.id →
      (r ∈ db'.pullRequestRevisions ↔ r ∈ db.pullRequestRevisions))
    (reviews : ∀ v, v.pullRequestId ≠ current.id →
      (v ∈ db'.pullRequestReviews ↔ v ∈ db.pullRequestReviews)) : Follows operation db db' := by
  have apart : ∀ p ∈ db.pullRequests, p.state = .merged → p ≠ current := by
    rintro p - merged rfl
    exact rewrites.unmerged merged
  have other : ∀ p ∈ db.pullRequests, p.state = .merged → ∀ id, id = p.id → id ≠ current.id :=
    fun p hp merged id of same =>
      apart p hp merged (Table.eq_of_key hp updates.member (of.symm.trans same))
  refine ⟨?_, ?_, ?_, ?_, ?_⟩
  · intro p hp
    by_cases same : p = current
    · subst same
      exact ⟨f p, (updates.rows _).mpr (Or.inr rfl), rewrites.row⟩
    · exact ⟨p, (updates.rows p).mpr (Or.inl ⟨hp, same⟩), ⟨rfl, rfl, rfl⟩, .stay _, Or.inl⟩
  · intro p' hp'
    rcases (updates.rows p').mp hp' with ⟨hp, -⟩ | rfl
    · exact Or.inr ⟨p', hp, rfl⟩
    · exact Or.inr ⟨current, updates.member, rewrites.row.same.1.symm⟩
  · intro p hp merged
    exact (updates.rows p).mpr (Or.inl ⟨hp, apart p hp merged⟩)
  · exact fun p hp merged r of => revisions r (other p hp merged _ of)
  · exact fun p hp merged v of => reviews v (other p hp merged _ of)

/-- An update that leaves the commits alone carries every row over. -/
theorem Updates.carried (updates : Updates db db' current f) (carried : Carried current (f current)) :
    (∀ p ∈ db.pullRequests, ∃ p' ∈ db'.pullRequests, Carried p p') ∧
      ∀ p' ∈ db'.pullRequests, ∃ p ∈ db.pullRequests, Carried p p' := by
  refine ⟨fun p hp => ?_, fun p' hp' => ?_⟩
  · by_cases same : p = current
    · subst same
      exact ⟨f p, (updates.rows _).mpr (Or.inr rfl), carried⟩
    · exact ⟨p, (updates.rows p).mpr (Or.inl ⟨hp, same⟩), Carried.refl p⟩
  · rcases (updates.rows p').mp hp' with ⟨hp, -⟩ | rfl
    · exact ⟨p', hp, Carried.refl p'⟩
    · exact ⟨current, updates.member, carried⟩

/-! ## Completing an opening or a revision -/

theorem nextRevisionNumber_insert {row : PullRequestRevision} {revisions : Table PullRequestRevision}
    (added : db.pullRequestRevisions.insert row = .ok revisions)
    (rows : db'.pullRequestRevisions = revisions) (id : Identifier) :
    db.nextRevisionNumber id ≤ db'.nextRevisionNumber id := by
  cases number : db.nextRevisionNumber id with
  | zero => exact Nat.zero_le _
  | succ n =>
      by_cases empty : n = 0
      · subst empty
        exact Nat.succ_le_succ (Nat.zero_le _)
      · -- the last revision before is still there
        have some : ∃ r ∈ db.pullRequestRevisions, r.pullRequestId = id ∧ n ≤ r.number := by
          by_contra none
          have below : db.nextRevisionNumber id ≤ (n - 1) + 1 := by
            refine Database.nextRevisionNumber_le fun r hr of => ?_
            by_contra above
            exact none ⟨r, hr, of, by omega⟩
          omega
        obtain ⟨r, hr, rfl, at'⟩ := some
        have member : r ∈ db'.pullRequestRevisions := by
          rw [rows]
          exact (Table.mem_insert added).mpr (Or.inl hr)
        have below := Database.lt_nextRevisionNumber member
        omega

/-- The revision that a completion adds is the next one of its pull request. -/
theorem lastRevision_insert {p p' : PullRequest} {last row : PullRequestRevision}
    {revisions : Table PullRequestRevision} (before : LastRevision db p last)
    (added : db.pullRequestRevisions.insert row = .ok revisions)
    (rows : db'.pullRequestRevisions = revisions) (same : p'.id = p.id)
    (of : row.pullRequestId = p.id) (number : row.number = last.number + 1)
    (base : p'.baseObjectId = row.baseObjectId) (head : p'.headObjectId = row.headObjectId) :
    LastRevision db' p' row where
  member := by
    rw [rows]
    exact (Table.mem_insert added).mpr (Or.inr rfl)
  ofPullRequest := of.trans same.symm
  base := base
  head := head
  numbers := by
    intro k
    rw [rows, same, number]
    constructor
    · rintro ⟨q, hq, ofThis, rfl⟩
      rcases (Table.mem_insert added).mp hq with old | rfl
      · have inside := (before.numbers q.number).mp ⟨q, old, ofThis, rfl⟩
        omega
      · omega
    · rintro ⟨low, high⟩
      by_cases new : k = last.number + 1
      · exact ⟨row, (Table.mem_insert added).mpr (Or.inr rfl), of, number.trans new.symm⟩
      · obtain ⟨q, hq, ofThis, numbered⟩ := (before.numbers k).mpr ⟨low, by omega⟩
        exact ⟨q, (Table.mem_insert added).mpr (Or.inl hq), ofThis, numbered⟩

/-- A row inserted for another pull request changes nothing for this one. -/
theorem LastRevision.insert_other {p : PullRequest} {last row : PullRequestRevision}
    {revisions : Table PullRequestRevision} (before : LastRevision db p last)
    (added : db.pullRequestRevisions.insert row = .ok revisions)
    (rows : db'.pullRequestRevisions = revisions) (other : row.pullRequestId ≠ p.id) :
    LastRevision db' p last where
  member := by
    rw [rows]
    exact (Table.mem_insert added).mpr (Or.inl before.member)
  ofPullRequest := before.ofPullRequest
  base := before.base
  head := before.head
  numbers := by
    intro k
    rw [rows, ← before.numbers k]
    refine exists_congr fun q => ?_
    rw [Table.mem_insert added]
    constructor
    · rintro ⟨hq | rfl, of, numbered⟩
      · exact ⟨hq, of, numbered⟩
      · exact absurd of other
    · rintro ⟨hq, of, numbered⟩
      exact ⟨Or.inl hq, of, numbered⟩

/-- The parts of the invariant that no completion can break. -/
theorem Recorded.completed (recorded : Recorded db) {id : Identifier} {row : PullRequestRevision}
    {revisions : Table PullRequestRevision} {intents : Table PullRequestRefIntent}
    (added : db.pullRequestRevisions.insert row = .ok revisions)
    (settled : db.pullRequestRefIntents.update (Database.pendingIntent id)
      (fun i => { i with state := .completed }) = .ok intents)
    (rows : db'.pullRequestRevisions = revisions)
    (reviews : db'.pullRequestReviews = db.pullRequestReviews)
    (refIntents : db'.pullRequestRefIntents = intents)
    (kept : ∀ p ∈ db.pullRequests, ∃ p' ∈ db'.pullRequests, p'.id = p.id)
    (mine : ∃ p ∈ db'.pullRequests, p.id = row.pullRequestId)
    (last : ∀ p ∈ db'.pullRequests, ∃ r, LastRevision db' p r) : Recorded db' where
  history :=
    { revisions := last
      reviews := by
        rw [reviews, rows]
        intro v hv
        obtain ⟨r, hr, reviewed⟩ := recorded.history.reviews v hv
        exact ⟨r, (Table.mem_insert added).mpr (Or.inl hr), reviewed⟩ }
  owned := by
    rw [rows]
    intro r hr
    rcases (Table.mem_insert added).mp hr with old | rfl
    · obtain ⟨p, hp, same⟩ := recorded.owned r old
      obtain ⟨p', hp', same'⟩ := kept p hp
      exact ⟨p', hp', same'.trans same⟩
    · exact mine
  intents := by
    intro i pending revises
    have before : db.Pending i := by
      unfold Database.Pending at pending
      rw [refIntents] at pending
      exact ((Database.pending_settled (by decide) settled i).mp pending).1
    exact (recorded.intents i before revises).trans (nextRevisionNumber_insert added rows _)

/-- A completed opening has a pull request without revisions to start with. -/
theorem complete_open (recorded : Recorded db) {i : PullRequestRefIntent}
    {revisions : Table PullRequestRevision} {events : Table RepositoryEvent}
    {intents : Table PullRequestRefIntent} (pending : db.Pending i) (opens : i.operation = .open)
    (stored : db.pullRequests.insert (Database.openedRow i) = .ok pullRequests)
    (added : db.pullRequestRevisions.insert (db.revisionRow i) = .ok revisions)
    (settled : db.pullRequestRefIntents.update (Database.pendingIntent i.id)
      (fun i => { i with state := .completed }) = .ok intents)
    (result : db' = { db with
      pullRequests, pullRequestRevisions := revisions, repositoryEvents := events
      pullRequestRefIntents := intents }) :
    Recorded db' ∧ Follows operation db db' := by
  subst result
  have number : i.revisionNumber = 1 := by
    have checked := db.pullRequestRefIntents.checked i pending.1
    simp only [Schema.check, opens, Bool.and_eq_true, decide_eq_true_eq] at checked
    exact checked.2.1
  have fresh : ∀ p ∈ db.pullRequests, p.id ≠ i.pullRequestId := fun p hp same =>
    Table.insert_fresh stored p hp (decide_eq_true (Or.inl same))
  refine ⟨recorded.completed added settled rfl rfl rfl ?_ ?_ ?_, ?_⟩
  · exact fun p hp => ⟨p, (Table.mem_insert stored).mpr (Or.inl hp), rfl⟩
  · exact ⟨_, (Table.mem_insert stored).mpr (Or.inr rfl), rfl⟩
  · intro p hp
    rcases (Table.mem_insert stored).mp hp with old | rfl
    · obtain ⟨r, last⟩ := recorded.history.revisions p old
      exact ⟨r, last.insert_other added rfl (fresh p old).symm⟩
    · refine ⟨db.revisionRow i, (Table.mem_insert added).mpr (Or.inr rfl), rfl, rfl, rfl, ?_⟩
      intro k
      constructor
      · rintro ⟨q, hq, of, rfl⟩
        rcases (Table.mem_insert added).mp hq with old | rfl
        · obtain ⟨p, hp, same⟩ := recorded.owned q old
          exact absurd (same.trans of) (fresh p hp)
        · exact ⟨number.ge, le_rfl⟩
      · rintro ⟨low, high⟩
        refine ⟨db.revisionRow i, (Table.mem_insert added).mpr (Or.inr rfl), rfl, ?_⟩
        have high : k ≤ i.revisionNumber := high
        show i.revisionNumber = k
        omega
  · refine ⟨?_, ?_, ?_, ?_, fun _ _ _ _ _ => Iff.rfl⟩
    · intro p hp
      exact ⟨p, (Table.mem_insert stored).mpr (Or.inl hp), ⟨rfl, rfl, rfl⟩, .stay _, Or.inl⟩
    · intro p hp
      rcases (Table.mem_insert stored).mp hp with old | rfl
      · exact Or.inr ⟨p, old, rfl⟩
      · exact Or.inl rfl
    · exact fun p hp _ => (Table.mem_insert stored).mpr (Or.inl hp)
    · intro p hp _ r of
      show r ∈ revisions ↔ r ∈ db.pullRequestRevisions
      rw [Table.mem_insert added]
      refine or_iff_left ?_
      rintro rfl
      exact fresh p hp of.symm

/-- **A completed revision is the next one**, however late it is completed. -/
theorem complete_revise (recorded : Recorded db) {i : PullRequestRefIntent}
    {revisions : Table PullRequestRevision} {events : Table RepositoryEvent}
    {intents : Table PullRequestRefIntent} (pending : db.Pending i)
    (revises : i.operation = .revise) (member : current ∈ db.pullRequests)
    (revisable : Database.revisable i current = true)
    (updated : db.pullRequests.update (Database.revisable i) (Database.revisedRow i)
      = .ok pullRequests)
    (added : db.pullRequestRevisions.insert (db.revisionRow i) = .ok revisions)
    (settled : db.pullRequestRefIntents.update (Database.pendingIntent i.id)
      (fun i => { i with state := .completed }) = .ok intents)
    (result : db' = { db with
      pullRequests, pullRequestRevisions := revisions, repositoryEvents := events
      pullRequestRefIntents := intents }) :
    Recorded db' ∧ Follows operation db db' := by
  subst result
  obtain ⟨named, isOpen, -⟩ := Database.revisable_iff.mp revisable
  have updates : Updates db { db with
      pullRequests, pullRequestRevisions := revisions, repositoryEvents := events
      pullRequestRefIntents := intents } current (Database.revisedRow i) :=
    updates_of member revisable
      (fun p chosen => (Database.revisable_iff.mp chosen).1.trans named.symm) updated rfl
  obtain ⟨last, before⟩ := recorded.history.revisions current member
  -- at most the next number by the invariant, and none of the numbers in use
  have number : i.revisionNumber = last.number + 1 := by
    have atMost := recorded.intents i pending revises
    rw [← named, before.next] at atMost
    have checked := db.pullRequestRefIntents.checked i pending.1
    simp only [Schema.check, revises, Bool.and_eq_true, decide_eq_true_eq] at checked
    have positive : 1 < i.revisionNumber := checked.2.1
    by_contra other
    obtain ⟨q, hq, of, numbered⟩ :=
      (before.numbers i.revisionNumber).mpr ⟨positive.le, by omega⟩
    exact Table.insert_fresh added q hq
      (decide_eq_true (Or.inr ⟨of.trans named, numbered⟩))
  refine ⟨recorded.completed added settled rfl rfl rfl ?_ ?_ ?_, ?_⟩
  · intro p hp
    by_cases same : p = current
    · exact ⟨_, (updates.rows _).mpr (Or.inr rfl), by rw [same]; rfl⟩
    · exact ⟨p, (updates.rows _).mpr (Or.inl ⟨hp, same⟩), rfl⟩
  · exact ⟨_, (updates.rows _).mpr (Or.inr rfl), named⟩
  · intro p hp
    rcases (updates.rows p).mp hp with ⟨old, other⟩ | rfl
    · obtain ⟨r, keeps⟩ := recorded.history.revisions p old
      refine ⟨r, keeps.insert_other added rfl fun same => other ?_⟩
      exact Table.eq_of_key old member (same.symm.trans named.symm)
    · exact ⟨_, lastRevision_insert before added rfl rfl named.symm number rfl rfl⟩
  · refine Rewrites.follows ⟨by rw [isOpen]; decide, ⟨⟨rfl, rfl, rfl⟩, ?_, ?_⟩⟩ updates
      (fun r other => ?_) (fun _ _ => Iff.rfl)
    · exact .stay _
    · exact Or.inl
    · show r ∈ revisions ↔ r ∈ db.pullRequestRevisions
      rw [Table.mem_insert added]
      refine or_iff_left ?_
      rintro rfl
      exact other named.symm

/-! ## One transaction -/

theorem completeRefIntent_step (recorded : Recorded db) {id : Identifier}
    (ok : db.completePullRequestRefIntent id = .ok db') :
    Recorded db' ∧ Follows operation db db' := by
  obtain ⟨i, pullRequests, revisions, events, intents, pending, rfl, stored, added, settled,
    result⟩ := Database.completePullRequestRefIntent_eq_ok ok
  cases kind : i.operation with
  | «open» =>
      exact complete_open recorded pending kind
        (Database.storePullRequest_open_eq_ok kind stored) added settled result
  | revise =>
      obtain ⟨current, member, revisable, updated⟩ :=
        Database.storePullRequest_revise_eq_ok kind stored
      exact complete_revise recorded pending kind member revisable updated added settled result

/-- An edit, a review or a change of state: one row, not merged, that keeps its commits. -/
theorem rewrite_step (recorded : Recorded db) (rewrites : Rewrites operation db current f)
    (updates : Updates db db' current f) (carried : Carried current (f current))
    (revisions : db'.pullRequestRevisions = db.pullRequestRevisions)
    (reviews : ∀ v ∈ db'.pullRequestReviews, v ∈ db.pullRequestReviews ∨
      v.pullRequestId = current.id ∧ ∃ r ∈ db.pullRequestRevisions, ReviewsRevision v r)
    (kept : ∀ v ∈ db.pullRequestReviews, v ∈ db'.pullRequestReviews)
    (intents : db'.pullRequestRefIntents = db.pullRequestRefIntents) :
    Recorded db' ∧ Follows operation db db' := by
  obtain ⟨forth, back⟩ := updates.carried carried
  refine ⟨recorded.carried forth back revisions ?_ ?_, rewrites.follows updates ?_ ?_⟩
  · exact fun v hv => (reviews v hv).imp_right And.right
  · intro i pending _
    unfold Database.Pending at pending ⊢
    rw [intents] at pending
    exact Or.inl pending
  · intro r _
    rw [revisions]
  · intro v other
    exact ⟨fun hv => (reviews v hv).resolve_right fun added => other added.1, kept v⟩

theorem setState_move {state : PullRequestState} {closed : Bool} (unmerged : state ≠ .merged)
    (changes : state ≠ requestedState closed) : StateMove state (requestedState closed) := by
  cases state with
  | merged => exact absurd rfl unmerged
  | «open» =>
      cases closed with
      | true => exact .close
      | false => exact absurd rfl changes
  | closed =>
      cases closed with
      | true => exact absurd rfl changes
      | false => exact .reopen

/-- A completed Git intent merges the pull request of its merge row, or none. -/
theorem completeGitIntent_step (recorded : Recorded db) {id : Identifier}
    (ok : db.completeGitIntent id = .ok db') :
    Recorded db' ∧ Follows (.completeGitIntent id) db db' := by
  obtain ⟨i, hi, rfl, -, mergeable, intents, gitEvents, events, auditEvents, pullRequests, -, -, -,
    rows, rfl⟩ := Database.completeGitIntent_eq_ok ok
  cases merge : db.mergeOf i.id with
  | none =>
      have same : ∀ p, p ∈ pullRequests ↔ p ∈ db.pullRequests := by
        intro p
        rw [rows]
        simp only [Database.mergedRow, merge, exists_eq_right']
      exact ⟨recorded.frame same rfl rfl fun i pending _ => Or.inl pending,
        .frame _ same rfl rfl⟩
  | some found =>
      obtain ⟨m, p, r⟩ := found
      have isOpen := Database.stillMergeable_open (mergeable m p r merge).1
      obtain ⟨-, ⟨hp, named⟩, -⟩ := Database.mergeOf_eq_some.mp merge
      have updates : Updates db { db with
          gitOperationIntents := intents, gitOperationEvents := gitEvents
          repositoryEvents := events, auditEvents, pullRequests } p
          (fun p => { p with state := .merged, updatedAt := i.createdAt }) := by
        refine ⟨hp, fun q => ?_⟩
        show q ∈ pullRequests ↔ _
        rw [rows]
        simp only [Database.mergedRow, merge]
        constructor
        · rintro ⟨p', hp', rfl⟩
          split
          · rename_i chosen
            have same := (Database.openPullRequest_iff.mp chosen).1.trans named.symm
            rw [Table.eq_of_key hp' hp same]
            exact Or.inr rfl
          · rename_i passed
            refine Or.inl ⟨hp', ?_⟩
            rintro rfl
            exact passed (Database.openPullRequest_iff.mpr ⟨named, isOpen⟩)
        · rintro (⟨hq, other⟩ | rfl)
          · refine ⟨q, hq, ?_⟩
            rw [if_neg]
            intro chosen
            have same := (Database.openPullRequest_iff.mp chosen).1.trans named.symm
            exact other (Table.eq_of_key hq hp same)
          · exact ⟨p, hp, by rw [if_pos (Database.openPullRequest_iff.mpr ⟨named, isOpen⟩)]⟩
      refine rewrite_step recorded ⟨by rw [isOpen]; decide, ⟨rfl, rfl, rfl⟩, ?_, fun _ => ?_⟩ updates
        ⟨⟨rfl, rfl, rfl⟩, rfl, rfl⟩ rfl (fun _ => Or.inl) (fun _ hv => hv) rfl
      · rw [isOpen]
        exact .merge
      · exact Or.inr ⟨m, r, merge, isOpen⟩

/-- **Each transaction keeps the invariant and follows the rules of the states.** -/
theorem transact_step (recorded : Recorded db) (operation : Operation)
    (ok : operation.transact db = .ok db') : Recorded db' ∧ Follows operation db db' := by
  cases operation with
  | beginOpen intent =>
      obtain ⟨⟨after, row⟩, began, rfl⟩ := map_eq_ok.mp ok
      obtain ⟨access, counters, intents, -, inserted, rfl, -, -, -, -, opens, -, -⟩ :=
        Database.beginPullRequestOpen_eq_ok began
      refine ⟨recorded.frame (fun _ => Iff.rfl) rfl rfl ?_, .frame _ (fun _ => Iff.rfl) rfl rfl⟩
      rintro i ⟨hi, pending⟩ revises
      rcases (Table.mem_insert inserted).mp hi with old | rfl
      · exact Or.inl ⟨old, pending⟩
      · rw [opens] at revises
        cases revises
  | beginRevision number intent =>
      obtain ⟨⟨after, row⟩, began, rfl⟩ := map_eq_ok.mp ok
      have next := Database.beginPullRequestRevision_number began
      obtain ⟨access, intents, p, hp, -, inserted, rfl, -⟩ :=
        Database.beginPullRequestRevision_eq_ok began
      refine ⟨recorded.frame (fun _ => Iff.rfl) rfl rfl ?_, .frame _ (fun _ => Iff.rfl) rfl rfl⟩
      rintro i ⟨hi, pending⟩ -
      rcases (Table.mem_insert inserted).mp hi with old | rfl
      · exact Or.inl ⟨old, pending⟩
      · exact Or.inr next.le
  | completeRefIntent id => exact completeRefIntent_step recorded ok
  | abandonRefIntent id =>
      obtain ⟨intents, settled, rfl⟩ := Database.abandonPullRequestRefIntent_eq_ok ok
      refine ⟨recorded.frame (fun _ => Iff.rfl) rfl rfl ?_, .frame _ (fun _ => Iff.rfl) rfl rfl⟩
      exact fun i pending _ =>
        Or.inl ((Database.pending_settled (by decide) settled i).mp pending).1
  | edit request =>
      obtain ⟨current, member, pullRequests, events, unmerged, updated, rfl⟩ :=
        Database.editPullRequest_eq_ok ok
      refine rewrite_step recorded ⟨unmerged, ⟨⟨rfl, rfl, rfl⟩, .stay _, Or.inl⟩⟩
        (updates_of member (decide_eq_true rfl) (fun p => of_decide_eq_true) updated rfl)
        ⟨⟨rfl, rfl, rfl⟩, rfl, rfl⟩ rfl (fun _ => Or.inl) (fun _ hv => hv) rfl
  | review request =>
      obtain ⟨⟨after, id⟩, reviewed, rfl⟩ := map_eq_ok.mp ok
      obtain ⟨p, hp, r, hr, actorId, reviews, pullRequests, events, isOpen, of, -, anchored, inserted,
        updated, rfl⟩ := Database.createPullRequestReview_eq_ok reviewed
      refine rewrite_step recorded
        ⟨by rw [isOpen]; decide, ⟨⟨rfl, rfl, rfl⟩, .stay _, Or.inl⟩⟩
        (updates_of hp (decide_eq_true rfl) (fun q => of_decide_eq_true) updated rfl)
        ⟨⟨rfl, rfl, rfl⟩, rfl, rfl⟩ rfl ?_ ?_ rfl
      · intro v hv
        rcases (Table.mem_insert inserted).mp hv with old | rfl
        · exact Or.inl old
        · exact Or.inr ⟨rfl, r, hr, rfl, of, fun kind => anchoredAt_iff.mp (anchored kind)⟩
      · exact fun v hv => (Table.mem_insert inserted).mpr (Or.inl hv)
  | setState owner repository number actor closed changedAt =>
      obtain ⟨current, member, pullRequests, events, changes, updated, rfl⟩ :=
        Database.setPullRequestState_eq_ok ok
      refine rewrite_step recorded ⟨changes.changes.1, ⟨⟨rfl, rfl, rfl⟩, ?_, ?_⟩⟩
        (updates_of member (decide_eq_true rfl) (fun p => of_decide_eq_true) updated rfl)
        ⟨⟨rfl, rfl, rfl⟩, rfl, rfl⟩ rfl (fun _ => Or.inl) (fun _ hv => hv) rfl
      · exact setState_move changes.changes.1 changes.changes.2
      · intro merged
        cases closed with
        | true => cases merged
        | false => cases merged
  | beginMerge merge intent =>
      obtain ⟨repositoryId, p, r, intents, merges, -, -, -, -, -, -, -, rfl⟩ :=
        Database.beginPullRequestMerge_eq_ok ok
      exact ⟨recorded.frame (fun _ => Iff.rfl) rfl rfl fun i pending _ => Or.inl pending,
        .frame _ (fun _ => Iff.rfl) rfl rfl⟩
  | beginGitIntent intent =>
      obtain ⟨intents, -, rfl⟩ := Database.beginGitIntent_eq_ok ok
      exact ⟨recorded.frame (fun _ => Iff.rfl) rfl rfl fun i pending _ => Or.inl pending,
        .frame _ (fun _ => Iff.rfl) rfl rfl⟩
  | markObjectsPromoted id packName =>
      obtain ⟨i, -, -, -, intents, -, rfl⟩ := Database.markGitObjectsPromoted_eq_ok ok
      exact ⟨recorded.frame (fun _ => Iff.rfl) rfl rfl fun i pending _ => Or.inl pending,
        .frame _ (fun _ => Iff.rfl) rfl rfl⟩
  | completeGitIntent id => exact completeGitIntent_step recorded ok
  | abandonGitIntent id =>
      obtain ⟨i, -, -, -, intents, -, rfl⟩ := Database.abandonGitIntent_eq_ok ok
      exact ⟨recorded.frame (fun _ => Iff.rfl) rfl rfl fun i pending _ => Or.inl pending,
        .frame _ (fun _ => Iff.rfl) rfl rfl⟩
  | elsewhere others =>
      cases ok
      exact ⟨recorded.frame (fun _ => Iff.rfl) rfl rfl fun i pending _ => Or.inl pending,
        .frame _ (fun _ => Iff.rfl) rfl rfl⟩

theorem step_recorded (recorded : Recorded db) (operation : Operation)
    (stepped : History.step db operation = some db') :
    Recorded db' ∧ Follows operation db db' := by
  cases stepped
  rcases committed_eq_or db (operation.transact db) with same | ok
  · rw [same]
    exact ⟨recorded, .frame _ (fun _ => Iff.rfl) rfl rfl⟩
  · exact transact_step recorded operation ok

theorem Recorded.sound (recorded : Recorded db) : SoundHistory db :=
  ⟨recorded.history, fun operation _ stepped => (step_recorded recorded operation stepped).2⟩

end Invariant

/-! ## Runs -/

/-- A database without pull requests; the accounts and repositories are arbitrary. -/
structure WithoutPullRequests extends Database where
  noPullRequest : ∀ p, p ∉ pullRequests
  noRevision : ∀ r, r ∉ pullRequestRevisions
  noReview : ∀ v, v ∉ pullRequestReviews
  noIntent : ∀ i, i ∉ pullRequestRefIntents

theorem WithoutPullRequests.recorded (start : WithoutPullRequests) :
    Recorded start.toDatabase where
  history := ⟨fun p hp => absurd hp (start.noPullRequest p),
    fun v hv => absurd hv (start.noReview v)⟩
  owned r hr := absurd hr (start.noRevision r)
  intents i pending := absurd pending.1 (start.noIntent i)

/-- **The history of a pull request is sound in every run**: its revisions are numbered
without gaps and the row has the commits of the last one, reviews name revisions of their
own pull request, and the states move as they may, with `merged` the last one. -/
theorem always_sound (start : WithoutPullRequests) (operations : List Operation) :
    Always History.step SoundHistory start.toDatabase operations := by
  have kept : Always History.step Recorded start.toDatabase operations :=
    always_of_steps (fun _ operation _ recorded stepped =>
      (step_recorded recorded operation stepped).1) start.recorded operations
  exact kept.mono fun _ recorded => recorded.sound

/-! Pole: a pull request that is opened and revised, with a second revision begun
meanwhile.  The second one finds its number taken. -/

def oneRepositoryWithoutPullRequests : WithoutPullRequests where
  toDatabase := Database.oneRepository
  noPullRequest := Table.not_mem_empty
  noRevision := Table.not_mem_empty
  noReview := Table.not_mem_empty
  noIntent := Table.not_mem_empty

def newRefIntent (id : Identifier) (head : Nat) : NewPullRequestRefIntent where
  id := id
  pullRequestId := 7
  owner := "alice"
  repository := "tit"
  actor := "alice"
  title := "t"
  body := ""
  baseRef := asciiBytes "refs/heads/main"
  headRef := asciiBytes "refs/heads/work"
  baseObjectId := ⟨1⟩
  headObjectId := ⟨head⟩
  createdAt := 0

def revisedTwice : List Operation :=
  [.beginOpen (newRefIntent 1 2), .completeRefIntent 1,
   .beginRevision 1 (newRefIntent 2 2), .beginRevision 1 (newRefIntent 3 2),
   .completeRefIntent 3, .completeRefIntent 2]

example : ((run History.step Database.oneRepository revisedTwice).map fun db =>
    db.pullRequestRevisions.rows.map (·.number)) = some [1, 2] := by
  decide

end Tit.PullRequests
