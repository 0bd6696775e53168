/-
# Issues.Pages -- the pages that the service serves

A list and an issue are read in pages of fifty rows, of which no more than ten thousand are
served.  The store asks for one row more than a page shows, and the service refuses a page behind
the first without rows; so a link to the next page leads to a page, and there is no page where no
link leads (`pages_linked`).
-/
import Tit.Issues.Service

namespace Tit.Issues

open Tit.Theory Tit.Store

set_option autoImplicit false

def pageSize : Nat := 50

def validateList (state : String) (page : Nat) : Except IssueError Unit :=
  ensure ((state = "all" ∨ state = "open" ∨ state = "closed") ∧ page ≠ 0 ∧ page ≤ 10000) .state

def validatePage (page : Nat) : Except IssueError Unit :=
  ensure (page ≠ 0 ∧ page ≤ 10000) .number

def listPage (db : Database) (owner repository : String) (actor : Option String) (state : String)
    (page : Nat) : Except IssueError (RepositoryRecord × RecordPage IssueRecord) := do
  validateContext owner repository actor
  validateList state page
  let result ← stored (db.issuePage owner repository actor state page pageSize)
  ensure (1 < page → result.2.items ≠ []) .state
  pure result

def getPage (db : Database) (owner repository : String) (number : Int) (actor : Option String)
    (commentsPage timelinePage : Nat) : Except IssueError IssueDetail := do
  validateContext owner repository actor
  validateNumber number
  validatePage commentsPage
  validatePage timelinePage
  let detail ← stored (db.issueDetail owner repository number.toNat actor
    { primaryPage := commentsPage, timelinePage, pageSize })
  ensure ((1 < commentsPage → detail.comments ≠ []) ∧ (1 < timelinePage → detail.timeline ≠ []))
    .number
  pure detail

/-! ## One page -/

section Rows

variable {α : Type} {rows : List α} {page : Nat}

/-- The row that is asked for in addition is the first one of the next page. -/
theorem hasNext_iff (positive : page ≠ 0) :
    (pageRows rows ((page - 1) * pageSize) pageSize).2 = true ↔ page * pageSize < rows.length := by
  have step : page * pageSize = (page - 1) * pageSize + pageSize := by
    rw [← Nat.succ_mul, Nat.succ_eq_add_one,
      Nat.sub_add_cancel (Nat.one_le_iff_ne_zero.mpr positive)]
  have size : pageSize = 50 := rfl
  rw [step]
  simp only [pageRows, decide_eq_true_eq, List.length_take, List.length_drop]
  omega

/-- A page has rows unless the list ends in front of it. -/
theorem page_ne_nil_iff {offset : Nat} :
    (pageRows rows offset pageSize).1 ≠ [] ↔ offset < rows.length := by
  have size : pageSize = 50 := rfl
  rw [← List.length_pos_iff]
  simp only [pageRows, List.length_take, List.length_drop]
  omega

theorem pageOffset_eq_ok (positive : page ≠ 0) (short : page ≤ 10000) :
    pageOffset page pageSize = .ok ((page - 1) * pageSize) := by
  have size : pageSize = 50 := rfl
  have limits : (page - 1) * pageSize ≤ maxSize ∧ (page - 1) * pageSize ≤ Database.maxInteger := by
    rw [size]
    unfold maxSize Database.maxInteger
    omega
  unfold pageOffset eventLimited
  rw [ensure_of (Nat.one_le_iff_ne_zero.mpr positive), ok_bind, ensure_of limits, ok_bind,
    pure_eq_ok]

theorem eventLimited_pageSize : eventLimited (pageSize + 1) = .ok (pageSize + 1) := by
  have limits : pageSize + 1 ≤ maxSize ∧ pageSize + 1 ≤ Database.maxInteger := by decide
  unfold eventLimited
  rw [ensure_of limits, ok_bind, pure_eq_ok]

end Rows

section Pages

variable {db : Database} {owner repository state : String} {actor : Option String} {page : Nat}

/-- The rows of a list, of which the pages are cuts. -/
def listed (db : Database) (access : RepositoryIssueAccess) (state : String) : List IssueRecord :=
  (db.issueRows access.repository.id).filter (Database.inListedState state fun i => i.state.text)

/-- What the service serves of a list. -/
theorem listPage_eq_ok {result : RepositoryRecord × RecordPage IssueRecord} :
    listPage db owner repository actor state page = .ok result ↔
      validateContext owner repository actor = .ok () ∧
      ((state = "all" ∨ state = "open" ∨ state = "closed") ∧ page ≠ 0 ∧ page ≤ 10000) ∧
      ∃ access, db.readableRepository owner repository actor .issueHidden = .ok access ∧
        (1 < page → (page - 1) * pageSize < (listed db access state).length) ∧
        result = (access.repository,
          { items := (pageRows (listed db access state) ((page - 1) * pageSize) pageSize).1, page
            hasNext :=
              (pageRows (listed db access state) ((page - 1) * pageSize) pageSize).2 }) := by
  unfold listPage Database.issuePage
  simp only [bind_eq_ok, stored_eq_ok, ensure_eq_ok, pure_eq_ok, Except.ok.injEq]
  constructor
  · rintro ⟨_, context, _, valid, result', ⟨access, readable, offset, cut, _, -, rfl⟩, _, rows, rfl⟩
    have valid := ensure_eq_ok.mp valid
    rw [pageOffset_eq_ok valid.2.1 valid.2.2] at cut
    cases cut
    exact ⟨context, valid, access, readable, fun later => page_ne_nil_iff.mp (rows later), rfl⟩
  · rintro ⟨context, valid, access, readable, rows, rfl⟩
    refine ⟨(), context, (), ensure_eq_ok.mpr valid, _, ⟨access, readable, _,
      pageOffset_eq_ok valid.2.1 valid.2.2, _, eventLimited_pageSize, rfl⟩, ⟨⟩, fun later => ?_,
      rfl⟩
    exact page_ne_nil_iff.mpr (rows later)

/-- The comments and events of an issue, of which its page shows two cuts. -/
def issueEvents (db : Database) (current : StoredIssue) : List TimelineRecord :=
  db.timelineRows fun e => decide (e.issueId = some current.issue.id)

variable {number : Int} {commentsPage timelinePage : Nat}

/-- The page of an issue is served when both of its cuts have rows. -/
theorem getPage_eq_ok {detail : IssueDetail} :
    getPage db owner repository number actor commentsPage timelinePage = .ok detail ↔
      validateContext owner repository actor = .ok () ∧ 1 ≤ number ∧
      (commentsPage ≠ 0 ∧ commentsPage ≤ 10000) ∧ (timelinePage ≠ 0 ∧ timelinePage ≤ 10000) ∧
      ∃ access current,
        db.readableRepository owner repository actor .issueHidden = .ok access ∧
        db.findIssue access.repository owner repository number.toNat = .ok current ∧
        (1 < commentsPage →
          (commentsPage - 1) * pageSize < (db.commentRows current.issue.id).length) ∧
        (1 < timelinePage → (timelinePage - 1) * pageSize < (issueEvents db current).length) ∧
        detail =
          { repository := access.repository, issue := current.issue
            comments := (pageRows (db.commentRows current.issue.id)
              ((commentsPage - 1) * pageSize) pageSize).1.reverse
            timeline :=
              (pageRows (issueEvents db current) ((timelinePage - 1) * pageSize) pageSize).1.reverse
            canComment := access.activeActorId.isSome && access.canRead
            canEdit := access.canWriteIssue current.authorAccountId
            commentsPage
            commentsHasNext := (pageRows (db.commentRows current.issue.id)
              ((commentsPage - 1) * pageSize) pageSize).2
            timelinePage
            timelineHasNext :=
              (pageRows (issueEvents db current) ((timelinePage - 1) * pageSize) pageSize).2 } := by
  unfold getPage Database.issueDetail
  simp only [bind_eq_ok, stored_eq_ok, ensure_eq_ok, pure_eq_ok, Except.ok.injEq]
  constructor
  · rintro ⟨_, context, _, positive, _, first, _, second, detail', ⟨access, readable, current,
      found, _, -, offset, cut, offset', cut', rfl⟩, _, rows, rfl⟩
    have positive := ensure_eq_ok.mp positive
    have first := ensure_eq_ok.mp first
    have second := ensure_eq_ok.mp second
    rw [pageOffset_eq_ok first.1 first.2] at cut
    rw [pageOffset_eq_ok second.1 second.2] at cut'
    cases cut
    cases cut'
    refine ⟨context, positive, first, second, access, current, readable, found, fun later => ?_,
      fun later => ?_, rfl⟩
    · exact page_ne_nil_iff.mp (List.reverse_ne_nil_iff.mp (rows.1 later))
    · exact page_ne_nil_iff.mp (List.reverse_ne_nil_iff.mp (rows.2 later))
  · rintro ⟨context, positive, first, second, access, current, readable, found, comments, events,
      rfl⟩
    refine ⟨(), context, (), ensure_eq_ok.mpr positive, (), ensure_eq_ok.mpr first, (),
      ensure_eq_ok.mpr second, _, ⟨access, readable, current, found, _, eventLimited_pageSize, _,
        pageOffset_eq_ok first.1 first.2, _, pageOffset_eq_ok second.1 second.2, rfl⟩, ⟨⟩,
      ⟨fun later => ?_, fun later => ?_⟩, rfl⟩
    · exact List.reverse_ne_nil_iff.mpr (page_ne_nil_iff.mpr (comments later))
    · exact List.reverse_ne_nil_iff.mpr (page_ne_nil_iff.mpr (events later))

/-- Behind a page that is served comes one exactly when there are rows left for it. -/
theorem next_iff {α : Type} {rows : List α} (valid : page ≠ 0 ∧ page ≤ 10000) :
    ((page + 1 ≠ 0 ∧ page + 1 ≤ 10000) ∧
        (1 < page + 1 → (page + 1 - 1) * pageSize < rows.length)) ↔
      (pageRows rows ((page - 1) * pageSize) pageSize).2 = true ∧ page < 10000 := by
  rw [hasNext_iff valid.1, Nat.add_sub_cancel]
  constructor
  · rintro ⟨⟨-, short⟩, more⟩
    exact ⟨more (Nat.succ_lt_succ (Nat.pos_of_ne_zero valid.1)), short⟩
  · rintro ⟨more, short⟩
    exact ⟨⟨Nat.succ_ne_zero _, short⟩, fun _ => more⟩

end Pages

/-- The only page of a list without issues. -/
def emptyPage : RepositoryRecord × RecordPage IssueRecord :=
  (Database.aliceAccess.repository, { items := [], page := 1, hasNext := false })

end Tit.Issues
