/-
# Store.ActivityPages -- the pages of the watched activity

`watched_activity_page` asks for one event more than a page takes, to see whether there is another
page, and the cursor to it names the last event of this one.  The pages are those of
`Theory.Paging` over the events that the account may see, newest first.
-/
import Tit.Store.Account
import Tit.Store.Visibility
import Tit.Theory.Paging
import Mathlib.Data.Prod.Lex

namespace Tit.Store

open Tit.Theory

set_option autoImplicit false

structure ActivityPage where
  events : List ActivityEventRecord
  nextBefore : Option ActivityCursor
  deriving DecidableEq, Repr

def cursorOf (record : ActivityEventRecord) : ActivityCursor where
  createdAt := record.event.createdAt
  eventId := record.event.id

namespace Database

def watchedActivityPage (db : Database) (actor : String) (before : Option ActivityCursor)
    (limit : Nat) : Except StoreError ActivityPage := do
  ensure (¬(limit = 0 ∨ limit > 100)) .eventLimit
  let accountId ← db.activeAccountId actor
  let events := db.watchedActivityEvents accountId before (limit + 1)
  let hasNext := decide (events.length > limit)
  let events := events.take limit
  pure
    { events
      nextBefore := if hasNext then events[events.length - 1]?.map cursorOf else none }

end Database

/-! ## The events in order -/

/-- The order of the pages. -/
def Newer (a b : ActivityEventRecord) : Prop :=
  b.event.createdAt < a.event.createdAt ∨
    (a.event.createdAt = b.event.createdAt ∧ b.event.id < a.event.id)

def cursorKey (cursor : ActivityCursor) : Int ×ₗ Nat := toLex (cursor.createdAt, cursor.eventId)

def eventKey (record : ActivityEventRecord) : Int ×ₗ Nat := cursorKey (cursorOf record)

section Order

variable {db : Database} {a b record : ActivityEventRecord} {before : Option ActivityCursor}
  {accountId : Nat}

theorem eventKey_lt : eventKey b < eventKey a ↔ Newer a b := by
  unfold eventKey cursorKey cursorOf Newer
  rw [Prod.Lex.toLex_lt_toLex, eq_comm]

theorem behind_eq_olderThan : Paging.behind eventKey (before.map cursorKey) record =
    Database.olderThan before record.event := by
  cases before with
  | none => rfl
  | some cursor =>
      rw [Bool.eq_iff_iff, Option.map_some, Paging.behind_some, Database.olderThan, Option.all_some,
        decide_eq_true_eq, eventKey, cursorKey, cursorKey, Prod.Lex.toLex_lt_toLex]
      rfl

/-- `ORDER BY created_at DESC, event_id DESC` -/
def newestFirst (records : List ActivityEventRecord) : List ActivityEventRecord :=
  records.insertionSort fun a b => b.event.createdAt < a.event.createdAt ∨
    (a.event.createdAt = b.event.createdAt ∧ b.event.id ≤ a.event.id)

/-- The events that the account watches and may see, in the order of the table. -/
def joinedEvents (db : Database) (accountId : Nat) : List ActivityEventRecord :=
  db.repositoryEvents.rows.filterMap (db.watchedEvent accountId)

/-- All events that the account watches and may see, the newest first. -/
def watchedBy (db : Database) (accountId : Nat) : List ActivityEventRecord :=
  newestFirst (joinedEvents db accountId)

theorem watchedEvent_event {event : RepositoryEvent}
    (joined : db.watchedEvent accountId event = some record) : record.event = event := by
  simp only [Database.watchedEvent, Option.bind_eq_bind, Option.bind_eq_some_iff,
    Option.ite_none_right_eq_some] at joined
  obtain ⟨row, -, owner, -, watch, -, -, same⟩ := joined
  cases same
  rfl

theorem mem_watchedBy : record ∈ watchedBy db accountId ↔
    record.event ∈ db.repositoryEvents ∧
      db.watchedEvent accountId record.event = some record := by
  rw [watchedBy, newestFirst, List.mem_insertionSort, joinedEvents, List.mem_filterMap]
  constructor
  · rintro ⟨event, logged, joined⟩
    obtain rfl := watchedEvent_event joined
    exact ⟨Table.mem_rows.mp logged, joined⟩
  · rintro ⟨logged, joined⟩
    exact ⟨record.event, Table.mem_rows.mpr logged, joined⟩

/-- The comparison of the sort: not older, in the order of the pages. -/
def NotOlder (a b : ActivityEventRecord) : Prop :=
  b.event.createdAt < a.event.createdAt ∨
    (a.event.createdAt = b.event.createdAt ∧ b.event.id ≤ a.event.id)

theorem newestFirst_sorted (records : List ActivityEventRecord) :
    (newestFirst records).Pairwise NotOlder := by
  have total : Std.Total NotOlder := ⟨fun a b => by unfold NotOlder; omega⟩
  have trans : IsTrans ActivityEventRecord NotOlder :=
    ⟨fun a b c first second => by unfold NotOlder at *; omega⟩
  exact @List.pairwise_insertionSort _ NotOlder (fun _ _ => inferInstanceAs (Decidable (_ ∨ _)))
    total trans records

theorem newestFirst_descending {records : List ActivityEventRecord}
    (apart : records.Pairwise fun a b => a.event.id ≠ b.event.id) :
    Paging.Descending eventKey (newestFirst records) := by
  have apart : (newestFirst records).Pairwise fun a b => a.event.id ≠ b.event.id :=
    (List.Perm.pairwise_iff (fun {_ _} apart => Ne.symm apart) (List.perm_insertionSort _ _)).mpr
      apart
  refine ((newestFirst_sorted records).and apart).imp fun {a b} ⟨le, ne⟩ => eventKey_lt.mpr ?_
  unfold NotOlder at le
  unfold Newer
  omega

theorem joinedEvents_apart (db : Database) (accountId : Nat) :
    (joinedEvents db accountId).Pairwise fun a b => a.event.id ≠ b.event.id := by
  refine List.Pairwise.filterMap _ (fun e e' ids a joined b joined' => ?_)
    db.repositoryEvents.pairwise_key
  rw [watchedEvent_event joined, watchedEvent_event joined']
  exact ids

theorem watchedBy_descending (db : Database) (accountId : Nat) :
    Paging.Descending eventKey (watchedBy db accountId) :=
  newestFirst_descending (joinedEvents_apart db accountId)

/-- The query gives the first of the events behind the cursor. -/
theorem watchedActivityEvents_eq (limit : Nat) :
    db.watchedActivityEvents accountId before limit =
      (Paging.rest eventKey (before.map cursorKey) (watchedBy db accountId)).take limit := by
  have behind : Paging.behind eventKey (before.map cursorKey) =
      fun record => Database.olderThan before record.event := by
    funext record
    exact behind_eq_olderThan
  -- both lists are in strict order and have the same events
  have filtered : Paging.Descending eventKey (newestFirst ((joinedEvents db accountId).filter
      fun record => Database.olderThan before record.event)) :=
    newestFirst_descending (List.Pairwise.filter _ (joinedEvents_apart db accountId))
  have same : (newestFirst ((joinedEvents db accountId).filter
      fun record => Database.olderThan before record.event)).Perm
      (Paging.rest eventKey (before.map cursorKey) (watchedBy db accountId)) := by
    rw [Paging.rest, behind]
    exact (List.perm_insertionSort _ _).trans ((List.perm_insertionSort _ _).symm.filter _)
  have equal := same.eq_of_pairwise
    (fun a b _ _ first second => absurd first (lt_asymm second)) filtered
    ((watchedBy_descending db accountId).rest _)
  rw [← equal]
  rfl

end Order

/-! ## The pages -/

section Pages

variable {db : Database} {actor : String} {limit accountId : Nat} {before : Option ActivityCursor}
  {page : ActivityPage} {dbs : List Database} {shown : List ActivityEventRecord}

/-- The page of `Theory.Paging`, with the cursors as the server writes them. -/
theorem watchedActivityPage_eq_ok : db.watchedActivityPage actor before limit = .ok page ↔
    (1 ≤ limit ∧ limit ≤ 100) ∧ ∃ accountId, db.activeAccountId actor = .ok accountId ∧
      page.events = (Paging.page eventKey limit (before.map cursorKey)
        (watchedBy db accountId)).rows ∧
      page.nextBefore.map cursorKey = (Paging.page eventKey limit (before.map cursorKey)
        (watchedBy db accountId)).next := by
  have injective : Function.Injective cursorKey := by
    rintro ⟨time, id⟩ ⟨time', id'⟩ same
    obtain ⟨rfl, rfl⟩ := Prod.mk.inj (toLex.injective same)
    rfl
  have read (accountId : Nat) (positive : 1 ≤ limit) :
      let events := db.watchedActivityEvents accountId before (limit + 1)
      let page := Paging.page eventKey limit (before.map cursorKey) (watchedBy db accountId)
      events.take limit = page.rows ∧
        (if decide (events.length > limit) then
          ((events.take limit)[(events.take limit).length - 1]?.map cursorOf) else none).map
            cursorKey = page.next := by
    dsimp only [Paging.page]
    rw [watchedActivityEvents_eq, List.take_take, Nat.min_eq_left (Nat.le_succ limit),
      List.length_take]
    generalize Paging.rest eventKey (before.map cursorKey) (watchedBy db accountId) = rest
    refine ⟨rfl, ?_⟩
    by_cases more : limit < rest.length
    · rw [if_pos (decide_eq_true (by omega)), if_pos more, List.length_take,
        Nat.min_eq_left more.le, List.getElem?_take_of_lt (by omega), Option.map_map]
      rfl
    · rw [if_neg (by rw [decide_eq_true_eq]; omega), if_neg more]
      rfl
  unfold Database.watchedActivityPage
  simp only [bind_eq_ok, ensure_eq_ok, pure_eq_ok, Except.ok.injEq]
  constructor
  · rintro ⟨-, within, accountId, found, rfl⟩
    obtain ⟨events, next⟩ := read accountId (by omega)
    exact ⟨by omega, accountId, found, events, next⟩
  · rintro ⟨within, accountId, found, events, next⟩
    obtain ⟨events', next'⟩ := read accountId within.1
    refine ⟨(), by omega, accountId, found, ?_⟩
    obtain ⟨listed, nextBefore⟩ := page
    exact congrArg₂ ActivityPage.mk (events'.trans events.symm)
      (Option.map_injective injective (next'.trans next.symm))

/-- A reader follows the cursors to the last page; each request meets the database of its time. -/
inductive FollowsActivity (actor : String) (limit : Nat) :
    Option ActivityCursor → List Database → List ActivityEventRecord → Prop where
  | last {before : Option ActivityCursor} {db : Database} {page : ActivityPage}
      (answered : db.watchedActivityPage actor before limit = .ok page)
      (ended : page.nextBefore = none) : FollowsActivity actor limit before [db] page.events
  | next {before : Option ActivityCursor} {db : Database} {page : ActivityPage}
      {cursor : ActivityCursor} {dbs : List Database} {later : List ActivityEventRecord}
      (answered : db.watchedActivityPage actor before limit = .ok page)
      (more : page.nextBefore = some cursor)
      (followed : FollowsActivity actor limit (some cursor) dbs later) :
      FollowsActivity actor limit before (db :: dbs) (page.events ++ later)

/-- What the actor sees in a database. -/
def seenBy (actor : String) (db : Database) : List ActivityEventRecord :=
  match db.activeAccountId actor with
  | .ok accountId => watchedBy db accountId
  | .error _ => []

theorem seenBy_descending (actor : String) (db : Database) :
    Paging.Descending eventKey (seenBy actor db) := by
  unfold seenBy
  split
  · exact watchedBy_descending _ _
  · exact .nil

theorem seenBy_of_active (active : db.activeAccountId actor = .ok accountId) :
    seenBy actor db = watchedBy db accountId := by
  rw [seenBy, active]

theorem event_mem_of_seenBy {record : ActivityEventRecord} (seen : record ∈ seenBy actor db) :
    record.event ∈ db.repositoryEvents := by
  unfold seenBy at seen
  split at seen
  · exact (mem_watchedBy.mp seen).1
  · cases seen

theorem FollowsActivity.follows (followed : FollowsActivity actor limit before dbs shown) :
    Paging.Follows eventKey limit (before.map cursorKey) (dbs.map (seenBy actor)) shown := by
  induction followed with
  | last answered ended =>
      obtain ⟨-, accountId, active, rows, next⟩ := watchedActivityPage_eq_ok.mp answered
      rw [← seenBy_of_active active] at rows next
      rw [rows]
      rw [ended] at next
      exact .last next.symm
  | next answered more _ ih =>
      obtain ⟨-, accountId, active, rows, next⟩ := watchedActivityPage_eq_ok.mp answered
      rw [← seenBy_of_active active] at rows next
      rw [rows]
      rw [more] at next
      exact .next next.symm ih

theorem watchedActivityPage_answers (within : 1 ≤ limit ∧ limit ≤ 100)
    (active : db.activeAccountId actor = .ok accountId) (before : Option ActivityCursor) :
    ∃ page, db.watchedActivityPage actor before limit = .ok page ∧
      page.events = (Paging.page eventKey limit (before.map cursorKey)
        (watchedBy db accountId)).rows ∧
      page.nextBefore.map cursorKey = (Paging.page eventKey limit (before.map cursorKey)
        (watchedBy db accountId)).next := by
  generalize answer : Paging.page eventKey limit (before.map cursorKey) (watchedBy db accountId) =
    paged
  have back : (paged.next.map fun key => (⟨(ofLex key).1, (ofLex key).2⟩ : ActivityCursor)).map
      cursorKey = paged.next := by
    cases paged.next <;> rfl
  refine ⟨⟨paged.rows, _⟩, watchedActivityPage_eq_ok.mpr ⟨within, accountId, active, ?_, ?_⟩, rfl,
    back⟩
  · rw [answer]
  · rw [answer]
    exact back

/-- The pages of one database, as the server hands them out. -/
theorem followsActivity_of_follows {key : Option (Int ×ₗ Nat)}
    {tables : List (List ActivityEventRecord)}
    (followed : Paging.Follows eventKey limit key tables shown)
    (one : ∀ table ∈ tables, table = watchedBy db accountId) (within : 1 ≤ limit ∧ limit ≤ 100)
    (active : db.activeAccountId actor = .ok accountId) (same : before.map cursorKey = key) :
    FollowsActivity actor limit before (tables.map fun _ => db) shown := by
  induction followed generalizing before with
  | @last key table ended =>
      obtain rfl := one table List.mem_cons_self
      subst same
      obtain ⟨page, answered, rows, next⟩ := watchedActivityPage_answers within active before
      rw [ended, Option.map_eq_none_iff] at next
      rw [← rows]
      exact .last answered next
  | @next key table later cursor tables more _ ih =>
      obtain rfl := one table List.mem_cons_self
      subst same
      obtain ⟨page, answered, rows, next⟩ := watchedActivityPage_answers within active before
      rw [more, Option.map_eq_some_iff] at next
      obtain ⟨cursor', more', same⟩ := next
      rw [← rows]
      exact .next answered more' (ih (fun table member => one table (List.mem_cons_of_mem _ member))
        (congrArg some same))

/-- **The pages of the watched activity are complete**: over one database they are all its events,
newest first, and over databases that change between the requests what stays is shown once. -/
theorem watchedActivity_pages (actor : String) {limit : Nat} (positive : 1 ≤ limit)
    (most : limit ≤ 100) :
    (∀ db accountId, db.activeAccountId actor = .ok accountId →
      (∃ n, FollowsActivity actor limit none (List.replicate n db) (watchedBy db accountId)) ∧
      ∀ n shown, FollowsActivity actor limit none (List.replicate n db) shown →
        shown = watchedBy db accountId) ∧
    (∀ db accountId, (watchedBy db accountId).Pairwise Newer ∧
      ∀ record, record ∈ watchedBy db accountId ↔ record.event ∈ db.repositoryEvents ∧
        db.watchedEvent accountId record.event = some record) ∧
    ∀ dbs shown, FollowsActivity actor limit none dbs shown →
      shown.Pairwise Newer ∧
      ∀ event, (∀ db ∈ dbs, ∃ record ∈ seenBy actor db, record.event = event) →
        (shown.map (·.event)).count event = 1 := by
  have newer {records : List ActivityEventRecord} (descending : Paging.Descending eventKey records) :
      records.Pairwise Newer := descending.imp fun less => eventKey_lt.mp less
  refine ⟨fun db accountId active => ⟨?_, fun n shown followed => ?_⟩,
    fun db accountId => ⟨newer (watchedBy_descending db accountId), fun record => mem_watchedBy⟩,
    fun dbs shown followed => ?_⟩
  · obtain ⟨n, followed⟩ := Paging.follows_all (watchedBy_descending db accountId) positive none
    have pages : FollowsActivity actor limit none _ _ := followsActivity_of_follows followed
      (fun table member => List.eq_of_mem_replicate member) ⟨positive, most⟩ active rfl
    rw [List.map_replicate] at pages
    have all : Paging.rest eventKey none (watchedBy db accountId) = watchedBy db accountId :=
      List.filter_eq_self.mpr fun _ _ => rfl
    rw [all] at pages
    exact ⟨n, pages⟩
  · have pages := followed.follows
    rw [List.map_replicate, seenBy_of_active active] at pages
    rw [pages.eq_rest positive (watchedBy_descending db accountId)
      fun table member => List.eq_of_mem_replicate member]
    exact List.filter_eq_self.mpr fun _ _ => rfl
  · have pages := followed.follows
    have ordered : ∀ rows ∈ dbs.map (seenBy actor), Paging.Descending eventKey rows := by
      intro rows member
      obtain ⟨db, -, rfl⟩ := List.mem_map.mp member
      exact seenBy_descending actor db
    have descending := newer (pages.descending ordered).1
    refine ⟨descending, fun event stays => ?_⟩
    have distinct : (shown.map (·.event)).Nodup := by
      refine List.pairwise_map.mpr (descending.imp fun {a b} newer same => ?_)
      unfold Newer at newer
      rw [same] at newer
      omega
    refine List.count_eq_one_of_mem distinct ?_
    -- what is shown under the key of the event is the event, by the key of its table
    obtain ⟨db₀, event₀⟩ : ∃ db, db ∈ dbs := by
      cases followed with
      | last => exact ⟨_, List.mem_cons_self⟩
      | next => exact ⟨_, List.mem_cons_self⟩
    obtain ⟨record₀, -, same₀⟩ := stays db₀ event₀
    obtain ⟨record, found, same⟩ := pages.shows (k := eventKey record₀) positive ordered (by
      intro rows member
      obtain ⟨db, inside, rfl⟩ := List.mem_map.mp member
      obtain ⟨record, seen, rfl⟩ := stays db inside
      refine ⟨record, seen, ?_⟩
      rw [eventKey, cursorOf, ← same₀]
      rfl) rfl
    obtain ⟨rows, member, listed⟩ := pages.mem found
    obtain ⟨db, inside, rfl⟩ := List.mem_map.mp member
    obtain ⟨record', seen, rfl⟩ := stays db inside
    have ids : record.event.id = record'.event.id := by
      have keys := congrArg (fun key => (ofLex key).2) same
      exact keys.trans (congrArg (·.id) same₀)
    rw [← Table.eq_of_key (event_mem_of_seenBy listed) (event_mem_of_seenBy seen) ids]
    exact List.mem_map_of_mem found

end Pages

/-- A push that `alice` watches. -/
def pushEvent (id : Nat) : RepositoryEvent where
  id
  repositoryId := 1
  sequence := id
  sourceIntentId := none
  sourceOrdinal := none
  issueId := none
  pullRequestId := none
  kind := .push
  actor := "alice"
  refName := none
  oldTarget := none
  newTarget := none
  createdAt := 7

/-- Three events of one second. -/
def oneSecond : Database :=
  { Database.oneRepository with
    watches := ⟨[{ repositoryId := 1, accountId := 1, createdAt := 0, updatedAt := 0 }],
      by decide, by decide⟩
    repositoryEvents := ⟨[pushEvent 2, pushEvent 1, pushEvent 3], by decide, by decide⟩ }

theorem oneSecond_pages :
    (∃ n, FollowsActivity "alice" 2 none (List.replicate n oneSecond) (watchedBy oneSecond 1)) ∧
      (watchedBy oneSecond 1).map (·.event.id) = [3, 2, 1] := by
  have seen : oneSecond.activeAccountId "alice" = .ok 1 ∧
      (watchedBy oneSecond 1).map (·.event.id) = [3, 2, 1] := by
    decide
  exact ⟨((watchedActivity_pages "alice" (by omega) (by omega)).1 _ _ seen.1).1, seen.2⟩

end Tit.Store
