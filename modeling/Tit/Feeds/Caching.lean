/-
# Feeds.Caching -- what a revalidation says of a feed

The entity tag is that of the body, so a reply `304` to it means that the body is the same
(`etag_truthful`).  The other validator is a second: a reply `304` to it means that nothing on the
page is later than what the page had before (`modifiedSince_iff`), and what changes the page within
that second, or without a later event, is hidden.  A run hides nothing as long as each step that
changes what the feed lists brings a later event to the page (`revalidation_truthful`).
-/
import Tit.Events.System
import Tit.Feeds.Reply

namespace Tit.Feeds

open Tit.Theory Tit.Store Tit.Events

set_option autoImplicit false

/-! ## What a feed lists -/

/-- A line of a page: an event, and what the page says of its repository. -/
structure Entry where
  owner : String
  slug : String
  objectFormat : ObjectFormat
  event : RepositoryEvent
  deriving DecidableEq, Repr

/-- The rows behind a page, with the time that an empty page goes by. -/
structure Listing where
  username : Option String
  floor : Int
  entries : List Entry
  more : Bool
  deriving DecidableEq, Repr

def entryOf (repository : RepositoryRecord) (event : RepositoryEvent) : Entry where
  owner := repository.owner
  slug := repository.slug
  objectFormat := repository.objectFormat
  event := event

namespace Listing

/-- The newest events of a repository, of which one is more than a page takes. -/
def ofRepository (record : RepositoryRecord) (events : List RepositoryEvent) : Listing where
  username := none
  floor := record.createdAt
  entries := (events.take pageSize).map (entryOf record)
  more := decide (events.length > pageSize)

def ofActivity (username : String) (events : List ActivityEventRecord) : Listing where
  username := some username
  floor := 0
  entries := events.map fun record => entryOf record.repository record.event
  more := false

/-- The seconds on the page. -/
def seconds (listing : Listing) : List Int :=
  match listing.entries with
  | [] => [listing.floor]
  | entries => entries.map (·.event.createdAt)

/-- One event of the page is later than all that the earlier page had. -/
def Newer (later earlier : Listing) : Prop :=
  ∃ t ∈ later.seconds, ∀ u ∈ earlier.seconds, u < t

def newest (listing : Listing) : Int :=
  newestOf (listing.entries.map (·.event.createdAt)) listing.floor

theorem newest_spec (listing : Listing) :
    listing.newest ∈ listing.seconds ∧ ∀ t ∈ listing.seconds, t ≤ listing.newest := by
  unfold newest newestOf seconds
  cases listing.entries with
  | nil =>
      exact ⟨List.mem_singleton.mpr rfl, fun t member => le_of_eq (List.mem_singleton.mp member)⟩
  | cons entry entries =>
      cases found : ((entry :: entries).map (·.event.createdAt)).max? with
      | none => cases List.max?_eq_none_iff.mp found
      | some newest => exact List.max?_eq_some_iff.mp found

theorem newer_iff {later earlier : Listing} :
    later.Newer earlier ↔ earlier.newest < later.newest := by
  obtain ⟨top, bound⟩ := later.newest_spec
  obtain ⟨top', bound'⟩ := earlier.newest_spec
  constructor
  · rintro ⟨t, member, above⟩
    exact lt_of_lt_of_le (above _ top') (bound t member)
  · intro lt
    exact ⟨later.newest, top, fun u member => lt_of_le_of_lt (bound' u member) lt⟩

theorem Newer.trans {a b c : Listing} (first : a.Newer b) (second : b.Newer c) : a.Newer c :=
  newer_iff.mpr ((newer_iff.mp second).trans (newer_iff.mp first))

end Listing

/-- The rows behind the page of a feed, without a look at who may read them. -/
def Feed.listing (service : Service) (db : Database) : Feed → Option Listing
  | .repository owner slug before kind =>
      (storedRepository db owner slug).toOption.map fun record =>
        .ofRepository record (repositoryEventsFor db record before (pageSize + 1) kind.shape)
  | .token secret => (readToken service db secret).map fun page => .ofActivity page.1 page.2

/-! ## Pages of listings -/

section Pages

variable (service : Service)

def Entry.repositoryUrl (entry : Entry) : String :=
  service.httpCloneBase ++ "/" ++ entry.owner ++ "/" ++ entry.slug

def Entry.item (title : String) (entry : Entry) : Item where
  title := title
  link := service.repositoryEventLink (entry.repositoryUrl service) entry.event
  guid := service.eventUrn entry.event
  createdAt := entry.event.createdAt
  description := service.eventDescription entry.objectFormat entry.event

/-- The channel of a listing. -/
def Feed.channel : Feed → Listing → Channel
  | .repository owner slug before kind, listing =>
      let feedUrl := service.httpCloneBase ++ "/" ++ owner ++ "/" ++ slug ++ "/" ++ kind.path
      let title := owner ++ "/" ++ slug ++ " " ++
        match kind with
        | .activity => "events"
        | .issues => "issues"
        | .pullRequests => "pull requests"
      { title
        link := service.httpCloneBase ++ "/" ++ owner ++ "/" ++ slug
        description := "Public events for " ++ title
        updated := listing.newest
        selfUrl := (before.map fun b => feedUrl ++ "?before=" ++ toString b).getD feedUrl
        nextUrl := (if listing.more then listing.entries.getLast?.map (·.event.sequence)
          else none).map fun next => feedUrl ++ "?before=" ++ toString next
        items := listing.entries.map fun entry =>
          entry.item service (service.eventTitle entry.event) }
  | .token secret, listing =>
      { title := listing.username.getD "" ++ " watched activity"
        link := service.httpCloneBase
        description := listing.username.getD "" ++ " watched activity"
        updated := listing.newest
        selfUrl := service.httpCloneBase ++ "/feeds/" ++ secret ++ "/" ++ "rss.xml"
        nextUrl := none
        items := listing.entries.map fun entry =>
          entry.item service (entry.owner ++ "/" ++ entry.slug ++ ": " ++
            service.eventTitle entry.event) }

variable {service} {db : Database} {actor : Option String} {feed : Feed} {headers : Headers}
  {reply : Reply}

theorem storedRepository_eq_ok {owner slug : String} {record : RepositoryRecord}
    (found : storedRepository db owner slug = .ok record) :
    record.owner = owner ∧ record.slug = slug := by
  unfold storedRepository at found
  simp only [bind_eq_ok, required_eq_ok, pure_eq_ok, Except.ok.injEq] at found
  obtain ⟨⟨owned, row⟩, named, rfl⟩ := found
  obtain ⟨-, owner, -, -, slug⟩ := Database.repositoryNamed_eq_some named
  exact ⟨owner, slug⟩

theorem channel_repository (record : RepositoryRecord) (before : Option Int)
    (kind : RepositoryFeedKind) (events : List RepositoryEvent) :
    let feedUrl := service.httpCloneBase ++ "/" ++ record.owner ++ "/" ++ record.slug ++ "/" ++
      kind.path
    FeedPage.channel service
      { repository := record
        feedUrl
        selfUrl := (before.map fun b => feedUrl ++ "?before=" ++ toString b).getD feedUrl
        events := events.take pageSize
        nextBefore := if decide (events.length > pageSize) = true then
          (events.take pageSize).getLast?.map (·.sequence) else none
        kind } =
      Feed.channel service (.repository record.owner record.slug before kind)
        (.ofRepository record events) := by
  unfold FeedPage.channel Feed.channel FeedPage.nextUrl FeedPage.feedTitle Listing.newest
    Listing.ofRepository
  simp only [List.map_map, List.getLast?_map, Option.map_map]
  cases kind <;> rfl

theorem channel_token (token username : String) (events : List ActivityEventRecord) :
    ActivityFeedPage.channel service
      { selfUrl := service.httpCloneBase ++ "/feeds/" ++ token ++ "/" ++ "rss.xml"
        username
        events } =
      Feed.channel service (.token token) (.ofActivity username events) := by
  unfold ActivityFeedPage.channel Feed.channel ActivityFeedPage.updated Listing.newest
    Listing.ofActivity
  simp only [List.map_map]
  rfl

theorem feedResponse_of {record : RepositoryRecord} {before : Option Int}
    {kind : RepositoryFeedKind} {events : List RepositoryEvent} {body : String}
    (positive : ¬before.any (fun b => decide (b ≤ 0)) = true)
    (page : eventPage db actor record.owner record.slug before kind = .ok (record, events))
    (rendered : service.renderChannel (Feed.channel service
      (.repository record.owner record.slug before kind) (.ofRepository record events)) =
        .ok body) :
    feedResponse service db actor record.owner record.slug before headers kind =
      conditionalFeed service headers body (Listing.ofRepository record events).newest
        (decide (record.visibility = .pub)) := by
  rw [← channel_repository] at rendered
  have answered := (mapError_eq_ok (f := RouteError.ofFeed)).mpr rendered
  unfold feedResponse
  rw [ensure_of positive, ok_bind, page, ok_bind]
  dsimp only at answered ⊢
  rw [FeedPage.render, answered, ok_bind, Listing.newest, Listing.ofRepository, List.map_map]
  rfl

/-- **A reply is made of what the feed lists**, whatever the headers are. -/
theorem serve_eq_ok (ok : serve service db actor feed headers = .ok reply) :
    ∃ listing body isPublic, feed.listing service db = some listing ∧
      service.renderChannel (feed.channel service listing) = .ok body ∧
      ∀ headers, serve service db actor feed headers =
        conditionalFeed service headers body listing.newest isPublic := by
  cases feed with
  | repository owner slug before kind =>
      unfold serve feedResponse at ok
      obtain ⟨_, positive, ok⟩ := bind_eq_ok.mp ok
      obtain ⟨⟨record, events⟩, page, ok⟩ := bind_eq_ok.mp ok
      obtain ⟨body, rendered, -⟩ := bind_eq_ok.mp ok
      have stored := page
      unfold eventPage repositoryEvents at stored
      simp only [bind_eq_ok, mapError_eq_ok, pure_eq_ok, Except.ok.injEq, Prod.mk.injEq] at stored
      obtain ⟨-, -, -, -, -, -, record, found, rfl, rfl⟩ := stored
      obtain ⟨rfl, rfl⟩ := storedRepository_eq_ok found
      have rendered := mapError_eq_ok.mp rendered
      rw [FeedPage.render, channel_repository] at rendered
      refine ⟨.ofRepository record (repositoryEventsFor db record before (pageSize + 1) kind.shape),
        body, decide (record.visibility = .pub), ?_, rendered, fun headers =>
          feedResponse_of (ensure_eq_ok.mp positive) page rendered⟩
      rw [Feed.listing, found]
      rfl
  | token token =>
      unfold serve tokenFeed at ok
      obtain ⟨⟨username, events⟩, read, ok⟩ := bind_eq_ok.mp ok
      obtain ⟨body, rendered, -⟩ := bind_eq_ok.mp ok
      refine ⟨.ofActivity username events, body, false, ?_, ?_, fun headers => ?_⟩
      · rw [Feed.listing, required_eq_ok.mp read]
        rfl
      · rw [← channel_token]
        exact mapError_eq_ok.mp rendered
      · change tokenFeed service db token headers = _
        unfold tokenFeed
        rw [read, ok_bind]
        dsimp only at rendered ⊢
        rw [rendered, ok_bind, Listing.newest, Listing.ofActivity, List.map_map]
        rfl

end Pages

/-! ## Revalidations -/

section Revalidation

variable {service : Service} {db db' : Database} {actor actor' : Option String} {feed : Feed}
  {headers headers' : Headers} {first reply : Reply} {body : String} {earlier later : Listing}

/-- A page that is sent is that of its listing. -/
theorem serve_whole (ok : serve service db actor feed headers = .ok first)
    (whole : first.status = .ok) (listed : feed.listing service db = some earlier) :
    service.renderChannel (feed.channel service earlier) = .ok first.body := by
  obtain ⟨listing, body, isPublic, found, rendered, served⟩ := serve_eq_ok ok
  obtain rfl : listing = earlier := Option.some.inj (found.symm.trans listed)
  rw [served] at ok
  rw [(conditionalFeed_eq_ok ok).2.2.2 whole]
  exact rendered

/-- Where a request with validators is answered, one without them is sent the page. -/
theorem shows_of_serve (ok : serve service db actor feed headers = .ok reply)
    (listed : feed.listing service db = some later)
    (rendered : service.renderChannel (feed.channel service later) = .ok body) :
    Shows service db actor feed body := by
  obtain ⟨listing, body', isPublic, found, rendered', served⟩ := serve_eq_ok ok
  obtain rfl : listing = later := Option.some.inj (found.symm.trans listed)
  obtain rfl : body' = body := Except.ok.inj (rendered'.symm.trans rendered)
  rw [served] at ok
  obtain ⟨plain, answered, -, same⟩ := conditionalFeed_plain (conditionalFeed_eq_ok ok).1
  exact ⟨plain, (served {}).trans answered, same⟩

/-- The page that is shown is that of the listing. -/
theorem rendered_of_shows (shows' : Shows service db actor feed body)
    (listed : feed.listing service db = some later) :
    service.renderChannel (feed.channel service later) = .ok body := by
  obtain ⟨reply, ok, rfl⟩ := shows'
  obtain ⟨listing, body, isPublic, found, rendered, served⟩ := serve_eq_ok ok
  obtain rfl : listing = later := Option.some.inj (found.symm.trans listed)
  rw [served] at ok
  obtain ⟨plain, answered, -, same⟩ := conditionalFeed_plain (conditionalFeed_eq_ok ok).1
  obtain rfl : plain = reply := Except.ok.inj (answered.symm.trans ok)
  rw [same]
  exact rendered

/-- The page goes by a time from the epoch on. -/
theorem newest_nonneg (rendered : service.renderChannel (feed.channel service later) = .ok body) :
    0 ≤ later.newest := by
  unfold Service.renderChannel at rendered
  obtain ⟨date, dated, -⟩ := bind_eq_ok.mp rendered
  obtain ⟨_, since, _⟩ := bind_eq_ok.mp dated
  have since := ensure_eq_ok.mp since
  cases feed with
  | repository => exact since
  | token => exact since

/-- **The second validator**: the reply is `304` when nothing on the page is later than what was. -/
theorem modifiedSince_iff
    (dates : ∀ t text, service.fmtHttpDate t = some text → service.parseHttpDate text = some t)
    (ok : serve service db actor feed headers = .ok first)
    (listed : feed.listing service db = some earlier)
    (revalidated : serve service db' actor' feed headers' = .ok reply)
    (listed' : feed.listing service db' = some later)
    (unmatched : headers'.ifNoneMatch = none)
    (since : headers'.ifModifiedSince = some (some first.lastModified)) :
    reply.status = .notModified ↔ ¬later.Newer earlier := by
  obtain ⟨listing, body, _, found, rendered, served⟩ := serve_eq_ok ok
  obtain ⟨listing', body', _, found', rendered', served'⟩ := serve_eq_ok revalidated
  obtain rfl : listing = earlier := Option.some.inj (found.symm.trans listed)
  obtain rfl : listing' = later := Option.some.inj (found'.symm.trans listed')
  rw [served] at ok
  rw [served'] at revalidated
  have parsed := dates _ _ (conditionalFeed_eq_ok ok).1
  have start := newest_nonneg rendered
  have start' := newest_nonneg rendered'
  rw [(conditionalFeed_eq_ok revalidated).2.2.1, unmatched, since, Listing.newer_iff, not_lt]
  simp only [Option.bind_none, Option.any_none, Bool.false_eq_true, false_or, true_and,
    Option.bind_some, id, parsed, Option.any_some, decide_eq_true_eq]
  omega

/-- **The first validator**: the reply is `304` for the page of that digest. -/
theorem ifNoneMatch_iff (ok : serve service db actor feed headers = .ok first)
    (whole : first.status = .ok) (revalidated : serve service db' actor' feed headers' = .ok reply)
    (listed' : feed.listing service db' = some later)
    (rendered' : service.renderChannel (feed.channel service later) = .ok body)
    (tagged : headers'.ifNoneMatch = some (some first.etag)) :
    reply.status = .notModified ↔
      service.sha256 (bytesOf first.body) = service.sha256 (bytesOf body) := by
  obtain ⟨listing, _, _, -, -, served⟩ := serve_eq_ok ok
  obtain ⟨listing', body', _, found', rendered'', served'⟩ := serve_eq_ok revalidated
  obtain rfl : listing' = later := Option.some.inj (found'.symm.trans listed')
  obtain rfl : body' = body := Except.ok.inj (rendered''.symm.trans rendered')
  rw [served] at ok
  rw [served'] at revalidated
  obtain ⟨-, etag, -, sent⟩ := conditionalFeed_eq_ok ok
  obtain ⟨-, etag', answered, -⟩ := conditionalFeed_eq_ok revalidated
  rw [answered, tagged, etag, etag', sent whole]
  simp only [Option.bind_some, id, Option.any_some, etagMatches_etagOf, reduceCtorEq, false_and,
    or_false]

end Revalidation

/-! ## Runs -/

/-- The listing that the feed last had, beside the world. -/
structure Watched where
  world : World
  shown : Option Listing

section Runs

variable (service : Service) (feed : Feed)

def Watched.perform (watched : Watched) (operation : Operation) : Watched where
  world := watched.world.perform operation
  shown := (feed.listing service (watched.world.perform operation).db).or watched.shown

def observe (watched : Watched) (operation : Operation) : Option Watched :=
  some (watched.perform service feed operation)

/-- The operation leaves what the feed lists as it was, or brings a later event to the page. -/
def Raises (watched : Watched) (operation : Operation) : Prop :=
  ∀ later shown, feed.listing service (watched.world.perform operation).db = some later →
    watched.shown = some shown → later = shown ∨ later.Newer shown

/-- A reply `304` to these headers says that the feed still shows this body. -/
def Truthful (body : String) (headers : Headers) (world : World) : Prop :=
  ∀ actor reply, serve service world.db actor feed headers = .ok reply →
    reply.status = .notModified → Shows service world.db actor feed body

/-- The feed shows the client's page, or one that is newer. -/
structure Follows (earlier : Listing) (watched : Watched) : Prop where
  since : ∃ shown, watched.shown = some shown ∧ (shown = earlier ∨ shown.Newer earlier)
  current : ∀ later, feed.listing service watched.world.db = some later →
    watched.shown = some later

variable {service feed}

theorem Follows.perform {earlier : Listing} {watched : Watched} {operation : Operation}
    (follows : Follows service feed earlier watched)
    (raises : Raises service feed watched operation) :
    Follows service feed earlier (watched.perform service feed operation) := by
  obtain ⟨shown, last, since⟩ := follows.since
  cases listed : feed.listing service (watched.world.perform operation).db with
  | none =>
      have kept : (watched.perform service feed operation).shown = some shown := by
        rw [Watched.perform, listed, last]
        rfl
      refine ⟨⟨shown, kept, since⟩, fun later found => ?_⟩
      cases listed.symm.trans found
  | some later =>
      have next : (watched.perform service feed operation).shown = some later := by
        rw [Watched.perform, listed]
        rfl
      refine ⟨⟨later, next, ?_⟩, fun later' found => ?_⟩
      · rcases raises later shown listed last with rfl | newer
        · exact since
        · rcases since with rfl | before
          · exact Or.inr newer
          · exact Or.inr (newer.trans before)
      · rw [next, ← listed]
        exact found

/-- A page that follows the client's is hidden from it only if it is the same. -/
theorem Follows.truthful {earlier : Listing} {watched : Watched} {db : Database}
    {actor : Option String} {headers headers' : Headers} {first : Reply}
    (dates : ∀ t text, service.fmtHttpDate t = some text → service.parseHttpDate text = some t)
    (ok : serve service db actor feed headers = .ok first) (whole : first.status = .ok)
    (listed : feed.listing service db = some earlier)
    (unmatched : headers'.ifNoneMatch = none)
    (modifiedSince : headers'.ifModifiedSince = some (some first.lastModified))
    (follows : Follows service feed earlier watched) :
    Truthful service feed first.body headers' watched.world := by
  intro actor' reply revalidated notModified
  obtain ⟨later, _, _, listed', -, -⟩ := serve_eq_ok revalidated
  obtain ⟨shown, last, since⟩ := follows.since
  obtain rfl : shown = later :=
    Option.some.inj (last.symm.trans (follows.current later listed'))
  have notNewer := (modifiedSince_iff dates ok listed revalidated listed' unmatched
    modifiedSince).mp notModified
  rcases since with rfl | newer
  · exact shows_of_serve revalidated listed' (serve_whole ok whole listed)
  · exact absurd newer notNewer

theorem always_of_observed {good : World → Prop} {watched : Watched} {operations : List Operation}
    (always : Always (observe service feed) (fun w => good w.world) watched operations) :
    Always step good watched.world operations := by
  induction operations generalizing watched with
  | nil => exact always
  | cons operation operations ih =>
      refine ⟨always.1, fun world next => ?_⟩
      cases next
      exact ih (always.2 _ rfl)

/-- What holds of every state that a run was in. -/
theorem always_of_visited {good : World → Prop} {world : World} {operations : List Operation}
    (all : ∀ v, Visited step world operations v → good v) : Always step good world operations := by
  induction operations generalizing world with
  | nil => exact all world ⟨[], [], rfl, rfl⟩
  | cons operation operations ih =>
      refine ⟨all world ⟨[], _, rfl, rfl⟩, fun world' next => ih fun v visited => ?_⟩
      obtain ⟨before, after, rfl, ran⟩ := visited
      refine all v ⟨operation :: before, after, rfl, ?_⟩
      rw [run, next]
      exact ran

/-- The pages that the feed showed in a run, to whomever, as bytes. -/
def shownBytes (service : Service) (feed : Feed) (world : World) (operations : List Operation) :
    Set (List UInt8) :=
  {bytes | ∃ v actor body, Visited step world operations v ∧
    Shows service v.db actor feed body ∧ bytes = bytesOf body}

/-- **Revalidations in every run of store operations**: by the entity tag they hide no change, and
by the time alone none as long as each operation that changes what the feed lists brings a later
event to its page. -/
theorem revalidation_truthful (service : Service) (feed : Feed)
    (dates : ∀ t text, service.fmtHttpDate t = some text → service.parseHttpDate text = some t)
    (world : World) (operations : List Operation)
    (collisionFree : Set.InjOn service.sha256 (shownBytes service feed world operations))
    (actor : Option String) (headers : Headers) (first : Reply)
    (ok : serve service world.db actor feed headers = .ok first) (whole : first.status = .ok) :
    (∀ headers', headers'.ifNoneMatch = some (some first.etag) →
      Always step (Truthful service feed first.body headers') world operations) ∧
    (Meets (observe service feed) (Raises service feed)
        ⟨world, feed.listing service world.db⟩ operations →
      ∀ headers', headers'.ifNoneMatch = none →
        headers'.ifModifiedSince = some (some first.lastModified) →
        Always step (Truthful service feed first.body headers') world operations) := by
  obtain ⟨earlier, _, _, listed, -, -⟩ := serve_eq_ok ok
  have rendered := serve_whole ok whole listed
  constructor
  · intro headers' tagged
    refine always_of_visited fun v visited actor' reply revalidated notModified => ?_
    obtain ⟨later, body, _, listed', rendered', -⟩ := serve_eq_ok revalidated
    have same := (ifNoneMatch_iff ok whole revalidated listed' rendered' tagged).mp notModified
    have shown := shows_of_serve ok listed rendered
    have shown' := shows_of_serve revalidated listed' rendered'
    have bytes := collisionFree ⟨world, actor, first.body, ⟨[], operations, rfl, rfl⟩, shown, rfl⟩
      ⟨v, actor', body, visited, shown', rfl⟩ same
    rw [bytesOf_injective bytes]
    exact shown'
  · intro meets headers' unmatched modifiedSince
    have start : Follows service feed earlier ⟨world, feed.listing service world.db⟩ :=
      ⟨⟨earlier, listed, Or.inl rfl⟩, fun later found => found⟩
    have keeps : ∀ watched operation watched', Follows service feed earlier watched →
        Raises service feed watched operation →
          observe service feed watched operation = some watched' →
            Follows service feed earlier watched' := by
      intro watched operation watched' follows raises next
      cases next
      exact follows.perform raises
    exact always_of_observed ((always_of_meets keeps start meets).mono fun watched follows =>
      follows.truthful dates ok whole listed unmatched modifiedSince)

end Runs

/-! ## One second -/

def firstSecond : List Char := "Thu, 01 Jan 1970 00:00:".toList

/-- The HTTP dates of the first minute of 1970. -/
def clockText (t : Nat) : String :=
  String.ofList (firstSecond ++ Nat.digitChar (t / 10) :: Nat.digitChar (t % 10) :: " GMT".toList)

/-- The time that the digits of the seconds say, if the text is that of its date. -/
def readSeconds (text : String) : List Char → Option Nat
  | tens :: ones :: _ =>
      Option.guard (fun t => decide (t < 60 ∧ clockText t = text))
        (10 * (tens.toNat - '0'.toNat) + (ones.toNat - '0'.toNat))
  | _ => none

def readClock (text : String) : Option Nat := readSeconds text (text.toList.drop firstSecond.length)

/-- A server whose clock is in that minute; pages with different numbers of elements have different
digests. -/
def firstMinute : Service where
  httpCloneBase := "https://tit.example"
  sha256 := fun bytes => BitVec.ofNat 256 ((String.fromUTF8? ⟨bytes.toArray⟩).elim 0 tags)
  fmtHttpDate := fun t => if t < 60 then some (clockText t) else none
  parseHttpDate := readClock
  eventId := fun event => toString event.id
  payloadNumber := fun event => some event.sequence

theorem readClock_clockText {t : Nat} (early : t < 60) : readClock (clockText t) = some t := by
  have zero : '0'.toNat = 48 := rfl
  have value : 10 * ((Nat.digitChar (t / 10)).toNat - '0'.toNat) +
      ((Nat.digitChar (t % 10)).toNat - '0'.toNat) = t := by
    rw [Nat.toNat_digitChar_of_lt_ten (by omega), Nat.toNat_digitChar_of_lt_ten (by omega)]
    omega
  have digits : (clockText t).toList.drop firstSecond.length =
      Nat.digitChar (t / 10) :: Nat.digitChar (t % 10) :: " GMT".toList := by
    rw [clockText, String.toList_ofList, List.drop_left]
  rw [readClock, digits, readSeconds, value, Option.guard_eq_some_iff]
  exact ⟨rfl, decide_eq_true ⟨early, rfl⟩⟩

theorem firstMinute_dates (t : Nat) (text : String)
    (formatted : firstMinute.fmtHttpDate t = some text) :
    firstMinute.parseHttpDate text = some t := by
  obtain ⟨early, same⟩ := Option.ite_none_right_eq_some.mp formatted
  have reads : firstMinute.parseHttpDate = readClock := rfl
  rw [reads, ← Option.some.inj same]
  exact readClock_clockText early

theorem firstMinute_sha256 (text : String) :
    firstMinute.sha256 (bytesOf text) = BitVec.ofNat 256 (tags text) := by
  have bytes : ByteArray.mk (bytesOf text).toArray = text.toByteArray := by
    rw [bytesOf, Array.toArray_toList]
  have read : String.fromUTF8? ⟨(bytesOf text).toArray⟩ = some text := by
    rw [bytes, String.fromUTF8?, dif_pos text.isValidUTF8]
    rfl
  change BitVec.ofNat 256 ((String.fromUTF8? ⟨(bytesOf text).toArray⟩).elim 0 tags) = _
  rw [read]
  rfl

def accounts : Database :=
  { Database.initial with
    accounts := Database.oneRepository.accounts
    namespaces := Database.oneRepository.namespaces }

def tit : NewRepository where
  id := 1
  owner := "alice"
  slug := "tit"
  objectFormat := .sha1
  defaultBranch := "refs/heads/main"
  createdAt := 7
  origin := .created
  initialReferences := []
  actor := "alice"
  correlationId := "c"

def created : World := (World.initial.perform (.elsewhere accounts)).perform (.createRepository tit)

def issueAt (createdAt : Int) : Operation :=
  .createIssue
    { id := 1, owner := "alice", repository := "tit", actor := "alice", title := "t", body := "b",
      createdAt }

/-! ### The issues of the repository -/

def issues : Feed := .repository "alice" "tit" none .issues

def stored : RepositoryRecord where
  id := 1
  owner := "alice"
  slug := "tit"
  visibility := .pub
  state := .active
  objectFormat := .sha1
  createdAt := 7
  archivedAt := none

/-- Anybody may read the feed in this world, which lists these events. -/
structure Lists (world : World) (events : List RepositoryEvent) : Prop where
  allowed : (Policy.authorize world.db none "alice" "tit" .read).isOk = true
  found : storedRepository world.db "alice" "tit" = .ok stored
  listed : repositoryEventsFor world.db stored none (pageSize + 1) (some .issue) = events

variable {world : World} {events : List RepositoryEvent}

theorem Lists.listing (lists : Lists world events) :
    issues.listing firstMinute world.db = some (.ofRepository stored events) := by
  rw [issues, Feed.listing, lists.found]
  exact congrArg (fun events => some (Listing.ofRepository stored events)) lists.listed

theorem rssDate_early {t : Int} (early : 0 ≤ t ∧ t < 60) :
    ∃ text, firstMinute.rssDate t = .ok text :=
  ⟨clockText t.toNat, rssDate_of early.1 (if_pos (by omega))⟩

/-- In the first minute every page is rendered, and sent. -/
theorem Lists.serve (lists : Lists world events)
    (early : ∀ e ∈ events, 0 ≤ e.createdAt ∧ e.createdAt < 60) (few : events.length ≤ pageSize) :
    ∃ body text, firstMinute.renderChannel
        (issues.channel firstMinute (.ofRepository stored events)) = .ok body ∧
      tags body = 14 + 12 * events.length ∧
      firstMinute.fmtHttpDate (Listing.ofRepository stored events).newest.toNat = some text ∧
      ∀ headers, serve firstMinute world.db none issues headers =
        conditionalFeed firstMinute headers body (Listing.ofRepository stored events).newest
          true := by
  have all : (Listing.ofRepository stored events).entries = events.map (entryOf stored) :=
    congrArg (List.map (entryOf stored)) (List.take_of_length_le few)
  have newest : 0 ≤ (Listing.ofRepository stored events).newest ∧
      (Listing.ofRepository stored events).newest < 60 := by
    obtain ⟨top, -⟩ := (Listing.ofRepository stored events).newest_spec
    generalize (Listing.ofRepository stored events).newest = newest at top
    unfold Listing.seconds at top
    rw [all] at top
    cases events with
    | nil =>
        rw [List.mem_singleton.mp top]
        decide
    | cons event events =>
        obtain ⟨entry, member, rfl⟩ := List.mem_map.mp top
        obtain ⟨e, inside, rfl⟩ := List.mem_map.mp member
        exact early e inside
  obtain ⟨body, rendered⟩ := @renderChannel_of firstMinute
    (issues.channel firstMinute (.ofRepository stored events)) (rssDate_early newest) (by
      intro item member
      obtain ⟨entry, listed, rfl⟩ := List.mem_map.mp member
      rw [all] at listed
      obtain ⟨e, inside, rfl⟩ := List.mem_map.mp listed
      exact rssDate_early (early e inside))
  refine ⟨body, clockText (Listing.ofRepository stored events).newest.toNat, rendered, ?_,
    if_pos (by omega), fun headers => ?_⟩
  · have next : (issues.channel firstMinute (.ofRepository stored events)).nextUrl = none := by
      have noMore : (Listing.ofRepository stored events).more = false :=
        decide_eq_false (Nat.not_lt.mpr few)
      rw [issues, Feed.channel]
      dsimp only
      rw [noMore]
      rfl
    have items : (issues.channel firstMinute (.ofRepository stored events)).items.length =
        events.length := by
      rw [issues, Feed.channel, List.length_map, all, List.length_map]
    rw [tags_renderChannel rendered, next, items]
    rfl
  · obtain ⟨record, authorized⟩ : ∃ record,
        Policy.authorize world.db none "alice" "tit" .read = .ok record := by
      have allowed := lists.allowed
      cases answer : Policy.authorize world.db none "alice" "tit" .read with
      | ok record => exact ⟨record, rfl⟩
      | error error =>
          rw [answer] at allowed
          cases allowed
    have username : validateUsername "alice" = true := by decide
    have slug : validateSlug "tit" = true := by decide
    have page : eventPage world.db none stored.owner stored.slug none .issues =
        .ok (stored, events) := by
      unfold eventPage repositoryEvents
      rw [stored, ensure_of username, ok_bind, ensure_of slug, ok_bind, authorized, lists.found]
      exact congrArg (fun events => Except.ok (stored, events)) lists.listed
    have positive : ¬(none : Option Int).any (fun b => decide (b ≤ 0)) = true := Bool.false_ne_true
    have named : issues = .repository stored.owner stored.slug none .issues := rfl
    rw [named] at rendered ⊢
    exact feedResponse_of positive page rendered

/-- What is shown in this world has the elements of its items. -/
theorem Lists.shown {actor : Option String} {body : String} (lists : Lists world events)
    (early : ∀ e ∈ events, 0 ≤ e.createdAt ∧ e.createdAt < 60) (few : events.length ≤ pageSize)
    (shown : Shows firstMinute world.db actor issues body) :
    tags body = 14 + 12 * events.length ∧
      firstMinute.renderChannel (issues.channel firstMinute (.ofRepository stored events)) =
        .ok body := by
  obtain ⟨body', _, rendered, counted, -⟩ := lists.serve early few
  have same := rendered_of_shows shown lists.listing
  obtain rfl : body' = body := Except.ok.inj (rendered.symm.trans same)
  exact ⟨counted, rendered⟩

/-! ### An issue in the second of the repository, or in the next -/

theorem created_lists : Lists created [] where
  allowed := by decide
  found := by decide
  listed := by decide

/-- The event of the issue. -/
def openedAt (createdAt : Int) : RepositoryEvent where
  id := 2
  repositoryId := 1
  sequence := 2
  sourceIntentId := none
  sourceOrdinal := none
  issueId := some 1
  pullRequestId := none
  kind := .issueCreated
  actor := "alice"
  refName := none
  oldTarget := none
  newTarget := none
  createdAt := createdAt

theorem opened_lists (t : Int) (second : t = 7 ∨ t = 8) :
    Lists (created.perform (issueAt t)) [openedAt t] := by
  rcases second with rfl | rfl
  · exact ⟨by decide, by decide, by decide⟩
  · exact ⟨by decide, by decide, by decide⟩

theorem opened_early (t : Int) (second : t = 7 ∨ t = 8) :
    ∀ e ∈ [openedAt t], 0 ≤ e.createdAt ∧ e.createdAt < 60 := by
  intro e member
  rw [List.mem_singleton.mp member]
  dsimp only [openedAt]
  omega

/-- Before and after the issue there is one page each, of different lengths. -/
theorem shown_pages {t : Int} (second : t = 7 ∨ t = 8) {v : World} {actor : Option String}
    {body : String} (visited : Visited step created [issueAt t] v)
    (shown : Shows firstMinute v.db actor issues body) :
    ∃ events, (events = [] ∨ events = [openedAt t]) ∧ tags body = 14 + 12 * events.length ∧
      firstMinute.renderChannel (issues.channel firstMinute (.ofRepository stored events)) =
        .ok body := by
  obtain ⟨operations, rest, split, ran⟩ := visited
  cases operations with
  | nil =>
      cases ran
      exact ⟨[], Or.inl rfl, created_lists.shown (fun e member => absurd member List.not_mem_nil)
        (Nat.zero_le _) shown⟩
  | cons operation operations =>
      obtain ⟨rfl, none⟩ := List.cons.inj split
      obtain ⟨rfl, -⟩ := List.append_eq_nil_iff.mp none.symm
      cases ran
      exact ⟨[openedAt t], Or.inr rfl, (opened_lists t second).shown (opened_early t second)
        (Nat.succ_le_succ (Nat.zero_le _)) shown⟩

theorem firstMinute_injOn {t : Int} (second : t = 7 ∨ t = 8) :
    Set.InjOn firstMinute.sha256 (shownBytes firstMinute issues created [issueAt t]) := by
  rintro _ ⟨v, actor, body, visited, shown, rfl⟩ _ ⟨v', actor', body', visited', shown', rfl⟩ same
  rw [firstMinute_sha256, firstMinute_sha256] at same
  obtain ⟨events, which, counted, rendered⟩ := shown_pages second visited shown
  obtain ⟨events', which', counted', rendered'⟩ := shown_pages second visited' shown'
  rw [counted, counted'] at same
  obtain rfl : events = events' := by
    rcases which with rfl | rfl <;> rcases which' with rfl | rfl
    · rfl
    · exact absurd same (by simp)
    · exact absurd same (by simp)
    · rfl
  rw [Except.ok.inj (rendered.symm.trans rendered')]

/-- An issue in the next second: the list of issues was empty, and its page went by the second in
which the repository was made. -/
theorem nextSecond_truthful : ∃ first,
    serve firstMinute created.db none issues {} = .ok first ∧ first.status = .ok ∧
    Always step (Truthful firstMinute issues first.body { ifNoneMatch := some (some first.etag) })
      created [issueAt 8] ∧
    Always step (Truthful firstMinute issues first.body
      { ifModifiedSince := some (some first.lastModified) }) created [issueAt 8] := by
  obtain ⟨body, _, -, -, formatted, served⟩ := created_lists.serve
    (fun e member => absurd member List.not_mem_nil) (Nat.zero_le _)
  obtain ⟨first, answered, whole, -⟩ := @conditionalFeed_plain firstMinute body _ true _ formatted
  have ok := (served {}).trans answered
  have later : (Listing.ofRepository stored [openedAt 8]).Newer (.ofRepository stored []) :=
    ⟨8, List.mem_singleton.mpr rfl, fun u member => by
      rw [List.mem_singleton.mp member]
      decide⟩
  have raises : Raises firstMinute issues ⟨created, issues.listing firstMinute created.db⟩
      (issueAt 8) := by
    intro later shown found last
    have lists := opened_lists 8 (Or.inr rfl)
    rw [lists.listing] at found
    have last := last.symm.trans created_lists.listing
    rw [← Option.some.inj found, Option.some.inj last]
    exact Or.inr ‹_›
  obtain ⟨tagged, dated⟩ := revalidation_truthful firstMinute issues firstMinute_dates created
    [issueAt 8] (firstMinute_injOn (Or.inr rfl)) none {} first ok whole
  exact ⟨first, ok, whole, tagged _ rfl, dated (fun _ _ => ⟨raises, trivial⟩) _ rfl rfl⟩

/-- An issue in the second in which the repository was made: the time says that nothing is new. -/
theorem sameSecond_hidden :
    Set.InjOn firstMinute.sha256 (shownBytes firstMinute issues created [issueAt 7]) ∧ ∃ first,
      serve firstMinute created.db none issues {} = .ok first ∧ first.status = .ok ∧
      ¬Always step (Truthful firstMinute issues first.body
        { ifModifiedSince := some (some first.lastModified) }) created [issueAt 7] := by
  refine ⟨firstMinute_injOn (Or.inl rfl), ?_⟩
  obtain ⟨body, _, -, counted, formatted, served⟩ := created_lists.serve
    (fun e member => absurd member List.not_mem_nil) (Nat.zero_le _)
  obtain ⟨first, answered, whole, sent⟩ :=
    @conditionalFeed_plain firstMinute body _ true _ formatted
  have ok := (served {}).trans answered
  refine ⟨first, ok, whole, fun always => ?_⟩
  have lists := opened_lists 7 (Or.inl rfl)
  obtain ⟨page, _, rendered, counted', formatted', served'⟩ :=
    lists.serve (opened_early 7 (Or.inl rfl)) (by decide)
  obtain ⟨reply, revalidated⟩ := @conditionalFeed_of firstMinute
    { ifModifiedSince := some (some first.lastModified) } page _ true _ formatted'
  have revalidated := (served' _).trans revalidated
  have notNewer : ¬(Listing.ofRepository stored [openedAt 7]).Newer (.ofRepository stored []) := by
    rintro ⟨t, member, later⟩
    have above := later 7 (List.mem_singleton.mpr rfl)
    rw [List.mem_singleton.mp member] at above
    exact absurd above (by decide)
  have notModified := (modifiedSince_iff firstMinute_dates ok created_lists.listing revalidated
    lists.listing rfl rfl).mpr notNewer
  have shown := (always.2 _ rfl).now none reply revalidated notModified
  have same := Except.ok.inj (rendered.symm.trans (rendered_of_shows shown lists.listing))
  rw [same, sent, counted] at counted'
  exact absurd counted' (by decide)

end Tit.Feeds
