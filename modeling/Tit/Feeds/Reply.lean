/-
# Feeds.Reply -- the replies to feed requests

A reply carries two validators: an `ETag` of the page's bytes, and as `Last-Modified` the time of
the newest event on it.  A request that sends one of them back is told `304` in place of the page.
-/
import Tit.Feeds.Page
import Tit.Policy.Repository

namespace Tit.Feeds

open Tit.Theory Tit.Store

set_option autoImplicit false

inductive RouteError where
  | invalidRequest
  | notFound
  | internal
  /-- The handler panics: there is no reply. -/
  | panicked
  deriving DecidableEq, Repr

namespace RouteError

def ofStore : StoreError → RouteError
  | .repositoryNotFound _ _ => .notFound
  | _ => .internal

def ofPolicy : Policy.PolicyError → RouteError
  | .denied => .notFound
  | .store error => ofStore error

def ofFeed : FeedError → RouteError
  | .timestamp => .internal
  | .outOfDates => .panicked

end RouteError

theorem mapError_eq_ok {ε ε' α : Type} {f : ε → ε'} {result : Except ε α} {value : α} :
    result.mapError f = .ok value ↔ result = .ok value := by
  cases result <;> simp [Except.mapError]

/-! ## The events of a page -/

def RepositoryFeedKind.shape : RepositoryFeedKind → Option EventShape
  | .activity => none
  | .issues => some .issue
  | .pullRequests => some .pullRequest

/-- `repository_events_for`: the newest events of the kind, before the given one. -/
def repositoryEventsFor (db : Database) (repository : RepositoryRecord) (before : Option Int)
    (limit : Nat) (shape : Option EventShape) : List RepositoryEvent :=
  ((db.repositoryEvents.rows.filter fun event =>
    decide (event.repositoryId = repository.id) &&
      before.all (fun b => decide ((event.sequence : Int) < b)) &&
      shape.all (fun s => decide (event.kind.shape = s))).insertionSort
    fun a b => b.sequence ≤ a.sequence).take limit

def storedRepository (db : Database) (owner slug : String) :
    Except StoreError RepositoryRecord := do
  let (namespaceRow, row) ← required (db.repositoryNamed owner slug)
    (.repositoryNotFound owner slug)
  pure (repositoryRecord namespaceRow row)

def repositoryEvents (db : Database) (owner slug : String) (before : Option Int) (limit : Nat)
    (shape : Option EventShape) : Except StoreError (RepositoryRecord × List RepositoryEvent) := do
  let repository ← storedRepository db owner slug
  pure (repository, repositoryEventsFor db repository before limit shape)

def eventPage (db : Database) (actor : Option String) (owner repository : String)
    (before : Option Int) (kind : RepositoryFeedKind) :
    Except RouteError (RepositoryRecord × List RepositoryEvent) := do
  ensure (validateUsername owner = true) .notFound
  ensure (validateSlug repository = true) .notFound
  let _ ← (Policy.authorize db actor owner repository .read).mapError .ofPolicy
  (repositoryEvents db owner repository before (pageSize + 1) kind.shape).mapError .ofStore

def bytesOf (text : String) : List UInt8 := text.toByteArray.data.toList

/-- `validate_token`: 64 hexadecimal digits. -/
def validateToken (token : String) : Bool :=
  decide ((bytesOf token).length = 64) && (bytesOf token).all Git.isAsciiHexdigit

/-- The account of a token that is not revoked, and what it watches. -/
def tokenFeedEvents (db : Database) (tokenHash : Hash) (limit : Nat) :
    Option (String × List ActivityEventRecord) := do
  let token ← db.feedTokens.find fun t => decide (t.tokenHash = tokenHash ∧ t.revokedAt = none)
  let account ← (db.accounts.get token.accountId).filter fun a => decide (a.state = .active)
  pure (account.username, db.watchedActivityEvents account.id none limit)

def readToken (service : Service) (db : Database) (token : String) :
    Option (String × List ActivityEventRecord) :=
  if validateToken token then tokenFeedEvents db (service.sha256 (bytesOf token)) pageSize
  else none

/-! ## Conditional replies -/

/-- The two headers of a request; `some none` is a value that is no visible text. -/
structure Headers where
  ifNoneMatch : Option (Option String) := none
  ifModifiedSince : Option (Option String) := none

inductive Status where
  | ok
  | notModified
  deriving DecidableEq, Repr

structure Reply where
  status : Status
  isPublic : Bool
  etag : String
  lastModified : String
  body : String
  deriving DecidableEq, Repr

def hexText (hash : Hash) : List Char :=
  (Git.hexDigits 64 hash.toNat).map fun b => Char.ofNat b.toNat

def etagOf (hash : Hash) : String := String.ofList ('"' :: (hexText hash ++ ['"']))

def trim (text : List Char) : List Char :=
  ((text.dropWhile Char.isWhitespace).reverse.dropWhile Char.isWhitespace).reverse

def stripWeak : List Char → List Char
  | 'W' :: '/' :: rest => rest
  | text => text

def etagMatches (value etag : String) : Bool :=
  (value.toList.splitOn ',').any fun candidate =>
    decide (trim candidate = ['*']) || decide (stripWeak (trim candidate) = etag.toList)

section Reply

variable (service : Service)

def conditionalFeed (headers : Headers) (body : String) (timestamp : Int) (isPublic : Bool) :
    Except RouteError Reply := do
  let etag := etagOf (service.sha256 (bytesOf body))
  let modified := timestamp.toNat
  let notModified :=
    (headers.ifNoneMatch.bind id).any (fun value => etagMatches value etag) ||
      (headers.ifNoneMatch.isNone &&
        ((headers.ifModifiedSince.bind id).bind service.parseHttpDate).any fun value =>
          decide (modified ≤ value))
  let lastModified ← required (service.fmtHttpDate modified) .panicked
  pure
    { status := if notModified then .notModified else .ok
      isPublic, etag, lastModified
      body := if notModified then "" else body }

def feedResponse (db : Database) (actor : Option String) (owner repository : String)
    (before : Option Int) (headers : Headers) (kind : RepositoryFeedKind) :
    Except RouteError Reply := do
  ensure (¬before.any (fun b => decide (b ≤ 0)) = true) .invalidRequest
  let (record, events) ← eventPage db actor owner repository before kind
  let hasNext := decide (events.length > pageSize)
  let events := events.take pageSize
  let nextBefore := if hasNext then events.getLast?.map (·.sequence) else none
  let feedUrl := service.httpCloneBase ++ "/" ++ owner ++ "/" ++ repository ++ "/" ++ kind.path
  let selfUrl := (before.map fun b => feedUrl ++ "?before=" ++ toString b).getD feedUrl
  let newest := newestOf (events.map (·.createdAt)) record.createdAt
  let body ← (FeedPage.render service
    { repository := record, feedUrl, selfUrl, events, nextBefore, kind }).mapError .ofFeed
  conditionalFeed service headers body newest (decide (record.visibility = .pub))

def tokenFeed (db : Database) (token : String) (headers : Headers) : Except RouteError Reply := do
  let (username, events) ← required (readToken service db token) .notFound
  let selfUrl := service.httpCloneBase ++ "/feeds/" ++ token ++ "/" ++ "rss.xml"
  let newest := newestOf (events.map (·.event.createdAt)) 0
  let body ← (ActivityFeedPage.render service { selfUrl, username, events }).mapError .ofFeed
  conditionalFeed service headers body newest false

/-- The feeds that the server has. -/
inductive Feed where
  | repository (owner repository : String) (before : Option Int) (kind : RepositoryFeedKind)
  | token (token : String)

def serve (db : Database) (actor : Option String) (feed : Feed) (headers : Headers) :
    Except RouteError Reply :=
  match feed with
  | .repository owner repository before kind =>
      feedResponse service db actor owner repository before headers kind
  | .token token => tokenFeed service db token headers

/-- The body that a request without a validator gets. -/
def Shows (db : Database) (actor : Option String) (feed : Feed) (body : String) : Prop :=
  ∃ reply, serve service db actor feed {} = .ok reply ∧ reply.body = body

variable {service} {headers : Headers} {body : String} {timestamp : Int} {isPublic : Bool}
  {reply : Reply}

theorem conditionalFeed_eq_ok (ok : conditionalFeed service headers body timestamp isPublic =
    .ok reply) :
    service.fmtHttpDate timestamp.toNat = some reply.lastModified ∧
      reply.etag = etagOf (service.sha256 (bytesOf body)) ∧
      (reply.status = .notModified ↔
        (headers.ifNoneMatch.bind id).any (fun value => etagMatches value reply.etag) = true ∨
          (headers.ifNoneMatch = none ∧
            ((headers.ifModifiedSince.bind id).bind service.parseHttpDate).any (fun value =>
              decide (timestamp.toNat ≤ value)) = true)) ∧
      (reply.status = .ok → reply.body = body) := by
  unfold conditionalFeed at ok
  simp only [bind_eq_ok, required_eq_ok, pure_eq_ok, Except.ok.injEq] at ok
  obtain ⟨lastModified, formatted, rfl⟩ := ok
  refine ⟨formatted, rfl, ?_, ?_⟩
  · rw [← Option.isNone_iff_eq_none, ← Bool.and_eq_true, ← Bool.or_eq_true]
    split
    · exact iff_of_true rfl ‹_›
    · refine iff_of_false (fun same => ?_) ‹_›
      cases same
  · intro whole
    split at whole
    · cases whole
    · exact if_neg ‹_›

theorem conditionalFeed_of {text : String}
    (formatted : service.fmtHttpDate timestamp.toNat = some text) :
    ∃ reply, conditionalFeed service headers body timestamp isPublic = .ok reply := by
  unfold conditionalFeed
  dsimp only
  rw [formatted]
  exact ⟨_, rfl⟩

/-- Without a validator the page is sent. -/
theorem conditionalFeed_plain {text : String}
    (formatted : service.fmtHttpDate timestamp.toNat = some text) :
    ∃ reply, conditionalFeed service {} body timestamp isPublic = .ok reply ∧
      reply.status = .ok ∧ reply.body = body := by
  refine ⟨⟨.ok, isPublic, etagOf (service.sha256 (bytesOf body)), text, body⟩, ?_, rfl, rfl⟩
  unfold conditionalFeed
  dsimp only
  rw [formatted]
  rfl

end Reply

/-! ## Entity tags -/

section Etags

theorem char_ofNat_toNat (b : UInt8) : (Char.ofNat b.toNat).toNat = b.toNat := by
  have small := b.toNat_lt
  have valid : b.toNat.isValidChar := .inl (by omega)
  rw [Char.ofNat, dif_pos valid]
  rfl

theorem hexText_injective : Function.Injective hexText := by
  intro hash hash' same
  have digits : Git.hexDigits 64 hash.toNat = Git.hexDigits 64 hash'.toNat := by
    refine List.map_injective_iff.mpr (fun b b' same => ?_) same
    have same := congrArg Char.toNat same
    rw [char_ofNat_toNat, char_ofNat_toNat] at same
    exact UInt8.toNat_inj.mp same
  have bound (hash : Hash) : hash.toNat < 16 ^ 64 := hash.isLt
  have numbers := congrArg Git.hexNumber digits
  rw [Git.hexNumber_hexDigits (bound hash), Git.hexNumber_hexDigits (bound hash')] at numbers
  exact BitVec.eq_of_toNat_eq numbers

theorem comma_notMem_etagOf (hash : Hash) : ',' ∉ (etagOf hash).toList := by
  rw [etagOf, String.toList_ofList]
  intro inside
  rcases List.mem_cons.mp inside with quote | inside
  · exact absurd quote (by decide)
  · rcases List.mem_append.mp inside with digit | quote
    · obtain ⟨b, member, comma⟩ := List.mem_map.mp digit
      have code := congrArg Char.toNat comma
      rw [char_ofNat_toNat] at code
      have byte : b = 44 := UInt8.toNat_inj.mp code
      have hex := Git.hexdigit_of_hexDigits member
      rw [byte] at hex
      exact absurd hex (by decide)
    · exact absurd (List.mem_singleton.mp quote) (by decide)

theorem trim_etagOf (hash : Hash) : trim (etagOf hash).toList = (etagOf hash).toList := by
  have quote : ¬Char.isWhitespace '"' = true := by decide
  rw [etagOf, String.toList_ofList, trim, List.dropWhile_cons_of_neg quote, List.reverse_cons,
    List.reverse_append, List.reverse_singleton, List.singleton_append, List.cons_append,
    List.dropWhile_cons_of_neg quote, List.reverse_cons, List.reverse_append, List.reverse_reverse,
    List.reverse_singleton, List.singleton_append, List.cons_append]

/-- **An entity tag matches the pages of its own digest only.** -/
theorem etagMatches_etagOf {hash hash' : Hash} :
    etagMatches (etagOf hash) (etagOf hash') = true ↔ hash = hash' := by
  have alone : (etagOf hash).toList.splitOn ',' = [(etagOf hash).toList] :=
    List.splitOn_eq_singleton (comma_notMem_etagOf hash)
  rw [etagMatches, alone, List.any_cons, List.any_nil, Bool.or_false, trim_etagOf,
    Bool.or_eq_true, decide_eq_true_eq, decide_eq_true_eq]
  constructor
  · rintro (star | same)
    · rw [etagOf, String.toList_ofList] at star
      exact absurd (List.cons.inj star).1 (by decide)
    · rw [etagOf, etagOf, String.toList_ofList, String.toList_ofList] at same
      exact hexText_injective (List.append_cancel_right (List.cons.inj same).2)
  · rintro rfl
    rw [etagOf, String.toList_ofList]
    exact Or.inr rfl

theorem bytesOf_injective : Function.Injective bytesOf := by
  intro text text' same
  exact String.toByteArray_inj.mp (ByteArray.ext (Array.toList_inj.mp same))

end Etags

end Tit.Feeds
