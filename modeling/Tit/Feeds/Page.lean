/-
# Feeds.Page -- the RSS pages of a repository and of a watched activity

A feed page is a channel with one item for each event.  The two pages fill the same elements, so
both are `renderChannel` of their own titles and links.  A value is escaped before it is written: a
page has as many `<` as its elements ask for, whatever the events say (`tags_renderChannel`).
-/
import Tit.Git.CommandSection
import Tit.Store.Visibility

namespace Tit.Feeds

open Tit.Theory Tit.Store

set_option autoImplicit false

/-! ## What the feeds call -/

/-- The base URL, SHA-256, the HTTP dates, and the two columns of an event that the log leaves out:
its `event_id`, and the number in a payload of version 1. -/
structure Service where
  httpCloneBase : String
  sha256 : List UInt8 → Hash
  /-- `None` where `httpdate` panics, from the year 10000 on. -/
  fmtHttpDate : Nat → Option String
  parseHttpDate : String → Option Nat
  eventId : RepositoryEvent → String
  payloadNumber : RepositoryEvent → Option Int

inductive FeedError where
  | timestamp
  | outOfDates
  deriving DecidableEq, Repr

inductive RepositoryFeedKind where
  | activity
  | issues
  | pullRequests
  deriving DecidableEq, Repr

def RepositoryFeedKind.path : RepositoryFeedKind → String
  | .activity => "rss.xml"
  | .issues => "issues/rss.xml"
  | .pullRequests => "pulls/rss.xml"

def pageSize : Nat := 20

/-! ## Text -/

section Lossy

def replacementCharacter : Char := Char.ofNat 0xfffd

/-- The continuation bytes that are left, and those behind the character. -/
def continueScalar : Nat → Nat → List UInt8 → Char × List UInt8
  | 0, value, rest => (Char.ofNat value, rest)
  | _ + 1, _, [] => (replacementCharacter, [])
  | n + 1, value, b :: rest =>
      if 0x80 ≤ b ∧ b ≤ 0xbf then continueScalar n (64 * value + (b.toNat - 0x80)) rest
      else (replacementCharacter, b :: rest)

/-- The first continuation byte has a range of its own, which leaves out the surrogates, the
overlong forms and what lies beyond the last scalar. -/
def secondByte (low high : UInt8) (n value : Nat) : List UInt8 → Char × List UInt8
  | [] => (replacementCharacter, [])
  | b :: rest =>
      if low ≤ b ∧ b ≤ high then continueScalar n (64 * value + (b.toNat - 0x80)) rest
      else (replacementCharacter, b :: rest)

/-- The first character, where a broken sequence is one replacement character. -/
def firstScalar (b : UInt8) (rest : List UInt8) : Char × List UInt8 :=
  if b < 0x80 then (Char.ofNat b.toNat, rest)
  else if b < 0xc2 then (replacementCharacter, rest)
  else if b < 0xe0 then secondByte 0x80 0xbf 0 (b.toNat - 0xc0) rest
  else if b = 0xe0 then secondByte 0xa0 0xbf 1 0 rest
  else if b = 0xed then secondByte 0x80 0x9f 1 (b.toNat - 0xe0) rest
  else if b < 0xf0 then secondByte 0x80 0xbf 1 (b.toNat - 0xe0) rest
  else if b = 0xf0 then secondByte 0x90 0xbf 2 0 rest
  else if b < 0xf4 then secondByte 0x80 0xbf 2 (b.toNat - 0xf0) rest
  else if b = 0xf4 then secondByte 0x80 0x8f 2 (b.toNat - 0xf0) rest
  else (replacementCharacter, rest)

/-- As many characters as the text can have. -/
def lossyCharacters : Nat → List UInt8 → List Char
  | 0, _ => []
  | _ + 1, [] => []
  | n + 1, b :: rest => (firstScalar b rest).1 :: lossyCharacters n (firstScalar b rest).2

def fromUtf8Lossy (bytes : List UInt8) : String :=
  String.ofList (lossyCharacters bytes.length bytes)

end Lossy

def stripPrefix (start text : List UInt8) : Option (List UInt8) :=
  if start.isPrefixOf text then some (text.drop start.length) else none

def displayReference (name : RefName) : String :=
  fromUtf8Lossy (((stripPrefix (asciiBytes "refs/heads/") name).or
    (stripPrefix (asciiBytes "refs/tags/") name)).getD name)

def isControl (c : Char) : Bool :=
  decide (c.toNat < 0x20 ∨ (0x7f ≤ c.toNat ∧ c.toNat < 0xa0))

def escapeCharacter (c : Char) : List Char :=
  if c = '&' then "&amp;".toList
  else if c = '<' then "&lt;".toList
  else if c = '>' then "&gt;".toList
  else if c = '"' then "&quot;".toList
  else if c = '\'' then "&apos;".toList
  else if (isControl c = true ∧ ¬(c = '\t' ∨ c = '\n' ∨ c = '\r')) ∨
      c.toNat = 0xfffe ∨ c.toNat = 0xffff then [replacementCharacter]
  else [c]

def escapeXml (value : String) : String := String.ofList (value.toList.flatMap escapeCharacter)

def element (name value : String) : String :=
  "<" ++ name ++ ">" ++ escapeXml value ++ "</" ++ name ++ ">\n"

def atomLink (relation href : String) : String :=
  "<atom:link rel=\"" ++ escapeXml relation ++ "\" href=\"" ++ escapeXml href ++ "\" />\n"

namespace Service

variable (service : Service)

def rssDate (timestamp : Int) : Except FeedError String := do
  ensure (0 ≤ timestamp) .timestamp
  required (service.fmtHttpDate timestamp.toNat) .outOfDates

/-! ## Events -/

def issueTitle (event : RepositoryEvent) (action : String) : String :=
  event.actor ++ " " ++ action ++ " " ++
    ((service.payloadNumber event).map fun number => "#" ++ toString number).getD "Issue"

def pullRequestTitle (event : RepositoryEvent) (action : String) : String :=
  event.actor ++ " " ++ action ++ " " ++
    ((service.payloadNumber event).map fun number => "#" ++ toString number).getD "pull request"

def eventTitle (event : RepositoryEvent) : String :=
  let reference := (event.refName.map displayReference).getD ""
  match event.kind with
  | .repositoryCreated => "Repository created"
  | .repositoryImported => "Repository imported"
  | .push => event.actor ++ " pushed"
  | .refCreated => "Branch " ++ reference ++ " created"
  | .refUpdated => "Branch " ++ reference ++ " updated"
  | .refDeleted => "Branch " ++ reference ++ " deleted"
  | .tagCreated => "Tag " ++ reference ++ " created"
  | .tagUpdated => "Tag " ++ reference ++ " updated"
  | .tagDeleted => "Tag " ++ reference ++ " deleted"
  | .issueCreated => service.issueTitle event "opened"
  | .issueEdited => service.issueTitle event "edited"
  | .issueCommented => service.issueTitle event "commented on"
  | .issueClosed => service.issueTitle event "closed"
  | .issueReopened => service.issueTitle event "reopened"
  | .pullRequestCreated => service.pullRequestTitle event "opened"
  | .pullRequestRevised => service.pullRequestTitle event "revised"
  | .pullRequestEdited => service.pullRequestTitle event "edited"
  | .pullRequestClosed => service.pullRequestTitle event "closed"
  | .pullRequestReopened => service.pullRequestTitle event "reopened"
  | .pullRequestCommented => service.pullRequestTitle event "commented on"
  | .pullRequestLineCommented => service.pullRequestTitle event "commented on a line in"
  | .pullRequestApproved => service.pullRequestTitle event "approved"
  | .pullRequestChangesRequested => service.pullRequestTitle event "requested changes on"
  | .pullRequestMerged => service.pullRequestTitle event "merged"

/-- A target, as the log has it in its column. -/
def targetText (format : ObjectFormat) (target : ObjectId) : String :=
  String.ofList ((Git.objectHex format target).map fun b => Char.ofNat b.toNat)

def eventDescription (format : ObjectFormat) (event : RepositoryEvent) : String :=
  service.eventTitle event ++
    (event.oldTarget.map fun old => " from " ++ targetText format old).getD "" ++
    (event.newTarget.map fun new => " to " ++ targetText format new).getD ""

def repositoryEventLink (repositoryUrl : String) (event : RepositoryEvent) : String :=
  match service.payloadNumber event with
  | none => repositoryUrl
  | some number =>
      if event.kind.shape = .pullRequest then repositoryUrl ++ "/pulls/" ++ toString number
      else repositoryUrl ++ "/issues/" ++ toString number

def eventUrn (event : RepositoryEvent) : String := "urn:tit:event:" ++ service.eventId event

end Service

/-! ## Channels -/

structure Item where
  title : String
  link : String
  guid : String
  createdAt : Int
  description : String

structure Channel where
  title : String
  link : String
  description : String
  updated : Int
  selfUrl : String
  nextUrl : Option String
  items : List Item

namespace Service

variable (service : Service)

def renderItem (item : Item) : Except FeedError String := do
  let date ← service.rssDate item.createdAt
  pure ("<item>\n" ++ element "title" item.title ++ element "link" item.link ++
    "<guid isPermaLink=\"false\">" ++ escapeXml item.guid ++ "</guid>\n" ++
    element "pubDate" date ++ element "description" item.description ++ "</item>\n")

def renderItems : List Item → Except FeedError String
  | [] => .ok ""
  | item :: items => do
      let first ← service.renderItem item
      let rest ← renderItems items
      pure (first ++ rest)

def renderChannel (channel : Channel) : Except FeedError String := do
  let date ← service.rssDate channel.updated
  let items ← service.renderItems channel.items
  pure ("<?xml version=\"1.0\" encoding=\"utf-8\"?>\n" ++
    "<rss version=\"2.0\" xmlns:atom=\"http://www.w3.org/2005/Atom\">\n" ++ "<channel>\n" ++
    element "title" channel.title ++ element "link" channel.link ++
    element "description" channel.description ++ element "lastBuildDate" date ++
    atomLink "self" channel.selfUrl ++ (channel.nextUrl.map (atomLink "next")).getD "" ++ items ++
    "</channel>\n</rss>\n")

end Service

/-! ## The page of a repository -/

/-- `max().unwrap_or(…)` over the times of the events. -/
def newestOf (times : List Int) (otherwise : Int) : Int := times.max?.getD otherwise

structure FeedPage where
  repository : RepositoryRecord
  feedUrl : String
  selfUrl : String
  events : List RepositoryEvent
  nextBefore : Option Nat
  kind : RepositoryFeedKind

namespace FeedPage

variable (service : Service) (page : FeedPage)

def feedTitle : String :=
  page.repository.owner ++ "/" ++ page.repository.slug ++ " " ++
    match page.kind with
    | .activity => "events"
    | .issues => "issues"
    | .pullRequests => "pull requests"

def repositoryUrl : String :=
  service.httpCloneBase ++ "/" ++ page.repository.owner ++ "/" ++ page.repository.slug

def nextUrl : Option String :=
  page.nextBefore.map fun before => page.feedUrl ++ "?before=" ++ toString before

def item (event : RepositoryEvent) : Item where
  title := service.eventTitle event
  link := service.repositoryEventLink (page.repositoryUrl service) event
  guid := service.eventUrn event
  createdAt := event.createdAt
  description := service.eventDescription page.repository.objectFormat event

def channel : Channel where
  title := page.feedTitle
  link := page.repositoryUrl service
  description := "Public events for " ++ page.feedTitle
  updated := newestOf (page.events.map (·.createdAt)) page.repository.createdAt
  selfUrl := page.selfUrl
  nextUrl := page.nextUrl
  items := page.events.map (page.item service)

def render : Except FeedError String := service.renderChannel (page.channel service)

end FeedPage

/-! ## The page of a watched activity -/

structure ActivityFeedPage where
  selfUrl : String
  username : String
  events : List ActivityEventRecord

namespace ActivityFeedPage

variable (service : Service) (page : ActivityFeedPage)

def activityTitle (record : ActivityEventRecord) : String :=
  record.repository.owner ++ "/" ++ record.repository.slug ++ ": " ++
    service.eventTitle record.event

def activityLink (record : ActivityEventRecord) : String :=
  service.repositoryEventLink
    (service.httpCloneBase ++ "/" ++ record.repository.owner ++ "/" ++ record.repository.slug)
    record.event

def feedTitle : String := page.username ++ " watched activity"

def updated : Int := newestOf (page.events.map (·.event.createdAt)) 0

def item (record : ActivityEventRecord) : Item where
  title := activityTitle service record
  link := activityLink service record
  guid := service.eventUrn record.event
  createdAt := record.event.createdAt
  description := service.eventDescription record.repository.objectFormat record.event

def channel : Channel where
  title := page.feedTitle
  link := service.httpCloneBase
  description := page.feedTitle
  updated := page.updated
  selfUrl := page.selfUrl
  nextUrl := none
  items := page.events.map (item service)

def render : Except FeedError String := service.renderChannel (page.channel service)

end ActivityFeedPage

/-! ## The elements of a page -/

section Elements

/-- The number of elements that a text opens or closes. -/
def tags (text : String) : Nat := text.toList.count '<'

@[simp] theorem tags_append (a b : String) : tags (a ++ b) = tags a + tags b := by
  rw [tags, String.toList_append, List.count_append]
  rfl

theorem count_escapeCharacter (c : Char) : (escapeCharacter c).count '<' = 0 := by
  unfold escapeCharacter
  repeat' split
  all_goals first | decide | skip
  rename_i other _ _ _ _
  exact List.count_eq_zero.mpr fun inside => other (List.mem_singleton.mp inside).symm

@[simp] theorem tags_escapeXml (value : String) : tags (escapeXml value) = 0 := by
  rw [tags, escapeXml, String.toList_ofList, List.count_eq_zero]
  intro inside
  obtain ⟨c, -, here⟩ := List.mem_flatMap.mp inside
  exact List.count_eq_zero.mp (count_escapeCharacter c) here

theorem tags_element (name value : String) (plain : tags name = 0) :
    tags (element name value) = 2 := by
  have opens : tags "<" = 1 := by simp [tags]
  have closes : tags "</" = 1 := by simp [tags]
  have ends : tags ">" = 0 := by simp [tags]
  have endsLine : tags ">\n" = 0 := by simp [tags]
  unfold element
  rw [tags_append, tags_append, tags_append, tags_append, tags_append, tags_append, tags_escapeXml,
    plain, opens, closes, ends, endsLine]

theorem tags_atomLink (relation href : String) : tags (atomLink relation href) = 1 := by
  have opens : tags "<atom:link rel=\"" = 1 := by simp [tags]
  have link : tags "\" href=\"" = 0 := by simp [tags]
  have ends : tags "\" />\n" = 0 := by simp [tags]
  unfold atomLink
  rw [tags_append, tags_append, tags_append, tags_append, tags_escapeXml, tags_escapeXml, opens,
    link, ends]

variable {service : Service}

theorem tags_renderItem {item : Item} {text : String}
    (rendered : service.renderItem item = .ok text) : tags text = 12 := by
  simp only [Service.renderItem, bind_eq_ok, pure_eq_ok, Except.ok.injEq] at rendered
  obtain ⟨date, -, rfl⟩ := rendered
  have title : tags "title" = 0 := by simp [tags]
  have link : tags "link" = 0 := by simp [tags]
  have pubDate : tags "pubDate" = 0 := by simp [tags]
  have description : tags "description" = 0 := by simp [tags]
  simp only [tags_append, tags_escapeXml, tags_element _ _ title, tags_element _ _ link,
    tags_element _ _ pubDate, tags_element _ _ description]
  simp [tags]

theorem tags_renderItems {items : List Item} {text : String}
    (rendered : service.renderItems items = .ok text) : tags text = 12 * items.length := by
  induction items generalizing text with
  | nil =>
      cases rendered
      rfl
  | cons item items ih =>
      simp only [Service.renderItems, bind_eq_ok, pure_eq_ok, Except.ok.injEq] at rendered
      obtain ⟨first, one, rest, others, rfl⟩ := rendered
      rw [tags_append, tags_renderItem one, ih others, List.length_cons]
      omega

/-- **The elements of a page count its items.** -/
theorem tags_renderChannel {channel : Channel} {text : String}
    (rendered : service.renderChannel channel = .ok text) :
    tags text = 14 + (if channel.nextUrl.isSome then 1 else 0) + 12 * channel.items.length := by
  unfold Service.renderChannel at rendered
  obtain ⟨date, -, rendered⟩ := bind_eq_ok.mp rendered
  obtain ⟨items, listed, rendered⟩ := bind_eq_ok.mp rendered
  have title : tags "title" = 0 := by simp [tags]
  have link : tags "link" = 0 := by simp [tags]
  have description : tags "description" = 0 := by simp [tags]
  have lastBuildDate : tags "lastBuildDate" = 0 := by simp [tags]
  have next : tags ((channel.nextUrl.map (atomLink "next")).getD "") =
      if channel.nextUrl.isSome then 1 else 0 := by
    cases channel.nextUrl with
    | none => rfl
    | some url => exact tags_atomLink _ url
  have declared : tags "<?xml version=\"1.0\" encoding=\"utf-8\"?>\n" = 1 := rfl
  have opened : tags "<rss version=\"2.0\" xmlns:atom=\"http://www.w3.org/2005/Atom\">\n" = 1 := rfl
  have channelOpened : tags "<channel>\n" = 1 := by simp [tags]
  have closed : tags "</channel>\n</rss>\n" = 2 := rfl
  rw [← Except.ok.inj rendered]
  rw [tags_append, tags_append, tags_append, tags_append, tags_append, tags_append, tags_append,
    tags_append, tags_append, tags_append, tags_element _ _ title, tags_element _ _ link,
    tags_element _ _ description, tags_element _ _ lastBuildDate, tags_atomLink, next, declared,
    opened, channelOpened, closed, tags_renderItems listed]
  omega

theorem rssDate_of {timestamp : Int} {text : String} (since : 0 ≤ timestamp)
    (formatted : service.fmtHttpDate timestamp.toNat = some text) :
    service.rssDate timestamp = .ok text := by
  rw [Service.rssDate, ensure_of since, formatted]
  rfl

/-- A page whose times have dates is rendered. -/
theorem renderChannel_of {channel : Channel}
    (updated : ∃ text, service.rssDate channel.updated = .ok text)
    (dated : ∀ item ∈ channel.items, ∃ text, service.rssDate item.createdAt = .ok text) :
    ∃ text, service.renderChannel channel = .ok text := by
  have items : ∀ items : List Item,
      (∀ item ∈ items, ∃ text, service.rssDate item.createdAt = .ok text) →
        ∃ text, service.renderItems items = .ok text := by
    intro items dated
    induction items with
    | nil => exact ⟨"", rfl⟩
    | cons item items ih =>
        obtain ⟨date, read⟩ := dated item List.mem_cons_self
        obtain ⟨rest, others⟩ := ih fun later member => dated later (List.mem_cons_of_mem _ member)
        exact ⟨_, by
          rw [Service.renderItems, Service.renderItem, read, others]
          rfl⟩
  obtain ⟨date, read⟩ := updated
  obtain ⟨text, listed⟩ := items channel.items dated
  exact ⟨_, by
    rw [Service.renderChannel, read, listed]
    rfl⟩

end Elements

end Tit.Feeds
