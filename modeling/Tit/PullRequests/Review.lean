/-
# PullRequests.Review -- the lines of a comparison, and comments on them

The page of a pull request numbers the lines of each hunk (`parse_diff_lines`) and offers an
anchor for either side of a line.  `PullRequestService::review` takes such an anchor back: it
turns the side into a commit of the revision, and asks whether the file has that line there.
-/
import Tit.Git.Read
import Tit.PullRequests.System
import Tit.Store.Review

namespace Tit.PullRequests

open Tit.Theory Tit.Theory.Text Tit.Store Tit.Git

set_option autoImplicit false

/-! ## Numbers -/

def maxI64 : Int := 9223372036854775807

/-- `str::parse::<i64>`. -/
def parseI64 (text : Bytes) : Option Int :=
  let value :=
    match text with
    | 43 :: digits => (parseDecimal digits).map fun n => (n : Int)
    | 45 :: digits => (parseDecimal digits).map fun n => -(n : Int)
    | digits => (parseDecimal digits).map fun n => (n : Int)
  value.filter fun n => decide (-maxI64 - 1 ≤ n ∧ n ≤ maxI64)

/-- A number as `format!` prints it. -/
def formatI64 : Int → Bytes
  | .ofNat n => decimal n
  | .negSucc n => 45 :: decimal (n + 1)

/-- `str::split_once`. -/
def splitOnce (separator : UInt8) (text : Bytes) : Option (Bytes × Bytes) :=
  match text.span fun b => decide (b ≠ separator) with
  | (before, _ :: after) => some (before, after)
  | (_, []) => none

/-! ## The view -/

inductive LineViewKind where
  | hunk
  | «meta»
  | content (kind : LineKind)
  deriving DecidableEq, Repr

structure DiffLineView where
  kind : LineViewKind
  marker : Bytes
  text : Bytes
  baseLine : Int
  headLine : Int
  baseAnchor : Bytes
  headAnchor : Bytes
  hasBase : Bool
  hasHead : Bool
  isHunk : Bool
  isMeta : Bool
  deriving DecidableEq, Repr

def diffMetaLine (text : Bytes) (isHunk : Bool) : DiffLineView where
  kind := if isHunk then .hunk else .«meta»
  marker := []
  text
  baseLine := 0
  headLine := 0
  baseAnchor := []
  headAnchor := []
  hasBase := false
  hasHead := false
  isHunk
  isMeta := !isHunk

def diffContentLine (kind : LineKind) (text : Bytes) (base head : Option Int) : DiffLineView where
  kind := .content kind
  marker := [kind.marker]
  text
  baseLine := base.getD 0
  headLine := head.getD 0
  baseAnchor := (base.map fun line => asciiBytes "base:" ++ formatI64 line).getD []
  headAnchor := (head.map fun line => asciiBytes "head:" ++ formatI64 line).getD []
  hasBase := base.isSome
  hasHead := head.isSome
  isHunk := false
  isMeta := false

/-- The white space that a hunk header can have. -/
def isWhitespace (b : UInt8) : Bool := decide (9 ≤ b ∧ b ≤ 13 ∨ b = 32)

def splitWhitespace (text : Bytes) : List Bytes :=
  (text.splitOnP isWhitespace).filter fun piece => decide (piece ≠ [])

def parseHunkStart (range : Bytes) (start : UInt8) : Option Int :=
  match range with
  | b :: rest => if b = start then (rest.splitOn 44).head?.bind parseI64 else none
  | [] => none

def parseHunkStarts (header : Bytes) : Option (Int × Int) :=
  match splitWhitespace header with
  | at_ :: base :: head :: _ =>
      if at_ = asciiBytes "@@" then do
        let base ← parseHunkStart base 45
        let head ← parseHunkStart head 43
        pure (base, head)
      else none
  | _ => none

/-- `str::lines` takes a carriage return from the end of a line. -/
def stripCarriageReturn (line : Bytes) : Bytes :=
  if line.getLast? = some 13 then line.dropLast else line

/-- The loop of `parse_diff_lines`. -/
def parseDiffLoop : Int → Int → List Bytes → List DiffLineView
  | _, _, [] => []
  | baseLine, headLine, source :: rest =>
      if (asciiBytes "@@").isPrefixOf source then
        let (baseLine, headLine) := (parseHunkStarts source).getD (baseLine, headLine)
        diffMetaLine source true :: parseDiffLoop baseLine headLine rest
      else
        match source with
        | 45 :: text =>
            diffContentLine .deletion text (some baseLine) none ::
              parseDiffLoop (baseLine + 1) headLine rest
        | 43 :: text =>
            diffContentLine .addition text none (some headLine) ::
              parseDiffLoop baseLine (headLine + 1) rest
        | 32 :: text =>
            diffContentLine .context text (some baseLine) (some headLine) ::
              parseDiffLoop (baseLine + 1) (headLine + 1) rest
        | _ => diffMetaLine source false :: parseDiffLoop baseLine headLine rest

def parseDiffLines (hunks : Bytes) : List DiffLineView :=
  parseDiffLoop 0 0 ((lines hunks).map stripCarriageReturn)

/-- An anchor that is read, or `none` where it is refused; an empty one names no line. -/
def parseReviewAnchor (value : Bytes) : Option (Option (ReviewSide × Nat)) :=
  if value = [] then some none
  else do
    let (side, line) ← splitOnce 58 value
    let side : ReviewSide ←
      if side = asciiBytes "base" then some .base
      else if side = asciiBytes "head" then some .head
      else none
    if (58 : UInt8) ∈ line then none
    else
      let line ← parseI64 line
      if line < 1 then none else some (some (side, line.toNat))

/-! ## The service -/

/-- `PullRequestReview` of the service. -/
structure ReviewRequest where
  owner : String
  repository : String
  number : Nat
  revision : Nat
  actor : String
  kind : ReviewKind
  body : String
  path : Option GitPath
  side : Option ReviewSide
  line : Option Nat

inductive ReviewError where
  | context
  | number
  | reviewBody
  | reviewAnchor
  | revision
  | state
  | repositoryPath
  | recovery (error : PullRequestError)
  | store (error : StoreError)
  | read (error : ReadError)
  deriving DecidableEq, Repr

def readObjects {α : Type} (result : Except ReadError α) : Except ReviewError α :=
  match result with
  | .ok value => .ok value
  | .error error => .error (.read error)

def readStore {α : Type} (result : Except StoreError α) : Except ReviewError α :=
  match result with
  | .ok value => .ok value
  | .error error => .error (.store error)

def maxReviewBodyBytes : Nat := 256 * 1024

/-- `char::is_control`. -/
def isControl (c : Char) : Bool := decide (c.toNat < 32 ∨ 127 ≤ c.toNat ∧ c.toNat < 160)

/-- `char::is_whitespace`. -/
def isWhiteSpace (c : Char) : Bool :=
  decide (9 ≤ c.toNat ∧ c.toNat ≤ 13) || decide (8192 ≤ c.toNat ∧ c.toNat ≤ 8202) ||
    decide (c.toNat ∈ [32, 133, 160, 5760, 8232, 8233, 8239, 8287, 12288])

def blank (body : String) : Bool := body.toList.all isWhiteSpace

/-- What `validate_review` asks of every body. -/
def validBody (body : String) : Bool :=
  decide (body.utf8ByteSize ≤ maxReviewBodyBytes) &&
    body.toList.all fun c => !isControl c || decide (c = '\n' ∨ c = '\r' ∨ c = '\t')

def validateReview (request : ReviewRequest) : Except ReviewError Unit := do
  ensure (validBody request.body = true) .reviewBody
  let unanchored : Prop := request.path = none ∧ request.side = none ∧ request.line = none
  have : Decidable unanchored := inferInstanceAs (Decidable (_ ∧ _))
  match request.kind with
  | .comment | .changesRequested =>
      ensure (blank request.body = false) .reviewBody
      ensure unanchored .reviewAnchor
  | .approved => ensure unanchored .reviewBody
  | .lineComment => do
      ensure (blank request.body = false) .reviewBody
      let path ← required request.path .reviewAnchor
      ensure (path ≠ [] ∧ path.length ≤ ReadLimits.default.maxPathBytes ∧ (0 : UInt8) ∉ path ∧
        request.side ≠ none ∧ request.line.any (fun line => decide (1 ≤ line)) = true)
        .reviewAnchor

def lineCount (data : Bytes) : Nat :=
  if data = [] then 0
  else (data.splitOn newline).length - if data.getLast? = some newline then 1 else 0

/-- The file of the comparison that a comment is about, on the side of the comment. -/
def sideId (file : DiffFile) : ReviewSide → Option ObjectId
  | .base => file.oldId
  | .head => file.newId

/-- The commit that a line comment is stored with. -/
def anchorCommit (objects : Objects) (gix : Gix) (revision : PullRequestRevision)
    (request : ReviewRequest) : Except ReviewError ObjectId := do
  let path ← required request.path .reviewAnchor
  let side ← required request.side .reviewAnchor
  let line ← required request.line .reviewAnchor
  let comparison ← readObjects
    (comparison ReadLimits.default objects gix revision.baseObjectId revision.headObjectId)
  let file ← required
    ((comparison.files.find? fun file => decide (file.path = path)).filter (!·.binary))
    .reviewAnchor
  ensure ((sideId file side).isSome = true) .reviewAnchor
  let commit := revision.commit side
  let data ← readObjects (blob ReadLimits.default objects commit path)
  ensure (line ≠ 0 ∧ line ≤ lineCount data) .reviewAnchor
  pure commit

/-- The revision of a pull request with this number. -/
def revisionNumbered (db : Database) (p : PullRequest) (number : Nat) :
    Option PullRequestRevision :=
  db.pullRequestRevisions.find fun r => decide (r.pullRequestId = p.id ∧ r.number = number)

/-- The commit that a review is stored with; only a line comment has one.  `objects` is what
the repository of a pull request has; there may be no repository. -/
def reviewCommit (objects : Identifier → Option Objects) (gix : Gix) (p : PullRequest)
    (revision : PullRequestRevision) (request : ReviewRequest) :
    Except ReviewError (Option ObjectId) :=
  match request.kind with
  | .lineComment => do
      let objects ← required (objects p.repositoryId) .repositoryPath
      let commit ← anchorCommit objects gix revision request
      pure (some commit)
  | _ => pure none

/-- `review` after recovery. -/
def reviewRecovered (objects : Identifier → Option Objects) (gix : Gix) (db : Database)
    (request : ReviewRequest) (createdAt : Int) : Except ReviewError (Database × Nat) := do
  let p ← readStore
    (db.pullRequest request.owner request.repository request.number (some request.actor))
  ensure (p.state = .open) .state
  let revision ← required (revisionNumbered db p request.revision) .revision
  let commitObjectId ← reviewCommit objects gix p revision request
  readStore (db.createPullRequestReview
    { owner := request.owner, repository := request.repository, number := request.number
      revision := request.revision, actor := request.actor, kind := request.kind
      body := request.body, commitObjectId, path := request.path, side := request.side
      line := request.line, createdAt })

/-- `PullRequestService::review`. -/
def review (objects : Identifier → Option Objects) (gix : Gix) (w : World)
    (request : ReviewRequest) (createdAt : Int) : World × Except ReviewError Nat :=
  if validateContext request.owner request.repository request.actor = false then
    (w, .error .context)
  else if request.number < 1 ∨ request.revision < 1 then (w, .error .number)
  else
    match validateReview request with
    | .error error => (w, .error error)
    | .ok _ =>
        match recover w with
        | (w, some error) => (w, .error (.recovery error))
        | (w, none) =>
            match reviewRecovered objects gix w.db request createdAt with
            | .error error => (w, .error error)
            | .ok (db, id) => ({ w with db }, .ok id)

end Tit.PullRequests
