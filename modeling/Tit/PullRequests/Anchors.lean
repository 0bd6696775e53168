/-
# PullRequests.Anchors -- what a line comment is about

The page numbers the base side of a comparison in the file of the merge base, but `review`
looks the number up in the file of the base commit.  Every comment that the page offers means
the line that was shown exactly if the two files agree at the lines of the hunks
(`review_means_shown_iff`); a commit on the base branch is enough to make them differ
(`review_means_other`).
-/
import Tit.Git.Diff
import Tit.PullRequests.DiffView

namespace Tit.PullRequests

open Tit.Theory Tit.Theory.Text Tit.Store Tit.Git

set_option autoImplicit false

/-! ## Lines of a file -/

/-- The line of a file with this number, counted from 1. -/
def lineAt (data : Bytes) (number : Nat) : Option Bytes :=
  if number = 0 then none else (lines data)[number - 1]?

section Lines

variable {data text : Bytes} {number : Nat}

theorem lineAt_mem (found : lineAt data number = some text) : text ∈ lines data := by
  unfold lineAt at found
  split at found
  · cases found
  · exact List.mem_of_getElem? found

theorem lineAt_range (found : lineAt data number = some text) :
    1 ≤ number ∧ number ≤ (lines data).length := by
  unfold lineAt at found
  split at found
  · cases found
  · have below := (List.getElem?_eq_some_iff.mp found).1
    omega

theorem lineCount_eq (data : Bytes) : lineCount data = (lines data).length := by
  unfold lineCount
  split
  · rename_i empty
    rw [empty, lines_nil, List.length_nil]
  · rename_i some
    rw [length_splitOn_newline some]
    omega

end Lines

/-! ## Correct hunks -/

/-- The hunk has lines of the two files, from the lines that its header names on. -/
structure HunkOf (h : Hunk) (old new : Bytes) : Prop where
  line : ∀ side k text, (sideLines side h.lines)[k]? = some text →
    lineAt (pick side old new) (sideStart h side + k) = some text
  start : ∀ side, sideStart h side ≤ (lines (pick side old new)).length + 1

/-- The library emits correct hunks. -/
def CorrectHunks (gix : Gix) : Prop := ∀ old new, ∀ h ∈ gix.hunks old new, HunkOf h old new

/-- A line of a hunk is on a side, and so in one of the files. -/
theorem HunkOf.mem {h : Hunk} {old new : Bytes} (of : HunkOf h old new) {l : LineKind × Bytes}
    (member : l ∈ h.lines) : ∃ side, l.2 ∈ lines (pick side old new) := by
  have on : ∃ side, onSide side l = true := by
    obtain ⟨kind, text⟩ := l
    cases kind with
    | context => exact ⟨.base, rfl⟩
    | deletion => exact ⟨.base, rfl⟩
    | addition => exact ⟨.head, rfl⟩
  obtain ⟨side, on⟩ := on
  have listed : l.2 ∈ sideLines side h.lines :=
    List.mem_map.mpr ⟨l, List.mem_filter.mpr ⟨member, on⟩, rfl⟩
  obtain ⟨k, found⟩ := List.mem_iff_getElem?.mp listed
  exact ⟨side, lineAt_mem (of.line side k l.2 found)⟩

/-- A file that the limits allow, without carriage returns. -/
structure PlainText (data : Bytes) : Prop where
  small : data.length ≤ ReadLimits.default.maxBlobBytes
  noReturn : (13 : UInt8) ∉ data

theorem HunkOf.plain {h : Hunk} {old new : Bytes} (of : HunkOf h old new)
    (text : ∀ side, PlainText (pick side old new)) : Plain h := by
  have fits : ∀ side, (sideStart h side : Int) ≤ maxI64 := by
    intro side
    have start := of.start side
    have lines := length_lines_le (pick side old new)
    have small := (text side).small
    have limit : ReadLimits.default.maxBlobBytes = 16777216 := rfl
    unfold maxI64
    omega
  refine ⟨fits .base, fits .head, fun l member => ?_⟩
  obtain ⟨side, inside⟩ := of.mem member
  obtain ⟨noNewline, bytes⟩ := of_mem_lines inside
  exact ⟨noNewline, fun ret => (text side).noReturn (bytes _ ret)⟩

/-! ## The setting -/

/-- An open pull request with a revision that is compared, and an actor who may review it. -/
structure Offered (stored : Identifier → Option Objects) (gix : Gix) (w w' : World)
    (owner repository actor : String) (p : PullRequest) (r : PullRequestRevision)
    (objects : Objects) (c : Comparison) (createdAt : Int) : Prop where
  context : validateContext owner repository actor = true
  recovered : recover w = (w', none)
  access : ∃ access actorId,
    w'.db.repositoryIssueAccess owner repository (some actor) = .ok access ∧
      access.canRead = true ∧ access.activeActorId = some actorId ∧
      w'.db.pullRequestNumbered access.repository.id p.number = some p
  isOpen : p.state = .open
  revision : revisionNumbered w'.db p r.number = some r
  stored : stored p.repositoryId = some objects
  compared : comparison ReadLimits.default objects gix r.baseObjectId r.headObjectId = .ok c
  since : p.createdAt ≤ createdAt
  numbers : (p.number : Int) ≤ maxI64 ∧ (r.number : Int) ≤ maxI64
  noReturn : ∀ file ∈ c.files, ∀ side data, pick side file.oldData file.newData = some data →
    (13 : UInt8) ∉ data

/-- The comment on a line of a side. -/
def lineComment (owner repository actor body : String) (p : PullRequest)
    (r : PullRequestRevision) (path : GitPath) (side : ReviewSide) (number : Nat) :
    ReviewRequest where
  owner
  repository
  number := p.number
  revision := r.number
  actor
  kind := .lineComment
  body
  path := some path
  side := some side
  line := some number

/-- The service takes the comment, and the commit, path and line that it stores name a line
with this text. -/
def Accepts (stored : Identifier → Option Objects) (gix : Gix) (w w' : World)
    (owner repository actor body : String) (p : PullRequest) (r : PullRequestRevision)
    (objects : Objects) (path : GitPath) (side : ReviewSide) (number : Nat) (createdAt : Int)
    (text : Bytes) : Prop :=
  ∃ db' id row data,
    review stored gix w (lineComment owner repository actor body p r path side number) createdAt =
      ({ w' with db := db' }, .ok id) ∧
      row ∈ db'.pullRequestReviews ∧ row.id = id ∧ row.commitObjectId = some (r.commit side) ∧
      row.path = some path ∧ row.side = some side ∧ row.line = some number ∧
      blob ReadLimits.default objects (r.commit side) path = .ok data ∧
      lineAt data number = some text

/-- The data of a file on a side of the comparison. -/
def sideData (file : DiffFile) (side : ReviewSide) : Bytes :=
  (pick side file.oldData file.newData).getD []

section Main

variable {stored : Identifier → Option Objects} {gix : Gix} {w w' : World}
  {owner repository actor body : String} {p : PullRequest} {r : PullRequestRevision}
  {objects : Objects} {c : Comparison} {createdAt : Int} {file : DiffFile} {side : ReviewSide}
  {number : Nat} {data : Bytes}

/-! ## A comment is accepted -/

theorem validatePath_eq_ok {limits : ReadLimits} {path : GitPath}
    (ok : validatePath limits path = .ok ()) :
    path ≠ [] ∧ path.length ≤ limits.maxPathBytes ∧ (0 : UInt8) ∉ path := by
  unfold validatePath at ok
  simp only [bind_eq_ok, ensure_eq_ok] at ok
  obtain ⟨_, some, _, short, -, -, noNull, -⟩ := ok
  exact ⟨some, short, noNull⟩

theorem blob_path (read : blob ReadLimits.default objects (r.commit side) file.path = .ok data) :
    file.path ≠ [] ∧ file.path.length ≤ ReadLimits.default.maxPathBytes ∧
      (0 : UInt8) ∉ file.path := by
  unfold blob at read
  rw [bind_eq_ok] at read
  obtain ⟨_, valid, -⟩ := read
  exact validatePath_eq_ok valid

/-- A body that a line comment can have. -/
def CommentBody (body : String) : Prop := validBody body = true ∧ blank body = false

theorem validateReview_lineComment (comment : CommentBody body) (positive : 1 ≤ number)
    (path : file.path ≠ [] ∧ file.path.length ≤ ReadLimits.default.maxPathBytes ∧
      (0 : UInt8) ∉ file.path) :
    validateReview (lineComment owner repository actor body p r file.path side number) = .ok () := by
  have anchor : file.path ≠ [] ∧ file.path.length ≤ ReadLimits.default.maxPathBytes ∧
      (0 : UInt8) ∉ file.path ∧ some side ≠ none ∧
        ((some number).any fun line => decide (1 ≤ line)) = true :=
    ⟨path.1, path.2.1, path.2.2, nofun, decide_eq_true positive⟩
  unfold validateReview lineComment
  simp only [ensure_of comment.1, ensure_of comment.2, ok_bind, required_some]
  exact ensure_of anchor _

/-- The file of a side exists when a line of it is shown. -/
theorem sideId_isSome {v : Versions ReadLimits.default objects} {path : GitPath} {text : Bytes}
    (shown : lineAt (pick side v.oldData v.newData) number = some text) :
    (sideId (v.file gix path) side).isSome = true := by
  have none_of : ∀ (file : Option TreeFile) (data : Bytes),
      diffBlob ReadLimits.default objects file = .ok data → lineAt data number = some text →
        (file.map (·.id)).isSome = true := by
    intro file data read found
    cases file with
    | some file => rfl
    | none =>
        rw [diffBlob_none read] at found
        have range := lineAt_range found
        rw [lines_nil, List.length_nil] at range
        omega
  cases side with
  | base => exact none_of v.old v.oldData v.readOld shown
  | head => exact none_of v.new v.newData v.readNew shown

theorem anchorCommit_of (lists : Lists ReadLimits.default objects gix c.files)
    (compared : comparison ReadLimits.default objects gix r.baseObjectId r.headObjectId = .ok c)
    (member : file ∈ c.files) (text : file.binary = false)
    (exists' : (sideId file side).isSome = true)
    (read : blob ReadLimits.default objects (r.commit side) file.path = .ok data)
    (range : 1 ≤ number ∧ number ≤ (lines data).length) :
    anchorCommit objects gix r (lineComment owner repository actor body p r file.path side number) =
      .ok (r.commit side) := by
  have line : number ≠ 0 ∧ number ≤ lineCount data := by
    rw [lineCount_eq]
    omega
  have found : ((c.files.find? fun f => decide (f.path = file.path)).filter (!·.binary)) =
      some file := by
    rw [lists.find member]
    simp [Option.filter, text]
  unfold anchorCommit lineComment
  simp only [required_some, ok_bind, compared, readObjects, found, ensure_of exists', read,
    ensure_of line, pure_eq_ok]

theorem escapedLength_of_valid {c : Char}
    (valid : (!isControl c || decide (c = '\n' ∨ c = '\r' ∨ c = '\t')) = true) :
    escapedLength c ≤ 2 := by
  rw [Bool.or_eq_true, Bool.not_eq_true', decide_eq_true_eq] at valid
  rcases valid with plain | rfl | rfl | rfl
  · unfold isControl at plain
    rw [decide_eq_false_iff_not] at plain
    unfold escapedLength
    split
    · omega
    · split
      · omega
      · split <;> omega
  · decide
  · decide
  · decide

theorem decimal_fits {n : Nat} (fits : (n : Int) ≤ maxI64) : jsonNumberLength n ≤ 19 := by
  refine jsonNumberLength_le ?_
  unfold maxI64 at fits
  omega

/-- The payload of a comment fits. -/
theorem payload_fits {review : NewPullRequestReview} {format : ObjectFormat} {id : Identifier}
    (body : validBody review.body = true)
    (path : ∀ path, review.path = some path → path.length ≤ ReadLimits.default.maxPathBytes)
    (numbers : (review.number : Int) ≤ maxI64 ∧ (review.revision : Int) ≤ maxI64 ∧
      ∀ line, review.line = some line → (line : Int) ≤ maxI64) :
    (pullRequestReviewEvent format id review).payloadLength ≤ maxPayloadLength := by
  unfold validBody at body
  rw [Bool.and_eq_true, decide_eq_true_eq, List.all_eq_true] at body
  have text := jsonStringLength_le fun c member => escapedLength_of_valid (body.2 c member)
  have size : review.body.utf8ByteSize ≤ 262144 := body.1
  have identifier : jsonStringLength (identifierText id) ≤ 194 := by
    have bound := (@jsonStringLength_le_length (identifierText id) _)
      fun c _ => escapedLength_le c
    rwa [identifierText_length] at bound
  have number := decimal_fits numbers.1
  have revision := decimal_fits numbers.2.1
  have commit : jsonOptionLength (fun _ => objectIdLength format + 2) review.commitObjectId ≤ 66 := by
    unfold jsonOptionLength
    cases review.commitObjectId <;> cases format <;> simp [objectIdLength]
  have pathHex : jsonOptionLength (fun path : GitPath => 2 * path.length + 2) review.path ≤ 8194 := by
    unfold jsonOptionLength
    cases found : review.path with
    | none => decide
    | some found' =>
        have short := path found' found
        have limit : ReadLimits.default.maxPathBytes = 4096 := rfl
        simp only [Option.map_some, Option.getD_some]
        omega
  have side : jsonOptionLength (fun side => jsonStringLength (ReviewSide.text side)) review.side
      ≤ 6 := by
    unfold jsonOptionLength
    cases review.side with
    | none => decide
    | some side => cases side <;> decide
  have line : jsonOptionLength jsonNumberLength review.line ≤ 19 := by
    unfold jsonOptionLength
    cases found : review.line with
    | none => decide
    | some line => exact decimal_fits (numbers.2.2 line found)
  unfold pullRequestReviewEvent jsonObjectLength maxPayloadLength
  simp only [List.map_cons, List.map_nil, List.sum_cons, List.sum_nil]
  have keys : "version".length = 7 ∧ "pull_request_id".length = 15 ∧ "number".length = 6 ∧
      "review_id".length = 9 ∧ "revision".length = 8 ∧ "body".length = 4 ∧
      "commit_object_id".length = 16 ∧ "path_hex".length = 8 ∧ "side".length = 4 ∧
      "line".length = 4 := by decide
  obtain ⟨k1, k2, k3, k4, k5, k6, k7, k8, k9, k10⟩ := keys
  rw [k1, k2, k3, k4, k5, k6, k7, k8, k9, k10]
  omega

/-- What the service stores for a comment. -/
def storedComment (owner repository actor body : String) (p : PullRequest)
    (r : PullRequestRevision) (path : GitPath) (side : ReviewSide) (number : Nat)
    (createdAt : Int) : NewPullRequestReview where
  owner
  repository
  number := p.number
  revision := r.number
  actor
  kind := .lineComment
  body
  commitObjectId := some (r.commit side)
  path := some path
  side := some side
  line := some number
  createdAt

theorem Offered.reviews
    (offered : Offered stored gix w w' owner repository actor p r objects c createdAt)
    (comment : CommentBody body)
    (path : file.path ≠ [] ∧ file.path.length ≤ ReadLimits.default.maxPathBytes ∧
      (0 : UInt8) ∉ file.path)
    (positive : 1 ≤ number) (fits : (number : Int) ≤ maxI64) :
    w'.db.Reviews
      (storedComment owner repository actor body p r file.path side number createdAt) p r := by
  obtain ⟨access, actorId, accessed, readable, active, found⟩ := offered.access
  have member := (Database.mem_of_numbered found).1
  have checkedRow := PullRequest.check_iff.mp (w'.db.pullRequests.checked p member)
  have created : 0 ≤ createdAt := le_trans checkedRow.1.2 offered.since
  have size := comment.1
  unfold validBody at size
  rw [Bool.and_eq_true, decide_eq_true_eq] at size
  have bodySize : body.utf8ByteSize ≤ 262144 := size.1
  have someBody : 1 ≤ body.utf8ByteSize := by
    by_contra none
    have empty : body = "" := String.utf8ByteSize_eq_zero_iff.mp (by omega)
    have blank := comment.2
    rw [empty] at blank
    cases blank
  have pathSize : 1 ≤ file.path.length := List.length_pos_of_ne_nil path.1
  have limit : ReadLimits.default.maxPathBytes = 4096 := rfl
  have pathFits : file.path.length ≤ 4096 := limit ▸ path.2.1
  refine ⟨⟨access, actorId, accessed, readable, active, found, ?_, ?_⟩, offered.isOpen,
    offered.revision, fun _ => ?_, offered.since⟩
  · simp [Schema.check, Database.reviewRow, storedComment, PullRequestReview.anchored,
      bytesBetween, bodySize, someBody, pathSize, pathFits, path.2.2, positive, created]
  · refine payload_fits comment.1 ?_ ⟨offered.numbers.1, offered.numbers.2, ?_⟩
    · intro q same
      obtain rfl := Option.some.inj same
      exact path.2.1
    · intro line same
      obtain rfl := Option.some.inj same
      exact fits
  · exact anchoredAt_iff.mpr ⟨side, rfl, rfl⟩

/-- **A comment on a line that the file of its commit has is accepted, and means that line.** -/
theorem Offered.accepts
    (offered : Offered stored gix w w' owner repository actor p r objects c createdAt)
    (comment : CommentBody body) (member : file ∈ c.files) (isText : file.binary = false)
    (exists' : (sideId file side).isSome = true)
    (read : blob ReadLimits.default objects (r.commit side) file.path = .ok data)
    {text : Bytes} (found : lineAt data number = some text) (fits : (number : Int) ≤ maxI64) :
    Accepts stored gix w w' owner repository actor body p r objects file.path side number createdAt
      text := by
  have path := blob_path read
  have range := lineAt_range found
  have reviews := (@Offered.reviews _ _ _ _ _ _ _ _ _ _ _ _ _ _ side) offered comment path range.1 fits
  obtain ⟨db', actorId, stores, row⟩ := Database.createPullRequestReview_succeeds reviews
  refine ⟨db', _, _, data, ?_, row, rfl, rfl, rfl, rfl, rfl, read, found⟩
  obtain ⟨access, -, accessed, readable, -, numbered⟩ := offered.access
  have valid := (@validateReview_lineComment owner repository actor _ p r _ side) comment range.1 path
  have anchored := (@anchorCommit_of _ owner repository actor body p)
    (comparison_lists offered.compared) offered.compared member isText
    exists' read range
  have reads : w'.db.pullRequest owner repository p.number (some actor) = .ok p := by
    unfold Database.pullRequest
    simp only [accessed, ok_bind, ensure_of readable, numbered, required_some]
  have recovered : reviewRecovered stored gix w'.db
      (lineComment owner repository actor body p r file.path side number) createdAt =
        .ok (db', w'.db.pullRequestReviews.nextRowid) := by
    have commit : reviewCommit stored gix p r
        (lineComment owner repository actor body p r file.path side number) =
          .ok (some (r.commit side)) := by
      unfold reviewCommit
      simp only [lineComment] at anchored ⊢
      rw [offered.stored, required_some, ok_bind, anchored]
      rfl
    unfold reviewRecovered
    simp only [lineComment] at commit ⊢
    rw [reads]
    simp only [readStore, ok_bind, ensure_of offered.isOpen, offered.revision, required_some,
      commit]
    show readStore (w'.db.createPullRequestReview (storedComment owner repository actor body p r
      file.path side number createdAt)) = _
    rw [stores]
    rfl
  have numbers : ¬(p.number < 1 ∨ r.number < 1) := by
    obtain ⟨hr, -⟩ := Table.mem_of_find offered.revision
    have ofRevision := w'.db.pullRequestRevisions.checked r hr
    have ofRow := w'.db.pullRequests.checked p (Database.mem_of_numbered numbered).1
    simp only [Schema.check, Bool.and_eq_true, decide_eq_true_eq] at ofRevision ofRow
    omega
  have context : ¬validateContext owner repository actor = false := by
    rw [offered.context]
    exact Bool.noConfusion
  unfold review
  rw [valid, offered.recovered]
  show (if validateContext owner repository actor = false then _
    else if p.number < 1 ∨ r.number < 1 then _ else _) = _
  rw [if_neg context, if_neg numbers]
  simp only [recovered]
  rfl

/-! ## What is shown -/

/-- The hunks of a file, as the library makes them of its two versions. -/
def fileHunks (gix : Gix) (file : DiffFile) : List Hunk :=
  gix.hunks (sideData file .base) (sideData file .head)

theorem Offered.shown
    (offered : Offered stored gix w w' owner repository actor p r objects c createdAt)
    (correct : CorrectHunks gix) (member : file ∈ c.files) (isText : file.binary = false) :
    file.hunks = unlines ((fileHunks gix file).flatMap Hunk.textLines) ∧
      (∀ h ∈ fileHunks gix file, Plain h ∧ HunkOf h (sideData file .base) (sideData file .head)) ∧
      (∀ side, PlainText (sideData file side)) ∧
      ∀ side number text, lineAt (sideData file side) number = some text →
        (sideId file side).isSome = true := by
  obtain ⟨v, versions⟩ := (comparison_lists offered.compared).versions file member
  have data : ∀ side, sideData file side = pick side v.oldData v.newData := by
    intro side
    rw [versions]
    cases side with
    | base =>
        cases old : v.old with
        | none =>
            have none := diffBlob_none (old ▸ v.readOld)
            simp [sideData, pick, Versions.file, old, none]
        | some file => simp [sideData, pick, Versions.file, old]
    | head =>
        cases new : v.new with
        | none =>
            have none := diffBlob_none (new ▸ v.readNew)
            simp [sideData, pick, Versions.file, new, none]
        | some file => simp [sideData, pick, Versions.file, new]
  have small : ∀ side, (pick side v.oldData v.newData).length ≤
      ReadLimits.default.maxBlobBytes := by
    intro side
    cases side with
    | base => exact diffBlob_length v.readOld
    | head => exact diffBlob_length v.readNew
  have plain : ∀ side, PlainText (sideData file side) := by
    intro side
    refine ⟨data side ▸ small side, ?_⟩
    unfold sideData
    cases found : pick side file.oldData file.newData with
    | none => exact List.not_mem_nil
    | some data => exact offered.noReturn file member side data found
  have hunks : file.hunks = unlines ((fileHunks gix file).flatMap Hunk.textLines) := by
    unfold fileHunks
    rw [data .base, data .head]
    have text : isBinary v.old v.new v.oldData v.newData = false := by
      rw [versions] at isText
      exact isText
    rw [versions]
    show (if isBinary v.old v.new v.oldData v.newData = true then _ else _) = _
    rw [text]
    rfl
  refine ⟨hunks, fun h inside => ?_, plain, fun side number text found => ?_⟩
  · have of := correct _ _ h inside
    refine ⟨of.plain fun side => ?_, of⟩
    cases side with
    | base => exact plain .base
    | head => exact plain .head
  · rw [data] at found
    rw [versions]
    exact sideId_isSome found

/-- Every comment that the page offers is accepted and means the line that was shown. -/
def MeansShown (stored : Identifier → Option Objects) (gix : Gix) (w w' : World)
    (owner repository actor body : String) (p : PullRequest) (r : PullRequestRevision)
    (objects : Objects) (c : Comparison) (createdAt : Int) : Prop :=
  ∀ file ∈ c.files, file.binary = false → ∀ view ∈ parseDiffLines file.hunks,
    ∀ side anchor, view.anchor side = some anchor →
      ∃ number, parseReviewAnchor anchor = some (some (side, number)) ∧
        Accepts stored gix w w' owner repository actor body p r objects file.path side number
          createdAt view.text

/-- On the lines of the hunks, the file of the commit of a side is the file that was compared. -/
def SameLines (gix : Gix) (objects : Objects) (r : PullRequestRevision) (c : Comparison) : Prop :=
  ∀ file ∈ c.files, file.binary = false → ∀ side number text,
    Shows (fileHunks gix file) side number text →
      ∃ data, blob ReadLimits.default objects (r.commit side) file.path = .ok data ∧
        lineAt data number = lineAt (sideData file side) number

/-- **The comments that the page offers mean what it shows exactly if, on the lines of the
hunks, the files of the base and head commits are the files that were compared.** -/
theorem review_means_shown_iff
    (offered : Offered stored gix w w' owner repository actor p r objects c createdAt)
    (correct : CorrectHunks gix) (comment : CommentBody body) :
    MeansShown stored gix w w' owner repository actor body p r objects c createdAt ↔
      SameLines gix objects r c := by
  have numbered : ∀ file ∈ c.files, file.binary = false → ∀ side number text,
      Shows (fileHunks gix file) side number text →
        lineAt (sideData file side) number = some text ∧ 1 ≤ number ∧ (number : Int) ≤ maxI64 := by
    intro file member isText side number text shows'
    obtain ⟨-, hunks, plain, -⟩ := offered.shown correct member isText
    obtain ⟨h, inside, k, found, rfl⟩ := shows'
    have line : lineAt (sideData file side) (sideStart h side + k) = some text := by
      have here := (hunks h inside).2.line side k text found
      cases side <;> exact here
    have range := lineAt_range line
    have short := length_lines_le (sideData file side)
    have small := (plain side).small
    have limit : ReadLimits.default.maxBlobBytes = 16777216 := rfl
    refine ⟨line, range.1, ?_⟩
    unfold maxI64
    omega
  constructor
  · intro means file member isText side number text shows'
    obtain ⟨text', hunks, -, -⟩ := offered.shown correct member isText
    obtain ⟨line, positive, fits⟩ := numbered file member isText side number text shows'
    obtain ⟨view, inside, anchored, sameText⟩ :=
      (shown_iff (fun h inside => (hunks h inside).1) side (anchorText side number) text).mpr
        ⟨number, shows', rfl⟩
    rw [← text'] at inside
    obtain ⟨number', parsed, _, _, _, data, -, -, -, -, -, -, -, read, found⟩ :=
      means file member isText view inside side _ anchored
    rw [parseReviewAnchor_anchor positive fits] at parsed
    obtain ⟨-, rfl⟩ := Prod.mk.inj (Option.some.inj (Option.some.inj parsed))
    exact ⟨data, read, by rw [found, line, sameText]⟩
  · intro same file member isText view inside side anchor anchored
    obtain ⟨text', hunks, -, exists'⟩ := offered.shown correct member isText
    rw [text'] at inside
    obtain ⟨number, shows', rfl⟩ :=
      (shown_iff (fun h inside => (hunks h inside).1) side anchor view.text).mp
        ⟨view, inside, anchored, rfl⟩
    obtain ⟨line, positive, fits⟩ := numbered file member isText side number _ shows'
    obtain ⟨data, read, sameLine⟩ := same file member isText side number _ shows'
    refine ⟨number, parseReviewAnchor_anchor positive fits, ?_⟩
    exact offered.accepts comment member isText (exists' side number _ line) read
      (sameLine.trans line) fits

end Main

/-! Pole: the base branch got a line above the one that the pull request changes.  The hunks of
this library remove every old line and add every new one. -/

def rewriteHunks (old new : Bytes) : List Hunk :=
  if old = new then []
  else
    [{ oldStart := if lines old = [] then 0 else 1
       oldCount := (lines old).length
       newStart := if lines new = [] then 0 else 1
       newCount := (lines new).length
       lines := (lines old).map (fun text => (.deletion, text)) ++
        (lines new).map fun text => (.addition, text) }]

def rewriting : Gix where
  mergeBase _ _ := .ok (some ⟨1⟩)
  hunks := rewriteHunks
  conflicts _ _ := .ok false

theorem rewriting_correct : CorrectHunks rewriting := by
  intro old new h member
  unfold rewriting rewriteHunks at member
  simp only at member
  split at member
  · cases member
  · obtain rfl := List.mem_singleton.mp member
    have base : sideLines .base ((lines old).map (fun text => (LineKind.deletion, text)) ++
        (lines new).map fun text => (LineKind.addition, text)) = lines old := by
      simp [sideLines, onSide, List.filter_map, Function.comp_def]
    have head : sideLines .head ((lines old).map (fun text => (LineKind.deletion, text)) ++
        (lines new).map fun text => (LineKind.addition, text)) = lines new := by
      simp [sideLines, onSide, List.filter_map, Function.comp_def]
    have first : ∀ data : Bytes, ∀ k text, (lines data)[k]? = some text →
        lineAt data ((if lines data = [] then 0 else 1) + k) = some text := by
      intro data k text found
      have some : lines data ≠ [] := by
        intro none
        rw [none] at found
        cases found
      rw [if_neg some, lineAt, if_neg (by omega), Nat.add_sub_cancel_left]
      exact found
    have start : ∀ data : Bytes, (if lines data = [] then 0 else 1) ≤ (lines data).length + 1 := by
      intro data
      split <;> omega
    constructor
    · intro side k text found
      cases side with
      | base => exact first old k text (base ▸ found)
      | head => exact first new k text (head ▸ found)
    · intro side
      cases side with
      | base => exact start old
      | head => exact start new

def entryA (id : Nat) : TreeEntry where
  mode := ⟨0o100644⟩
  filename := asciiBytes "a"
  oid := ⟨id⟩

/-- Commit 1 has the line `x` in the file `a`.  On the base branch commit 2 has `y` above it, and
on the topic branch commit 3 has `z` instead. -/
def divergedObjects : Objects
  | ⟨1⟩ => some (.commit 0 (.ok (⟨11⟩, [], [])))
  | ⟨2⟩ => some (.commit 0 (.ok (⟨12⟩, [⟨1⟩], [])))
  | ⟨3⟩ => some (.commit 0 (.ok (⟨13⟩, [⟨1⟩], [])))
  | ⟨11⟩ => some (.tree 0 (.ok [entryA 21]))
  | ⟨12⟩ => some (.tree 0 (.ok [entryA 22]))
  | ⟨13⟩ => some (.tree 0 (.ok [entryA 23]))
  | ⟨21⟩ => some (.blob (asciiBytes "x\n"))
  | ⟨22⟩ => some (.blob (asciiBytes "y\nx\n"))
  | ⟨23⟩ => some (.blob (asciiBytes "z\n"))
  | _ => none

def topicRequest : PullRequest where
  id := 1
  repositoryId := 1
  number := 1
  title := "t"
  body := ""
  state := .open
  authorAccountId := 1
  baseRef := asciiBytes "refs/heads/main"
  headRef := asciiBytes "refs/heads/topic"
  baseObjectId := ⟨2⟩
  headObjectId := ⟨3⟩
  createdAt := 0
  updatedAt := 0

def topicRevision : PullRequestRevision where
  id := 1
  pullRequestId := 1
  number := 1
  authorAccountId := 1
  baseObjectId := ⟨2⟩
  headObjectId := ⟨3⟩
  createdAt := 0

def topicWorld : World where
  db :=
    { Database.oneRepository with
      pullRequests := ⟨[topicRequest], by decide, by decide⟩
      pullRequestRevisions := ⟨[topicRevision], by decide, by decide⟩ }
  refs _ := none
  call := none

/-- The comparison shows that `x` becomes `z`. -/
def topicFile : DiffFile where
  path := asciiBytes "a"
  oldId := some ⟨21⟩
  newId := some ⟨23⟩
  oldMode := some ⟨0o100644⟩
  newMode := some ⟨0o100644⟩
  binary := false
  hunks := asciiBytes "@@ -1,1 +1,1 @@\n-x\n+z\n"
  oldData := some (asciiBytes "x\n")
  newData := some (asciiBytes "z\n")

def topicComparison : Comparison where
  mergeBase := some ⟨1⟩
  commits := [{ id := ⟨3⟩, tree := ⟨13⟩, parents := [⟨1⟩], message := [] }]
  changedPaths := [asciiBytes "a"]
  files := [topicFile]
  mergeability := .clean

theorem topic_compared : comparison ReadLimits.default divergedObjects rewriting ⟨2⟩ ⟨3⟩ =
    .ok topicComparison := by
  decide +kernel

theorem topic_offered : Offered (fun _ => some divergedObjects) rewriting topicWorld topicWorld
    "alice" "tit" "alice" topicRequest topicRevision divergedObjects topicComparison 0 := by
  refine ⟨by decide, rfl, ⟨Database.aliceAccess, 1, by decide, by decide, rfl,
    by decide⟩, rfl, by decide, rfl, topic_compared, by decide, by decide, ?_⟩
  intro file member side data found
  obtain rfl := List.mem_singleton.mp member
  cases side <;> cases found <;> decide

theorem topic_means_shown :
    MeansShown (fun _ => some divergedObjects) rewriting topicWorld topicWorld "alice" "tit"
        "alice" "see here" topicRequest topicRevision divergedObjects topicComparison 0 ↔
      SameLines rewriting divergedObjects topicRevision topicComparison :=
  review_means_shown_iff topic_offered rewriting_correct ⟨by decide, by decide⟩

/-- The comment on `x` is accepted, and stored with a line that is `y`. -/
theorem review_means_other :
    (review (fun _ => some divergedObjects) rewriting topicWorld
      (lineComment "alice" "tit" "alice" "see here" topicRequest topicRevision (asciiBytes "a")
        .base 1) 0).2 = .ok 1 ∧
      blob ReadLimits.default divergedObjects (topicRevision.commit .base) (asciiBytes "a") =
        .ok (asciiBytes "y\nx\n") ∧
      ¬MeansShown (fun _ => some divergedObjects) rewriting topicWorld topicWorld "alice" "tit"
        "alice" "see here" topicRequest topicRevision divergedObjects topicComparison 0 := by
  have read : blob ReadLimits.default divergedObjects (topicRevision.commit .base)
      (asciiBytes "a") = .ok (asciiBytes "y\nx\n") := by
    decide
  refine ⟨by decide, read, fun means => ?_⟩
  have view : ∃ view ∈ parseDiffLines topicFile.hunks,
      view.anchor .base = some (asciiBytes "base:1") ∧ view.text = asciiBytes "x" :=
    ⟨diffContentLine .deletion (asciiBytes "x") (some 1) none, by decide,
      by decide, rfl⟩
  obtain ⟨view, inside, anchored, shown⟩ := view
  obtain ⟨number, parsed, _, _, _, data, -, -, -, -, -, -, -, read', found⟩ :=
    means topicFile List.mem_cons_self rfl view inside .base _ anchored
  have one : parseReviewAnchor (asciiBytes "base:1") = some (some (.base, 1)) := by decide
  rw [one] at parsed
  obtain ⟨-, rfl⟩ := Prod.mk.inj (Option.some.inj (Option.some.inj parsed))
  obtain rfl := Except.ok.inj (read.symm.trans read')
  rw [shown] at found
  have other : lineAt (asciiBytes "y\nx\n") 1 ≠ some (asciiBytes "x") := by decide
  exact other found

end Tit.PullRequests
