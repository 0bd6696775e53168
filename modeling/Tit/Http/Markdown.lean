/-
# Http.Markdown -- the filter between the Markdown parser and the page

The parser hands over a flat stream of events; the filter drops raw HTML, the tags of images and
the tags of links that are not safe, each alone as it comes, with one flag that remembers a link
whose start it has dropped.  On the stream of a document whose links do not contain links this is
the transformation of the document itself: what is dropped is dropped with its own end, what was
inside stays in its place, and every link that is left is safe (`filter_flatten`,
`rendered_document`).

Pole: where a link stands in a link, the flag forgets the outer one and an end is left over.
-/
import Tit.Policy.MetadataSearch

namespace Tit.Markdown

open Tit.Policy

set_option autoImplicit false

/-! ## Events -/

/-- A link or an image; `κ` is the type of what else its tag carries. -/
structure Link (κ : Type) where
  destUrl : String
  data : κ
  deriving DecidableEq, Repr

/-- The tags that the filter tells apart; `τ` is the type of the others. -/
inductive Tag (κ τ : Type) where
  | link (link : Link κ)
  | image (image : Link κ)
  | other (tag : τ)
  deriving DecidableEq, Repr

inductive TagEnd (τ : Type) where
  | link
  | image
  | other (tag : τ)
  deriving DecidableEq, Repr

/-- The end that the parser sends for a tag. -/
def Tag.toEnd {κ τ : Type} : Tag κ τ → TagEnd τ
  | .link _ => .link
  | .image _ => .image
  | .other tag => .other tag

/-- An event that is neither a start nor an end; `ν` is the type of those that pass. -/
inductive Leaf (ν : Type) where
  | html (text : String)
  | inlineHtml (text : String)
  | other (leaf : ν)
  deriving DecidableEq, Repr

inductive Event (κ τ ν : Type) where
  | start (tag : Tag κ τ)
  | «end» (tag : TagEnd τ)
  | leaf (leaf : Leaf ν)
  deriving DecidableEq, Repr

/-! ## Links -/

inductive ParseError where
  | relativeUrlWithoutBase
  | other
  deriving DecidableEq, Repr

/-- The `url` crate. -/
structure UrlLibrary (υ : Type) where
  parse : String → Except ParseError υ
  join : υ → String → Option υ
  scheme : υ → String
  path : υ → String
  query : υ → Option String
  fragment : υ → Option String

/-- `str::starts_with`. -/
def startsWith (text start : String) : Bool := start.toList.isPrefixOf text.toList

section Links

variable {υ : Type} (urls : UrlLibrary υ)

def safeLink (destination : String) : Bool :=
  if trimQuery destination ≠ destination ∨ destination.toList.any isControlCharacter = true ∨
      destination.toList.any (fun c => decide (c = '\\')) = true ∨
      startsWith destination "//" = true then false
  else
    match urls.parse destination with
    | .ok url => decide (urls.scheme url = "http" ∨ urls.scheme url = "https" ∨
        urls.scheme url = "mailto")
    | .error error => decide (error = .relativeUrlWithoutBase)

/-- The link with its query and its fragment behind the path. -/
def linkOf (url : υ) : String :=
  urls.path url ++ ((urls.query url).map fun query => "?" ++ query).getD "" ++
    ((urls.fragment url).map fun fragment => "#" ++ fragment).getD ""

/-- `None` where the destination or the base does not join, or leaves the base. -/
def resolveRepositoryLink (destination base : String) : Option String :=
  if (urls.parse destination).isOk || startsWith destination "/" || startsWith destination "#" ||
      startsWith destination "?" then some destination
  else do
    let origin ← (urls.parse "https://tit.invalid/").toOption
    let base ← urls.join origin base
    let resolved ← urls.join base destination
    if startsWith (urls.path resolved) (urls.path base) then some (linkOf urls resolved) else none

/-- Where a link leads on the page; `none` for a link that is dropped. -/
def destination (base : Option String) (link : String) : Option String :=
  if safeLink urls link then base.elim (some link) (resolveRepositoryLink urls link) else none

end Links

/-! ## The filter -/

section Filter

variable {υ κ τ ν : Type} (urls : UrlLibrary υ) (base : Option String)

/-- One call of the closure: the flag behind the event, and what it passes on. -/
def filterEvent (skippedLink : Bool) : Event κ τ ν → Bool × Option (Event κ τ ν)
  | .start (.link link) =>
      match destination urls base link.destUrl with
      | some destUrl => (skippedLink, some (.start (.link { link with destUrl })))
      | none => (true, none)
  | .end .link => if skippedLink then (false, none) else (skippedLink, some (.end .link))
  | .start (.image _) => (skippedLink, none)
  | .end .image => (skippedLink, none)
  | .leaf (.html _) => (skippedLink, none)
  | .leaf (.inlineHtml _) => (skippedLink, none)
  | event => (skippedLink, some event)

/-- `filter_map`, with the flag as it is before the first event. -/
def filterEvents : Bool → List (Event κ τ ν) → List (Event κ τ ν)
  | _, [] => []
  | skippedLink, event :: rest =>
      let (skippedLink, passed) := filterEvent urls base skippedLink event
      passed.toList ++ filterEvents skippedLink rest

end Filter

/-! ## Documents -/

/-- A sequence of leaves and elements: the first one, and what comes behind it. -/
inductive Document (κ τ ν : Type) where
  | nil
  | leaf (leaf : Leaf ν) (next : Document κ τ ν)
  | element (tag : Tag κ τ) (inner next : Document κ τ ν)

namespace Document

variable {υ κ τ ν : Type}

def append : Document κ τ ν → Document κ τ ν → Document κ τ ν
  | .nil, later => later
  | .leaf here next, later => .leaf here (next.append later)
  | .element tag inner next, later => .element tag inner (next.append later)

/-- The stream that the parser sends for a document. -/
def flatten : Document κ τ ν → List (Event κ τ ν)
  | .nil => []
  | .leaf here next => .leaf here :: next.flatten
  | .element tag inner next =>
      .start tag :: inner.flatten ++ .end tag.toEnd :: next.flatten

/-- The links of a document, in their order. -/
def links : Document κ τ ν → List (Link κ)
  | .nil => []
  | .leaf _ next => next.links
  | .element (.link link) inner next => link :: (inner.links ++ next.links)
  | .element (.image _) inner next => inner.links ++ next.links
  | .element (.other _) inner next => inner.links ++ next.links

/-- What a document says apart from its tags and raw HTML. -/
def contents : Document κ τ ν → List ν
  | .nil => []
  | .leaf (.other here) next => here :: next.contents
  | .leaf _ next => next.contents
  | .element _ inner next => inner.contents ++ next.contents

/-- There is no link in a link. -/
def LinksApart : Document κ τ ν → Prop
  | .nil => True
  | .leaf _ next => next.LinksApart
  | .element (.link _) inner next => inner.links = [] ∧ next.LinksApart
  | .element _ inner next => inner.LinksApart ∧ next.LinksApart

/-- There is no raw HTML and no image left. -/
def Plain : Document κ τ ν → Prop
  | .nil => True
  | .leaf (.other _) next => next.Plain
  | .leaf _ _ => False
  | .element (.image _) _ _ => False
  | .element _ inner next => inner.Plain ∧ next.Plain

/-- The document without raw HTML, images and links that lead nowhere; their texts stay. -/
def clean (urls : UrlLibrary υ) (base : Option String) : Document κ τ ν → Document κ τ ν
  | .nil => .nil
  | .leaf (.other here) next => .leaf (.other here) (next.clean urls base)
  | .leaf _ next => next.clean urls base
  | .element (.link link) inner next =>
      match destination urls base link.destUrl with
      | some destUrl =>
          .element (.link { link with destUrl }) (inner.clean urls base) (next.clean urls base)
      | none => (inner.clean urls base).append (next.clean urls base)
  | .element (.image _) inner next => (inner.clean urls base).append (next.clean urls base)
  | .element (.other tag) inner next =>
      .element (.other tag) (inner.clean urls base) (next.clean urls base)

/-! ## The filter on a document -/

section Append

variable (first later : Document κ τ ν)

theorem flatten_append : (first.append later).flatten = first.flatten ++ later.flatten := by
  induction first with
  | nil => rfl
  | leaf here next ih => simp [append, flatten, ih]
  | element tag inner next _ ih => simp [append, flatten, ih]

theorem links_append : (first.append later).links = first.links ++ later.links := by
  induction first with
  | nil => rfl
  | leaf here next ih => simp [append, links, ih]
  | element tag inner next _ ih => cases tag <;> simp [append, links, ih]

theorem contents_append : (first.append later).contents = first.contents ++ later.contents := by
  induction first with
  | nil => rfl
  | leaf here next ih => cases here <;> simp [append, contents, ih]
  | element tag inner next _ ih => simp [append, contents, ih]

variable {first later} in
theorem Plain.append (here : first.Plain) (there : later.Plain) : (first.append later).Plain := by
  induction first with
  | nil => exact there
  | leaf event next ih =>
      cases event with
      | html => exact here.elim
      | inlineHtml => exact here.elim
      | other => exact ih here
  | element tag inner next _ ih =>
      cases tag with
      | link => exact ⟨here.1, ih here.2⟩
      | image => exact here.elim
      | other => exact ⟨here.1, ih here.2⟩

end Append

/-- Without links there is no link in a link. -/
theorem linksApart_of_linkless {d : Document κ τ ν} (linkless : d.links = []) : d.LinksApart := by
  induction d with
  | nil => trivial
  | leaf here next ih => exact ih linkless
  | element tag inner next ihInner ihNext =>
      cases tag with
      | link link => cases linkless
      | image image =>
          obtain ⟨here, there⟩ := List.append_eq_nil_iff.mp linkless
          exact ⟨ihInner here, ihNext there⟩
      | other tag =>
          obtain ⟨here, there⟩ := List.append_eq_nil_iff.mp linkless
          exact ⟨ihInner here, ihNext there⟩

variable (urls : UrlLibrary υ) (base : Option String)

theorem contents_clean (d : Document κ τ ν) : (d.clean urls base).contents = d.contents := by
  induction d with
  | nil => rfl
  | leaf here next ih => cases here <;> simp [clean, contents, ih]
  | element tag inner next ihInner ihNext =>
      cases tag with
      | link link =>
          rw [clean]
          split
          · simp [contents, ihInner, ihNext]
          · rw [contents_append, ihInner, ihNext, contents]
      | image image => rw [clean, contents_append, ihInner, ihNext, contents]
      | other tag => simp [clean, contents, ihInner, ihNext]

theorem plain_clean (d : Document κ τ ν) : (d.clean urls base).Plain := by
  induction d with
  | nil => trivial
  | leaf here next ih =>
      cases here with
      | html text => exact ih
      | inlineHtml text => exact ih
      | other here => exact ih
  | element tag inner next ihInner ihNext =>
      cases tag with
      | link link =>
          rw [clean]
          split
          · exact ⟨ihInner, ihNext⟩
          · exact ihInner.append ihNext
      | image image => exact ihInner.append ihNext
      | other tag => exact ⟨ihInner, ihNext⟩

/-- The links that are left are those that lead somewhere, in their order. -/
theorem links_clean (d : Document κ τ ν) :
    (d.clean urls base).links = d.links.filterMap fun link =>
      (destination urls base link.destUrl).map fun destUrl => { link with destUrl } := by
  induction d with
  | nil => rfl
  | leaf here next ih => cases here <;> exact ih
  | element tag inner next ihInner ihNext =>
      cases tag with
      | link link =>
          rw [clean, links, List.filterMap_cons, List.filterMap_append, ← ihInner, ← ihNext]
          cases destination urls base link.destUrl with
          | some destUrl => rfl
          | none => exact links_append _ _
      | image image => rw [clean, links_append, ihInner, ihNext, links, List.filterMap_append]
      | other tag => rw [clean, links, ihInner, ihNext, links, List.filterMap_append]

/-- The flag is set in the text of a link that was dropped, where no other link is, and nowhere
else. -/
theorem filter_flatten_append {d : Document κ τ ν} {skippedLink : Bool}
    (flag : skippedLink = true → d.links = []) (apart : d.LinksApart)
    (rest : List (Event κ τ ν)) :
    filterEvents urls base skippedLink (d.flatten ++ rest) =
      (d.clean urls base).flatten ++ filterEvents urls base skippedLink rest := by
  induction d generalizing skippedLink rest with
  | nil => rfl
  | leaf here next ih =>
      have step := ih flag apart rest
      cases here with
      | html text => exact step
      | inlineHtml text => exact step
      | other here => exact congrArg (List.cons _) step
  | element tag inner next ihInner ihNext =>
      rw [flatten, List.append_assoc, List.cons_append, List.cons_append]
      have unset : false = true → inner.links = [] := fun no => absurd no Bool.false_ne_true
      have unset' : false = true → next.links = [] := fun no => absurd no Bool.false_ne_true
      cases tag with
      | link link =>
          obtain rfl : skippedLink = false := by
            cases skippedLink with
            | false => rfl
            | true => cases flag rfl
          obtain ⟨linkless, apart⟩ := apart
          have inside : inner.LinksApart := linksApart_of_linkless linkless
          have behind := ihNext unset' apart rest
          cases found : destination urls base link.destUrl with
          | some destUrl =>
              have within := ihInner unset inside (.end .link :: (next.flatten ++ rest))
              simp only [filterEvents, filterEvent, found, clean, flatten, Tag.toEnd,
                Option.toList_some, List.cons_append, List.nil_append, List.append_assoc, within,
                behind, Bool.false_eq_true, if_false]
          | none =>
              have within := @ihInner true (fun _ => linkless) inside
                (.end .link :: (next.flatten ++ rest))
              simp only [filterEvents, filterEvent, found, clean, flatten_append, Tag.toEnd,
                Option.toList_none, List.nil_append, List.append_assoc, within, behind, if_true]
      | image image =>
          have linkless : skippedLink = true → inner.links = [] ∧ next.links = [] := fun set =>
            List.append_eq_nil_iff.mp (flag set)
          have within := ihInner (fun set => (linkless set).1) apart.1
            (.end .image :: (next.flatten ++ rest))
          have behind := ihNext (fun set => (linkless set).2) apart.2 rest
          simp only [filterEvents, filterEvent, clean, flatten_append, Tag.toEnd,
            Option.toList_none, List.nil_append, List.append_assoc, within, behind]
      | other tag =>
          have linkless : skippedLink = true → inner.links = [] ∧ next.links = [] := fun set =>
            List.append_eq_nil_iff.mp (flag set)
          have within := ihInner (fun set => (linkless set).1) apart.1
            (.end (.other tag) :: (next.flatten ++ rest))
          have behind := ihNext (fun set => (linkless set).2) apart.2 rest
          simp only [filterEvents, filterEvent, clean, flatten, Tag.toEnd, Option.toList_some,
            List.cons_append, List.nil_append, List.append_assoc, within, behind]

theorem filter_flatten {d : Document κ τ ν} (apart : d.LinksApart) :
    filterEvents urls base false d.flatten = (d.clean urls base).flatten := by
  have whole := filter_flatten_append urls base (fun no => absurd no Bool.false_ne_true) apart []
  rwa [List.append_nil, filterEvents, List.append_nil] at whole

end Document

/-! ## Pages -/

def maxMarkdownBytes : Nat := 256 * 1024

def maxRenderedBytes : Nat := 1024 * 1024

def limitMessage : String := "<p>Markdown content exceeds the rendering limit.</p>\n"

/-- The Markdown parser and writer, and the sanitizer with the tags, attributes and schemes of the
page. -/
structure MarkdownLibrary (κ τ ν : Type) where
  parse : String → List (Event κ τ ν)
  pushHtml : List (Event κ τ ν) → String
  sanitize : String → String

section Pages

variable {υ κ τ ν : Type} (urls : UrlLibrary υ) (markdown : MarkdownLibrary κ τ ν)

def renderWithBase (source : String) (base : Option String) : String :=
  if maxMarkdownBytes < source.utf8ByteSize then limitMessage
  else
    let rendered := markdown.sanitize
      (markdown.pushHtml (filterEvents urls base false (markdown.parse source)))
    if maxRenderedBytes < rendered.utf8ByteSize then limitMessage else rendered

/-- The destinations that `resolve_repository_link` passes on as they are. -/
def Absolute (written : String) : Prop :=
  (urls.parse written).isOk = true ∨ startsWith written "/" = true ∨
    startsWith written "#" = true ∨ startsWith written "?" = true

/-- Where a link of a page leads: where it was written to lead, or below the base. -/
def Leads (base : Option String) (written destUrl : String) : Prop :=
  base.elim (destUrl = written) fun base =>
    (Absolute urls written ∧ destUrl = written) ∨
      ∃ origin inside resolved, urls.join origin base = some inside ∧
        urls.join inside written = some resolved ∧
        startsWith (urls.path resolved) (urls.path inside) = true ∧ destUrl = linkOf urls resolved

theorem destination_leads {base : Option String} {written destUrl : String}
    (found : destination urls base written = some destUrl) :
    safeLink urls written = true ∧ Leads urls base written destUrl := by
  unfold destination at found
  split at found
  · rename_i safe
    refine ⟨safe, ?_⟩
    cases base with
    | none => exact (Option.some.inj found).symm
    | some base =>
        have found : resolveRepositoryLink urls written base = some destUrl := found
        unfold resolveRepositoryLink at found
        split at found
        · rename_i absolute
          simp only [Bool.or_eq_true] at absolute
          refine .inl ⟨?_, (Option.some.inj found).symm⟩
          rcases absolute with ((ok | root) | anchor) | query
          · exact .inl ok
          · exact .inr (.inl root)
          · exact .inr (.inr (.inl anchor))
          · exact .inr (.inr (.inr query))
        · obtain ⟨origin, -, found⟩ := Option.bind_eq_some_iff.mp found
          obtain ⟨inside, joined, found⟩ := Option.bind_eq_some_iff.mp found
          obtain ⟨resolved, resolves, found⟩ := Option.bind_eq_some_iff.mp found
          split at found
          · rename_i below
            exact .inr ⟨origin, inside, resolved, joined, resolves, below,
              (Option.some.inj found).symm⟩
          · cases found
  · cases found

/-- **What is shown of a document is the document without raw HTML, images and the links that are
not safe: each element whole, all other contents and all other links in their places, and every
link where it was written to lead or, in a repository, below the base.** -/
theorem rendered_document {source : String} {base : Option String} {d : Document κ τ ν}
    (parsed : markdown.parse source = d.flatten) (apart : d.LinksApart) :
    (renderWithBase urls markdown source base =
      if maxMarkdownBytes < source.utf8ByteSize ∨ maxRenderedBytes <
          (markdown.sanitize (markdown.pushHtml (d.clean urls base).flatten)).utf8ByteSize
      then limitMessage else markdown.sanitize (markdown.pushHtml (d.clean urls base).flatten)) ∧
    (d.clean urls base).Plain ∧ (d.clean urls base).contents = d.contents ∧
    ((d.clean urls base).links = d.links.filterMap fun link =>
      (destination urls base link.destUrl).map fun destUrl => { link with destUrl }) ∧
    ∀ link ∈ (d.clean urls base).links, ∃ written ∈ d.links,
      safeLink urls written.destUrl = true ∧ Leads urls base written.destUrl link.destUrl := by
  refine ⟨?_, Document.plain_clean urls base d, Document.contents_clean urls base d,
    Document.links_clean urls base d, fun link left => ?_⟩
  · rw [renderWithBase, parsed, Document.filter_flatten urls base apart]
    by_cases long : maxMarkdownBytes < source.utf8ByteSize
    · rw [if_pos long, if_pos (.inl long)]
    · rw [if_neg long]
      by_cases large : maxRenderedBytes <
          (markdown.sanitize (markdown.pushHtml (d.clean urls base).flatten)).utf8ByteSize
      · exact (if_pos large).trans (if_pos (Or.inr large)).symm
      · exact (if_neg large).trans (if_neg (not_or.mpr ⟨long, large⟩)).symm
  · rw [Document.links_clean] at left
    obtain ⟨written, member, passed⟩ := List.mem_filterMap.mp left
    obtain ⟨destUrl, found, rfl⟩ := Option.map_eq_some_iff.mp passed
    exact ⟨written, member, destination_leads urls found⟩

end Pages

/-! Poles: a script behind a link and an image, and a link in a link. -/

def schemes : UrlLibrary String where
  parse text :=
    if startsWith text "javascript:" then .ok "javascript"
    else if startsWith text "https:" then .ok "https"
    else .error .relativeUrlWithoutBase
  join _ _ := none
  scheme url := url
  path _ := "/"
  query _ := none
  fragment _ := none

def script : Link Unit := ⟨"javascript:alert(3)", ()⟩

def paragraph : Document Unit String String :=
  .element (.other "p")
    (.element (.link script) (.leaf (.other "bad") .nil)
      (.leaf (.other " ")
        (.element (.image ⟨"https://tracker.example/pixel", ()⟩) (.leaf (.other "alt") .nil) .nil)))
    .nil

def written : Event Unit String String → String
  | .start (.other tag) => "<" ++ tag ++ ">"
  | .end (.other tag) => "</" ++ tag ++ ">"
  | .leaf (.other text) => text
  | _ => ""

def words : MarkdownLibrary Unit String String where
  parse _ := paragraph.flatten
  pushHtml events := events.foldl (fun text event => text ++ written event) ""
  sanitize text := text

theorem rendered_document_script :
    renderWithBase schemes words
      "[bad](javascript:alert(3)) ![alt](https://tracker.example/pixel)" none =
        "<p>bad alt</p>" := by
  have whole := @rendered_document String Unit String String schemes words
    "[bad](javascript:alert(3)) ![alt](https://tracker.example/pixel)" none paragraph rfl
    ⟨⟨rfl, trivial, trivial⟩, trivial⟩
  rw [whole.1]
  decide +kernel

/-- The flag forgets the outer of two links, and an end is left over. -/
example :
    filterEvents schemes none false (Document.element (.link script)
      (.element (.link script) (.leaf (.other "in") .nil) .nil) .nil :
        Document Unit String String).flatten = [.leaf (.other "in"), .end .link] := by
  decide +kernel

end Tit.Markdown
