/-
# Policy.MetadataSearch -- the search over the repositories

`MetadataSearchService::search` looks at the repositories that the actor can see, in their order,
and keeps those whose name contains the query, until it reaches one of its limits.  Nothing that it
skips is lost without notice: the results are those of the candidates it got to
(`search_exact`), and unless it says that it stopped early these are all of them (`search_complete`).

Lower case is a function of the whole of Unicode, here a parameter; `expired` says for each candidate
whether the time is over when it comes.
-/
import Tit.Policy.Agreement
import Mathlib.Data.List.Infix

namespace Tit.Policy

open Tit.Theory Tit.Store

set_option autoImplicit false

def maxQueryBytes : Nat := 256

def maxScanRows : Nat := 10000

def maxScanBytes : Nat := 8 * 1024 * 1024

def maxResults : Nat := 100

structure MetadataSearchResult where
  url : String
  title : String
  summary : String
  stableId : Identifier
  deriving DecidableEq, Repr

structure MetadataSearchOutcome where
  query : String
  rowsScanned : Nat
  bytesScanned : Nat
  truncated : Bool
  results : List MetadataSearchResult
  deriving DecidableEq, Repr

/-- The stored text is UTF-8 and of a repository, so that no candidate is an error. -/
inductive MetadataSearchError where
  | auth
  | invalidQuery
  | store (error : StoreError)

/-- `char::is_whitespace`, the Unicode property `White_Space`. -/
def isWhiteSpace (c : Char) : Bool :=
  decide ((9 ≤ c.toNat ∧ c.toNat ≤ 13) ∨ c.toNat = 32 ∨ c.toNat = 0x85 ∨ c.toNat = 0xa0 ∨
    c.toNat = 0x1680 ∨ (0x2000 ≤ c.toNat ∧ c.toNat ≤ 0x200a) ∨ c.toNat = 0x2028 ∨
    c.toNat = 0x2029 ∨ c.toNat = 0x202f ∨ c.toNat = 0x205f ∨ c.toNat = 0x3000)

/-- `char::is_control`. -/
def isControlCharacter (c : Char) : Bool :=
  decide (c.toNat < 0x20 ∨ (0x7f ≤ c.toNat ∧ c.toNat < 0xa0))

/-- `str::trim`. -/
def trimQuery (query : String) : String :=
  let kept := query.toList.dropWhile isWhiteSpace
  String.ofList (kept.reverse.dropWhile isWhiteSpace).reverse

/-- `str::contains`. -/
def containsText (text needle : String) : Bool := decide (needle.toList <:+: text.toList)

/-- `result_from_candidate`; the body is empty, and so is the summary. -/
def resultFromCandidate (candidate : MetadataSearchCandidate) : MetadataSearchResult where
  url := "/" ++ candidate.owner ++ "/" ++ candidate.repository
  title := candidate.title
  summary := ""
  stableId := candidate.recordId

/-- What the closure of the search keeps; `calls` counts the candidates it was called with. -/
structure Scan where
  calls : Nat
  rowsScanned : Nat
  bytesScanned : Nat
  seen : List String
  results : List MetadataSearchResult

def Scan.start : Scan := ⟨0, 0, 0, [], []⟩

section Scans

variable (lower : String → String) (expired : Nat → Bool)

def matching (needle : String) (candidate : MetadataSearchCandidate) : Bool :=
  containsText (lower candidate.title) needle || containsText (lower "") needle

def scan (needle : String) (s : Scan) (candidate : MetadataSearchCandidate) : Scan × Bool :=
  let called := { s with calls := s.calls + 1 }
  if expired s.calls then (called, false)
  else if s.bytesScanned + candidate.title.utf8ByteSize > maxScanBytes then (called, false)
  else
    let s := { called with
      bytesScanned := s.bytesScanned + candidate.title.utf8ByteSize
      rowsScanned := s.rowsScanned + 1 }
    if !matching lower needle candidate then (s, true)
    else
      let result := resultFromCandidate candidate
      if s.seen.contains result.url then (s, true)
      else
        let s := { s with seen := result.url :: s.seen }
        if s.results.length = maxResults then (s, false)
        else ({ s with results := s.results ++ [result] }, true)

/-- `MetadataSearchService::search`. -/
def metadataSearch (db : Database) (actor : Option String) (query : String) :
    Except MetadataSearchError MetadataSearchOutcome := do
  ensure (actor.all validateUsername = true) .auth
  let query := trimQuery query
  ensure (query ≠ "" ∧ query.utf8ByteSize ≤ maxQueryBytes ∧
    query.toList.any isControlCharacter = false) .invalidQuery
  let (s, truncated) ← (db.visitMetadataSearchCandidates actor maxScanRows
    (scan lower expired (lower query)) .start).mapError .store
  pure
    { query, rowsScanned := s.rowsScanned, bytesScanned := s.bytesScanned, truncated,
      results := s.results }

end Scans

/-! ## The candidates have different addresses -/

section Addresses

variable {db : Database} {actor : Option String}

theorem slash_of_nameCheck {name : String} (checked : nameCheck name = true) :
    '/' ∉ name.toList := by
  intro member
  simp only [nameCheck, Bool.and_eq_true, List.all_eq_true] at checked
  have allowed := checked.1.1.2 _ member
  cases allowed

theorem slash_of_slugCheck {slug : String} (checked : slugCheck slug = true) :
    '/' ∉ slug.toList := by
  intro member
  simp only [slugCheck, Bool.and_eq_true, List.all_eq_true] at checked
  have allowed := checked.1.1.1.1.2 _ member
  cases allowed

theorem split_at {α : Type} {mark : α} {a b c d : List α} (first : mark ∉ a) (second : mark ∉ c)
    (same : a ++ mark :: b = c ++ mark :: d) : a = c ∧ b = d := by
  rcases List.append_eq_append_iff.mp same with ⟨middle, rfl, rest⟩ | ⟨middle, rfl, rest⟩
  · cases middle with
    | nil => exact ⟨(List.append_nil a).symm, (List.cons.inj rest).2⟩
    | cons x middle =>
        cases (List.cons.inj rest).1
        exact absurd (List.mem_append_right a List.mem_cons_self) second
  · cases middle with
    | nil => exact ⟨List.append_nil c, (List.cons.inj rest).2.symm⟩
    | cons x middle =>
        cases (List.cons.inj rest).1
        exact absurd (List.mem_append_right c List.mem_cons_self) first

/-- The address names the owner and the repository. -/
theorem url_injective {a b : MetadataSearchCandidate} (plain : '/' ∉ a.owner.toList)
    (plain' : '/' ∉ b.owner.toList)
    (same : (resultFromCandidate a).url = (resultFromCandidate b).url) :
    a.owner = b.owner ∧ a.repository = b.repository := by
  have lists : '/' :: (a.owner.toList ++ '/' :: a.repository.toList) =
      '/' :: (b.owner.toList ++ '/' :: b.repository.toList) := by
    have texts := congrArg String.toList same
    simp only [resultFromCandidate, String.toList_append] at texts
    simpa using texts
  obtain ⟨owner, repository⟩ := split_at plain plain' (List.cons.inj lists).2
  exact ⟨String.toList_inj.mp owner, String.toList_inj.mp repository⟩

theorem visibleRow_eq_some {account : Option Nat} {row : Repository} {n : Namespace}
    {r : Repository} (shown : db.visibleRow account row = some (n, r)) :
    row = r ∧ n ∈ db.namespaces ∧ n.id = r.ownerNamespaceId := by
  obtain ⟨owner, found, same⟩ := Option.map_eq_some_iff.mp shown
  cases same
  obtain ⟨got, -⟩ := Option.filter_eq_some_iff.mp found
  obtain ⟨member, owns⟩ := Table.get_eq_some.mp got
  exact ⟨rfl, member, owns⟩

/-- No two candidates have one address: the names are unique, and have no slash in them. -/
theorem searchCandidates_distinct : (db.searchCandidates actor).Pairwise fun a b =>
    (resultFromCandidate a).url ≠ (resultFromCandidate b).url := by
  refine (List.Perm.pairwise_iff (fun apart same => apart same.symm)
    (List.perm_insertionSort _ _)).mpr ?_
  rw [List.pairwise_map, List.pairwise_filterMap]
  refine db.repositories.distinct.imp ?_
  rintro row row' apart ⟨n, r⟩ shown ⟨n', r'⟩ shown' same
  obtain ⟨rfl, member, owns⟩ := visibleRow_eq_some shown
  obtain ⟨rfl, member', owns'⟩ := visibleRow_eq_some shown'
  have plain : ∀ n ∈ db.namespaces, '/' ∉ n.slug.toList := by
    intro n member
    have checked := db.namespaces.checked n member
    simp only [Schema.check, Bool.and_eq_true] at checked
    exact slash_of_nameCheck checked.1.1.1
  obtain ⟨owner, slug⟩ := url_injective (plain n member) (plain n' member') same
  have one : n = n' := Table.eq_of_clash member member' (decide_eq_true (Or.inr (Or.inl owner)))
  exact apart (decide_eq_true (Or.inr ⟨by rw [← owns, ← owns', one], slug⟩))

end Addresses

/-! ## The loop -/

section Loop

variable {lower : String → String} {expired : Nat → Bool} {needle : String}

/-- What the loop knows when it has dealt with the candidates of `done`. -/
structure Scanned (lower : String → String) (needle : String)
    (done : List MetadataSearchCandidate) (s : Scan) : Prop where
  results : s.results = (done.filter (matching lower needle)).map resultFromCandidate
  seen : ∀ url, url ∈ s.seen ↔ url ∈ s.results.map (·.url)
  few : s.results.length ≤ maxResults
  rows : s.rowsScanned = done.length
  bytes : s.bytesScanned = (done.map fun candidate => candidate.title.utf8ByteSize).sum
  small : s.bytesScanned ≤ maxScanBytes

/-- What the search keeps of a loop that has come to its end. -/
structure Stopped (lower : String → String) (needle : String) (limit : Nat)
    (done : List MetadataSearchCandidate) (s : Scan) : Prop where
  results : s.results = (done.filter (matching lower needle)).map resultFromCandidate
  few : s.results.length ≤ maxResults
  rows : s.rowsScanned ≤ limit
  small : s.bytesScanned ≤ maxScanBytes

/-- One candidate: the loop goes on with it, or stops before it. -/
theorem scan_spec {done : List MetadataSearchCandidate} {s : Scan}
    {candidate : MetadataSearchCandidate} (scanned : Scanned lower needle done s)
    (fresh : ∀ other ∈ done,
      (resultFromCandidate other).url ≠ (resultFromCandidate candidate).url) :
    (∃ s', scan lower expired needle s candidate = (s', true) ∧
      Scanned lower needle (done ++ [candidate]) s') ∨
    ∃ s', scan lower expired needle s candidate = (s', false) ∧
      ∀ limit, done.length < limit → Stopped lower needle limit done s' := by
  have unseen : ¬s.seen.contains (resultFromCandidate candidate).url = true := by
    rw [List.contains_iff_mem, scanned.seen, scanned.results]
    simp only [List.map_map, List.mem_map, List.mem_filter, Function.comp_apply]
    rintro ⟨other, ⟨member, -⟩, same⟩
    exact fresh other member same
  have stops : ∀ limit, done.length < limit →
      Stopped lower needle limit done { s with calls := s.calls + 1 } := fun limit below =>
    ⟨scanned.results, scanned.few, by rw [scanned.rows]; omega, scanned.small⟩
  unfold scan
  dsimp only
  by_cases late : expired s.calls = true
  · rw [if_pos late]
    exact Or.inr ⟨_, rfl, stops⟩
  rw [if_neg late]
  by_cases much : s.bytesScanned + candidate.title.utf8ByteSize > maxScanBytes
  · rw [if_pos much]
    exact Or.inr ⟨_, rfl, stops⟩
  rw [if_neg much]
  have rows : s.rowsScanned + 1 = (done ++ [candidate]).length := by
    rw [scanned.rows, List.length_append]
    rfl
  have bytes : s.bytesScanned + candidate.title.utf8ByteSize =
      ((done ++ [candidate]).map fun candidate => candidate.title.utf8ByteSize).sum := by
    rw [scanned.bytes, List.map_append, List.sum_append]
    simp
  cases matched : matching lower needle candidate with
  | false =>
      rw [if_pos (by decide)]
      refine Or.inl ⟨_, rfl, ?_, scanned.seen, scanned.few, rows, bytes, Nat.not_lt.mp much⟩
      rw [List.filter_append, List.filter_singleton, matched]
      simpa using scanned.results
  | true =>
      rw [if_neg (by decide), if_neg unseen]
      by_cases full : s.results.length = maxResults
      · rw [if_pos full]
        have counted : ∀ limit, done.length < limit → s.rowsScanned + 1 ≤ limit := by
          intro limit below
          rw [scanned.rows]
          exact below
        exact Or.inr ⟨_, rfl, fun limit below =>
          ⟨scanned.results, scanned.few, counted limit below, Nat.not_lt.mp much⟩⟩
      · rw [if_neg full]
        refine Or.inl ⟨_, rfl, ?_, ?_, ?_, rows, bytes, Nat.not_lt.mp much⟩
        · rw [List.filter_append, List.filter_singleton, matched]
          simp [scanned.results]
        · intro url
          simp only [List.mem_cons, List.map_append, List.mem_append, scanned.seen url]
          simp [or_comm]
        · have := scanned.few
          rw [List.length_append, List.length_singleton]
          omega

/-- The loop deals with the candidates in their order, and with all of them if it does not stop. -/
theorem visit_spec {limit : Nat} {done rest : List MetadataSearchCandidate} {s s' : Scan}
    {stopped : Bool} (scanned : Scanned lower needle done s) (low : done.length ≤ limit)
    (distinct : (done ++ rest).Pairwise fun a b =>
      (resultFromCandidate a).url ≠ (resultFromCandidate b).url)
    (ended : Database.visitCandidates (scan lower expired needle) limit s done.length rest =
      (s', stopped)) :
    ∃ done' rest', done ++ rest = done' ++ rest' ∧ Stopped lower needle limit done' s' ∧
      (stopped = false → rest' = []) := by
  induction rest generalizing done s with
  | nil =>
      cases ended
      exact ⟨done, [], rfl, ⟨scanned.results, scanned.few, scanned.rows.trans_le low,
        scanned.small⟩, fun _ => rfl⟩
  | cons candidate rest ih =>
      rw [Database.visitCandidates] at ended
      by_cases last : done.length = limit
      · rw [if_pos last] at ended
        cases ended
        exact ⟨done, candidate :: rest, rfl, ⟨scanned.results, scanned.few,
          scanned.rows.trans_le low, scanned.small⟩, fun whole => by cases whole⟩
      · rw [if_neg last] at ended
        have fresh : ∀ other ∈ done,
            (resultFromCandidate other).url ≠ (resultFromCandidate candidate).url :=
          fun other member => (List.pairwise_append.mp distinct).2.2 other member candidate
            List.mem_cons_self
        rcases @scan_spec lower expired needle done s candidate scanned fresh with
          ⟨next, goes, further⟩ | ⟨next, stops, final⟩
        · rw [goes] at ended
          have split : done ++ candidate :: rest = (done ++ [candidate]) ++ rest := by
            rw [List.append_assoc]
            rfl
          have length : (done ++ [candidate]).length = done.length + 1 := List.length_append
          rw [split] at distinct ⊢
          exact ih further (by omega) distinct (by rw [length]; exact ended)
        · rw [stops] at ended
          cases ended
          exact ⟨done, candidate :: rest, rfl, final limit (by omega), fun whole => by cases whole⟩

end Loop

/-! ## What the search finds -/

section Search

variable {lower : String → String} {expired : Nat → Bool} {db : Database} {actor : Option String}
  {query : String} {outcome : MetadataSearchOutcome}

/-- **The results are those of the first candidates**, each once and in their order, within the
limits; a search that does not say that it stopped has looked at all of them. -/
theorem search_exact (found : metadataSearch lower expired db actor query = .ok outcome) :
    ∃ n, outcome.results = (((db.searchCandidates actor).take n).filter
        (matching lower (lower outcome.query))).map resultFromCandidate ∧
      (outcome.truncated = false → (db.searchCandidates actor).length ≤ n) ∧
      outcome.results.length ≤ maxResults ∧ outcome.rowsScanned ≤ maxScanRows ∧
      outcome.bytesScanned ≤ maxScanBytes := by
  simp only [metadataSearch, bind_eq_ok, pure_eq_ok, Except.ok.injEq] at found
  obtain ⟨_, -, _, -, ⟨s, stopped⟩, visited, rfl⟩ := found
  unfold Database.visitMetadataSearchCandidates at visited
  rw [ensure_of (by decide), ok_bind] at visited
  have ended : Database.visitCandidates (scan lower expired (lower (trimQuery query))) maxScanRows
      .start 0 ((db.searchCandidates actor).take (maxScanRows + 1)) = (s, stopped) :=
    Except.ok.inj visited
  have begun : Scanned lower (lower (trimQuery query)) [] .start :=
    ⟨rfl, fun url => Iff.rfl, Nat.zero_le _, rfl, rfl, Nat.zero_le _⟩
  obtain ⟨done, rest, split, final, whole⟩ := visit_spec begun (Nat.zero_le _)
    (searchCandidates_distinct.sublist (List.take_sublist _ _)) ended
  have first : done = (db.searchCandidates actor).take done.length := by
    have short : done.length ≤ maxScanRows + 1 := by
      have lengths := congrArg List.length split
      rw [List.nil_append, List.length_take, List.length_append] at lengths
      omega
    have taken := congrArg (List.take done.length) split
    rwa [List.nil_append, List.take_take, Nat.min_eq_left short, List.take_left',
      eq_comm] at taken
    rfl
  refine ⟨done.length, ?_, ?_, final.few, final.rows, final.small⟩
  · rw [← first]
    exact final.results
  · rintro rfl
    obtain ⟨-, counted⟩ := visitCandidates_all ended (Nat.zero_le _)
    have all := congrArg List.length split
    rw [whole rfl, List.append_nil, List.nil_append] at all
    rw [List.length_take] at all counted
    omega

/-- **A search that has not stopped early finds a repository** exactly if the actor may read it and
its name has the query in it. -/
theorem search_finds (found : metadataSearch lower expired db actor query = .ok outcome)
    (whole : outcome.truncated = false) {owner slug : String} {n : Namespace} {r : Repository}
    (named : db.repositoryNamed owner slug = some (n, r)) :
    (∃ result ∈ outcome.results, result.stableId = r.id) ↔
      Allowed db actor owner slug .read ∧
        matching lower (lower outcome.query) (Database.searchCandidate (n, r)) = true := by
  obtain ⟨count, results, all, -⟩ := search_exact found
  rw [List.take_of_length_le (all whole)] at results
  obtain ⟨hn, -, hr, owns, -⟩ := Database.repositoryNamed_eq_some named
  rw [results, ← visibleRepository_iff named]
  simp only [List.mem_map, List.mem_filter]
  constructor
  · rintro ⟨_, ⟨candidate, ⟨listed, matched⟩, rfl⟩, same⟩
    obtain ⟨r', hr', n', hn', owns', visible, rfl⟩ := mem_searchCandidates.mp listed
    obtain rfl : r' = r := Table.eq_of_key hr' hr same
    obtain rfl : n' = n := Table.eq_of_key hn' hn (owns'.trans owns)
    exact ⟨visible, matched⟩
  · rintro ⟨visible, matched⟩
    exact ⟨_, ⟨_, ⟨mem_searchCandidates.mpr ⟨r, hr, n, hn, owns.symm, visible, rfl⟩, matched⟩, rfl⟩,
      rfl⟩

/-- Alice searches for her only repository, with a clock that stands still. -/
theorem aliceSearch_found : ∃ outcome,
    metadataSearch id (fun _ => false) .oneRepository (some "alice") "tit" = .ok outcome ∧
      outcome.truncated = false ∧ outcome.results.map (·.url) = ["/alice/tit"] :=
  ⟨_, rfl, rfl, by decide⟩

theorem search_exact_aliceSearch : ∃ (outcome : MetadataSearchOutcome) (n : Nat),
    outcome.results = (((Database.oneRepository.searchCandidates (some "alice")).take n).filter
      (matching id (id outcome.query))).map resultFromCandidate := by
  obtain ⟨outcome, found, -, -⟩ := aliceSearch_found
  obtain ⟨n, results, -⟩ := search_exact found
  exact ⟨outcome, n, results⟩

theorem search_finds_aliceSearch : ∃ (outcome : MetadataSearchOutcome) (n : Namespace)
    (r : Repository), (∃ result ∈ outcome.results, result.stableId = r.id) ↔
      Allowed .oneRepository (some "alice") "alice" "tit" .read ∧
        matching id (id outcome.query) (Database.searchCandidate (n, r)) = true := by
  obtain ⟨outcome, found, whole, -⟩ := aliceSearch_found
  exact ⟨outcome, _, _, search_finds found whole rfl⟩

end Search

end Tit.Policy
