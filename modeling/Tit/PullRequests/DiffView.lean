/-
# PullRequests.DiffView -- the numbers in the view of a diff

The lines that a hunk shows for a side are numbered from the start of the hunk on that side
(`shown_iff`), and the anchor that the page offers for a line is read back as the same side and
number (`parseReviewAnchor_anchor`).
-/
import Tit.PullRequests.Review

namespace Tit.PullRequests

open Tit.Theory Tit.Theory.Text Tit.Store Tit.Git

set_option autoImplicit false

/-! ## Numbers -/

theorem parseI64_decimal {n : Nat} (fits : (n : Int) ≤ maxI64) : parseI64 (decimal n) = some (n : Int) := by
  have inRange : -maxI64 - 1 ≤ (n : Int) ∧ (n : Int) ≤ maxI64 := by
    unfold maxI64 at fits ⊢
    omega
  have parsed := parseDecimal_decimal n
  unfold parseI64
  cases found : decimal n with
  | nil => exact absurd found (decimal_ne_nil n)
  | cons b rest =>
      have digit := isDigit_of_decimal (n := n) (b := b) (found ▸ List.mem_cons_self)
      rw [found] at parsed
      unfold Text.isDigit at digit
      have notPlus : b ≠ 43 := by
        rintro rfl
        revert digit
        decide
      have notMinus : b ≠ 45 := by
        rintro rfl
        revert digit
        decide
      split
      · rename_i same
        exact absurd (List.cons.inj same).1 notPlus
      · rename_i same
        exact absurd (List.cons.inj same).1 notMinus
      · rw [parsed]
        simp [Option.filter, inRange]

theorem notMem_decimal {n : Nat} {b : UInt8} (other : Text.isDigit b = false) : b ∉ decimal n := by
  intro member
  rw [isDigit_of_decimal member] at other
  cases other

/-! ## Headers -/

theorem parseHunkStart_range {start : UInt8} {a b : Nat} (fits : (a : Int) ≤ maxI64) :
    parseHunkStart (start :: (decimal a ++ 44 :: decimal b)) start = some (a : Int) := by
  unfold parseHunkStart
  simp only [if_true]
  have first : (decimal a ++ 44 :: decimal b).splitOn 44 = decimal a :: (decimal b).splitOn 44 := by
    rw [List.splitOn_append_cons_self, List.splitOn_eq_singleton (notMem_decimal (by decide))]
    rfl
  rw [first, List.head?_cons, Option.bind_some, parseI64_decimal fits]

theorem isWhitespace_decimal {n : Nat} : ∀ b ∈ decimal n, isWhitespace b = false := by
  intro b member
  have digit := isDigit_of_decimal member
  unfold Text.isDigit at digit
  unfold isWhitespace
  rw [decide_eq_true_eq] at digit
  rw [decide_eq_false_iff_not]
  have low := UInt8.le_iff_toNat_le.mp digit.1
  rintro (⟨-, high⟩ | rfl)
  · have high := UInt8.le_iff_toNat_le.mp high
    simp at low high
    omega
  · simp at low

/-- The starts of a hunk are read from its header. -/
theorem parseHunkStarts_header {h : Hunk} (old : (h.oldStart : Int) ≤ maxI64)
    (new : (h.newStart : Int) ≤ maxI64) :
    parseHunkStarts h.header = some ((h.oldStart : Int), (h.newStart : Int)) := by
  have shape : h.header = [64, 64] ++ 32 ::
      ((45 :: (decimal h.oldStart ++ 44 :: decimal h.oldCount)) ++ 32 ::
        ((43 :: (decimal h.newStart ++ 44 :: decimal h.newCount)) ++ 32 :: [64, 64])) := by
    unfold Hunk.header
    simp
  have blankFree : ∀ start : UInt8, isWhitespace start = false → ∀ a b : Nat,
      ∀ c ∈ start :: (decimal a ++ 44 :: decimal b), isWhitespace c = false := by
    intro start plain a b c member
    rcases List.mem_cons.mp member with rfl | member
    · exact plain
    · rcases List.mem_append.mp member with digits | member
      · exact isWhitespace_decimal c digits
      · rcases List.mem_cons.mp member with rfl | digits
        · decide
        · exact isWhitespace_decimal c digits
  have pieces : h.header.splitOnP isWhitespace =
      [[64, 64], 45 :: (decimal h.oldStart ++ 44 :: decimal h.oldCount),
        43 :: (decimal h.newStart ++ 44 :: decimal h.newCount), [64, 64]] := by
    have blank : isWhitespace 32 = true := rfl
    have marksFree : ∀ c ∈ ([64, 64] : Bytes), isWhitespace c = false :=
      List.forall_mem_cons.mpr ⟨rfl, List.forall_mem_cons.mpr ⟨rfl, nofun⟩⟩
    rw [shape, List.splitOnP_append_cons_of_forall_mem marksFree _ blank,
      List.splitOnP_append_cons_of_forall_mem (blankFree 45 rfl _ _) _ blank,
      List.splitOnP_append_cons_of_forall_mem (blankFree 43 rfl _ _) _ blank]
    rfl
  unfold parseHunkStarts splitWhitespace
  rw [pieces]
  have marks : ([64, 64] : Bytes) = asciiBytes "@@" := rfl
  simp only [ne_eq, reduceCtorEq, not_false_eq_true, decide_true, List.filter_cons_of_pos,
    parseHunkStart_range old, parseHunkStart_range new, if_pos marks]
  rfl

/-! ## The lines of a hunk -/

/-- The lines that are in the file of a side. -/
def onSide (side : ReviewSide) (line : LineKind × Bytes) : Bool :=
  match side with
  | .base => decide (line.1 ≠ .addition)
  | .head => decide (line.1 ≠ .deletion)

def sideLines (side : ReviewSide) (ls : List (LineKind × Bytes)) : List Bytes :=
  (ls.filter (onSide side)).map Prod.snd

def sideStart (h : Hunk) : ReviewSide → Nat
  | .base => h.oldStart
  | .head => h.newStart

/-- A hunk has this line of a side, with this number. -/
def Shows (hunks : List Hunk) (side : ReviewSide) (number : Nat) (text : Bytes) : Prop :=
  ∃ h ∈ hunks, ∃ k, (sideLines side h.lines)[k]? = some text ∧ number = sideStart h side + k

def pick {α : Type} (side : ReviewSide) (base head : α) : α :=
  match side with
  | .base => base
  | .head => head

/-- The anchor that the page offers for a line on a side. -/
def DiffLineView.anchor (view : DiffLineView) : ReviewSide → Option Bytes
  | .base => if view.hasBase then some view.baseAnchor else none
  | .head => if view.hasHead then some view.headAnchor else none

def anchorText (side : ReviewSide) (line : Int) : Bytes :=
  (match side with
  | .base => asciiBytes "base:"
  | .head => asciiBytes "head:") ++ formatI64 line

def lineView (base head : Int) (line : LineKind × Bytes) : DiffLineView :=
  diffContentLine line.1 line.2 (if onSide .base line then some base else none)
    (if onSide .head line then some head else none)

def after (side : ReviewSide) (number : Int) (line : LineKind × Bytes) : Int :=
  if onSide side line then number + 1 else number

/-- The views of the lines of a hunk. -/
def contentViews : Int → Int → List (LineKind × Bytes) → List DiffLineView
  | _, _, [] => []
  | base, head, line :: rest =>
      lineView base head line ::
        contentViews (after .base base line) (after .head head line) rest

theorem parseDiffLoop_content (base head : Int) (ls : List (LineKind × Bytes))
    (rest : List Bytes) :
    ∃ base' head', parseDiffLoop base head (ls.map Hunk.contentLine ++ rest) =
      contentViews base head ls ++ parseDiffLoop base' head' rest := by
  induction ls generalizing base head with
  | nil => exact ⟨base, head, rfl⟩
  | cons line ls ih =>
      obtain ⟨base', head', later⟩ := ih (after .base base line) (after .head head line)
      refine ⟨base', head', ?_⟩
      rw [List.map_cons, List.cons_append, contentViews, List.cons_append, ← later]
      obtain ⟨kind, text⟩ := line
      cases kind <;> rfl

/-- The view of a line has the anchors of the sides that the line is on. -/
theorem lineView_anchor (base head : Int) (line : LineKind × Bytes) (side : ReviewSide) :
    (lineView base head line).anchor side =
      if onSide side line then
        some (anchorText side (pick side base head))
      else none := by
  obtain ⟨kind, text⟩ := line
  cases kind <;> cases side <;> rfl

theorem contentViews_anchor (base head : Int) (ls : List (LineKind × Bytes)) (side : ReviewSide)
    (a text : Bytes) :
    (∃ view ∈ contentViews base head ls, view.anchor side = some a ∧ view.text = text) ↔
      ∃ k : Nat, (sideLines side ls)[k]? = some text ∧
        a = anchorText side (pick side base head + k) := by
  induction ls generalizing base head with
  | nil => simp [contentViews, sideLines]
  | cons line ls ih =>
      have later := ih (after .base base line) (after .head head line)
      unfold contentViews
      rw [List.exists_mem_cons_iff, later, lineView_anchor]
      have ofLine : (lineView base head line).text = line.2 := rfl
      rw [ofLine]
      unfold sideLines
      by_cases here : onSide side line = true
      · rw [List.filter_cons_of_pos here, List.map_cons, if_pos here, Option.some.injEq]
        have next : pick side (after .base base line) (after .head head line) =
            pick side base head + 1 := by
          cases side <;> exact if_pos here
        rw [next]
        constructor
        · rintro (⟨rfl, rfl⟩ | ⟨k, found, rfl⟩)
          · exact ⟨0, rfl, by simp⟩
          · refine ⟨k + 1, by simpa using found, ?_⟩
            congr 1
            push_cast
            omega
        · rintro ⟨k, found, rfl⟩
          cases k with
          | zero => exact Or.inl ⟨by simp, by simpa using found⟩
          | succ k =>
              refine Or.inr ⟨k, by simpa using found, ?_⟩
              congr 1
              push_cast
              omega
      · rw [List.filter_cons_of_neg here, if_neg here]
        have next : pick side (after .base base line) (after .head head line) =
            pick side base head := by
          cases side <;> exact if_neg here
        rw [next]
        simp only [reduceCtorEq, false_and, false_or]

/-! ## The view of a file -/

/-- The header of a hunk is one line without a carriage return. -/
theorem header_clean (h : Hunk) {b : UInt8} (other : Text.isDigit b = false)
    (mark : b ∉ ([64, 32, 45, 44, 43] : Bytes)) : b ∉ h.header := by
  have digits : ∀ n, b ∉ decimal n := fun n => notMem_decimal other
  simp only [List.mem_cons, List.not_mem_nil, or_false, not_or] at mark
  simp [Hunk.header, digits, mark]

/-- The lines of a hunk as the library gives them for texts without carriage returns. -/
structure Plain (h : Hunk) : Prop where
  old : (h.oldStart : Int) ≤ maxI64
  new : (h.newStart : Int) ≤ maxI64
  clean : ∀ l ∈ h.lines, newline ∉ l.2 ∧ (13 : UInt8) ∉ l.2

theorem Plain.textLines {h : Hunk} (plain : Plain h) :
    ∀ l ∈ h.textLines, newline ∉ l ∧ (13 : UInt8) ∉ l := by
  intro l member
  rcases List.mem_cons.mp member with rfl | content
  · exact ⟨header_clean h (by decide) (by decide), header_clean h (by decide) (by decide)⟩
  · obtain ⟨⟨kind, text⟩, inside, rfl⟩ := List.mem_map.mp content
    obtain ⟨noNewline, noReturn⟩ := plain.clean _ inside
    have marks : newline ≠ kind.marker ∧ 13 ≠ kind.marker := by cases kind <;> decide
    simp [Hunk.contentLine, marks, noNewline, noReturn]

theorem stripCarriageReturn_of {l : Bytes} (clean : (13 : UInt8) ∉ l) :
    stripCarriageReturn l = l := by
  unfold stripCarriageReturn
  rw [if_neg]
  intro last
  exact clean (List.mem_of_getLast? last)

theorem parseDiffLoop_hunk {h : Hunk} (plain : Plain h) (base head : Int) (rest : List Bytes) :
    ∃ base' head', parseDiffLoop base head (h.textLines ++ rest) =
      diffMetaLine h.header true :: contentViews h.oldStart h.newStart h.lines ++
        parseDiffLoop base' head' rest := by
  obtain ⟨base', head', content⟩ := parseDiffLoop_content h.oldStart h.newStart h.lines rest
  refine ⟨base', head', ?_⟩
  have marked : (asciiBytes "@@").isPrefixOf h.header = true := rfl
  have starts := parseHunkStarts_header plain.old plain.new
  show (if (asciiBytes "@@").isPrefixOf h.header = true then _ else _) = _
  rw [if_pos marked, starts]
  exact congrArg (diffMetaLine h.header true :: ·) content

theorem shown_loop {hunks : List Hunk} (plain : ∀ h ∈ hunks, Plain h) (side : ReviewSide)
    (a text : Bytes) (base head : Int) :
    (∃ view ∈ parseDiffLoop base head (hunks.flatMap Hunk.textLines),
      view.anchor side = some a ∧ view.text = text) ↔
        ∃ n : Nat, Shows hunks side n text ∧ a = anchorText side n := by
  induction hunks generalizing base head with
  | nil => simp [parseDiffLoop, Shows]
  | cons h rest ih =>
      obtain ⟨base', head', loop⟩ := parseDiffLoop_hunk (plain h List.mem_cons_self) base head
        (rest.flatMap Hunk.textLines)
      have later := ih (fun g member => plain g (List.mem_cons_of_mem _ member)) base' head'
      have here := contentViews_anchor h.oldStart h.newStart h.lines side a text
      have header : (diffMetaLine h.header true).anchor side = none := by cases side <;> rfl
      have start : ∀ k : Nat, pick side (h.oldStart : Int) (h.newStart : Int) + k =
          ((sideStart h side + k : Nat) : Int) := by
        intro k
        cases side <;> exact (Int.natCast_add _ _).symm
      rw [List.flatMap_cons, loop, List.cons_append, List.exists_mem_cons_iff, header]
      simp only [reduceCtorEq, false_and, false_or, List.mem_append, or_and_right, exists_or,
        here, later, start]
      constructor
      · rintro (⟨k, found, rfl⟩ | ⟨n, ⟨g, member, k, found, rfl⟩, rfl⟩)
        · exact ⟨_, ⟨h, List.mem_cons_self, k, found, rfl⟩, rfl⟩
        · exact ⟨_, ⟨g, List.mem_cons_of_mem _ member, k, found, rfl⟩, rfl⟩
      · rintro ⟨n, ⟨g, member, k, found, rfl⟩, rfl⟩
        rcases List.mem_cons.mp member with rfl | old
        · exact Or.inl ⟨k, found, rfl⟩
        · exact Or.inr ⟨_, ⟨g, old, k, found, rfl⟩, rfl⟩

/-- **The view shows, for each side, the lines of the hunks, numbered from their starts.** -/
theorem shown_iff {hunks : List Hunk} (plain : ∀ h ∈ hunks, Plain h) (side : ReviewSide)
    (a text : Bytes) :
    (∃ view ∈ parseDiffLines (unlines (hunks.flatMap Hunk.textLines)),
      view.anchor side = some a ∧ view.text = text) ↔
        ∃ n : Nat, Shows hunks side n text ∧ a = anchorText side n := by
  have clean : ∀ l ∈ hunks.flatMap Hunk.textLines, newline ∉ l ∧ (13 : UInt8) ∉ l := by
    intro l member
    obtain ⟨h, inside, here⟩ := List.mem_flatMap.mp member
    exact (plain h inside).textLines l here
  have stripped : (hunks.flatMap Hunk.textLines).map stripCarriageReturn =
      hunks.flatMap Hunk.textLines := by
    rw [List.map_congr_left fun l member => stripCarriageReturn_of (clean l member).2,
      List.map_id']
  unfold parseDiffLines
  rw [lines_unlines fun l member => (clean l member).1, stripped]
  exact shown_loop plain side a text 0 0

/-! ## Anchors -/

theorem parseReviewAnchor_anchor {side : ReviewSide} {n : Nat} (positive : 1 ≤ n)
    (fits : (n : Int) ≤ maxI64) : parseReviewAnchor (anchorText side n) = some (some (side, n)) := by
  have digits : (58 : UInt8) ∉ decimal n := notMem_decimal (by decide)
  have parsed := parseI64_decimal fits
  have once : splitOnce 58 (anchorText side n) = some
      ((pick side (asciiBytes "base") (asciiBytes "head")), decimal n) := by
    cases side <;> rfl
  have known : anchorText side n ≠ [] := by
    cases side <;> exact List.cons_ne_nil _ _
  unfold parseReviewAnchor
  rw [if_neg known, once]
  have line : ¬(n : Int) < 1 := by omega
  cases side <;> simp [pick, digits, parsed, line, asciiBytes]

end Tit.PullRequests
