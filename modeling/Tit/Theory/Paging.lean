/-
# Theory.Paging -- pages that go on behind the last key

The rows of a table in descending order of a key that no two of them share are handed out in pages:
a page is the first rows behind a cursor, and where more rows are left it carries the key of its
last row as the next cursor.  Whoever follows the cursors gets the rows that stay there while it
does so, each once and in order, whatever other rows come and go between two pages
(`Follows.descending`, `Follows.shows`); over one table these are all rows (`follows_all`).
Pages that are cut by their number join to the rows of one table as well (`offset_pages_all`).
-/
import Mathlib

namespace Tit.Theory.Paging

set_option autoImplicit false

universe u v

structure Page (α : Type u) (K : Type v) where
  rows : List α
  next : Option K

section Paging

variable {α : Type u} {K : Type v} [LinearOrder K] (key : α → K)

def Descending (rows : List α) : Prop := rows.Pairwise fun x y => key y < key x

/-- The row lies behind the cursor, if there is one. -/
def behind (before : Option K) (row : α) : Bool := before.all fun cursor => decide (key row < cursor)

def rest (before : Option K) (rows : List α) : List α := rows.filter (behind key before)

/-- The first rows behind the cursor, and the key of the last of them where there are more. -/
def page (limit : Nat) (before : Option K) (rows : List α) : Page α K where
  rows := (rest key before rows).take limit
  next :=
    if limit < (rest key before rows).length then
      ((rest key before rows)[limit - 1]?).map key
    else none

/-- The cursors are followed to the last page, each page being taken from the table of its time. -/
inductive Follows (limit : Nat) : Option K → List (List α) → List α → Prop where
  | last {before : Option K} {rows : List α} (ended : (page key limit before rows).next = none) :
      Follows limit before [rows] (page key limit before rows).rows
  | next {before : Option K} {rows later : List α} {cursor : K} {tables : List (List α)}
      (more : (page key limit before rows).next = some cursor)
      (followed : Follows limit (some cursor) tables later) :
      Follows limit before (rows :: tables) ((page key limit before rows).rows ++ later)

variable {key} {limit : Nat} {before : Option K} {rows shown : List α} {tables : List (List α)}
  {cursor k : K} {x : α}

theorem behind_some : behind key (some cursor) x = true ↔ key x < cursor := decide_eq_true_iff

theorem Descending.rest (descending : Descending key rows) (before : Option K) :
    Descending key (rest key before rows) := List.Pairwise.filter _ descending

/-- Behind the key of a row lie the rows after it. -/
theorem Descending.filter_behind (descending : Descending key rows) {n : Nat}
    (there : rows[n]? = some x) : rows.filter (behind key (some (key x))) = rows.drop (n + 1) := by
  induction rows generalizing n with
  | nil => cases there
  | cons y rows ih =>
      obtain ⟨less, later⟩ := List.pairwise_cons.mp descending
      cases n with
      | zero =>
          obtain rfl := Option.some.inj there
          rw [List.filter_cons_of_neg (fun self => lt_irrefl _ (behind_some.mp self))]
          exact List.filter_eq_self.mpr fun z inside => behind_some.mpr (less z inside)
      | succ n =>
          have inside : x ∈ rows := List.mem_of_getElem? there
          rw [List.filter_cons_of_neg fun self => lt_asymm (behind_some.mp self) (less x inside)]
          exact ih later there

theorem next_eq_none (ended : (page key limit before rows).next = none) :
    (page key limit before rows).rows = rest key before rows := by
  unfold page at ended ⊢
  dsimp only at ended ⊢
  by_cases more : limit < (rest key before rows).length
  · rw [if_pos more, Option.map_eq_none_iff, List.getElem?_eq_none_iff] at ended
    omega
  · exact List.take_of_length_le (Nat.le_of_not_lt more)

theorem next_eq_some (more : (page key limit before rows).next = some cursor) :
    limit < (rest key before rows).length ∧
      ∃ x, (rest key before rows)[limit - 1]? = some x ∧ key x = cursor := by
  unfold page at more
  dsimp only at more
  by_cases long : limit < (rest key before rows).length
  · rw [if_pos long] at more
    exact ⟨long, Option.map_eq_some_iff.mp more⟩
  · rw [if_neg long] at more
    cases more

theorem behind_trans (first : behind key before x = true) (less : k < key x) {y : α}
    (same : key y = k) : behind key before y = true := by
  cases before with
  | none => rfl
  | some cursor => exact behind_some.mpr (same ▸ less.trans (behind_some.mp first))

/-- Behind a page lies what it left. -/
theorem rest_next (descending : Descending key rows) (positive : 0 < limit)
    (more : (page key limit before rows).next = some cursor) :
    rest key (some cursor) rows = (rest key before rows).drop limit := by
  obtain ⟨-, x, there, rfl⟩ := next_eq_some more
  have listed : behind key before x = true := List.of_mem_filter (List.mem_of_getElem? there)
  have after := (descending.rest before).filter_behind there
  rw [Nat.sub_add_cancel positive] at after
  rw [← after, rest, rest, List.filter_filter]
  refine List.filter_congr fun y _ => ?_
  by_cases later : behind key (some (key x)) y = true
  · rw [later, behind_trans listed (behind_some.mp later) rfl]
    rfl
  · rw [Bool.not_eq_true] at later
    rw [later]
    rfl

theorem mem_page : x ∈ (page key limit before rows).rows →
    x ∈ rows ∧ behind key before x = true := fun inside =>
  List.mem_filter.mp (List.mem_of_mem_take inside)

/-- A page ends at its cursor. -/
theorem page_ends (descending : Descending key rows)
    (more : (page key limit before rows).next = some cursor)
    (inside : x ∈ (page key limit before rows).rows) : cursor ≤ key x := by
  obtain ⟨-, y, there, rfl⟩ := next_eq_some more
  have first : x ∈ (rest key before rows).take limit := inside
  obtain ⟨i, short, rfl⟩ := List.getElem_of_mem first
  obtain ⟨long, rfl⟩ := List.getElem?_eq_some_iff.mp there
  have here : i < limit := by
    have := List.length_take_le limit (rest key before rows)
    omega
  have ordered := descending.rest before
  rw [List.getElem_take]
  rcases Nat.lt_or_ge i (limit - 1) with less | last
  · exact (List.pairwise_iff_getElem.mp ordered i (limit - 1) _ _ less).le
  · have same : i = limit - 1 := by omega
    subst same
    exact le_rfl

/-! ## The cursors followed -/

/-- **What is shown comes in order, and nothing twice**, whatever changes between the pages. -/
theorem Follows.descending (followed : Follows key limit before tables shown)
    (ordered : ∀ rows ∈ tables, Descending key rows) :
    Descending key shown ∧ ∀ x ∈ shown, behind key before x = true := by
  induction followed with
  | @last before rows ended =>
      refine ⟨((ordered rows List.mem_cons_self).rest before).sublist (List.take_sublist _ _),
        fun x inside => (mem_page inside).2⟩
  | @next before rows later cursor tables more _ ih =>
      have here := ordered rows List.mem_cons_self
      obtain ⟨descending, beyond⟩ := ih fun rows member => ordered rows (List.mem_cons_of_mem _ member)
      obtain ⟨-, last, there, same⟩ := next_eq_some more
      have listed : behind key before last = true := List.of_mem_filter (List.mem_of_getElem? there)
      refine ⟨List.pairwise_append.mpr ⟨(here.rest before).sublist (List.take_sublist _ _),
        descending, fun x first y second => ?_⟩, fun x inside => ?_⟩
      · exact (behind_some.mp (beyond y second)).trans_le (page_ends here more first)
      · rcases List.mem_append.mp inside with first | second
        · exact (mem_page first).2
        · have less := behind_some.mp (beyond x second)
          exact behind_trans listed (same ▸ less) rfl

/-- **What stays is shown.** -/
theorem Follows.shows (followed : Follows key limit before tables shown) (positive : 0 < limit)
    (ordered : ∀ rows ∈ tables, Descending key rows)
    (stays : ∀ rows ∈ tables, ∃ x ∈ rows, key x = k)
    (older : (before.all fun cursor => decide (k < cursor)) = true) :
    ∃ x ∈ shown, key x = k := by
  induction followed with
  | @last before rows ended =>
      obtain ⟨x, inside, rfl⟩ := stays rows List.mem_cons_self
      rw [next_eq_none ended]
      exact ⟨x, List.mem_filter.mpr ⟨inside, older⟩, rfl⟩
  | @next before rows later cursor tables more _ ih =>
      obtain ⟨x, inside, same⟩ := stays rows List.mem_cons_self
      have listed : x ∈ rest key before rows := by
        refine List.mem_filter.mpr ⟨inside, ?_⟩
        rwa [behind, same]
      rw [← List.take_append_drop limit (rest key before rows)] at listed
      rcases List.mem_append.mp listed with first | second
      · exact ⟨x, List.mem_append_left _ first, same⟩
      · rw [← rest_next (ordered rows List.mem_cons_self) positive more] at second
        have less : key x < cursor := behind_some.mp (List.of_mem_filter second)
        obtain ⟨y, found, same'⟩ := ih (fun rows member => ordered rows (List.mem_cons_of_mem _ member))
          (fun rows member => stays rows (List.mem_cons_of_mem _ member))
          (decide_eq_true (same ▸ less))
        exact ⟨y, List.mem_append_right _ found, same'⟩

theorem Follows.mem (followed : Follows key limit before tables shown) (inside : x ∈ shown) :
    ∃ rows ∈ tables, x ∈ rows := by
  induction followed with
  | @last before rows ended => exact ⟨rows, List.mem_cons_self, (mem_page inside).1⟩
  | @next before rows later cursor tables more _ ih =>
      rcases List.mem_append.mp inside with first | second
      · exact ⟨rows, List.mem_cons_self, (mem_page first).1⟩
      · obtain ⟨rows', member, here⟩ := ih second
        exact ⟨rows', List.mem_cons_of_mem _ member, here⟩

/-! ## One table -/

/-- **Over one table the cursors lead to the end**, past all rows. -/
theorem follows_all (descending : Descending key rows) (positive : 0 < limit) (before : Option K) :
    ∃ n, Follows key limit before (List.replicate n rows) (rest key before rows) := by
  induction size : (rest key before rows).length using Nat.strongRecOn generalizing before with
  | _ size' ih =>
      subst size
      cases ends : (page key limit before rows).next with
      | none =>
          have last := Follows.last ends
          rw [next_eq_none ends] at last
          exact ⟨1, last⟩
      | some cursor =>
          have left := rest_next descending positive ends
          have long := (next_eq_some ends).1
          obtain ⟨n, later⟩ := ih _ (by rw [left, List.length_drop]; omega) (some cursor) rfl
          have all := Follows.next ends later
          rw [left] at all
          have whole : (page key limit before rows).rows ++ (rest key before rows).drop limit =
            rest key before rows := List.take_append_drop _ _
          rw [whole] at all
          exact ⟨n + 1, all⟩

theorem Follows.eq_rest (followed : Follows key limit before tables shown) (positive : 0 < limit)
    (descending : Descending key rows) (one : ∀ table ∈ tables, table = rows) :
    shown = rest key before rows := by
  induction followed with
  | @last before table ended =>
      obtain rfl := one table List.mem_cons_self
      exact next_eq_none ended
  | @next before table later cursor tables more _ ih =>
      obtain rfl := one table List.mem_cons_self
      rw [ih fun table member => one table (List.mem_cons_of_mem _ member),
        rest_next descending positive more]
      exact List.take_append_drop _ _

end Paging

/-! ## Pages by number -/

section Offset

variable {α : Type u}

/-- The pages of `size` rows that `OFFSET` cuts, one after another, are the rows up to the last one. -/
theorem offset_pages_join {rows : List α} {size : Nat} {pages : List (List α)}
    (cut : ∀ k page, pages[k]? = some page → page = (rows.drop (k * size)).take size) :
    pages.flatten = rows.take (pages.length * size) := by
  induction pages using List.reverseRecOn with
  | nil => simp
  | append_singleton earlier page ih =>
      have last : page = (rows.drop (earlier.length * size)).take size :=
        cut _ _ (by simp)
      have before : earlier.flatten = rows.take (earlier.length * size) := by
        refine ih fun k page found => cut k page ?_
        obtain ⟨inside, -⟩ := List.getElem?_eq_some_iff.mp found
        rw [List.getElem?_append_left inside]
        exact found
      rw [List.flatten_append, before, List.flatten_singleton, last, List.length_append,
        List.length_singleton, Nat.add_mul, Nat.one_mul, List.take_add]

/-- All the rows, once the last page has no row behind it. -/
theorem offset_pages_all {rows : List α} {size : Nat} {pages : List (List α)}
    (cut : ∀ k page, pages[k]? = some page → page = (rows.drop (k * size)).take size)
    (done : rows.length ≤ pages.length * size) : pages.flatten = rows := by
  rw [offset_pages_join cut, List.take_of_length_le done]

end Offset

end Tit.Theory.Paging
