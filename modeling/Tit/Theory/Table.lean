/-
# Theory.Table -- rows under declared constraints

A table of a relational store is a list of rows that satisfies the constraints
its schema declares: every row passes the `CHECK`s, and no two rows `clash`, that
is, share the value of a `UNIQUE` column (the primary key among them).  The
constraints are fields of `Table`, so a table that breaks one cannot be built.

A statement (`insert`, `update`) builds the new rows and then asks for the
constraints again; when one fails the statement fails and leaves no table.
`delete` cannot break a constraint.  Later facts are stated through membership
(`mem_insert`, `mem_update`, `mem_delete`) and through `get`, the look-up by
primary key; `update_of` says that an update which leaves every `UNIQUE` column
alone fails only by a `CHECK`.
-/
import Tit.Theory.Outcome
import Mathlib.Data.List.Pairwise

namespace Tit.Theory

set_option autoImplicit false

universe u v

/-- The constraints of one table. -/
class Schema (R : Type u) (K : outParam (Type v)) where
  /-- The primary key. -/
  key : R → K
  /-- The `CHECK` constraints of one row. -/
  check : R → Bool
  /-- Two rows that share the value of some `UNIQUE` column. -/
  clash : R → R → Bool
  clash_symm : ∀ r s, clash r s → clash s r
  clash_of_key : ∀ r s, key r = key s → clash r s

/-- The constraint a statement ran into. -/
inductive Constraint where
  | check
  | unique
  deriving DecidableEq, Repr

structure Table (R : Type u) {K : Type v} [Schema R K] where
  rows : List R
  checked : ∀ r ∈ rows, Schema.check r = true
  distinct : rows.Pairwise fun r s => ¬Schema.clash r s

namespace Table

variable {R : Type u} {K : Type v} [Schema R K]

instance : Membership R (Table R) where
  mem t r := r ∈ t.rows

theorem mem_rows {t : Table R} {r : R} : r ∈ t.rows ↔ r ∈ t := Iff.rfl

def empty : Table R := ⟨[], by simp, List.Pairwise.nil⟩

@[simp] theorem not_mem_empty (r : R) : r ∉ (empty : Table R) := List.not_mem_nil

/-- Ask for the constraints of the rows a statement produced. -/
def ofRows (rows : List R) : Except Constraint (Table R) :=
  if checked : ∀ r ∈ rows, Schema.check r = true then
    if distinct : rows.Pairwise (fun r s => ¬Schema.clash r s) then .ok ⟨rows, checked, distinct⟩
    else .error .unique
  else .error .check

theorem ofRows_eq_ok {rows : List R} {t : Table R} (built : ofRows rows = .ok t) :
    t.rows = rows := by
  unfold ofRows at built
  split at built
  · split at built
    · cases built; rfl
    · cases built
  · cases built

theorem ofRows_of {rows : List R} (checked : ∀ r ∈ rows, Schema.check r = true)
    (distinct : rows.Pairwise fun r s => ¬Schema.clash r s) :
    ofRows rows = .ok ⟨rows, checked, distinct⟩ := by
  simp only [ofRows, dif_pos checked, dif_pos distinct]

/-! ## Statements -/

def insert (t : Table R) (r : R) : Except Constraint (Table R) :=
  ofRows (t.rows ++ [r])

/-- `UPDATE … SET f WHERE p`. -/
def update (t : Table R) (p : R → Bool) (f : R → R) : Except Constraint (Table R) :=
  ofRows (t.rows.map fun r => if p r then f r else r)

/-- The number of rows a statement with this `WHERE` changes. -/
def count (t : Table R) (p : R → Bool) : Nat := t.rows.countP p

/-- `SELECT EXISTS (… WHERE p)`. -/
def any (t : Table R) (p : R → Bool) : Bool := t.rows.any p

/-- `DELETE … WHERE p`. -/
def delete (t : Table R) (p : R → Bool) : Table R where
  rows := t.rows.filter fun r => !p r
  checked r member := t.checked r (List.mem_filter.mp member).1
  distinct := t.distinct.sublist List.filter_sublist

/-! ## Look-ups -/

section Lookup

variable [DecidableEq K]

/-- The row with this primary key. -/
def get (t : Table R) (k : K) : Option R := t.rows.find? fun r => decide (Schema.key r = k)

/-- The first row that satisfies `p`. -/
def find (t : Table R) (p : R → Bool) : Option R := t.rows.find? p

omit [DecidableEq K] in
theorem any_iff {t : Table R} {p : R → Bool} : t.any p = true ↔ ∃ r ∈ t, p r = true := by
  simp [any, ← mem_rows]

omit [DecidableEq K] in
theorem mem_of_find {t : Table R} {p : R → Bool} {r : R} (found : t.find p = some r) :
    r ∈ t ∧ p r = true :=
  ⟨List.mem_of_find?_eq_some found, List.find?_some found⟩

omit [DecidableEq K] in
theorem find_eq_none {t : Table R} {p : R → Bool} :
    t.find p = none ↔ ∀ r ∈ t, ¬p r = true := by
  simp [find, List.find?_eq_none, ← mem_rows]

omit [DecidableEq K] in
/-- A `WHERE` that only one row satisfies finds that row. -/
theorem find_eq_some {t : Table R} {p : R → Bool} {r : R} (member : r ∈ t) (holds : p r = true)
    (only : ∀ s ∈ t, p s = true → s = r) : t.find p = some r := by
  cases found : t.find p with
  | none => exact absurd holds (find_eq_none.mp found r member)
  | some s =>
      obtain ⟨hs, chosen⟩ := mem_of_find found
      rw [only s hs chosen]

omit [DecidableEq K] in
/-- Two rows that clash are one row. -/
theorem eq_of_clash {t : Table R} {r s : R} (hr : r ∈ t) (hs : s ∈ t)
    (clash : Schema.clash r s) : r = s := by
  by_contra ne
  have forth : t.rows.Pairwise fun a b => a ≠ b → ¬Schema.clash a b := by
    refine t.distinct.imp ?_
    intro a b apart _
    exact apart
  have back : t.rows.Pairwise fun a b => b ≠ a → ¬Schema.clash b a := by
    refine t.distinct.imp ?_
    intro a b apart _ clash
    exact apart (Schema.clash_symm _ _ clash)
  have apart := List.Pairwise.forall_of_forall_of_flip
    (fun _ _ different => absurd rfl different) forth back
  exact apart (mem_rows.mpr hr) (mem_rows.mpr hs) ne clash

omit [DecidableEq K] in
theorem eq_of_key {t : Table R} {r s : R} (hr : r ∈ t) (hs : s ∈ t)
    (same : Schema.key r = Schema.key s) : r = s :=
  eq_of_clash hr hs (Schema.clash_of_key r s same)

theorem get_eq_some {t : Table R} {k : K} {r : R} :
    t.get k = some r ↔ r ∈ t ∧ Schema.key r = k := by
  constructor
  · intro found
    exact ⟨List.mem_of_find?_eq_some found, by simpa using List.find?_some found⟩
  · rintro ⟨member, rfl⟩
    cases found : t.get (Schema.key r) with
    | none =>
        have := List.find?_eq_none.mp found r member
        simp at this
    | some s =>
        have hs : s ∈ t := List.mem_of_find?_eq_some found
        have same : Schema.key s = Schema.key r := by simpa using List.find?_some found
        rw [eq_of_key hs member same]

theorem get_eq_none {t : Table R} {k : K} :
    t.get k = none ↔ ∀ r ∈ t, Schema.key r ≠ k := by
  simp [get, List.find?_eq_none, ← mem_rows]

theorem get_of_mem {t : Table R} {r : R} (member : r ∈ t) : t.get (Schema.key r) = some r :=
  get_eq_some.mpr ⟨member, rfl⟩

omit [DecidableEq K] in
theorem pairwise_key (t : Table R) :
    t.rows.Pairwise fun r s => Schema.key r ≠ Schema.key s := by
  refine t.distinct.imp ?_
  intro r s apart same
  exact apart (Schema.clash_of_key r s same)

omit [DecidableEq K] in
/-- A `WHERE` that pins the primary key changes at most one row. -/
theorem count_eq_one {t : Table R} {p : R → Bool} {r : R} (member : r ∈ t) (holds : p r = true)
    (pinned : ∀ s ∈ t, p s = true → Schema.key s = Schema.key r) : t.count p = 1 := by
  have only : ∀ s ∈ t, p s = true → s = r := fun s hs h => eq_of_key hs member (pinned s hs h)
  obtain ⟨before, after, split⟩ := List.append_of_mem (mem_rows.mpr member)
  have distinct := t.distinct
  rw [split, List.pairwise_append] at distinct
  have absent : ∀ s ∈ before ++ after, ¬p s = true := by
    intro s hs h
    have same : s = r := by
      apply only s _ h
      rw [← mem_rows, split]
      simp only [List.mem_append, List.mem_cons] at hs ⊢
      tauto
    subst same
    rcases List.mem_append.mp hs with inBefore | inAfter
    · exact distinct.2.2 s inBefore s List.mem_cons_self (Schema.clash_of_key s s rfl)
    · exact List.rel_of_pairwise_cons distinct.2.1 inAfter (Schema.clash_of_key s s rfl)
  have none : (before ++ after).countP p = 0 := List.countP_eq_zero.mpr absent
  rw [List.countP_append] at none
  unfold count
  rw [split, List.countP_append, List.countP_cons, if_pos holds]
  omega

omit [DecidableEq K] in
theorem exists_of_count {t : Table R} {p : R → Bool} (counted : t.count p ≠ 0) :
    ∃ r ∈ t, p r = true := by
  by_contra missing
  push Not at missing
  exact counted (List.countP_eq_zero.mpr fun r hr => by simpa using missing r hr)

end Lookup

/-! ## What a statement leaves behind -/

theorem mem_insert {t t' : Table R} {r s : R} (inserted : t.insert r = .ok t') :
    s ∈ t' ↔ s ∈ t ∨ s = r := by
  rw [← mem_rows, ofRows_eq_ok inserted]
  simp [mem_rows]

theorem insert_fresh {t t' : Table R} {r : R} (inserted : t.insert r = .ok t') :
    ∀ s ∈ t, ¬Schema.clash s r := by
  have distinct := t'.distinct
  rw [ofRows_eq_ok inserted, List.pairwise_append] at distinct
  exact fun s hs => distinct.2.2 s hs r List.mem_cons_self

theorem insert_of {t : Table R} {r : R} (checked : Schema.check r = true)
    (fresh : ∀ s ∈ t, ¬Schema.clash s r) :
    ∃ t', t.insert r = .ok t' := by
  refine ⟨_, ofRows_of ?_ ?_⟩
  · intro s hs
    rcases List.mem_append.mp hs with old | new
    · exact t.checked s old
    · rw [List.mem_singleton.mp new]; exact checked
  · refine List.pairwise_append.mpr ⟨t.distinct, List.pairwise_singleton _ _, ?_⟩
    intro s hs q hq
    rw [List.mem_singleton.mp hq]
    exact fresh s hs

/-- A row that passes the checks can only clash. -/
theorem insert_ne_check {t : Table R} {r : R} (checked : Schema.check r = true) :
    t.insert r ≠ .error .check := by
  intro failed
  have all : ∀ s ∈ t.rows ++ [r], Schema.check s = true := by
    intro s hs
    rcases List.mem_append.mp hs with old | new
    · exact t.checked s old
    · rw [List.mem_singleton.mp new]; exact checked
  rw [insert, ofRows, dif_pos all] at failed
  split at failed <;> cases failed

theorem mem_update {t t' : Table R} {p : R → Bool} {f : R → R} {s : R}
    (updated : t.update p f = .ok t') :
    s ∈ t' ↔ ∃ r ∈ t, s = if p r then f r else r := by
  rw [← mem_rows, ofRows_eq_ok updated, List.mem_map]
  exact exists_congr fun r => and_congr_right fun _ => eq_comm

/-- An update of one row. -/
theorem mem_update_one {t t' : Table R} {p : R → Bool} {f : R → R} {r s : R}
    (updated : t.update p f = .ok t') (member : r ∈ t) (chosen : p r = true)
    (only : ∀ q ∈ t, p q = true → Schema.key q = Schema.key r) :
    s ∈ t' ↔ (s ∈ t ∧ Schema.key s ≠ Schema.key r) ∨ s = f r := by
  rw [mem_update updated]
  constructor
  · rintro ⟨q, hq, rfl⟩
    by_cases same : Schema.key q = Schema.key r
    · obtain rfl : q = r := eq_of_key hq member same
      rw [if_pos chosen]
      exact Or.inr rfl
    · rw [if_neg fun h => same (only q hq h)]
      exact Or.inl ⟨hq, same⟩
  · rintro (⟨hs, other⟩ | rfl)
    · exact ⟨s, hs, by rw [if_neg fun h => other (only s hs h)]⟩
    · exact ⟨r, member, by rw [if_pos chosen]⟩

/-- An update that keeps every `UNIQUE` column fails only by a `CHECK`. -/
theorem update_of {t : Table R} {p : R → Bool} {f : R → R}
    (keeps : ∀ r s, Schema.clash (f r) s ↔ Schema.clash r s)
    (checked : ∀ r ∈ t, p r = true → Schema.check (f r) = true) :
    ∃ t', t.update p f = .ok t' := by
  refine ⟨_, ofRows_of ?_ ?_⟩
  · intro s hs
    obtain ⟨r, hr, rfl⟩ := List.mem_map.mp hs
    split
    · exact checked r hr ‹_›
    · exact t.checked r hr
  · have swap : ∀ r s, Schema.clash s (f r) ↔ Schema.clash s r := fun r s =>
      ⟨fun c => Schema.clash_symm _ _ ((keeps r s).mp (Schema.clash_symm _ _ c)),
        fun c => Schema.clash_symm _ _ ((keeps r s).mpr (Schema.clash_symm _ _ c))⟩
    rw [List.pairwise_map]
    refine t.distinct.imp fun {r s} apart => ?_
    split <;> split <;> simpa only [keeps, swap] using apart

@[simp] theorem mem_delete {t : Table R} {p : R → Bool} {s : R} :
    s ∈ t.delete p ↔ s ∈ t ∧ ¬p s = true := by
  simp [delete, ← mem_rows]

section LookupAfter

variable [DecidableEq K]

theorem get_insert {t t' : Table R} {r : R} (inserted : t.insert r = .ok t') (k : K) :
    t'.get k = if Schema.key r = k then some r else t.get k := by
  split
  · rename_i same
    exact get_eq_some.mpr ⟨(mem_insert inserted).mpr (Or.inr rfl), same⟩
  · rename_i other
    cases found : t.get k with
    | none =>
        rw [get_eq_none] at found ⊢
        intro s hs
        rcases (mem_insert inserted).mp hs with old | rfl
        · exact found s old
        · exact other
    | some s =>
        obtain ⟨hs, hk⟩ := get_eq_some.mp found
        exact get_eq_some.mpr ⟨(mem_insert inserted).mpr (Or.inl hs), hk⟩

theorem get_update {t t' : Table R} {p : R → Bool} {f : R → R}
    (updated : t.update p f = .ok t') (keeps : ∀ r, Schema.key (f r) = Schema.key r) (k : K) :
    t'.get k = (t.get k).map fun r => if p r then f r else r := by
  have keyed : ∀ r, Schema.key (if p r then f r else r) = Schema.key r := by
    intro r; split
    · exact keeps r
    · rfl
  cases found : t.get k with
  | none =>
      rw [get_eq_none] at found
      rw [Option.map_none, get_eq_none]
      intro s hs
      obtain ⟨r, hr, rfl⟩ := (mem_update updated).mp hs
      rw [keyed]
      exact found r hr
  | some r =>
      obtain ⟨hr, hk⟩ := get_eq_some.mp found
      rw [Option.map_some, get_eq_some]
      exact ⟨(mem_update updated).mpr ⟨r, hr, rfl⟩, by rw [keyed, hk]⟩

end LookupAfter

/-! ## How many rows are left -/

theorem count_insert {t t' : Table R} {r : R} (inserted : t.insert r = .ok t') (p : R → Bool) :
    t'.count p = t.count p + if p r then 1 else 0 := by
  rw [count, ofRows_eq_ok inserted, List.countP_append, List.countP_singleton, count]

theorem count_delete_le (t : Table R) (p q : R → Bool) : (t.delete p).count q ≤ t.count q :=
  List.filter_sublist.countP_le

/-- The rows that an update takes into a `WHERE`, against those that it takes out of it. -/
theorem count_update {t t' : Table R} {p : R → Bool} {f : R → R}
    (updated : t.update p f = .ok t') (q : R → Bool) :
    t'.count q + t.count (fun r => p r && q r) =
      t.count q + t.count (fun r => p r && q (f r)) := by
  have counted (rows : List R) :
      (rows.map fun r => if p r then f r else r).countP q + rows.countP (fun r => p r && q r) =
        rows.countP q + rows.countP (fun r => p r && q (f r)) := by
    induction rows with
    | nil => rfl
    | cons r rows ih =>
        simp only [List.map_cons, List.countP_cons]
        cases p r <;> simp only [Bool.false_and, Bool.true_and, if_true] <;> grind
  rw [count, ofRows_eq_ok updated]
  exact counted t.rows

/-! ## Row identifiers -/

/-- One above every row identifier in use, as an `INTEGER PRIMARY KEY` column
numbers a new row. -/
def nextRowid {R : Type u} [Schema R Nat] (t : Table R) : Nat :=
  (t.rows.map Schema.key).max?.getD 0 + 1

theorem key_lt_nextRowid {R : Type u} [Schema R Nat] {t : Table R} {r : R} (member : r ∈ t) :
    Schema.key r < t.nextRowid :=
  Nat.lt_succ_of_le (List.le_max?_getD_of_mem (List.mem_map_of_mem member))

end Table

end Tit.Theory
