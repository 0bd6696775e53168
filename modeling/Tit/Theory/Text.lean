/-
# Theory.Text -- lines and decimal numbers in bytes

The lines of a text are what lies between its newlines; a newline at the end opens no line.
Lines that are each followed by a newline are read back (`lines_unlines`), and so is a number
that is printed in decimal (`parseDecimal_decimal`).
-/
import Mathlib.Data.List.Basic

namespace Tit.Theory.Text

set_option autoImplicit false

/-! ## Lines -/

def newline : UInt8 := 10

def lines : List UInt8 → List (List UInt8)
  | [] => []
  | b :: rest =>
      if b = newline then [] :: lines rest
      else
        match lines rest with
        | [] => [[b]]
        | l :: ls => (b :: l) :: ls

def unlines (ls : List (List UInt8)) : List UInt8 := ls.flatMap fun l => l ++ [newline]

@[simp] theorem lines_nil : lines [] = [] := rfl

theorem lines_newline (rest : List UInt8) : lines (newline :: rest) = [] :: lines rest := by
  rw [lines, if_pos rfl]

theorem lines_cons {b : UInt8} (other : b ≠ newline) (rest : List UInt8) :
    lines (b :: rest) = (b :: (lines rest).headD []) :: (lines rest).tail := by
  rw [lines, if_neg other]
  cases lines rest <;> rfl

theorem lines_append {l : List UInt8} (clean : newline ∉ l) (rest : List UInt8) :
    lines (l ++ newline :: rest) = l :: lines rest := by
  induction l with
  | nil => exact lines_newline rest
  | cons b l ih =>
      rw [List.mem_cons, not_or] at clean
      rw [List.cons_append, lines_cons (Ne.symm clean.1), ih clean.2]
      rfl

/-- Lines that are each followed by a newline are read back. -/
theorem lines_unlines {ls : List (List UInt8)} (clean : ∀ l ∈ ls, newline ∉ l) :
    lines (unlines ls) = ls := by
  unfold unlines
  induction ls with
  | nil => rfl
  | cons l rest ih =>
      have later := ih fun k member => clean k (List.mem_cons_of_mem _ member)
      rw [List.flatMap_cons, List.append_assoc, List.singleton_append,
        lines_append (clean l List.mem_cons_self), later]

theorem lines_ne_nil {data : List UInt8} (some : data ≠ []) : lines data ≠ [] := by
  cases data with
  | nil => exact absurd rfl some
  | cons b rest =>
      by_cases ends : b = newline
      · rw [ends, lines_newline]
        exact List.cons_ne_nil _ _
      · rw [lines_cons ends]
        exact List.cons_ne_nil _ _

/-- No line has a newline in it, or a byte that is not in the text. -/
theorem of_mem_lines {data l : List UInt8} (member : l ∈ lines data) :
    newline ∉ l ∧ ∀ b ∈ l, b ∈ data := by
  induction data generalizing l with
  | nil => cases member
  | cons b rest ih =>
      by_cases ends : b = newline
      · rw [ends, lines_newline] at member
        rcases List.mem_cons.mp member with rfl | later
        · exact ⟨List.not_mem_nil, nofun⟩
        · exact ⟨(ih later).1, fun c inside => List.mem_cons_of_mem _ ((ih later).2 c inside)⟩
      · rw [lines_cons ends] at member
        cases found : lines rest with
        | nil =>
            rw [found] at member
            obtain rfl := List.mem_singleton.mp member
            simp [Ne.symm ends]
        | cons first more =>
            rw [found] at member
            rcases List.mem_cons.mp member with rfl | later
            · obtain ⟨clean, inside⟩ := ih (found ▸ List.mem_cons_self : first ∈ lines rest)
              refine ⟨?_, ?_⟩
              · simp [Ne.symm ends, clean]
              · intro c hc
                rcases List.mem_cons.mp hc with rfl | old
                · exact List.mem_cons_self
                · exact List.mem_cons_of_mem _ (inside c old)
            · obtain ⟨clean, inside⟩ := ih (found ▸ List.mem_cons_of_mem _ later : l ∈ lines rest)
              exact ⟨clean, fun c hc => List.mem_cons_of_mem _ (inside c hc)⟩

/-- The pieces between newlines are the lines, and one more after a newline at the end. -/
theorem length_splitOn_newline {data : List UInt8} (nonempty : data ≠ []) :
    (data.splitOn newline).length =
      (lines data).length + if data.getLast? = some newline then 1 else 0 := by
  induction data with
  | nil => exact absurd rfl nonempty
  | cons b rest ih =>
      rw [List.splitOn_cons_eq_if_modifyHead]
      cases rest with
      | nil =>
          by_cases ends : b = newline
          · simp [ends, lines]
          · simp [ends, lines]
      | cons c more =>
          have later := ih (List.cons_ne_nil _ _)
          rw [List.getLast?_cons_cons]
          by_cases ends : b = newline
          · rw [ends, lines_newline, beq_self_eq_true, if_pos rfl, List.length_cons, later,
              List.length_cons]
            omega
          · have some := List.length_pos_of_ne_nil (lines_ne_nil (List.cons_ne_nil c more))
            rw [lines_cons ends, if_neg (by simpa using ends), List.length_modifyHead, later,
              List.length_cons, List.length_tail]
            omega

theorem length_lines_le (data : List UInt8) : (lines data).length ≤ data.length := by
  induction data with
  | nil => exact Nat.le_refl 0
  | cons b rest ih =>
      by_cases ends : b = newline
      · rw [ends, lines_newline, List.length_cons, List.length_cons]
        omega
      · rw [lines_cons ends, List.length_cons, List.length_cons, List.length_tail]
        omega

/-! ## Lines with their newlines -/

/-- The lines, each with the newline that ends it; only the last one may be without. -/
def tokens : List UInt8 → List (List UInt8)
  | [] => []
  | b :: rest =>
      if b = newline then [newline] :: tokens rest
      else
        match tokens rest with
        | [] => [[b]]
        | t :: ts => (b :: t) :: ts

/-- The line ends with a newline. -/
def isTerminated (t : List UInt8) : Bool := decide (t.getLast? = some newline)

def chomp (t : List UInt8) : List UInt8 := if isTerminated t then t.dropLast else t

theorem tokens_cons {b : UInt8} (other : b ≠ newline) (rest : List UInt8) :
    tokens (b :: rest) = (b :: (tokens rest).headD []) :: (tokens rest).tail := by
  rw [tokens, if_neg other]
  cases tokens rest <;> rfl

@[simp] theorem flatten_tokens (data : List UInt8) : (tokens data).flatten = data := by
  induction data with
  | nil => rfl
  | cons b rest ih =>
      by_cases ends : b = newline
      · rw [tokens, if_pos ends, List.flatten_cons, ih, ends]
        rfl
      · rw [tokens_cons ends]
        cases found : tokens rest with
        | nil =>
            rw [found] at ih
            simp [← ih]
        | cons t ts =>
            rw [found] at ih
            simp [← ih]

theorem newline_notMem_chomp {data t : List UInt8} (member : t ∈ tokens data) :
    newline ∉ chomp t := by
  suffices shape : newline ∉ t ∨ ∃ l, newline ∉ l ∧ t = l ++ [newline] by
    unfold chomp isTerminated
    rcases shape with clean | ⟨l, clean, rfl⟩
    · split
      · exact fun inside => clean (List.dropLast_subset _ inside)
      · exact clean
    · simpa using clean
  induction data generalizing t with
  | nil => cases member
  | cons b rest ih =>
      by_cases ends : b = newline
      · rw [tokens, if_pos ends] at member
        rcases List.mem_cons.mp member with rfl | later
        · exact .inr ⟨[], List.not_mem_nil, rfl⟩
        · exact ih later
      · rw [tokens_cons ends] at member
        cases found : tokens rest with
        | nil =>
            rw [found] at member
            obtain rfl := List.mem_singleton.mp member
            exact .inl (by simp [Ne.symm ends])
        | cons first more =>
            rw [found] at member
            rcases List.mem_cons.mp member with rfl | later
            · rcases ih (found ▸ List.mem_cons_self : first ∈ tokens rest) with
                clean | ⟨l, clean, rfl⟩
              · exact .inl (by simp [Ne.symm ends, clean])
              · exact .inr ⟨b :: l, by simp [Ne.symm ends, clean], rfl⟩
            · exact ih (found ▸ List.mem_cons_of_mem _ later : t ∈ tokens rest)

theorem chomp_newline {t : List UInt8} (ends : isTerminated t = true) :
    chomp t ++ [newline] = t := by
  rw [chomp, if_pos ends]
  exact List.dropLast_append_getLast? newline (of_decide_eq_true ends)

theorem chomp_eq {t : List UInt8} (open' : isTerminated t = false) : chomp t = t := by
  rw [chomp, if_neg (by rw [open']; exact Bool.false_ne_true)]

/-! ## Decimal numbers -/

def digit (c : Char) : UInt8 := UInt8.ofNat c.toNat

def decimal (n : Nat) : List UInt8 := (Nat.toDigits 10 n).map digit

def isDigit (b : UInt8) : Bool := decide (48 ≤ b ∧ b ≤ 57)

def parseDecimal (text : List UInt8) : Option Nat :=
  if text ≠ [] ∧ text.all isDigit then
    some (text.foldl (fun value b => 10 * value + (b.toNat - 48)) 0)
  else none

theorem digit_of_isDigit {c : Char} (digits : c.isDigit = true) :
    (digit c).toNat = c.toNat ∧ isDigit (digit c) = true := by
  have range : 48 ≤ c.toNat ∧ c.toNat ≤ 57 := by
    simpa [Char.isDigit, UInt32.le_iff_toNat_le] using digits
  have same : (digit c).toNat = c.toNat := by
    unfold digit
    rw [UInt8.toNat_ofNat']
    omega
  refine ⟨same, ?_⟩
  unfold isDigit
  rw [decide_eq_true_eq, UInt8.le_iff_toNat_le, UInt8.le_iff_toNat_le, same]
  exact range

theorem isDigit_of_decimal {n : Nat} {b : UInt8} (member : b ∈ decimal n) : isDigit b = true := by
  obtain ⟨c, inside, rfl⟩ := List.mem_map.mp member
  exact (digit_of_isDigit (Nat.isDigit_of_mem_toDigits (by omega) (by omega) inside)).2

theorem decimal_ne_nil (n : Nat) : decimal n ≠ [] := by
  unfold decimal
  rw [ne_eq, List.map_eq_nil_iff]
  exact Nat.toDigits_ne_nil

@[simp] theorem parseDecimal_decimal (n : Nat) : parseDecimal (decimal n) = some n := by
  have digits : ∀ c ∈ Nat.toDigits 10 n, c.isDigit = true := fun c inside =>
    Nat.isDigit_of_mem_toDigits (by omega) (by omega) inside
  have value : ∀ cs : List Char, (∀ c ∈ cs, c.isDigit = true) → ∀ start,
      (cs.map digit).foldl (fun value b => 10 * value + (b.toNat - 48)) start =
        Nat.ofDigitChars 10 cs start := by
    intro cs
    induction cs with
    | nil => intro _ start; simp
    | cons c cs ih =>
        intro all start
        have here := (digit_of_isDigit (all c List.mem_cons_self)).1
        rw [List.map_cons, List.foldl_cons, here, Nat.ofDigitChars_cons,
          ih fun d hd => all d (List.mem_cons_of_mem _ hd)]
        rfl
  unfold parseDecimal
  rw [if_pos ⟨decimal_ne_nil n, List.all_eq_true.mpr fun b => isDigit_of_decimal⟩]
  unfold decimal
  rw [value _ digits, Nat.ofDigitChars_ten_toDigits]

end Tit.Theory.Text
