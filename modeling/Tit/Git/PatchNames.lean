/-
# Git.PatchNames -- names and numbers of a patch are read back

What the writer prints on the header lines of a record, and how the reader takes it apart:
keywords, quoted paths, modes, object names and the ranges of hunks.
-/
import Tit.Git.Apply
import Tit.Git.Patch

namespace Tit.Git

open Tit.Theory Tit.Theory.Text Tit.Store

set_option autoImplicit false

/-! ## Keywords -/

theorem after_eq_some {start line rest : Bytes} :
    after start line = some rest ↔ line = start ++ rest := by
  induction start generalizing line with
  | nil => simp [after, eq_comm]
  | cons a start ih =>
      cases line with
      | nil => simp [after]
      | cons b line =>
          by_cases same : a = b
          · simp [after, same, ih]
          · simp [after, same, Ne.symm same]

@[simp] theorem after_append (start rest : Bytes) : after start (start ++ rest) = some rest :=
  after_eq_some.mpr rfl

theorem after_apart {start other : Bytes} (apart : start.isPrefixOf other = false)
    (apart' : other.isPrefixOf start = false) (rest : Bytes) :
    after start (other ++ rest) = none := by
  cases found : after start (other ++ rest) with
  | none => rfl
  | some left =>
      have here : start <+: other ++ rest := ⟨left, (after_eq_some.mp found).symm⟩
      rcases List.prefix_or_prefix_of_prefix here (List.prefix_append other rest) with p | p
      · rw [List.isPrefixOf_iff_prefix.mpr p] at apart
        cases apart
      · rw [List.isPrefixOf_iff_prefix.mpr p] at apart'
        cases apart'

theorem Keyword.mem_all (k : Keyword) : k ∈ Keyword.all := by
  cases k <;> decide

/-- No keyword is the start of another one. -/
theorem Keyword.apart : ∀ k ∈ Keyword.all, ∀ k' ∈ Keyword.all, k ≠ k' →
    k.text.isPrefixOf k'.text = false := by
  decide

theorem keywordOf_text (k : Keyword) (rest : Bytes) : keywordOf (k.text ++ rest) = some (k, rest) := by
  suffices found : ∀ ks : List Keyword, k ∈ ks → (ks.findSome? fun keyword =>
      (after keyword.text (k.text ++ rest)).map (keyword, ·)) = some (k, rest) from
    found _ k.mem_all
  intro ks member
  induction ks with
  | nil => cases member
  | cons k' ks ih =>
      rw [List.findSome?_cons]
      by_cases same : k' = k
      · simp [same]
      · have none := after_apart (Keyword.apart k' k'.mem_all k k.mem_all same)
          (Keyword.apart k k.mem_all k' k'.mem_all (Ne.symm same)) rest
        rw [none]
        exact ih ((List.mem_cons.mp member).resolve_left (Ne.symm same))

theorem keywordOf_diff {line rest : Bytes} (found : keywordOf line = some (.diff, rest)) :
    after Keyword.diff.text line = some rest := by
  obtain ⟨k, -, here⟩ := List.exists_of_findSome?_eq_some found
  obtain ⟨left, taken, same⟩ := Option.map_eq_some_iff.mp here
  obtain ⟨rfl, rfl⟩ := Prod.mk.inj same
  exact taken

/-! ## Paths -/

theorem octalDigits (n : Nat) : ∀ c ∈ Nat.toDigits 8 n, isOctal (digit c) = true ∧
    (digit c).toNat = c.toNat := by
  induction n using Nat.strongRecOn with
  | _ n ih =>
      have low : ∀ d < 8, isOctal (digit (Nat.digitChar d)) = true ∧
          (digit (Nat.digitChar d)).toNat = (Nat.digitChar d).toNat := by decide
      intro c inside
      rw [Nat.toDigits_eq_if (by omega)] at inside
      split at inside
      · rename_i small
        obtain rfl := List.mem_singleton.mp inside
        exact low n small
      · rename_i large
        rcases List.mem_append.mp inside with here | last
        · exact ih (n / 8) (Nat.div_lt_self (by omega) (by omega)) c here
        · obtain rfl := List.mem_singleton.mp last
          exact low (n % 8) (Nat.mod_lt _ (by omega))

theorem isOctal_of_octal {width n : Nat} {b : UInt8} (member : b ∈ octal width n) :
    isOctal b = true := by
  unfold octal at member
  rcases List.mem_append.mp member with zero | digits
  · obtain rfl := (List.mem_replicate.mp zero).2
    decide
  · obtain ⟨c, inside, rfl⟩ := List.mem_map.mp digits
    exact (octalDigits n c inside).1

theorem newline_notMem_octal (width n : Nat) : newline ∉ octal width n := fun inside =>
  absurd (isOctal_of_octal inside) (by decide)

theorem octalValue_octal (width n : Nat) : octalValue (octal width n) = n := by
  have zeros : ∀ k, (List.replicate k (48 : UInt8)).foldl
      (fun value b => 8 * value + (b.toNat - 48)) 0 = 0 := by
    intro k
    induction k with
    | zero => rfl
    | succ k ih => rw [List.replicate_succ, List.foldl_cons]; exact ih
  have digits : ∀ cs : List Char, (∀ c ∈ cs, (digit c).toNat = c.toNat) → ∀ start,
      (cs.map digit).foldl (fun value b => 8 * value + (b.toNat - 48)) start =
        Nat.ofDigitChars 8 cs start := by
    intro cs
    induction cs with
    | nil => intro _ start; simp
    | cons c cs ih =>
        intro all start
        rw [List.map_cons, List.foldl_cons, all c List.mem_cons_self, Nat.ofDigitChars_cons,
          ih fun d hd => all d (List.mem_cons_of_mem _ hd)]
        rfl
  unfold octalValue octal
  rw [List.foldl_append, zeros, digits _ fun c inside => (octalDigits n c inside).2,
    Nat.ofDigitChars_toDigits (by omega) (by omega)]

theorem escape_octal {letter : UInt8} (digit : isOctal letter = true) : escape letter = none := by
  have low := of_decide_eq_true digit
  rw [UInt8.le_iff_toNat_le, UInt8.le_iff_toNat_le] at low
  have apart : ∀ other : UInt8, (other.toNat < 48 ∨ 55 < other.toNat) → letter ≠ other := by
    rintro other outside rfl
    have at48 : (48 : UInt8).toNat = 48 := rfl
    have at55 : (55 : UInt8).toNat = 55 := rfl
    omega
  unfold escape
  simp [apart 34 (by decide), apart 92 (by decide), apart 97 (by decide), apart 98 (by decide),
    apart 116 (by decide), apart 110 (by decide), apart 118 (by decide), apart 102 (by decide),
    apart 114 (by decide)]

/-- The octal form of a byte. -/
theorem octal_byte {n : Nat} (small : n < 256) : ∃ first second third,
    octal 3 n = [first, second, third] ∧ [first, second, third].all isOctal = true ∧ first ≤ 51 ∧
      octalValue [first, second, third] = n ∧ escape first = none := by
  have short : (Nat.toDigits 8 n).length ≤ 3 :=
    (Nat.length_toDigits_le_iff (by omega) (by omega)).mpr (by omega)
  have length : (octal 3 n).length = 3 := by
    simp only [octal, List.length_append, List.length_replicate, List.length_map]
    omega
  obtain ⟨a, b, c, shape⟩ := List.length_eq_three.mp length
  have all : ∀ d ∈ [a, b, c], isOctal d = true := by
    rw [← shape]
    exact fun d => isOctal_of_octal
  have value : octalValue [a, b, c] = n := by
    rw [← shape, octalValue_octal]
  have first := all a List.mem_cons_self
  refine ⟨a, b, c, shape, List.all_eq_true.mpr all, ?_, value, escape_octal first⟩
  simp only [octalValue, List.foldl_cons, List.foldl_nil] at value
  rw [UInt8.le_iff_toNat_le]
  show a.toNat ≤ 51
  omega

theorem unquote_plain {b : UInt8} (quote : b ≠ 34) (backslash : b ≠ 92) (rest : Bytes) :
    unquote (b :: rest) = (unquote rest).map fun r => (b :: r.1, r.2) := by
  rw [unquote.eq_def]
  simp only
  rw [if_neg quote, if_pos backslash]

theorem unquote_escape {letter c : UInt8} (stands : escape letter = some c) (rest : Bytes) :
    unquote (92 :: letter :: rest) = (unquote rest).map fun r => (c :: r.1, r.2) := by
  rw [unquote.eq_def]
  simp only
  rw [if_neg (by decide), if_neg (by decide)]
  simp only [stands]

theorem unquote_octal {first second third : UInt8} (plain : escape first = none)
    (all : [first, second, third].all isOctal = true) (low : first ≤ 51) (rest : Bytes) :
    unquote (92 :: first :: second :: third :: rest) =
      (unquote rest).map fun r => (UInt8.ofNat (octalValue [first, second, third]) :: r.1, r.2) := by
  rw [unquote.eq_def]
  simp only
  rw [if_neg (by decide), if_neg (by decide)]
  simp only [plain]
  rw [if_pos ⟨all, low⟩]

theorem unquote_quotedByte (b : UInt8) (rest : Bytes) :
    unquote (quotedByte b ++ rest) = (unquote rest).map fun r => (b :: r.1, r.2) := by
  unfold quotedByte
  split
  · rename_i special
    have stands : escape b = some b := if_pos special
    exact unquote_escape stands rest
  · rename_i plain
    rw [not_or] at plain
    split
    · rename_i tab
      rw [tab]
      exact unquote_escape (by decide) rest
    · split
      · rename_i feed
        rw [feed]
        exact unquote_escape (by decide) rest
      · split
        · rename_i ret
          rw [ret]
          exact unquote_escape (by decide) rest
        · split
          · exact unquote_plain plain.1 plain.2 rest
          · obtain ⟨first, second, third, shape, all, low, value, letter⟩ :=
              octal_byte b.toNat_lt
            rw [shape]
            have read := unquote_octal letter all low rest
            rwa [value, UInt8.ofNat_toNat] at read

theorem unquote_quoted (name rest : Bytes) :
    unquote (name.flatMap quotedByte ++ 34 :: rest) = some (name, rest) := by
  induction name with
  | nil =>
      rw [List.flatMap_nil, List.nil_append, unquote.eq_def]
      exact if_pos rfl
  | cons b name ih =>
      rw [List.flatMap_cons, List.append_assoc, unquote_quotedByte, ih]
      rfl

theorem takeWhile_stop {p : UInt8 → Bool} {l rest : Bytes} (all : ∀ b ∈ l, p b = true)
    (stop : ∀ b, rest.head? = some b → p b = false) :
    (l ++ rest).takeWhile p = l ∧ (l ++ rest).dropWhile p = rest := by
  rw [List.takeWhile_append_of_pos all, List.dropWhile_append_of_pos all]
  cases rest with
  | nil => simp
  | cons b rest => simp [stop b rfl]

/-- What may follow a name on its line. -/
def Follows (rest : Bytes) : Prop := ∀ b, rest.head? = some b → b = 32

theorem isPlainName_iff {name : Bytes} :
    isPlainName name = true ↔ ∀ b ∈ name, 33 ≤ b ∧ b ≤ 126 ∧ b ≠ 34 ∧ b ≠ 92 := by
  unfold isPlainName
  simp only [List.all_eq_true, decide_eq_true_eq]

theorem readName_patchPath (start : UInt8) (path : GitPath) {rest : Bytes} (follows : Follows rest) :
    readName (patchPath start path ++ rest) = some (start :: 47 :: path, rest) := by
  unfold patchPath
  simp only
  split
  · rename_i plain
    have bytes := isPlainName_iff.mp plain
    have first : start ≠ 34 := (bytes start List.mem_cons_self).2.2.1
    have clean : ∀ b ∈ start :: 47 :: path, decide (b ≠ 32) = true := by
      intro b inside
      have low := (bytes b inside).1
      rw [decide_eq_true_eq]
      rintro rfl
      exact absurd low (by decide)
    obtain ⟨taken, dropped⟩ := takeWhile_stop clean
      (fun b head => by simp [follows b head] : ∀ b, rest.head? = some b →
        decide (b ≠ 32) = false)
    rw [readName, if_neg (by simpa using first), taken, dropped]
  · rw [readName, if_pos (by rw [List.append_assoc]; rfl)]
    have shape : (34 :: (start :: 47 :: path).flatMap quotedByte ++ [34] ++ rest).tail =
        (start :: 47 :: path).flatMap quotedByte ++ 34 :: rest := by simp
    rw [shape, unquote_quoted]

theorem stripFirst_named {start : UInt8} (named : start ≠ slash) (path : GitPath) :
    stripFirst (start :: 47 :: path) = path := by
  unfold stripFirst
  rw [List.dropWhile_cons_of_pos (by simpa using named), List.dropWhile_cons_of_neg (by decide),
    List.drop_one, List.tail_cons]

theorem readNames_diffLine (path : GitPath) :
    readNames (patchPath 97 path ++ 32 :: patchPath 98 path) = some path := by
  have first := @readName_patchPath 97 path (32 :: patchPath 98 path)
    (fun b head => (Option.some.inj head).symm)
  have second := @readName_patchPath 98 path [] nofun
  rw [List.append_nil] at second
  have space : after [32] (32 :: patchPath 98 path) = some (patchPath 98 path) :=
    after_append [32] _
  simp [readNames, first, second, space, stripFirst_named (show (97 : UInt8) ≠ slash by decide),
    stripFirst_named (show (98 : UInt8) ≠ slash by decide)]

theorem isNamed_patchPath {start : UInt8} (named : start ≠ slash) (path : GitPath) :
    isNamed true path (patchPath start path) = true := by
  have read := @readName_patchPath start path [] nofun
  rw [List.append_nil] at read
  simp [isNamed, read, stripFirst_named named]

theorem newline_notMem_quotedByte (b : UInt8) : newline ∉ quotedByte b := by
  unfold quotedByte
  split
  · rename_i special
    rcases special with rfl | rfl <;> decide
  · split
    · decide
    · split
      · decide
      · split
        · decide
        · split
          · rename_i plain
            intro inside
            obtain rfl := List.mem_singleton.mp inside
            exact absurd plain.1 (by decide)
          · rw [List.mem_cons, not_or]
            exact ⟨by decide, newline_notMem_octal 3 b.toNat⟩

theorem newline_notMem_patchPath (start : UInt8) (path : GitPath) :
    newline ∉ patchPath start path := by
  unfold patchPath
  simp only
  split
  · rename_i plain
    intro inside
    have low := (isPlainName_iff.mp plain newline inside).1
    exact absurd low (by decide)
  · simp only [List.cons_append, List.mem_cons, List.mem_append, List.mem_flatMap, not_or,
      List.not_mem_nil, not_false_eq_true, and_true]
    refine ⟨by decide, ?_, by decide⟩
    rintro ⟨b, -, inside⟩
    exact newline_notMem_quotedByte b inside

/-! ## Modes -/

theorem octal_ne_nil (width n : Nat) : octal width n ≠ [] := by
  unfold octal
  rw [ne_eq, List.append_eq_nil_iff, List.map_eq_nil_iff]
  exact fun empty => Nat.toDigits_ne_nil empty.2

theorem readMode_octal (mode : EntryMode) : readMode (octal 6 mode.value) = some mode := by
  rw [readMode, if_pos ⟨octal_ne_nil _ _, List.all_eq_true.mpr fun b => isOctal_of_octal⟩,
    octalValue_octal]

/-! ## Object names -/

/-- A digit of an object name. -/
def isHex (b : UInt8) : Bool := decide (b ≠ 46 ∧ b ≠ 32 ∧ b ≠ newline)

section Ids

variable (format : ObjectFormat)

theorem isHex_objectName {id : Option ObjectId} {length : Nat} {b : UInt8}
    (member : b ∈ objectName format id length) : isHex b = true := by
  cases id with
  | none =>
      obtain rfl := (List.mem_replicate.mp member).2
      decide
  | some id =>
      have all : ∀ d < 16, isHex (digit (Nat.digitChar d)) = true := by decide
      obtain ⟨i, -, rfl⟩ := List.mem_map.mp member
      exact all _ (Nat.mod_lt _ (by omega))

theorem readIndex_names (old new : Option ObjectId) (length : Nat) {rest : Bytes}
    (follows : Follows rest) :
    readIndex (objectName format old length ++ [46, 46] ++ objectName format new length ++ rest) =
      (objectName format old length, objectName format new length) := by
  have name : ∀ id, ∀ b ∈ objectName format id length, b ≠ 46 ∧ b ≠ 32 := by
    intro id b member
    have hex := of_decide_eq_true (isHex_objectName format member)
    exact ⟨hex.1, hex.2.1⟩
  obtain ⟨first, dropped⟩ :=
    (@takeWhile_stop _ _ ([46, 46] ++ (objectName format new length ++ rest)))
    (fun b member => decide_eq_true (name old b member).1)
    (fun b head => by simp [(Option.some.inj head).symm])
  obtain ⟨second, -⟩ := (@takeWhile_stop _ _ rest)
    (fun b member => decide_eq_true (name new b member).2)
    (fun b head => by simp [follows b head])
  rw [List.append_assoc, List.append_assoc]
  unfold readIndex
  rw [first, dropped]
  exact congrArg _ second

end Ids

/-! ## Ranges -/

theorem readNumber_decimal (n : Nat) {rest : Bytes}
    (stop : ∀ b, rest.head? = some b → isDigit b = false) :
    readNumber (decimal n ++ rest) = some (n, rest) := by
  obtain ⟨taken, dropped⟩ := takeWhile_stop (fun b => isDigit_of_decimal (n := n)) stop
  rw [readNumber, taken, dropped, parseDecimal_decimal]
  rfl

theorem readPair_decimal (a b : Nat) {rest : Bytes}
    (stop : ∀ b, rest.head? = some b → isDigit b = false) :
    readPair (decimal a ++ 44 :: (decimal b ++ rest)) = some ((a, b), rest) := by
  have first := @readNumber_decimal a (44 :: (decimal b ++ rest))
    (fun c head => (Option.some.inj head) ▸ (by decide))
  have comma : after [44] (44 :: (decimal b ++ rest)) = some (decimal b ++ rest) :=
    after_append [44] _
  simp [readPair, first, comma, readNumber_decimal b stop]

/-- What is between the ranges of a header, and after them. -/
theorem readRange_header (h : Hunk) :
    ∃ text, h.header = Keyword.range.text ++ text ∧
      readRange text = some ((h.oldStart, h.oldCount), (h.newStart, h.newCount)) := by
  have start : Keyword.range.text = [64, 64, 32, 45] := by simp [Keyword.text, asciiBytes]
  let last := decimal h.newStart ++ 44 :: (decimal h.newCount ++ [32, 64, 64])
  refine ⟨decimal h.oldStart ++ 44 :: (decimal h.oldCount ++ 32 :: 43 :: last), ?_, ?_⟩
  · rw [start]
    simp [Hunk.header, last]
  · have old := @readPair_decimal h.oldStart h.oldCount (32 :: 43 :: last)
      (fun c head => (Option.some.inj head) ▸ (by decide))
    have middle : after [32, 43] (32 :: 43 :: last) = some last := after_append [32, 43] last
    have new := @readPair_decimal h.newStart h.newCount [32, 64, 64]
      (fun c head => (Option.some.inj head) ▸ (by decide))
    have ends : after [32, 64, 64] [32, 64, 64] = some [] := by decide
    unfold readRange
    rw [old]
    simp only [Option.bind_eq_bind, Option.bind_some]
    rw [middle]
    simp only [Option.bind_some]
    rw [new]
    simp only [Option.bind_some]
    rw [ends]
    rfl

end Tit.Git
