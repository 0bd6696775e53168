/-
# Git.PatchPaths -- the quoted names of a patch

`patch_path` writes a name as it is, or between quotes with every special byte escaped.  Both forms
are read back by Git's rules (`unquoteName_patchPath`), and no name is taken for another: a name
without quotes has no quote, no backslash and no space, and between the quotes a quote stands behind
a backslash only (`QuotedBody`).
-/
import Tit.Git.PatchNames

namespace Tit.Git

open Tit.Theory Tit.Store

set_option autoImplicit false

/-! ## The readers -/

/-- Git's C-style unquoting of a name that starts with a quote, and any other name as it is. -/
def unquoteName (name : Bytes) : Option Bytes :=
  if name.head? = some 34 then
    (unquote name.tail).bind fun (content, rest) => if rest = [] then some content else none
  else some name

/-- The two names of a `diff --git` line. -/
def readDiffLine (line : Bytes) : Option (Bytes × Bytes) := do
  let text ← after Keyword.diff.text line
  let (old, rest) ← readName text
  let rest ← after [32] rest
  let (new, rest) ← readName rest
  if rest = [] then some (old, new) else none

/-! ## What a name looks like -/

/-- A byte that stands for itself on a line. -/
def Printable (b : UInt8) : Prop := 32 ≤ b ∧ b ≤ 126

/-- What stands between the quotes: a backslash takes the byte behind it, and only so a quote. -/
inductive QuotedBody : Bytes → Prop where
  | nil : QuotedBody []
  | plain {b : UInt8} {rest : Bytes} (printable : Printable b) (quote : b ≠ 34) (backslash : b ≠ 92)
      (later : QuotedBody rest) : QuotedBody (b :: rest)
  | escaped {b : UInt8} {rest : Bytes} (printable : Printable b) (later : QuotedBody rest) :
      QuotedBody (92 :: b :: rest)

section Names

variable {start start' b : UInt8} {path path' body rest : Bytes}

theorem QuotedBody.printable (quoted : QuotedBody body) : ∀ b ∈ body, Printable b := by
  have backslash : Printable 92 := by constructor <;> decide
  induction quoted with
  | nil => exact fun b inside => absurd inside List.not_mem_nil
  | plain printable _ _ _ ih => exact List.forall_mem_cons.mpr ⟨printable, ih⟩
  | escaped printable _ ih =>
      exact List.forall_mem_cons.mpr ⟨backslash, List.forall_mem_cons.mpr ⟨printable, ih⟩⟩

theorem octal_plain (digit : isOctal b = true) : Printable b ∧ b ≠ 34 ∧ b ≠ 92 := by
  obtain ⟨low, high⟩ := of_decide_eq_true digit
  refine ⟨⟨Nat.le_trans (by decide) low, Nat.le_trans high (by decide)⟩, ?_, ?_⟩
  · rintro rfl
    exact absurd low (by decide)
  · rintro rfl
    exact absurd high (by decide)

/-- Each byte is written as one piece of the body. -/
theorem QuotedBody.quotedByte (later : QuotedBody rest) (b : UInt8) :
    QuotedBody (quotedByte b ++ rest) := by
  have letter {c : UInt8} (printable : 32 ≤ c ∧ c ≤ 126) : QuotedBody ([92, c] ++ rest) :=
    .escaped printable later
  unfold Git.quotedByte
  split
  · rename_i special
    rcases special with rfl | rfl <;> exact letter (by decide)
  · rename_i plain
    rw [not_or] at plain
    split
    · exact letter (by decide)
    · split
      · exact letter (by decide)
      · split
        · exact letter (by decide)
        · split
          · rename_i printable
            exact .plain printable plain.1 plain.2 later
          · obtain ⟨first, second, third, shape, all, -⟩ := octal_byte b.toNat_lt
            have digits := List.all_eq_true.mp all
            have one := octal_plain (digits first (by simp))
            have two := octal_plain (digits second (by simp))
            have three := octal_plain (digits third (by simp))
            rw [shape]
            exact .escaped one.1 (.plain two.1 two.2.1 two.2.2
              (.plain three.1 three.2.1 three.2.2 later))

theorem quotedBody_flatMap (name : Bytes) : QuotedBody (name.flatMap quotedByte) := by
  induction name with
  | nil => exact .nil
  | cons b name ih => exact ih.quotedByte b

/-- A name is written plainly, without space, quote and backslash, or between quotes. -/
theorem patchPath_shape (start : UInt8) (path : Bytes) :
    (patchPath start path = start :: 47 :: path ∧
      ∀ b ∈ patchPath start path, Printable b ∧ b ≠ 32 ∧ b ≠ 34 ∧ b ≠ 92) ∨
    ∃ body, patchPath start path = 34 :: body ++ [34] ∧ QuotedBody body := by
  unfold patchPath
  dsimp only
  split
  · rename_i plain
    refine .inl ⟨rfl, fun b inside => ?_⟩
    obtain ⟨low, high, quote, backslash⟩ := isPlainName_iff.mp plain b inside
    refine ⟨⟨Nat.le_trans (by decide) low, high⟩, ?_, quote, backslash⟩
    rintro rfl
    exact absurd low (by decide)
  · exact .inr ⟨_, rfl, quotedBody_flatMap _⟩

theorem printable_patchPath : ∀ b ∈ patchPath start path, Printable b := by
  have quote : Printable 34 := by constructor <;> decide
  rcases patchPath_shape start path with ⟨-, plain⟩ | ⟨body, shape, quoted⟩
  · exact fun b inside => (plain b inside).1
  · intro b inside
    rw [shape, List.mem_append, List.mem_cons, List.mem_singleton] at inside
    rcases inside with (rfl | within) | rfl
    · exact quote
    · exact quoted.printable b within
    · exact quote

/-- **A name is read back.** -/
theorem unquoteName_patchPath (start : UInt8) (path : Bytes) :
    unquoteName (patchPath start path) = some (start :: 47 :: path) := by
  have read := @readName_patchPath start path [] nofun
  rw [List.append_nil, readName] at read
  unfold unquoteName
  by_cases quoted : (patchPath start path).head? = some 34
  · rw [if_pos quoted] at read ⊢
    rw [read]
    rfl
  · rw [if_neg quoted]
    rcases patchPath_shape start path with ⟨shape, -⟩ | ⟨body, shape, -⟩
    · rw [shape]
    · rw [shape] at quoted
      exact absurd rfl quoted

theorem patchPath_injective (same : patchPath start path = patchPath start' path') :
    start = start' ∧ path = path' := by
  have names := (unquoteName_patchPath start path).symm.trans
    (same ▸ unquoteName_patchPath start' path')
  obtain ⟨rfl, rest⟩ := List.cons.inj (Option.some.inj names)
  exact ⟨rfl, (List.cons.inj rest).2⟩

theorem readDiffLine_names (start start' : UInt8) (path path' : Bytes) :
    readDiffLine (Keyword.diff.text ++ patchPath start path ++ 32 :: patchPath start' path') =
      some (start :: 47 :: path, start' :: 47 :: path') := by
  have first := @readName_patchPath start path (32 :: patchPath start' path')
    (fun b head => (Option.some.inj head).symm)
  have second := @readName_patchPath start' path' [] nofun
  rw [List.append_nil] at second
  have space : after [32] (32 :: patchPath start' path') = some (patchPath start' path') :=
    after_append [32] _
  rw [readDiffLine, List.append_assoc, after_append]
  simp only [Option.bind_eq_bind, Option.bind_some, first, space, second, if_true]

end Names

/-- **The name of a file is read back from a patch**, whatever its bytes are: by itself, and beside
another name on the first line of a record. -/
theorem patchPath_quoting :
    (∀ start path, unquoteName (patchPath start path) = some (start :: slash :: path)) ∧
    (∀ start path start' path', patchPath start path = patchPath start' path' →
      start = start' ∧ path = path') ∧
    (∀ start path, (∀ b ∈ patchPath start path, 32 ≤ b ∧ b ≤ 126) ∧
      (32 ∈ patchPath start path ∨ 34 ∈ patchPath start path →
        ∃ body, patchPath start path = 34 :: body ++ [34] ∧ QuotedBody body)) ∧
    (∀ start path start' path', readDiffLine (asciiBytes "diff --git " ++ patchPath start path ++
        32 :: patchPath start' path') =
      some (start :: slash :: path, start' :: slash :: path')) ∧
    ∀ file : DiffFile, readDiffLine (diffLine file) =
      some (97 :: slash :: file.path, 98 :: slash :: file.path) := by
  refine ⟨unquoteName_patchPath, fun start path start' path' => patchPath_injective,
    fun start path => ⟨printable_patchPath, fun special => ?_⟩,
    fun start path start' path' => readDiffLine_names start start' path path',
    fun file => readDiffLine_names 97 98 file.path file.path⟩
  rcases patchPath_shape start path with ⟨-, plain⟩ | quoted
  · rcases special with space | quote
    · exact absurd rfl (plain _ space).2.1
    · exact absurd rfl (plain _ quote).2.2.1
  · exact quoted

example : patchPath 97 (asciiBytes "two words") = asciiBytes "\"a/two words\"" := by decide

end Tit.Git
