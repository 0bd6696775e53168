/-
# Git.BinaryLiteral -- binary data is read back

`write_binary_literal` wraps the data of a binary file four times: in stored blocks, in a zlib
stream with its checksum, in groups of base 85, and in lines that start with the letter of their
length.  `readLiteral` undoes this by the rules of `git apply`, and refuses whatever breaks one of
them: a length that a line does not have, a digit that is none, a group that is no word, padding
that is not zero, a block that is not stored or whose length is not repeated in complement, and a
checksum or a size that is another one.  It reads back whatever was written
(`readLiteral_binaryLiteral`).
-/
import Mathlib.Tactic.Ring
import Tit.Git.PatchRecords

namespace Tit.Git

open Tit.Theory Tit.Theory.Text Tit.Store

set_option autoImplicit false

/-! ## The reader -/

/-- The byte that has this digit's place among the digits. -/
def base85Digit (b : UInt8) : Option Nat :=
  if b ∈ base85 then some (base85.idxOf b) else none

/-- Five digits are a word of four bytes, if the word has room for them. -/
def readWord (digits : Bytes) : Option Bytes := do
  let places ← digits.mapM base85Digit
  let value := places.foldl (fun value place => 85 * value + place) 0
  if digits.length = 5 ∧ value < 2 ^ 32 then some (toBeBytes 4 value) else none

def lineLength (letter : UInt8) : Option Nat :=
  if 65 ≤ letter ∧ letter ≤ 90 then some (letter.toNat - 64)
  else if 97 ≤ letter ∧ letter ≤ 122 then some (letter.toNat - 70)
  else none

/-- A line has as many words as its length takes, and zeros after its last byte. -/
def readLine85 : Bytes → Option Bytes
  | [] => none
  | letter :: digits => do
      let length ← lineLength letter
      let words ← (chunks 5 digits).mapM readWord
      let bytes := words.flatten
      if bytes.length < length + 4 ∧ length ≤ bytes.length ∧ ∀ b ∈ bytes.drop length, b = 0 then
        some (bytes.take length)
      else none

/-- Stored blocks up to the final one, and what follows it. -/
def inflateStored (input : Bytes) : Option (Bytes × Bytes) :=
  match input with
  | header :: l₀ :: l₁ :: n₀ :: n₁ :: rest =>
      let length := l₀.toNat + 256 * l₁.toNat
      let complement := n₀.toNat + 256 * n₁.toNat
      if header.toNat / 2 % 4 = 0 ∧ complement = 65535 - length ∧ length ≤ rest.length then
        if header.toNat % 2 = 1 then some (rest.take length, rest.drop length)
        else (inflateStored (rest.drop length)).map fun (data, left) =>
          (rest.take length ++ data, left)
      else none
  | _ => none
termination_by input.length
decreasing_by
  rw [List.length_drop]
  simp only [List.length_cons]
  omega

/-- Each byte as often as it is in the sum of the partial sums. -/
def weighted : Bytes → Nat
  | [] => 0
  | b :: rest => (rest.length + 1) * b.toNat + weighted rest

/-- The checksum by its definition: the sum of the bytes and one, and the sum of the partial sums. -/
def checksum (data : Bytes) : Nat :=
  (data.length + weighted data) % 65521 * 65536 + (1 + (data.map UInt8.toNat).sum) % 65521

/-- A zlib stream without a dictionary. -/
def inflate : Bytes → Option Bytes
  | method :: flags :: blocks => do
      let (data, trailer) ← inflateStored blocks
      if method.toNat % 16 = 8 ∧ flags.toNat / 32 % 2 = 0 ∧
          (256 * method.toNat + flags.toNat) % 31 = 0 ∧
          trailer.length = 4 ∧ ofBeBytes trailer = checksum data then some data
      else none
  | _ => none

/-- The lines up to the empty one, which is the last. -/
def bodyLines : List Bytes → Option (List Bytes)
  | [] => none
  | [] :: rest => if rest = [] then some [] else none
  | line :: rest => (bodyLines rest).map (line :: ·)

def readLiteral (text : Bytes) : Option Bytes :=
  match lines text with
  | [] => none
  | head :: rest => do
      let size ← parseDecimal (head.drop (asciiBytes "literal ").length)
      let body ← bodyLines rest
      let stream ← body.mapM readLine85
      let data ← inflate stream.flatten
      if (asciiBytes "literal ").isPrefixOf head ∧ data.length = size then some data else none

/-! ## Pieces -/

section Pieces

variable {size : Nat} {data : Bytes}

theorem chunks_nil (size : Nat) (some : 0 < size) : chunks size [] = [] := by
  unfold chunks
  rw [List.length_nil, Nat.zero_add, Nat.div_eq_of_lt (by omega)]
  rfl

theorem chunks_cons (positive : 0 < size) (more : data ≠ []) :
    chunks size data = data.take size :: chunks size (data.drop size) := by
  have length : 0 < data.length := List.length_pos_iff.mpr more
  have count : (data.length + size - 1) / size =
      ((data.drop size).length + size - 1) / size + 1 := by
    rw [List.length_drop, ← Nat.add_div_right _ positive]
    by_cases full : size ≤ data.length
    · rw [show data.length - size + size - 1 + size = data.length + size - 1 by omega]
    · rw [show data.length - size + size - 1 + size = size - 1 + size by omega,
        Nat.add_div_right _ positive, Nat.div_eq_of_lt (show size - 1 < size by omega),
        show data.length + size - 1 = data.length - 1 + size by omega,
        Nat.add_div_right _ positive, Nat.div_eq_of_lt (show data.length - 1 < size by omega)]
  unfold chunks
  rw [count, List.range_succ_eq_map, List.map_cons, List.map_map, Nat.zero_mul, List.drop_zero]
  congr 1
  apply List.map_congr_left
  intro i _
  rw [Function.comp_apply, List.drop_drop, Nat.succ_mul, Nat.add_comm size]

/-- The pieces are the data. -/
theorem chunks_flatten (positive : 0 < size) (data : Bytes) : (chunks size data).flatten = data := by
  induction length : data.length using Nat.strong_induction_on generalizing data with
  | _ n ih =>
      by_cases nothing : data = []
      · rw [nothing, chunks_nil size positive]
        rfl
      · have some : 0 < data.length := List.length_pos_iff.mpr nothing
        rw [chunks_cons positive nothing, List.flatten_cons,
          ih (data.drop size).length (by rw [List.length_drop]; omega) _ rfl, List.take_append_drop]

/-- Pieces of one length are found again. -/
theorem chunks_of_flatten (positive : 0 < size) {words : List Bytes}
    (full : ∀ word ∈ words, word.length = size) : chunks size words.flatten = words := by
  induction words with
  | nil => exact chunks_nil size positive
  | cons word rest ih =>
      obtain ⟨here, later⟩ := List.forall_mem_cons.mp full
      have some : (word :: rest).flatten ≠ [] := by
        rw [List.flatten_cons]
        intro nothing
        rw [(List.append_eq_nil_iff.mp nothing).1] at here
        exact Nat.ne_of_gt positive here.symm
      rw [chunks_cons positive some, List.flatten_cons, List.take_left' here, List.drop_left' here,
        ih later]

theorem chunks_full (positive : 0 < size) (whole : data.length % size = 0) {word : Bytes}
    (member : word ∈ chunks size data) : word.length = size := by
  obtain ⟨i, inside, rfl⟩ := List.mem_map.mp member
  rw [List.mem_range] at inside
  rw [List.length_take, List.length_drop]
  apply Nat.min_eq_left
  obtain ⟨k, length⟩ := Nat.dvd_of_mod_eq_zero whole
  have count : (data.length + size - 1) / size = k := by
    rw [length, Nat.add_sub_assoc positive, Nat.mul_add_div positive,
      Nat.div_eq_of_lt (show size - 1 < size by omega), Nat.add_zero]
  rw [count] at inside
  have := Nat.mul_le_mul_left size (Nat.succ_le_of_lt inside)
  rw [Nat.mul_succ] at this
  rw [length, Nat.mul_comm i]
  omega

theorem chunks_some {chunk : Bytes} (member : chunk ∈ chunks size data) (positive : 0 < size) :
    0 < chunk.length := by
  obtain ⟨i, inside, rfl⟩ := List.mem_map.mp member
  rw [List.mem_range, Nat.lt_div_iff_mul_lt positive] at inside
  rw [List.length_take, List.length_drop]
  omega

end Pieces

/-! ## Numbers -/

theorem length_toBeBytes (width n : Nat) : (toBeBytes width n).length = width := by
  induction width with
  | zero => rfl
  | succ width ih => rw [toBeBytes, List.length_cons, ih]

theorem ofBeBytes_foldl (bytes : Bytes) (start : Nat) :
    bytes.foldl (fun value b => 256 * value + b.toNat) start =
      start * 256 ^ bytes.length + ofBeBytes bytes := by
  unfold ofBeBytes
  induction bytes generalizing start with
  | nil => simp
  | cons b rest ih =>
      rw [List.foldl_cons, List.foldl_cons, ih, ih (256 * 0 + b.toNat), List.length_cons, Nat.pow_succ]
      ring

theorem ofBeBytes_cons (b : UInt8) (rest : Bytes) :
    ofBeBytes (b :: rest) = b.toNat * 256 ^ rest.length + ofBeBytes rest := by
  have first := ofBeBytes_foldl rest (256 * 0 + b.toNat)
  rw [ofBeBytes, List.foldl_cons, first, Nat.mul_zero, Nat.zero_add]

theorem ofBeBytes_lt (bytes : Bytes) : ofBeBytes bytes < 256 ^ bytes.length := by
  induction bytes with
  | nil => decide
  | cons b rest ih =>
      have := b.toNat_lt
      have top := Nat.mul_le_mul_right (256 ^ rest.length) (Nat.le_of_lt_succ this)
      rw [ofBeBytes_cons, List.length_cons, Nat.pow_succ]
      omega

theorem ofBeBytes_toBeBytes (width n : Nat) : ofBeBytes (toBeBytes width n) = n % 256 ^ width := by
  induction width with
  | zero =>
      rw [Nat.pow_zero, Nat.mod_one]
      rfl
  | succ width ih =>
      rw [toBeBytes, ofBeBytes_cons, length_toBeBytes, ih, UInt8.toNat_ofNat', Nat.mod_mod,
        Nat.pow_succ, Nat.mod_mul]
      ring

theorem toBeBytes_add (width n k : Nat) :
    toBeBytes width (n + k * 256 ^ width) = toBeBytes width n := by
  induction width generalizing k with
  | zero => rfl
  | succ width ih =>
      have shift : n + k * 256 ^ (width + 1) = n + k * 256 * 256 ^ width := by ring
      rw [toBeBytes, toBeBytes, shift, ih, Nat.add_mul_div_right _ _ (Nat.pow_pos (by decide)),
        Nat.add_mul_mod_self_right]

theorem toBeBytes_ofBeBytes (bytes : Bytes) : toBeBytes bytes.length (ofBeBytes bytes) = bytes := by
  induction bytes with
  | nil => rfl
  | cons b rest ih =>
      have low : ofBeBytes rest < 256 ^ rest.length := ofBeBytes_lt rest
      rw [List.length_cons, toBeBytes, ofBeBytes_cons, Nat.add_comm, toBeBytes_add, ih,
        Nat.add_mul_div_right _ _ (Nat.pow_pos (by decide)), Nat.div_eq_of_lt low, Nat.zero_add,
        Nat.mod_eq_of_lt b.toNat_lt, UInt8.ofNat_toNat]

/-! ## Words and lines -/

theorem base85Digit_getD {n : Nat} (small : n < 85) : base85Digit (base85.getD n 0) = some n := by
  obtain ⟨length, distinct, -⟩ := base85_letters
  have place : n < base85.length := by
    rw [length]
    exact small
  rw [List.getD_eq_getElem?_getD, List.getElem?_eq_getElem place, Option.getD_some, base85Digit, if_pos (List.getElem_mem place),
    distinct.idxOf_getElem]

theorem readWord_base85Word {word : Bytes} (four : word.length = 4) :
    readWord (base85Word word) = some word := by
  have small := ofBeBytes_lt word
  rw [four] at small
  have back := toBeBytes_ofBeBytes word
  rw [four] at back
  have digits : ∀ n, base85Digit (base85.getD (n % 85) 0) = some (n % 85) := fun n =>
    base85Digit_getD (Nat.mod_lt _ (by decide))
  unfold readWord base85Word
  simp only [List.map_cons, List.map_nil, List.mapM_cons, List.mapM_nil, digits, Option.bind_eq_bind,
    Option.bind_some, Option.pure_def]
  have value : 85 * (85 * (85 * (85 * (85 * 0 + ofBeBytes word / 85 ^ 4 % 85) +
      ofBeBytes word / 85 ^ 3 % 85) + ofBeBytes word / 85 ^ 2 % 85) + ofBeBytes word / 85 % 85) +
      ofBeBytes word % 85 = ofBeBytes word := by omega
  have places : [ofBeBytes word / 85 ^ 4 % 85, ofBeBytes word / 85 ^ 3 % 85,
      ofBeBytes word / 85 ^ 2 % 85, ofBeBytes word / 85 % 85, ofBeBytes word % 85].foldl
        (fun value place => 85 * value + place) 0 = ofBeBytes word := value
  rw [places, back]
  exact if_pos ⟨rfl, by omega⟩

theorem lineLength_encodedLength {length : Nat} (some : 0 < length) (fits : length ≤ 52) :
    lineLength (encodedLength length) = .some length := by
  have all : ∀ n < 53, 0 < n → lineLength (encodedLength n) = .some n := by decide
  exact all length (by omega) some

theorem mapM_some {α β : Type} {f : α → Option β} {g : β → α} {values : List β}
    (reads : ∀ b ∈ values, f (g b) = some b) : (values.map g).mapM f = some values := by
  induction values with
  | nil => rfl
  | cons b rest ih =>
      obtain ⟨here, later⟩ := List.forall_mem_cons.mp reads
      rw [List.map_cons, List.mapM_cons, here, ih later]
      rfl

theorem readLine85_base85Line {chunk : Bytes} (some : 0 < chunk.length) (fits : chunk.length ≤ 52) :
    readLine85 (base85Line chunk) = .some chunk := by
  unfold base85Line
  dsimp only
  generalize padded : chunk ++ List.replicate ((4 - chunk.length % 4) % 4) 0 = bytes
  have whole : bytes.length % 4 = 0 := by
    rw [← padded, List.length_append, List.length_replicate]
    omega
  have full : ∀ word ∈ chunks 4 bytes, word.length = 4 := fun word member =>
    chunks_full (by decide) whole member
  have groups : chunks 5 ((chunks 4 bytes).flatMap base85Word) = (chunks 4 bytes).map base85Word := by
    refine chunks_of_flatten (by decide) fun digits member => ?_
    obtain ⟨word, -, rfl⟩ := List.mem_map.mp member
    rfl
  have words : ((chunks 4 bytes).map base85Word).mapM readWord = .some (chunks 4 bytes) :=
    mapM_some fun word member => readWord_base85Word (full word member)
  have bound : bytes.length < chunk.length + 4 ∧ chunk.length ≤ bytes.length := by
    rw [← padded, List.length_append, List.length_replicate]
    omega
  have zeros : ∀ b ∈ bytes.drop chunk.length, b = 0 := by
    intro b member
    rw [← padded, List.drop_left] at member
    exact List.eq_of_mem_replicate member
  rw [readLine85, lineLength_encodedLength some fits]
  simp only [Option.bind_eq_bind, Option.bind_some]
  rw [groups, words, Option.bind_some, chunks_flatten (by decide), if_pos ⟨bound.1, bound.2, zeros⟩,
    ← padded, List.take_left]

/-! ## Blocks and the checksum -/

theorem littleEndian {n : Nat} (fits : n < 65536) : ∃ low high : UInt8,
    (toBeBytes 2 n).reverse = [low, high] ∧ low.toNat + 256 * high.toNat = n := by
  refine ⟨UInt8.ofNat (n % 256), UInt8.ofNat (n / 256 % 256), ?_, ?_⟩
  · simp [toBeBytes]
  · rw [UInt8.toNat_ofNat', UInt8.toNat_ofNat']
    omega

/-- One block is taken off. -/
theorem inflateStored_block {last : Bool} {chunk : Bytes} (fits : chunk.length ≤ 65535)
    (rest : Bytes) :
    inflateStored (storedBlock last chunk ++ rest) =
      if last then some (chunk, rest)
      else (inflateStored rest).map fun (data, left) => (chunk ++ data, left) := by
  obtain ⟨l₀, l₁, bytes, length⟩ := littleEndian (show chunk.length < 65536 by omega)
  obtain ⟨n₀, n₁, bytes', complement⟩ := littleEndian (show 65535 - chunk.length < 65536 by omega)
  unfold storedBlock
  rw [bytes, bytes']
  simp only [List.cons_append, List.nil_append]
  rw [inflateStored, length, complement, List.length_append, List.take_left, List.drop_left]
  cases last with
  | true => exact if_pos ⟨rfl, rfl, by omega⟩
  | false => exact if_pos ⟨rfl, rfl, by omega⟩

theorem inflateStored_blocks {blocks : List Bytes} (more : blocks ≠ [])
    (fits : ∀ chunk ∈ blocks, chunk.length ≤ 65535) (rest : Bytes) :
    inflateStored (storedBlocks blocks ++ rest) = some (blocks.flatten, rest) := by
  induction blocks with
  | nil => exact absurd rfl more
  | cons chunk later ih =>
      obtain ⟨here, fits'⟩ := List.forall_mem_cons.mp fits
      cases later with
      | nil =>
          rw [storedBlocks, inflateStored_block here, List.flatten_cons, List.flatten_nil,
            List.append_nil]
          rfl
      | cons next later =>
          rw [storedBlocks, List.append_assoc, inflateStored_block here, ih nofun fits',
            List.flatten_cons]
          · rfl
          · nofun

theorem adler32_foldl (data : Bytes) (first second : Nat) (small : first < 65521)
    (small' : second < 65521) :
    data.foldl (fun (sums : Nat × Nat) b =>
      ((sums.1 + b.toNat) % 65521, (sums.2 + (sums.1 + b.toNat) % 65521) % 65521)) (first, second) =
      ((first + (data.map UInt8.toNat).sum) % 65521,
        (second + data.length * first + weighted data) % 65521) := by
  induction data generalizing first second with
  | nil =>
      simp only [List.foldl_nil, List.map_nil, List.sum_nil, List.length_nil, weighted, Nat.zero_mul,
        Nat.add_zero]
      rw [Nat.mod_eq_of_lt small, Nat.mod_eq_of_lt small']
  | cons b rest ih =>
      rw [List.foldl_cons, ih _ _ (Nat.mod_lt _ (by decide)) (Nat.mod_lt _ (by decide)),
        List.map_cons, List.sum_cons, List.length_cons, weighted, Nat.mod_add_mod, Nat.add_assoc first]
      congr 1
      have sums : second + (rest.length + 1) * first + ((rest.length + 1) * b.toNat + weighted rest) =
          second + (first + b.toNat) + rest.length * (first + b.toNat) + weighted rest := by ring
      rw [sums]
      simp only [Nat.add_mod, Nat.mul_mod, Nat.mod_mod]

theorem adler32_eq (data : Bytes) : adler32 data = checksum data := by
  have sums := adler32_foldl data 1 0 (by decide) (by decide)
  unfold adler32 checksum
  rw [sums]
  dsimp only
  rw [Nat.zero_add, Nat.mul_one]

theorem checksum_lt (data : Bytes) : checksum data < 256 ^ 4 := by
  have first := Nat.mod_lt (1 + (data.map UInt8.toNat).sum) (show 65521 > 0 by decide)
  have second := Nat.mod_lt (data.length + weighted data) (show 65521 > 0 by decide)
  unfold checksum
  omega

/-- The stream is the data. -/
theorem inflate_zlibStore (data : Bytes) : inflate (zlibStore data) = some data := by
  have blocks : ∀ trailer, inflateStored
      ((if data = [] then [1, 0, 0, 0xff, 0xff] else storedBlocks (chunks 65535 data)) ++ trailer) =
      some (data, trailer) := by
    intro trailer
    by_cases nothing : data = []
    · rw [if_pos nothing, nothing]
      simp [inflateStored]
    · have more : chunks 65535 data ≠ [] := by
        rw [chunks_cons (by decide) nothing]
        nofun
      rw [if_neg nothing, inflateStored_blocks more (fun chunk => length_of_mem_chunks),
        chunks_flatten (by decide)]
  unfold zlibStore
  rw [List.append_assoc, List.cons_append, List.cons_append, List.nil_append, inflate, blocks,
    Option.bind_eq_bind, Option.bind_some]
  refine if_pos ⟨by decide, by decide, by decide, length_toBeBytes _ _, ?_⟩
  rw [ofBeBytes_toBeBytes, adler32_eq, Nat.mod_eq_of_lt (checksum_lt data)]

/-! ## The literal -/

theorem bodyLines_written {body : List Bytes} (more : ∀ line ∈ body, line ≠ []) :
    bodyLines (body ++ [[]]) = some body := by
  induction body with
  | nil => rfl
  | cons line rest ih =>
      obtain ⟨here, later⟩ := List.forall_mem_cons.mp more
      rw [List.cons_append, bodyLines, ih later]
      · rfl
      · exact here

theorem newline_notMem_binaryLiteral {data line : Bytes} (member : line ∈ binaryLiteral data) :
    newline ∉ line := by
  rcases mem_binaryLiteral member with rfl | clean
  · intro inside
    rcases List.mem_append.mp inside with text | digits
    · revert text
      decide
    · exact newline_notMem_decimal _ digits
  · exact fun inside => (clean newline inside).2 rfl

/-- **Binary data is read back** from the literal that is written for it. -/
theorem readLiteral_binaryLiteral (data : Bytes) :
    readLiteral (unlines (binaryLiteral data)) = some data := by
  have body : ∀ chunk ∈ chunks 52 (zlibStore data), readLine85 (base85Line chunk) = some chunk :=
    fun chunk member =>
      readLine85_base85Line (chunks_some member (by decide)) (length_of_mem_chunks member)
  have lines85 : ∀ line ∈ (chunks 52 (zlibStore data)).map base85Line, line ≠ [] := by
    intro line member
    obtain ⟨chunk, -, rfl⟩ := List.mem_map.mp member
    nofun
  unfold readLiteral
  rw [lines_unlines fun line => newline_notMem_binaryLiteral, binaryLiteral, List.cons_append]
  dsimp only
  rw [List.drop_left, parseDecimal_decimal, bodyLines_written lines85]
  simp only [Option.bind_eq_bind, Option.bind_some]
  rw [mapM_some body, Option.bind_some, chunks_flatten (by decide), inflate_zlibStore,
    Option.bind_some]
  exact if_pos ⟨List.isPrefixOf_iff_prefix.mpr (List.prefix_append _ _), rfl⟩

end Tit.Git
