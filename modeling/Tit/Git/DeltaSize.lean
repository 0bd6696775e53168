/-
# Git.DeltaSize -- the sizes that a delta declares

A delta starts with the sizes of its base and of its result, each in groups of seven bits, the
lowest first.  `decode_delta_size` reads such a number into 64 bits, and
`validate_pack_allocation_limits` compares the size of the result with the limit of an object.

The tenth group has one bit left.  What it has above that bit is dropped, so that the number is
exact just when the tenth group is at most one (`exact_iff`), and the limit is kept just by the packs
whose deltas have no other tenth group (`sizes_exact_iff`).
-/
import Tit.Git.Read

namespace Tit.Git

open Tit.Theory

set_option autoImplicit false

/-- What the checks on a received pack and its objects can answer. -/
inductive PackError where
  | pack (reason : String)
  | objectLimit
  | packLimit
  | deltaDepthLimit
  | recoveryData
  deriving DecidableEq, Repr

def maxObjects : Nat := 100000

def maxObjectBytes : Nat := 64 * 1024 * 1024

/-! ## The decoder -/

/-- The loop of `decode_delta_size`. -/
def decodeDeltaLoop : Bytes → Nat → UInt64 → Nat → Except PackError (UInt64 × Nat)
  | [], _, _, _ => .error (.pack "delta object size is incomplete")
  | byte :: rest, index, size, shift =>
      if shift ≥ 64 then .error (.pack "delta object size is invalid")
      else
        let size := size ||| ((byte &&& 0x7f).toUInt64 <<< UInt64.ofNat shift)
        if byte &&& 0x80 = 0 then .ok (size, index + 1)
        else decodeDeltaLoop rest (index + 1) size (shift + 7)

def decodeDeltaSize (input : Bytes) : Except PackError (UInt64 × Nat) :=
  decodeDeltaLoop input 0 0 0

/-! ## The number -/

/-- The number that the groups encode, and how many there are. -/
def base128 : Bytes → Option (Nat × Nat)
  | [] => none
  | byte :: rest =>
      if byte.toNat < 128 then some (byte.toNat, 1)
      else (base128 rest).map fun (value, groups) => (byte.toNat % 128 + 128 * value, groups + 1)

/-- What the decoder returns is the number that is encoded. -/
def Exact (input : Bytes) : Prop :=
  ∀ size consumed, decodeDeltaSize input = .ok (size, consumed) →
    base128 input = some (size.toNat, consumed)

/-- There are ten groups, and the last one has more than the bit that is left. -/
def Overflows (input : Bytes) : Prop :=
  (∀ byte ∈ input.take 9, 128 ≤ byte.toNat) ∧
    ∃ byte, input[9]? = some byte ∧ 2 ≤ byte.toNat ∧ byte.toNat < 128

section Number

variable {input rest : Bytes} {value groups : Nat}

theorem last_group (byte : UInt8) : byte &&& 0x80 = 0 ↔ byte.toNat < 128 := by
  have all : ∀ n < 256, (UInt8.ofNat n &&& 0x80 = 0 ↔ n < 128) := by decide +kernel
  have same := all byte.toNat byte.toNat_lt
  rwa [UInt8.ofNat_toNat] at same

theorem group_bits (byte : UInt8) : (byte &&& 0x7f).toUInt64.toNat = byte.toNat % 128 := by
  rw [UInt8.toNat_toUInt64, UInt8.toNat_and]
  exact Nat.and_two_pow_sub_one_eq_mod byte.toNat 7

/-- One group more, with the bits that a word has no room for dropped. -/
theorem add_group {size : UInt64} {shift : Nat} (byte : UInt8) (below : size.toNat < 2 ^ shift)
    (room : shift < 64) :
    (size ||| ((byte &&& 0x7f).toUInt64 <<< UInt64.ofNat shift)).toNat =
      (size.toNat + 2 ^ shift * (byte.toNat % 128)) % 2 ^ 64 := by
  have small : shift % 2 ^ 64 % 64 = shift := by omega
  have word : 2 ^ 64 = 2 ^ shift * 2 ^ (64 - shift) := by rw [← Nat.pow_add]; congr 1; omega
  have shifted : ((byte &&& 0x7f).toUInt64 <<< UInt64.ofNat shift).toNat =
      2 ^ shift * (byte.toNat % 128 % 2 ^ (64 - shift)) := by
    rw [UInt64.toNat_shiftLeft, group_bits, UInt64.toNat_ofNat', small, Nat.shiftLeft_eq,
      Nat.mul_comm, word, Nat.mul_mod_mul_left]
  rw [UInt64.toNat_or, shifted, Nat.or_comm, ← Nat.two_pow_add_eq_or_of_lt below, word, Nat.mod_mul,
    Nat.add_comm size.toNat, Nat.mul_add_mod, Nat.mod_eq_of_lt below,
    Nat.mul_add_div (Nat.two_pow_pos shift), Nat.div_eq_of_lt below, Nat.add_zero, Nat.add_comm]

theorem base128_pos (read : base128 input = some (value, groups)) :
    0 < groups ∧ groups ≤ input.length := by
  induction input generalizing value groups with
  | nil => cases read
  | cons byte rest ih =>
      rw [base128] at read
      split at read
      · cases read
        simp
      · obtain ⟨⟨later, count⟩, read', same⟩ := Option.map_eq_some_iff.mp read
        cases same
        have := ih read'
        rw [List.length_cons]
        omega

/-- **What the decoder computes**: ten groups at most, and the number modulo the word. -/
theorem decodeDeltaLoop_eq (input : Bytes) (index : Nat) (size : UInt64) (few : index ≤ 10)
    (below : size.toNat < 2 ^ (7 * index)) :
    decodeDeltaLoop input index size (7 * index) =
      match base128 input with
      | none =>
          if index + input.length ≤ 10 then .error (.pack "delta object size is incomplete")
          else .error (.pack "delta object size is invalid")
      | some (value, groups) =>
          if index + groups ≤ 10 then
            .ok (UInt64.ofNat (size.toNat + 2 ^ (7 * index) * value), index + groups)
          else .error (.pack "delta object size is invalid") := by
  induction input generalizing index size with
  | nil =>
      rw [decodeDeltaLoop, base128]
      exact (if_pos (by simpa using few)).symm
  | cons byte rest ih =>
      rw [decodeDeltaLoop]
      by_cases room : 7 * index ≥ 64
      · have full : index = 10 := by omega
        rw [if_pos room, full]
        cases read : base128 (byte :: rest) with
        | none =>
            rw [List.length_cons]
            exact (if_neg (by omega)).symm
        | some found =>
            have := (base128_pos read).1
            exact (if_neg (by omega)).symm
      · have next := add_group byte below (by omega)
        generalize size ||| ((byte &&& 0x7f).toUInt64 <<< UInt64.ofNat (7 * index)) = size' at next
        rw [if_neg room]
        dsimp only
        rw [base128]
        by_cases last : byte.toNat < 128
        · rw [if_pos ((last_group byte).mpr last), if_pos last]
          dsimp only
          rw [if_pos (by omega)]
          congr 2
          apply UInt64.toNat_inj.mp
          rw [next, UInt64.toNat_ofNat', Nat.mod_eq_of_lt last]
        · rw [if_neg fun zero => last ((last_group byte).mp zero), if_neg last]
          have power : 2 ^ (7 * (index + 1)) = 2 ^ (7 * index) * 128 := by
            rw [Nat.mul_succ, Nat.pow_add]
          have bits : byte.toNat % 128 < 128 := Nat.mod_lt _ (by decide)
          have small : size.toNat + 2 ^ (7 * index) * (byte.toNat % 128) < 2 ^ (7 * (index + 1)) := by
            rw [power]
            have := Nat.mul_le_mul_left (2 ^ (7 * index)) (Nat.succ_le_of_lt bits)
            rw [Nat.mul_succ] at this
            omega
          have below' : size'.toNat < 2 ^ (7 * (index + 1)) := by
            rw [next]
            exact Nat.lt_of_le_of_lt (Nat.mod_le _ _) small
          rw [show 7 * index + 7 = 7 * (index + 1) by omega, ih (index + 1) size' (by omega) below']
          cases read : base128 rest with
          | none =>
              rw [Option.map_none, List.length_cons]
              dsimp only
              rw [show index + 1 + rest.length = index + (rest.length + 1) by omega]
          | some found =>
              rw [Option.map_some]
              dsimp only
              rw [show index + 1 + found.2 = index + (found.2 + 1) by omega]
              congr 3
              apply UInt64.toNat_inj.mp
              rw [UInt64.toNat_ofNat', UInt64.toNat_ofNat', next, power, Nat.mod_add_mod,
                Nat.mul_add, Nat.add_assoc, Nat.mul_assoc]

theorem decodeDeltaSize_eq_ok {size : UInt64} {consumed : Nat} :
    decodeDeltaSize input = .ok (size, consumed) ↔
      ∃ value, base128 input = some (value, consumed) ∧ consumed ≤ 10 ∧
        size = UInt64.ofNat value := by
  unfold decodeDeltaSize
  rw [decodeDeltaLoop_eq input 0 0 (by decide) (by decide)]
  cases read : base128 input with
  | none =>
      dsimp only
      split
      · simp
      · simp
  | some found =>
      dsimp only
      split
      · rename_i fits
        simp only [Except.ok.injEq, Prod.mk.injEq, Option.some.injEq]
        constructor
        · rintro ⟨rfl, rfl⟩
          exact ⟨found.1, by simp, by omega, by simp⟩
        · rintro ⟨value, rfl, -, rfl⟩
          simp
      · rename_i many
        simp only [reduceCtorEq, false_iff, not_exists, not_and]
        rintro value same fits
        cases same
        exact absurd fits (by omega)

/-- The number of groups that go on, and one that does not. -/
theorem base128_append {front : Bytes} (byte : UInt8) (more : ∀ b ∈ front, 128 ≤ b.toNat)
    (last : byte.toNat < 128) : ∃ low < 128 ^ front.length,
      base128 (front ++ byte :: rest) =
        some (low + 128 ^ front.length * byte.toNat, front.length + 1) := by
  induction front with
  | nil => exact ⟨0, by simp, by simp [base128, last]⟩
  | cons first front ih =>
      obtain ⟨low, small, read⟩ := ih fun b member => more b (List.mem_cons_of_mem _ member)
      refine ⟨first.toNat % 128 + 128 * low, ?_, ?_⟩
      · have bits : first.toNat % 128 < 128 := Nat.mod_lt _ (by decide)
        rw [List.length_cons, Nat.pow_succ]
        omega
      · have goes := more first List.mem_cons_self
        rw [List.cons_append, base128, if_neg (by omega), read, Option.map_some, List.length_cons,
          Nat.pow_succ]
        simp only [Option.some.injEq, Prod.mk.injEq, and_true]
        rw [Nat.mul_add, Nat.add_assoc, Nat.mul_comm (128 ^ front.length) 128, Nat.mul_assoc]

/-- The groups that a number is read from. -/
theorem base128_split (read : base128 input = some (value, groups)) :
    ∃ front byte rest, input = front ++ byte :: rest ∧ front.length + 1 = groups ∧
      (∀ b ∈ front, 128 ≤ b.toNat) ∧ byte.toNat < 128 := by
  induction input generalizing value groups with
  | nil => cases read
  | cons first later ih =>
      rw [base128] at read
      split at read
      · rename_i last
        cases read
        exact ⟨[], first, later, rfl, rfl, nofun, last⟩
      · rename_i goes
        obtain ⟨⟨value', groups'⟩, read', same⟩ := Option.map_eq_some_iff.mp read
        cases same
        obtain ⟨front, byte, rest, rfl, length, more, last⟩ := ih read'
        refine ⟨first :: front, byte, rest, rfl, by rw [List.length_cons, length], ?_, last⟩
        intro b member
        rcases List.mem_cons.mp member with rfl | later
        · omega
        · exact more b later

/-- A number of ten groups that does not fit in a word is one that overflows. -/
theorem overflows_iff : Overflows input ↔
    ∃ value groups, base128 input = some (value, groups) ∧ groups ≤ 10 ∧ 2 ^ 64 ≤ value := by
  constructor
  · rintro ⟨more, byte, tenth, two, last⟩
    have split : input = input.take 9 ++ byte :: input.drop 10 := by
      conv_lhs => rw [← List.take_append_drop 9 input]
      rw [List.drop_eq_getElem?_toList_append, tenth]
      rfl
    obtain ⟨inside, -⟩ := List.getElem?_eq_some_iff.mp tenth
    have nine : (input.take 9).length = 9 := by
      rw [List.length_take]
      omega
    obtain ⟨low, -, read⟩ := @base128_append (input.drop 10) (input.take 9) byte more last
    rw [← split, nine] at read
    exact ⟨_, _, read, by decide, by omega⟩
  · rintro ⟨value, groups, read, ten, large⟩
    obtain ⟨front, byte, rest, rfl, rfl, more, last⟩ := base128_split read
    obtain ⟨low, small, read'⟩ := @base128_append rest front byte more last
    rw [read'] at read
    cases read
    have nine : front.length = 9 := by
      by_contra other
      have power : 128 ^ front.length ≤ 128 ^ 8 := Nat.pow_le_pow_right (by decide) (by omega)
      have bound := Nat.mul_le_mul power (Nat.le_of_lt_succ last)
      omega
    rw [nine] at large small
    refine ⟨?_, byte, ?_, by omega, last⟩
    · rw [List.take_left' nine]
      exact more
    · rw [← nine, List.getElem?_append_right (Nat.le_refl _), Nat.sub_self]
      rfl

theorem exact_iff : Exact input ↔ ¬Overflows input := by
  rw [overflows_iff]
  constructor
  · rintro exact' ⟨value, groups, read, ten, large⟩
    have returned := exact' _ _ (decodeDeltaSize_eq_ok.mpr ⟨value, read, ten, rfl⟩)
    rw [read] at returned
    have same := congrArg Prod.fst (Option.some.inj returned)
    have word := (UInt64.ofNat value).toNat_lt
    dsimp only at same
    omega
  · intro fits size consumed returned
    obtain ⟨value, read, ten, rfl⟩ := decodeDeltaSize_eq_ok.mp returned
    have small : value < 2 ^ 64 := by
      by_contra large
      exact fits ⟨value, consumed, read, ten, by omega⟩
    rw [read, UInt64.toNat_ofNat', Nat.mod_eq_of_lt small]

end Number

/-! ## The limits of a pack -/

/-- An entry of a pack; `data` are the inflated bytes, unless the entry cannot be sliced or
inflated. -/
structure PackEntry where
  decompressedSize : Nat
  isDelta : Bool
  data : Except PackError Bytes

/-- A pack as the streaming iterator reads it, with the entries that it cannot read. -/
structure PackFile where
  numObjects : Nat
  entries : List (Except PackError PackEntry)

/-- The checks on one entry; the header of a delta is read into 20 bytes. -/
def PackEntry.validate (entry : PackEntry) : Except PackError Unit := do
  ensure (entry.decompressedSize ≤ maxObjectBytes) .objectLimit
  if entry.isDelta then
    let data ← entry.data
    let header := data.take 20
    let (_, baseEnd) ← decodeDeltaSize header
    let (resultSize, _) ← decodeDeltaSize (header.drop baseEnd)
    ensure (resultSize.toNat ≤ maxObjectBytes) .objectLimit
  else pure ()

def validateEntries : List (Except PackError PackEntry) → Except PackError Unit
  | [] => pure ()
  | entry :: rest => do
      let entry ← entry
      entry.validate
      validateEntries rest

def validatePackAllocationLimits (pack : PackFile) : Except PackError Unit := do
  ensure (pack.numObjects ≤ maxObjects) .objectLimit
  validateEntries pack.entries

/-- What a delta declares of its result, behind the size of its base. -/
def PackEntry.resultField (entry : PackEntry) : Option Bytes :=
  if entry.isDelta then
    entry.data.toOption.bind fun data => (base128 data).map fun (_, groups) => data.drop groups
  else none

/-- No delta of the pack declares a result over the limit. -/
def Bounded (pack : PackFile) : Prop :=
  ∀ entry, .ok entry ∈ pack.entries → ∀ field, entry.resultField = some field →
    ∀ size groups, base128 field = some (size, groups) → size ≤ maxObjectBytes

def PackFile.Accepted (pack : PackFile) : Prop := validatePackAllocationLimits pack = .ok ()

section Pack

variable {pack : PackFile} {entry : PackEntry} {input : Bytes} {value groups : Nat}

theorem base128_take {n : Nat} (read : base128 (input.take n) = some (value, groups)) :
    base128 input = some (value, groups) := by
  induction input generalizing n value groups with
  | nil =>
      rw [List.take_nil] at read
      exact read
  | cons byte rest ih =>
      cases n with
      | zero => cases read
      | succ n =>
          rw [List.take_succ_cons, base128] at read
          rw [base128]
          split
          · rename_i last
            rwa [if_pos last] at read
          · rename_i goes
            rw [if_neg goes] at read
            obtain ⟨⟨value', groups'⟩, read', same⟩ := Option.map_eq_some_iff.mp read
            rw [ih read']
            exact congrArg some same

theorem validate_of_accepted (accepted : pack.Accepted) (member : .ok entry ∈ pack.entries) :
    entry.validate = .ok () := by
  obtain ⟨-, -, checked⟩ := bind_eq_ok.mp accepted
  generalize pack.entries = entries at member checked
  induction entries with
  | nil => cases member
  | cons first rest ih =>
      obtain ⟨read, opened, checked⟩ := bind_eq_ok.mp checked
      obtain ⟨_, here, later⟩ := bind_eq_ok.mp checked
      rcases List.mem_cons.mp member with same | member'
      · rw [← same] at opened
        cases opened
        exact here
      · exact ih member' later

/-- What an accepted delta declares was read from its first bytes. -/
theorem result_of_validate (valid : entry.validate = .ok ()) {field : Bytes}
    (declared : entry.resultField = some field) :
    ∃ size groups, base128 field = some (size, groups) ∧ groups ≤ 10 ∧
      (UInt64.ofNat size).toNat ≤ maxObjectBytes := by
  unfold PackEntry.resultField at declared
  split at declared
  · rename_i isDelta
    obtain ⟨data, inflated, found⟩ := Option.bind_eq_some_iff.mp declared
    obtain ⟨⟨base, groups⟩, read, rfl⟩ := Option.map_eq_some_iff.mp found
    unfold PackEntry.validate at valid
    rw [if_pos isDelta, ok_of_toOption inflated] at valid
    obtain ⟨_, -, valid⟩ := bind_eq_ok.mp valid
    rw [ok_bind] at valid
    obtain ⟨⟨size, baseEnd⟩, first, valid⟩ := bind_eq_ok.mp valid
    obtain ⟨⟨resultSize, consumed⟩, second, valid⟩ := bind_eq_ok.mp valid
    obtain ⟨_, first', -, -⟩ := decodeDeltaSize_eq_ok.mp first
    have same := base128_take first'
    rw [read] at same
    cases same
    obtain ⟨result, second', ten, rfl⟩ := decodeDeltaSize_eq_ok.mp second
    rw [List.drop_take] at second'
    exact ⟨result, consumed, base128_take second', ten, ensure_eq_ok.mp valid⟩
  · cases declared

/-- **The limit of an object is kept** by the accepted packs whose deltas have no tenth group with
more than one bit. -/
theorem bounded_iff (accepted : pack.Accepted) : Bounded pack ↔
    ∀ entry, .ok entry ∈ pack.entries → ∀ field, entry.resultField = some field →
      ¬Overflows field := by
  constructor
  · intro bounded entry member field declared overflows
    obtain ⟨value, groups, read, -, large⟩ := overflows_iff.mp overflows
    have small := bounded entry member field declared value groups read
    unfold maxObjectBytes at small
    omega
  · intro fits entry member field declared value groups read
    obtain ⟨size, _, read', ten, small⟩ :=
      result_of_validate (validate_of_accepted accepted member) declared
    rw [read] at read'
    cases read'
    have word : value < 2 ^ 64 := by
      by_contra large
      exact fits entry member field declared (overflows_iff.mpr ⟨value, groups, read, ten, by omega⟩)
    rwa [UInt64.toNat_ofNat', Nat.mod_eq_of_lt word] at small

end Pack

/-- **The decoder is exact, and the limit is kept**, just where no tenth group has more than one
bit. -/
theorem sizes_exact_iff (input : Bytes) (pack : PackFile) :
    (Exact input ↔ ¬Overflows input) ∧
      ((pack.Accepted → Bounded pack) ↔ (pack.Accepted →
        ∀ entry, .ok entry ∈ pack.entries → ∀ field, entry.resultField = some field →
          ¬Overflows field)) :=
  ⟨exact_iff, forall_congr' bounded_iff⟩

/-! ## Pole: a tenth group of two

The group is shifted out of the word, so that a size of `2 ^ 64` is read as none. -/

def wideSize : Bytes := List.replicate 9 0x80 ++ [2]

/-- A delta on an empty base. -/
def widePack : PackFile where
  numObjects := 1
  entries := [.ok ⟨11, true, .ok (0 :: wideSize)⟩]

theorem wide_sizes : ¬((∀ input, Exact input) ∧ ∀ pack : PackFile, pack.Accepted → Bounded pack) ∧
    (decodeDeltaSize wideSize = .ok (0, 10) ∧ base128 wideSize = some (2 ^ 64, 10)) ∧
      widePack.Accepted ∧ ¬Bounded widePack := by
  have decoded : decodeDeltaSize wideSize = .ok (0, 10) := by decide
  have encoded : base128 wideSize = some (2 ^ 64, 10) := by decide
  have accepted : widePack.Accepted := by
    unfold PackFile.Accepted
    decide
  refine ⟨fun promise => ?_, ⟨decoded, encoded⟩, accepted, fun bounded => ?_⟩
  · have same := promise.1 wideSize 0 10 decoded
    rw [encoded] at same
    exact absurd same (by decide)
  · have small := bounded _ List.mem_cons_self wideSize rfl (2 ^ 64) 10 encoded
    exact absurd small (by decide)

end Tit.Git
