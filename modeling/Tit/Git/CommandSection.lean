/-
# Git.CommandSection -- the commands of a push, and the bytes an intent keeps of them

`parse_commands` reads the packet lines of a push; `serialize_refs` writes the old or the new
values of its commands into the intent.  Two readers take those bytes up again: recovery with
`parse_ref_snapshot`, and the recording of the events with `parse_event_refs`.  The other modules
keep the snapshots decoded; what holds the two together is here.

Which names are full reference names the library decides: it is a parameter, of which the results
use only that a name has no control byte and no space.
-/
import Tit.Git.Intents
import Tit.Git.PacketLine
import Tit.Git.Patch
import Mathlib.Tactic.Ring

namespace Tit.Git

open Tit.Theory Tit.Theory.Text Tit.Store Tit.Store.Database

set_option autoImplicit false

inductive CommandError where
  | packetLine (error : PacketLineError)
  | commands
  | commandLimit
  | objectFormat
  | refName
  | recoveryData
  deriving DecidableEq, Repr

def space : UInt8 := 32

/-- `ObjectId::from_hex`: the number of the digits says which hash they are of. -/
def fromHex (input : Bytes) : Option (ObjectFormat × ObjectId) :=
  if input.all isAsciiHexdigit then
    if input.length = 40 then some (.sha1, ⟨hexNumber input⟩)
    else if input.length = 64 then some (.sha256, ⟨hexNumber input⟩)
    else none
  else none

def isNullId (id : Bytes) : Bool := id.all (· == 48)

/-- What is before the first space of a line. -/
def beforeSpace (line : Bytes) : Bytes := line.takeWhile (· ≠ space)

/-- What is after the first space, when there is one. -/
def afterSpace (line : Bytes) : Option Bytes :=
  if space ∈ line then some (line.dropWhile (· ≠ space)).tail else none

/-- The lines of a snapshot; both readers skip the empty ones. -/
def snapshotLines (bytes : Bytes) : List Bytes := (bytes.splitOn newline).filter (· ≠ [])

section Parser

variable (fullName : Bytes → Bool) (format : ObjectFormat)

def parseId (input : Option Bytes) : Except CommandError ObjectId := do
  let input ← required input .commands
  let (kind, id) ← required (fromHex input) .commands
  ensure (kind = format) .objectFormat
  pure id

/-! ## The commands -/

/-- The command in a line.  On the first line, what follows a NUL are the capabilities. -/
def commandText (first : Bool) (line : Bytes) : Except CommandError Bytes :=
  let line := chomp line
  if first then .ok ((line.splitOn 0).headD [])
  else if (0 : UInt8) ∈ line then .error .commands
  else .ok line

def parseCommand (command : Bytes) : Except CommandError RefCommand := do
  let fields := command.splitOn space
  let old ← parseId format fields[0]?
  let new ← parseId format fields[1]?
  let name ← required fields[2]? .commands
  ensure (fields[3]? = none ∧ old ≠ new) .commands
  ensure (fullName name = true) .refName
  pure { old, new, name }

/-- The loop over the packets.  `names` are the names of the commands before. -/
def parseLines : Bool → List RefName → List Packet → Except CommandError (List RefCommand)
  | _, _, [] => .ok []
  | first, names, .data line :: rest => do
      let command ← commandText first line
      let parsed ← parseCommand fullName format command
      ensure (((asciiBytes "refs/heads/").isPrefixOf parsed.name ∨
        (asciiBytes "refs/tags/").isPrefixOf parsed.name) ∧ parsed.name ∉ names) .refName
      let later ← parseLines false (parsed.name :: names) rest
      pure (parsed :: later)
  | _, _, _ :: _ => .error .commands

def parseCommands (input : Bytes) : Except CommandError (List RefCommand) := do
  let packets ← (decode input).mapError .packetLine
  ensure (packets.getLast? = some .flush) .commands
  let commands ← parseLines fullName format true [] packets.dropLast
  ensure (commands ≠ [] ∧ commands.length ≤ maxCommands) .commandLimit
  pure commands

/-! ## The snapshots -/

/-- The value of a command before the push, or the one proposed. -/
def RefCommand.value (command : RefCommand) (proposed : Bool) : ObjectId :=
  if proposed then command.new else command.old

def serializeRefs (commands : List RefCommand) (proposed : Bool) : Bytes :=
  commands.flatMap fun command =>
    objectHex format (command.value proposed) ++ space :: command.name ++ [newline]

def snapshotLine (line : Bytes) : Except CommandError (RefName × ObjectId) := do
  let id ← parseId format (some (beforeSpace line))
  let name ← required (afterSpace line) .recoveryData
  ensure (fullName name = true) .recoveryData
  pure (name, id)

def parseRefSnapshot (bytes : Bytes) : Except CommandError RefSnapshot :=
  (snapshotLines bytes).mapM (snapshotLine fullName format)

end Parser

/-- The check of `from_utf8` on the identifier is part of the one for digits, whose error is the
same. -/
def eventLine (line : Bytes) : Except StoreError (Bytes × Bytes) := do
  let name ← required (afterSpace line) .eventPayload
  let id := beforeSpace line
  ensure ((id.length = 40 ∨ id.length = 64) ∧ id.all isAsciiHexdigit = true) .eventPayload
  ensure (name ≠ []) .eventPayload
  pure (id, name)

/-- The identifiers as texts, with their names. -/
def parseEventRefs (bytes : Bytes) : Except StoreError (List (Bytes × Bytes)) :=
  (snapshotLines bytes).mapM eventLine

/-- The references of a snapshot, with the identifiers that their texts spell. -/
def spelledRefs (refs : List (Bytes × Bytes)) : RefSnapshot :=
  refs.map fun (id, name) => (name, ⟨hexNumber id⟩)

/-- `insert_push_events` with the snapshots as the store has them. -/
def insertStoredPushEvents (db : Database) (intent : GitOperationIntent)
    (initialBytes proposedBytes : Bytes) : Except StoreError Database :=
  match db.managedRepository intent.repositoryPath with
  | none => .ok db
  | some _ => do
      let initial ← parseEventRefs initialBytes
      let proposed ← parseEventRefs proposedBytes
      db.insertPushEvents
        { intent with initialRefs := spelledRefs initial, proposedRefs := spelledRefs proposed }

/-! ## Hexadecimal numbers -/

/-- The last digits of a number, as many as the width says. -/
def hexDigits (width value : Nat) : Bytes :=
  (List.range width).map fun i => digit (Nat.digitChar (value / 16 ^ (width - 1 - i) % 16))

theorem hexDigit_spec : ∀ n < 16, isAsciiHexdigit (digit (Nat.digitChar n)) = true ∧
    hexDigitValue (digit (Nat.digitChar n)) = n := by
  decide

@[simp] theorem hexDigits_length (width value : Nat) : (hexDigits width value).length = width := by
  rw [hexDigits, List.length_map, List.length_range]

theorem hexDigits_succ (width value : Nat) :
    hexDigits (width + 1) value =
      digit (Nat.digitChar (value / 16 ^ width % 16)) :: hexDigits width value := by
  unfold hexDigits
  rw [List.range_succ_eq_map, List.map_cons, List.map_map]
  refine congrArg₂ _ (by simp) (List.map_congr_left fun i _ => ?_)
  have place : width + 1 - 1 - (i + 1) = width - 1 - i := by omega
  simp only [Function.comp_apply, Nat.succ_eq_add_one, place]

theorem hexdigit_of_hexDigits {width value : Nat} {b : UInt8}
    (member : b ∈ hexDigits width value) : isAsciiHexdigit b = true := by
  obtain ⟨i, -, rfl⟩ := List.mem_map.mp member
  exact (hexDigit_spec _ (Nat.mod_lt _ (by omega))).1

theorem foldl_hexDigits (width value start : Nat) :
    (hexDigits width value).foldl (fun n b => 16 * n + hexDigitValue b) start =
      start * 16 ^ width + value % 16 ^ width := by
  induction width generalizing start with
  | zero => simp [hexDigits, Nat.mod_one]
  | succ width ih =>
      have top := (hexDigit_spec (value / 16 ^ width % 16) (Nat.mod_lt _ (by omega))).2
      rw [hexDigits_succ, List.foldl_cons, ih, top, Nat.pow_succ, Nat.mod_mul]
      ring

theorem hexNumber_hexDigits {width value : Nat} (small : value < 16 ^ width) :
    hexNumber (hexDigits width value) = value := by
  rw [hexNumber, foldl_hexDigits, Nat.zero_mul, Nat.zero_add, Nat.mod_eq_of_lt small]

theorem hexDigitValue_lt {b : UInt8} (hex : isAsciiHexdigit b = true) : hexDigitValue b < 16 := by
  unfold isAsciiHexdigit at hex
  rw [decide_eq_true_eq] at hex
  simp only [UInt8.le_iff_toNat_le, UInt8.reduceToNat] at hex
  unfold hexDigitValue
  simp only [UInt8.le_iff_toNat_le, UInt8.reduceToNat]
  split
  · omega
  · split <;> omega

theorem foldl_hex_lt {text : Bytes} (hex : ∀ b ∈ text, isAsciiHexdigit b = true) (start : Nat) :
    text.foldl (fun n b => 16 * n + hexDigitValue b) start < (start + 1) * 16 ^ text.length := by
  induction text generalizing start with
  | nil => simp
  | cons b rest ih =>
      have small := hexDigitValue_lt (hex b List.mem_cons_self)
      have later := ih (fun c member => hex c (List.mem_cons_of_mem _ member))
        (16 * start + hexDigitValue b)
      rw [List.foldl_cons, List.length_cons, Nat.pow_succ]
      calc _ < (16 * start + hexDigitValue b + 1) * 16 ^ rest.length := later
        _ ≤ (16 * start + 16) * 16 ^ rest.length := Nat.mul_le_mul_right _ (by omega)
        _ = (start + 1) * (16 ^ rest.length * 16) := by ring

theorem hexNumber_lt {text : Bytes} (hex : ∀ b ∈ text, isAsciiHexdigit b = true) :
    hexNumber text < 16 ^ text.length := by
  have bound := foldl_hex_lt hex 0
  rwa [Nat.zero_add, Nat.one_mul] at bound

/-- The texts of an object identifier, in digits of either case. -/
structure Spells (format : ObjectFormat) (text : Bytes) (id : ObjectId) : Prop where
  length : text.length = objectIdLength format
  digits : ∀ b ∈ text, isAsciiHexdigit b = true
  number : hexNumber text = id.value

section Identifiers

variable {format : ObjectFormat} {text : Bytes} {id : ObjectId}

theorem fromHex_eq_some : fromHex text = some (format, id) ↔ Spells format text id := by
  constructor
  · intro read
    unfold fromHex at read
    split at read
    · rename_i hex
      rw [List.all_eq_true] at hex
      split at read
      · rename_i forty
        cases read
        exact ⟨forty, hex, rfl⟩
      · split at read
        · rename_i long
          cases read
          exact ⟨long, hex, rfl⟩
        · cases read
    · cases read
  · rintro ⟨length, digits, number⟩
    unfold fromHex
    rw [if_pos (List.all_eq_true.mpr digits), length, number]
    cases format <;> rfl

theorem parseId_eq_ok {input : Option Bytes} :
    parseId format input = .ok id ↔ ∃ text, input = some text ∧ Spells format text id := by
  unfold parseId
  simp only [bind_eq_ok, required_eq_ok, ensure_eq_ok, pure_eq_ok, Except.ok.injEq, Prod.exists]
  constructor
  · rintro ⟨text, rfl, kind, id', read, ⟨⟩, rfl, rfl⟩
    exact ⟨text, rfl, fromHex_eq_some.mp read⟩
  · rintro ⟨text, rfl, spelled⟩
    exact ⟨text, rfl, format, id, fromHex_eq_some.mpr spelled, ⟨⟩, rfl, rfl⟩

theorem Spells.lt (spelled : Spells format text id) : id.value < 16 ^ objectIdLength format := by
  rw [← spelled.number, ← spelled.length]
  exact hexNumber_lt spelled.digits

/-- The identifier that was read is written in digits that spell it. -/
theorem spells_objectHex (small : id.value < 16 ^ objectIdLength format) :
    Spells format (objectHex format id) id :=
  ⟨hexDigits_length _ _, fun _ member => hexdigit_of_hexDigits member, hexNumber_hexDigits small⟩

theorem hexdigit_plain {b : UInt8} (hex : isAsciiHexdigit b = true) :
    b ≠ 0 ∧ b ≠ newline ∧ b ≠ space := by
  refine ⟨?_, ?_, ?_⟩ <;> rintro rfl <;> exact absurd hex (by decide)

theorem Spells.notMem_space (spelled : Spells format text id) : space ∉ text :=
  fun member => (hexdigit_plain (spelled.digits _ member)).2.2 rfl

/-- The identifier of zeroes alone is the one of the number zero. -/
theorem isNullId_iff (digits : ∀ b ∈ text, isAsciiHexdigit b = true) :
    isNullId text = true ↔ (⟨hexNumber text⟩ : ObjectId).isNull = true := by
  suffices general : ∀ start, text.foldl (fun n b => 16 * n + hexDigitValue b) start = 0 ↔
      start = 0 ∧ ∀ b ∈ text, b = 48 by
    have whole := general 0
    rw [ObjectId.isNull_iff, ObjectId.null, ObjectId.mk.injEq, hexNumber, whole, isNullId]
    simp
  induction text with
  | nil => simp
  | cons b rest ih =>
      intro start
      have zero : hexDigitValue b = 0 ↔ b = 48 := by
        have hex := digits b List.mem_cons_self
        unfold isAsciiHexdigit at hex
        rw [decide_eq_true_eq] at hex
        unfold hexDigitValue
        simp only [UInt8.le_iff_toNat_le, UInt8.reduceToNat, ← UInt8.toNat_inj] at hex ⊢
        split
        · omega
        · split <;> omega
      rw [List.foldl_cons, ih fun c member => digits c (List.mem_cons_of_mem _ member),
        List.forall_mem_cons, ← zero]
      have both : 16 * start + hexDigitValue b = 0 ↔ start = 0 ∧ hexDigitValue b = 0 := by omega
      rw [both, and_assoc]

end Identifiers

/-! ## The two readers -/

section Readers

variable {fullName : Bytes → Bool} {format : ObjectFormat} {commands : List RefCommand}

/-- No control byte and no space. -/
def PlainName (name : Bytes) : Prop := ∀ b ∈ name, 32 < b ∧ b ≠ 127

instance (name : Bytes) : Decidable (PlainName name) :=
  inferInstanceAs (Decidable (∀ b ∈ name, 32 < b ∧ b ≠ 127))

theorem PlainName.notMem {name : Bytes} (plain : PlainName name) :
    (0 : UInt8) ∉ name ∧ newline ∉ name ∧ space ∉ name := by
  refine ⟨fun member => ?_, fun member => ?_, fun member => ?_⟩ <;>
    exact absurd (plain _ member).1 (by decide)

theorem beforeSpace_append {text rest : Bytes} (none : space ∉ text) :
    beforeSpace (text ++ space :: rest) = text := by
  have all : ∀ b ∈ text, decide (b ≠ space) = true := fun b member =>
    decide_eq_true fun same => none (same ▸ member)
  rw [beforeSpace, List.takeWhile_append_of_pos all, List.takeWhile_cons_of_neg (by simp),
    List.append_nil]

theorem afterSpace_append {text rest : Bytes} (none : space ∉ text) :
    afterSpace (text ++ space :: rest) = some rest := by
  have all : ∀ b ∈ text, decide (b ≠ space) = true := fun b member =>
    decide_eq_true fun same => none (same ▸ member)
  rw [afterSpace, if_pos (by simp), List.dropWhile_append_of_pos all,
    List.dropWhile_cons_of_neg (by simp), List.tail_cons]

/-- A line of a snapshot, without its end. -/
def refLine (format : ObjectFormat) (proposed : Bool) (command : RefCommand) : Bytes :=
  objectHex format (command.value proposed) ++ space :: command.name

/-- A command whose line both readers take apart where it was put together. -/
structure Readable (format : ObjectFormat) (command : RefCommand) : Prop where
  values : ∀ proposed, (command.value proposed).value < 16 ^ objectIdLength format
  plain : PlainName command.name
  named : command.name ≠ []

theorem snapshotLines_serializeRefs (readable : ∀ c ∈ commands, Readable format c)
    (proposed : Bool) : snapshotLines (serializeRefs format commands proposed) =
      commands.map (refLine format proposed) := by
  induction commands with
  | nil => rfl
  | cons c rest ih =>
      have here := readable c List.mem_cons_self
      have later := ih fun d member => readable d (List.mem_cons_of_mem _ member)
      have whole : newline ∉ refLine format proposed c := by
        unfold refLine
        rw [List.mem_append, List.mem_cons]
        rintro (inside | same | inside)
        · have hex := (spells_objectHex (here.values proposed)).digits _ inside
          exact (hexdigit_plain hex).2.1 rfl
        · exact absurd same (by decide)
        · exact here.plain.notMem.2.1 inside
      have some : refLine format proposed c ≠ [] := by
        unfold refLine
        exact List.append_ne_nil_of_right_ne_nil _ (List.cons_ne_nil _ _)
      have split : serializeRefs format (c :: rest) proposed =
          refLine format proposed c ++ newline :: serializeRefs format rest proposed := by
        simp [serializeRefs, refLine]
      unfold snapshotLines at later ⊢
      rw [split, List.splitOn_append_cons_self_of_not_mem whole, List.filter_cons_of_pos
        (by simpa using some), later, List.map_cons]

theorem mapM_map_eq_ok {α β γ ε : Type} {g : α → β} {f : β → Except ε γ} {h : α → γ}
    {inputs : List α} (each : ∀ input ∈ inputs, f (g input) = .ok (h input)) :
    (inputs.map g).mapM f = .ok (inputs.map h) := by
  induction inputs with
  | nil => rfl
  | cons input rest ih =>
      have later := ih fun other member => each other (List.mem_cons_of_mem _ member)
      rw [List.map_cons, List.mapM_cons, each input List.mem_cons_self, later]
      rfl

theorem parseRefSnapshot_serializeRefs (readable : ∀ c ∈ commands, Readable format c)
    (full : ∀ c ∈ commands, fullName c.name = true) (proposed : Bool) :
    parseRefSnapshot fullName format (serializeRefs format commands proposed) =
      .ok (commands.map fun c => (c.name, c.value proposed)) := by
  unfold parseRefSnapshot
  rw [snapshotLines_serializeRefs readable]
  refine mapM_map_eq_ok fun c member => ?_
  have spelled := spells_objectHex ((readable c member).values proposed)
  have read : parseId format (some (objectHex format (c.value proposed))) =
      .ok (c.value proposed) := parseId_eq_ok.mpr ⟨_, rfl, spelled⟩
  simp only [snapshotLine, refLine, beforeSpace_append spelled.notMem_space,
    afterSpace_append spelled.notMem_space, read, required_some, ok_bind,
    ensure_of (full c member), pure_eq_ok]

theorem parseEventRefs_serializeRefs (readable : ∀ c ∈ commands, Readable format c)
    (proposed : Bool) : parseEventRefs (serializeRefs format commands proposed) =
      .ok (commands.map fun c => (objectHex format (c.value proposed), c.name)) := by
  unfold parseEventRefs
  rw [snapshotLines_serializeRefs readable]
  refine mapM_map_eq_ok fun c member => ?_
  have spelled := spells_objectHex ((readable c member).values proposed)
  have length : (objectHex format (c.value proposed)).length = 40 ∨
      (objectHex format (c.value proposed)).length = 64 := by
    rw [spelled.length]
    cases format <;> decide
  simp only [eventLine, refLine, beforeSpace_append spelled.notMem_space,
    afterSpace_append spelled.notMem_space, required_some, ok_bind,
    ensure_of (And.intro length (List.all_eq_true.mpr spelled.digits)),
    ensure_of (readable c member).named, pure_eq_ok]

theorem spelledRefs_objectHex (readable : ∀ c ∈ commands, Readable format c) (proposed : Bool) :
    spelledRefs (commands.map fun c => (objectHex format (c.value proposed), c.name)) =
      commands.map fun c => (c.name, c.value proposed) := by
  unfold spelledRefs
  rw [List.map_map]
  refine List.map_congr_left fun c member => ?_
  have number := (spells_objectHex ((readable c member).values proposed)).number
  simp only [Function.comp_apply, number]

end Readers

/-! ## The format of the commands -/

/-- One line of the section.  Only the first may go on with capabilities. -/
structure CommandLine (format : ObjectFormat) (first : Bool) (line : Bytes) (command : RefCommand) :
    Prop where
  form : ∃ old new tail, line = old ++ space :: (new ++ space :: command.name) ++ tail ∧
    Spells format old command.old ∧ Spells format new command.new ∧
    (tail = [] ∨ tail = [newline] ∨ first = true ∧ ∃ capabilities, tail = 0 :: capabilities)

inductive CommandLines (format : ObjectFormat) : Bool → List Bytes → List RefCommand → Prop where
  | nil {first : Bool} : CommandLines format first [] []
  | cons {first : Bool} {line : Bytes} {lines : List Bytes} {command : RefCommand}
      {commands : List RefCommand} (here : CommandLine format first line command)
      (later : CommandLines format false lines commands) :
      CommandLines format first (line :: lines) (command :: commands)

/-- A name that a push may change. -/
structure Pushable (fullName : Bytes → Bool) (name : RefName) : Prop where
  full : fullName name = true
  placed : asciiBytes "refs/heads/" <+: name ∨ asciiBytes "refs/tags/" <+: name

/-- The command sections of a repository. -/
structure CommandSection (fullName : Bytes → Bool) (format : ObjectFormat) (input : Bytes)
    (commands : List RefCommand) : Prop where
  size : input.length ≤ maxRequestBytes
  lines : ∃ lines, Packets (lines.map .data ++ [.flush]) input ∧
    CommandLines format true lines commands
  count : 1 ≤ commands.length ∧ commands.length ≤ maxCommands
  changes : ∀ c ∈ commands, c.old ≠ c.new
  names : ∀ c ∈ commands, Pushable fullName c.name
  distinct : commands.Pairwise fun c d => c.name ≠ d.name

section Format

variable {fullName : Bytes → Bool} {format : ObjectFormat} {first : Bool} {line : Bytes}
  {command : RefCommand} {commands : List RefCommand}

/-- A line is what `chomp` keeps of it and perhaps a newline. -/
theorem chomp_spec (line : Bytes) : ∃ ending, line = chomp line ++ ending ∧
    (ending = [] ∨ ending = [newline]) := by
  cases ends : isTerminated line with
  | true => exact ⟨[newline], (chomp_newline ends).symm, .inr rfl⟩
  | false => exact ⟨[], by rw [chomp_eq ends, List.append_nil], .inl rfl⟩

theorem chomp_append_newline (text : Bytes) : chomp (text ++ [newline]) = text := by
  have ends : isTerminated (text ++ [newline]) = true := by simp [isTerminated]
  rw [chomp, if_pos ends, List.dropLast_concat]

theorem chomp_of_notMem {text : Bytes} (none : newline ∉ text) : chomp text = text :=
  chomp_eq (decide_eq_false fun last => none (List.mem_of_getLast? last))

/-- The text before the first NUL, and what is cut off. -/
theorem head_splitOn_spec (text : Bytes) : ∃ cut, text = (text.splitOn 0).headD [] ++ cut ∧
    (cut = [] ∨ ∃ more, cut = 0 :: more) := by
  by_cases inside : (0 : UInt8) ∈ text
  · obtain ⟨before, after, rfl, none⟩ := List.eq_append_cons_of_mem inside
    refine ⟨0 :: after, ?_, .inr ⟨after, rfl⟩⟩
    rw [List.splitOn_append_cons_self_of_not_mem none, List.headD_cons]
  · refine ⟨[], ?_, .inl rfl⟩
    rw [List.splitOn_eq_singleton inside, List.headD_cons, List.append_nil]

theorem head_splitOn_append {text more : Bytes} (none : (0 : UInt8) ∉ text) :
    ((text ++ 0 :: more).splitOn 0).headD [] = text := by
  rw [List.splitOn_append_cons_self_of_not_mem none, List.headD_cons]

/-- What a line is when `commandText` finds a command in it. -/
theorem commandText_eq_ok {text : Bytes} (read : commandText first line = .ok text) :
    ∃ tail, line = text ++ tail ∧
      (tail = [] ∨ tail = [newline] ∨ first = true ∧ ∃ capabilities, tail = 0 :: capabilities) := by
  obtain ⟨ending, whole, shape⟩ := chomp_spec line
  unfold commandText at read
  cases first with
  | true =>
      rw [if_pos rfl] at read
      cases read
      obtain ⟨cut, kept, rest⟩ := head_splitOn_spec (chomp line)
      refine ⟨cut ++ ending, ?_, ?_⟩
      · rw [← List.append_assoc, ← kept]
        exact whole
      · rcases rest with rfl | ⟨more, rfl⟩
        · rw [List.nil_append]
          exact shape.imp_right .inl
        · exact .inr (.inr ⟨rfl, more ++ ending, rfl⟩)
  | false =>
      rw [if_neg Bool.false_ne_true] at read
      split at read
      · cases read
      · cases read
        exact ⟨ending, whole, shape.imp_right .inl⟩

/-- A command without NUL and newline is found again in each kind of line. -/
theorem commandText_of {text tail : Bytes} (noNul : (0 : UInt8) ∉ text) (noEnd : newline ∉ text)
    (shape : tail = [] ∨ tail = [newline] ∨
      first = true ∧ ∃ capabilities, tail = 0 :: capabilities) :
    commandText first (text ++ tail) = .ok text := by
  have plain : commandText first text = .ok text := by
    unfold commandText
    simp only [chomp_of_notMem noEnd]
    split
    · rw [List.splitOn_eq_singleton noNul, List.headD_cons]
    · rfl
  rcases shape with rfl | rfl | ⟨rfl, capabilities, rfl⟩
  · rwa [List.append_nil]
  · unfold commandText at plain ⊢
    simp only [chomp_append_newline, chomp_of_notMem noEnd] at plain ⊢
    exact plain
  · obtain ⟨ending, whole, shape⟩ := chomp_spec (text ++ 0 :: capabilities)
    -- the newline that is cut off is one of the capabilities
    obtain ⟨kept, same⟩ : ∃ kept, chomp (text ++ 0 :: capabilities) = text ++ 0 :: kept := by
      rcases shape with rfl | rfl
      · exact ⟨capabilities, by rw [List.append_nil] at whole; exact whole.symm⟩
      · rcases List.eq_nil_or_concat capabilities with rfl | ⟨kept, last, rfl⟩
        · have last : ([0] : Bytes) = [newline] := (List.append_inj' whole rfl).2
          exact absurd last (by decide)
        · refine ⟨kept, ?_⟩
          have split : text ++ 0 :: (kept ++ [last]) = (text ++ 0 :: kept) ++ [last] := by simp
          rw [List.concat_eq_append, split] at whole ⊢
          exact (List.append_inj' whole rfl).1.symm
    unfold commandText
    rw [if_pos rfl, same, head_splitOn_append noNul]

theorem parseCommand_eq_ok {text : Bytes} :
    parseCommand fullName format text = .ok command ↔
      ∃ old new, text.splitOn space = [old, new, command.name] ∧ Spells format old command.old ∧
        Spells format new command.new ∧ command.old ≠ command.new ∧
        fullName command.name = true := by
  unfold parseCommand
  simp only [bind_eq_ok, required_eq_ok, ensure_eq_ok, parseId_eq_ok, pure_eq_ok, Except.ok.injEq]
  constructor
  · rintro ⟨oldId, ⟨old, hasOld, spelledOld⟩, newId, ⟨new, hasNew, spelledNew⟩, name, hasName,
      ⟨⟩, ⟨last, differ⟩, ⟨⟩, full, rfl⟩
    refine ⟨old, new, ?_, spelledOld, spelledNew, differ, full⟩
    match fields : text.splitOn space with
    | [] => exact absurd fields (List.splitOn_ne_nil _ _)
    | [_] | [_, _] | _ :: _ :: _ :: _ :: _ => simp_all
    | [a, b, c] => simp_all
  · rintro ⟨old, new, fields, spelledOld, spelledNew, differ, full⟩
    rw [fields]
    exact ⟨_, ⟨old, rfl, spelledOld⟩, _, ⟨new, rfl, spelledNew⟩, _, rfl, ⟨⟩, ⟨rfl, differ⟩, ⟨⟩,
      full, rfl⟩

theorem parseLine_iff (plain : ∀ name, fullName name = true → PlainName name) :
    (∃ text, commandText first line = .ok text ∧
      parseCommand fullName format text = .ok command) ↔
    CommandLine format first line command ∧ command.old ≠ command.new ∧
      fullName command.name = true := by
  constructor
  · rintro ⟨text, found, parsed⟩
    obtain ⟨tail, rfl, shape⟩ := commandText_eq_ok found
    obtain ⟨old, new, fields, spelledOld, spelledNew, differ, full⟩ := parseCommand_eq_ok.mp parsed
    have joined : [space].intercalate (text.splitOn space) = text := List.intercalate_splitOn space
    rw [fields] at joined
    have whole : text = old ++ space :: (new ++ space :: command.name) := by
      simp [← joined, List.intercalate]
    exact ⟨⟨old, new, tail, by rw [whole], spelledOld, spelledNew, shape⟩, differ, full⟩
  · rintro ⟨⟨old, new, tail, rfl, spelledOld, spelledNew, shape⟩, differ, full⟩
    obtain ⟨noNul, noEnd, noSpace⟩ := (plain _ full).notMem
    have letters : ∀ {text : Bytes} {id : ObjectId}, Spells format text id →
        (0 : UInt8) ∉ text ∧ newline ∉ text := fun spelled =>
      ⟨fun member => (hexdigit_plain (spelled.digits _ member)).1 rfl,
        fun member => (hexdigit_plain (spelled.digits _ member)).2.1 rfl⟩
    have absent : ∀ {b : UInt8}, b ≠ space → b ∉ old → b ∉ new → b ∉ command.name →
        b ∉ old ++ space :: (new ++ space :: command.name) := by
      intro b other inOld inNew inName
      simp [other, inOld, inNew, inName]
    have nul := absent (by decide) (letters spelledOld).1 (letters spelledNew).1 noNul
    have ending := absent (by decide) (letters spelledOld).2 (letters spelledNew).2 noEnd
    refine ⟨_, commandText_of nul ending shape, parseCommand_eq_ok.mpr
      ⟨old, new, ?_, spelledOld, spelledNew, differ, full⟩⟩
    rw [List.splitOn_append_cons_self_of_not_mem spelledOld.notMem_space,
      List.splitOn_append_cons_self_of_not_mem spelledNew.notMem_space,
      List.splitOn_eq_singleton noSpace]

theorem parseLines_data (first : Bool) (names : List RefName) (line : Bytes)
    (rest : List Packet) :
    parseLines fullName format first names (.data line :: rest) = (do
      let command ← commandText first line
      let parsed ← parseCommand fullName format command
      ensure (((asciiBytes "refs/heads/").isPrefixOf parsed.name ∨
        (asciiBytes "refs/tags/").isPrefixOf parsed.name) ∧ parsed.name ∉ names) .refName
      let later ← parseLines fullName format false (parsed.name :: names) rest
      pure (parsed :: later)) := rfl

/-- One command after the other, with the names that were taken before. -/
theorem parseLines_eq_ok (plain : ∀ name, fullName name = true → PlainName name)
    {names : List RefName} {packets : List Packet} :
    parseLines fullName format first names packets = .ok commands ↔
      (∃ lines, packets = lines.map .data ∧ CommandLines format first lines commands) ∧
      (∀ c ∈ commands, c.old ≠ c.new ∧ Pushable fullName c.name ∧ c.name ∉ names) ∧
      commands.Pairwise fun c d => c.name ≠ d.name := by
  induction packets generalizing first names commands with
  | nil =>
      change (Except.ok [] : Except CommandError (List RefCommand)) = .ok commands ↔ _
      constructor
      · rintro ⟨⟩
        exact ⟨⟨[], rfl, .nil⟩, nofun, .nil⟩
      · rintro ⟨⟨lines, none, read⟩, -⟩
        obtain rfl := List.map_eq_nil_iff.mp none.symm
        cases read
        rfl
  | cons packet rest ih =>
      cases packet with
      | data line =>
          rw [parseLines_data]
          simp only [bind_eq_ok, ensure_eq_ok, pure_eq_ok, Except.ok.injEq, ih,
            List.isPrefixOf_iff_prefix]
          constructor
          · rintro ⟨text, found, c, parsed, ⟨⟩, ⟨placed, unused⟩, later,
              ⟨⟨lines, rfl, read⟩, each, distinct⟩, rfl⟩
            obtain ⟨form, differ, full⟩ := (parseLine_iff plain).mp ⟨text, found, parsed⟩
            refine ⟨⟨line :: lines, rfl, .cons form read⟩, ?_, ?_⟩
            · rw [List.forall_mem_cons]
              refine ⟨⟨differ, ⟨full, placed⟩, unused⟩, fun d member => ?_⟩
              obtain ⟨changes, pushable, other⟩ := each d member
              exact ⟨changes, pushable, fun taken => other (List.mem_cons_of_mem _ taken)⟩
            · rw [List.pairwise_cons]
              refine ⟨fun d member same => ?_, distinct⟩
              exact (each d member).2.2 (same ▸ List.mem_cons_self)
          · rintro ⟨⟨lines, same, read⟩, each, distinct⟩
            cases lines with
            | nil => cases same
            | cons line' lines =>
                cases same
                cases read with
                | @cons _ _ _ c later form read =>
                    rw [List.forall_mem_cons] at each
                    rw [List.pairwise_cons] at distinct
                    obtain ⟨⟨differ, pushable, unused⟩, each⟩ := each
                    obtain ⟨text, found, parsed⟩ :=
                      (parseLine_iff plain).mpr ⟨form, differ, pushable.full⟩
                    refine ⟨text, found, c, parsed, ⟨⟩, ⟨pushable.placed, unused⟩, later,
                      ⟨⟨lines, rfl, read⟩, fun d member => ?_, distinct.2⟩, rfl⟩
                    obtain ⟨changes, pushable', other⟩ := each d member
                    refine ⟨changes, pushable', fun taken => ?_⟩
                    rcases List.mem_cons.mp taken with same | taken
                    · exact distinct.1 d member same.symm
                    · exact other taken
      | flush | delimiter | responseEnd =>
          constructor
          · intro read
            have refused : (Except.error .commands : Except CommandError (List RefCommand)) =
              .ok commands := read
            cases refused
          · rintro ⟨⟨lines, same, -⟩, -⟩
            cases lines <;> cases same

/-- **`parse_commands` accepts the command sections, and reads their commands.** -/
theorem parseCommands_eq_ok (plain : ∀ name, fullName name = true → PlainName name)
    {input : Bytes} : parseCommands fullName format input = .ok commands ↔
      CommandSection fullName format input commands := by
  have decoded : ∀ packets, (decode input).mapError CommandError.packetLine = .ok packets ↔
      input.length ≤ maxRequestBytes ∧ Packets packets input := by
    intro packets
    rw [← decode_eq_ok]
    cases decode input <;> simp [Except.mapError]
  unfold parseCommands
  simp only [bind_eq_ok, ensure_eq_ok, pure_eq_ok, Except.ok.injEq, decoded,
    parseLines_eq_ok plain]
  constructor
  · rintro ⟨packets, ⟨size, read⟩, ⟨⟩, last, found,
      ⟨⟨lines, others, form⟩, each, distinct⟩, ⟨⟩, ⟨some, count⟩, rfl⟩
    have whole : packets = lines.map .data ++ [.flush] := by
      rw [← others, List.dropLast_append_getLast? _ last]
    refine ⟨size, ⟨lines, whole ▸ read, form⟩, ⟨List.length_pos_iff.mpr some, count⟩,
      fun c member => (each c member).1, fun c member => (each c member).2.1, distinct⟩
  · rintro ⟨size, ⟨lines, read, form⟩, ⟨some, count⟩, changes, names, distinct⟩
    refine ⟨_, ⟨size, read⟩, ⟨⟩, by simp, commands, ⟨⟨lines, by simp, form⟩, ?_, distinct⟩, ⟨⟩,
      ⟨List.length_pos_iff.mp some, count⟩, rfl⟩
    exact fun c member => ⟨changes c member, names c member, List.not_mem_nil⟩

theorem CommandSection.readable (plain : ∀ name, fullName name = true → PlainName name)
    {input : Bytes} (accepted : CommandSection fullName format input commands) :
    ∀ c ∈ commands, Readable format c := by
  obtain ⟨lines, -, read⟩ := accepted.lines
  have values : ∀ c ∈ commands, ∀ proposed,
      (c.value proposed).value < 16 ^ objectIdLength format := by
    generalize true = first at read
    clear accepted
    induction read with
    | nil => nofun
    | cons here _ ih =>
        rw [List.forall_mem_cons]
        refine ⟨fun proposed => ?_, ih⟩
        obtain ⟨old, new, tail, -, spelledOld, spelledNew, -⟩ := here.form
        cases proposed with
        | true => exact spelledNew.lt
        | false => exact spelledOld.lt
  intro c member
  refine ⟨values c member, plain _ (accepted.names c member).full, ?_⟩
  intro empty
  have placed := (accepted.names c member).placed
  rw [empty, List.prefix_nil, List.prefix_nil] at placed
  exact absurd placed (by decide)

/-- What is accepted is what the other modules call `Commands`. -/
theorem CommandSection.pushed {input : Bytes}
    (accepted : CommandSection fullName format input commands) :
    ∃ accepted : Commands, accepted.list = commands := by
  refine ⟨⟨commands, List.length_pos_iff.mp accepted.count.1, accepted.count.2, accepted.changes,
    fun c member => ?_, accepted.distinct⟩, rfl⟩
  have placed := (accepted.names c member).placed
  rw [← List.isPrefixOf_iff_prefix, ← List.isPrefixOf_iff_prefix] at placed
  unfold isTag
  rcases placed with branch | tag
  · rw [branch]
    split <;> rfl
  · rw [if_pos tag]
    rfl

end Format

/-! ## The events of the push -/

section Events

variable {db : Database} {intent : GitOperationIntent}

theorem insertDomainEvent_error {event : NewDomainEvent} {error : StoreError}
    (failed : db.insertDomainEvent event = .error error) : ∃ constraint, error = .sqlite constraint := by
  unfold insertDomainEvent at failed
  rcases bind_eq_error.mp failed with refused | ⟨_, -, done⟩
  · exact sqlite_error refused
  · cases done

theorem insertAuditEvent_error {event : NewAuditEvent} {error : StoreError}
    (failed : db.insertAuditEvent event = .error error) : ∃ constraint, error = .sqlite constraint := by
  unfold insertAuditEvent at failed
  rcases bind_eq_error.mp failed with refused | ⟨_, -, done⟩
  · exact sqlite_error refused
  · cases done

theorem insertRefEvents_error {repositoryId : Identifier} {ordinal : Nat}
    {pairs : List ((RefName × ObjectId) × (RefName × ObjectId))}
    (fits : ∀ pair ∈ pairs, PairFits pair) {error : StoreError}
    (failed : insertRefEvents intent repositoryId db ordinal pairs = .error error) :
    ∃ constraint, error = .sqlite constraint := by
  induction pairs generalizing db ordinal with
  | nil => cases failed
  | cons pair rest ih =>
      obtain ⟨⟨oldName, old⟩, ⟨newName, new⟩⟩ := pair
      obtain ⟨names, valued, placed⟩ := fits _ List.mem_cons_self
      obtain ⟨tag, tagged⟩ := Option.isSome_iff_exists.mp placed
      simp only at names valued tagged
      rw [insertRefEvents, ensure_of ⟨names, valued⟩, ok_bind, tagged, required_some,
        ok_bind] at failed
      rcases bind_eq_error.mp failed with failed | ⟨db', -, failed⟩
      · exact insertDomainEvent_error failed
      · exact ih (fun pair member => fits pair (List.mem_cons_of_mem _ member)) failed

/-- **The events of well formed snapshots fail only where the database refuses a row.** -/
theorem insertPushEvents_error (shaped : Shaped intent) {error : StoreError}
    (failed : db.insertPushEvents intent = .error error) :
    ∃ constraint, error = .sqlite constraint := by
  unfold insertPushEvents at failed
  split at failed
  · cases failed
  · rw [ensure_of shaped.lengths, ok_bind] at failed
    rcases bind_eq_error.mp failed with failed | ⟨db₁, -, failed⟩
    · exact insertDomainEvent_error failed
    rcases bind_eq_error.mp failed with failed | ⟨db₂, -, failed⟩
    · exact insertRefEvents_error shaped.pairs failed
    exact insertAuditEvent_error failed

/-- The events of what was serialised are those of the snapshots it was serialised from. -/
theorem insertStoredPushEvents_eq {format : ObjectFormat} {commands : Commands}
    (readable : ∀ c ∈ commands.list, Readable format c) :
    insertStoredPushEvents db intent (serializeRefs format commands.list false)
        (serializeRefs format commands.list true) =
      db.insertPushEvents
        { intent with initialRefs := commands.initial, proposedRefs := commands.proposed } := by
  unfold insertStoredPushEvents
  simp only [parseEventRefs_serializeRefs readable, ok_bind, spelledRefs_objectHex readable]
  split
  · rename_i unmanaged
    unfold insertPushEvents
    simp only [unmanaged]
  · rfl

theorem shaped_of_commands (commands : Commands) :
    Shaped { intent with initialRefs := commands.initial, proposedRefs := commands.proposed } := by
  refine ⟨?_, pairs_fit commands⟩
  rw [Commands.initial, Commands.proposed, List.length_map, List.length_map]

/-- **The commands of a push are exactly a command section; what the intent keeps of them both
readers give back, and the events of the push never fail for their payload.** -/
theorem stored_commands_read {fullName : Bytes → Bool}
    (plain : ∀ name, fullName name = true → PlainName name) (format : ObjectFormat) (input : Bytes)
    (commands : List RefCommand) :
    (parseCommands fullName format input = .ok commands ↔
      CommandSection fullName format input commands) ∧
    (parseCommands fullName format input = .ok commands →
      (∀ proposed,
        parseRefSnapshot fullName format (serializeRefs format commands proposed) =
          .ok (commands.map fun c => (c.name, c.value proposed)) ∧
        parseEventRefs (serializeRefs format commands proposed) =
          .ok (commands.map fun c => (objectHex format (c.value proposed), c.name)) ∧
        ∀ c ∈ commands,
          fromHex (objectHex format (c.value proposed)) = some (format, c.value proposed)) ∧
      ∀ db intent, insertStoredPushEvents db intent (serializeRefs format commands false)
        (serializeRefs format commands true) ≠ .error .eventPayload) := by
  refine ⟨parseCommands_eq_ok plain, fun parsed => ?_⟩
  have accepted := (parseCommands_eq_ok plain).mp parsed
  have readable := accepted.readable plain
  refine ⟨fun proposed => ⟨?_, parseEventRefs_serializeRefs readable proposed, ?_⟩, ?_⟩
  · exact parseRefSnapshot_serializeRefs readable (fun c member => (accepted.names c member).full)
      proposed
  · intro c member
    exact fromHex_eq_some.mpr (spells_objectHex ((readable c member).values proposed))
  · intro db intent failed
    obtain ⟨pushed, rfl⟩ := accepted.pushed
    rw [insertStoredPushEvents_eq readable] at failed
    obtain ⟨constraint, other⟩ := insertPushEvents_error (shaped_of_commands pushed) failed
    cases other

end Events

/-! ## A branch that is created -/

def mainCreated : RefCommand := ⟨.null, ⟨1⟩, asciiBytes "refs/heads/main"⟩

def mainCreatedLine : Bytes :=
  objectHex .sha1 .null ++ space :: (objectHex .sha1 ⟨1⟩ ++ space :: mainCreated.name) ++
    0 :: asciiBytes "report-status\n"

theorem mainCreated_read :
    parseCommands (fun name => decide (PlainName name)) .sha1
        (asciiBytes "0074" ++ mainCreatedLine ++ asciiBytes "0000") = .ok [mainCreated] ∧
      parseRefSnapshot (fun name => decide (PlainName name)) .sha1
        (serializeRefs .sha1 [mainCreated] true) = .ok [(mainCreated.name, ⟨1⟩)] := by
  have plain : ∀ name, decide (PlainName name) = true → PlainName name := fun _ holds =>
    of_decide_eq_true holds
  have read := stored_commands_read plain .sha1
    (asciiBytes "0074" ++ mainCreatedLine ++ asciiBytes "0000") [mainCreated]
  have line : CommandLine .sha1 true mainCreatedLine mainCreated :=
    ⟨_, _, _, rfl, spells_objectHex (by decide), spells_objectHex (by decide),
      .inr (.inr ⟨rfl, _, rfl⟩)⟩
  have data : Framed (.data mainCreatedLine) (asciiBytes "0074" ++ mainCreatedLine) :=
    ⟨asciiBytes "0074", rfl, by decide +kernel, by decide +kernel, by decide +kernel,
      by decide +kernel⟩
  have flush : Framed .flush (asciiBytes "0000") := ⟨by decide +kernel, by decide +kernel⟩
  have packets : Packets [.data mainCreatedLine, .flush]
      (asciiBytes "0074" ++ mainCreatedLine ++ asciiBytes "0000") := by
    have last := Packets.cons flush .nil
    rw [List.append_nil] at last
    exact .cons data last
  have accepted : CommandSection (fun name => decide (PlainName name)) .sha1
      (asciiBytes "0074" ++ mainCreatedLine ++ asciiBytes "0000") [mainCreated] :=
    ⟨by decide +kernel, ⟨[mainCreatedLine], packets, .cons line .nil⟩, by decide +kernel,
      by decide, by
        rw [List.forall_mem_singleton]
        exact ⟨by decide +kernel, .inl (by decide)⟩, List.pairwise_singleton _ _⟩
  have parsed := read.1.mpr accepted
  exact ⟨parsed, ((read.2 parsed).1 true).1⟩

end Tit.Git
