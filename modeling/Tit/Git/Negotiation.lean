/-
# Git.Negotiation -- what a client of upload-pack asks for, and what it is sent

A request is a run of packet lines.  Version 2 puts a command section before a delimiter and the
arguments behind it; versions 0 and 1 have the arguments alone.  `negotiate` is the loop that both
share: it takes the wants and the haves, each identifier once, and whether the client is done.  The
pack goes out as it is, or in packets of the sideband.

The library that writes the pack is not modelled: for each list of objects the service knows the
writes that make up their pack, and nothing depends on where one of them ends.
-/
import Tit.Git.PacketWriter
import Tit.Git.UploadPack

namespace Tit.Git

open Tit.Theory Tit.Theory.Text Tit.Store Tit.Store.Database

set_option autoImplicit false

inductive ProtocolVersion where
  | v0
  | v1
  | v2
  deriving DecidableEq, Repr

def maxNegotiationIds : Nat := 256

inductive UploadPackError where
  | repository (error : UploadError)
  | packetLine (error : PacketLineError)
  | unsupportedRequest
  | invalidObjectId
  | negotiationLimit
  | incompleteNegotiation
  deriving DecidableEq, Repr

/-- A reference with its name, and the one that it stands for. -/
structure NamedReference extends GitReference where
  name : RefName
  symbolicTarget : Option RefName
  deriving DecidableEq, Repr

/-- The service of one repository. -/
structure UploadPack where
  repository : UploadRepository
  references : Except String (List NamedReference)
  listed : repository.references = references.map (·.map (·.toGitReference))
  /-- The writes of the pack of these objects. -/
  packWrites : List ObjectId → List Bytes
  written : ∀ objects, repository.packLength objects = (packWrites objects).flatten.length

/-- `strip_prefix`. -/
def stripPrefix (start line : Bytes) : Option Bytes :=
  if start.isPrefixOf line then some (line.drop start.length) else none

def hashName : ObjectFormat → Bytes
  | .sha1 => asciiBytes "sha1"
  | .sha256 => asciiBytes "sha256"

/-! ## The arguments -/

/-- What one line of a request says. -/
inductive Argument where
  | want (id : ObjectId)
  | offer (id : ObjectId)
  | done
  | option (line : Bytes)
  deriving DecidableEq, Repr

structure Negotiation where
  wants : List ObjectId
  haves : List ObjectId
  done : Bool
  deriving DecidableEq, Repr

/-- `insert` into the set of those that are known, and `push` for a new one. -/
def addId (ids : List ObjectId) (id : ObjectId) : List ObjectId :=
  if id ∈ ids then ids else ids ++ [id]

namespace Negotiation

def start : Negotiation := ⟨[], [], false⟩

def take (n : Negotiation) : Argument → Negotiation
  | .want id => { n with wants := addId n.wants id }
  | .offer id => { n with haves := addId n.haves id }
  | .done => { n with done := true }
  | .option _ => n

/-- What all the arguments together ask for. -/
def of (arguments : List Argument) : Negotiation := arguments.foldl take start

def Within (n : Negotiation) : Prop :=
  n.wants.length ≤ maxNegotiationIds ∧ n.haves.length ≤ maxNegotiationIds

instance (n : Negotiation) : Decidable n.Within := inferInstanceAs (Decidable (_ ∧ _))

end Negotiation

section Parser

variable (format : ObjectFormat)

def parseNegotiationId (input : Bytes) : Except UploadPackError ObjectId := do
  let (kind, id) ← required (fromHex input) .invalidObjectId
  ensure (kind = format) .invalidObjectId
  pure id

variable (wanted : Bytes → Bytes) (options : List Bytes)

/-- `wanted` finds the identifier in what follows `want`. -/
def readArgument (line : Bytes) : Except UploadPackError Argument :=
  let line := chomp line
  match stripPrefix (asciiBytes "want ") line, stripPrefix (asciiBytes "have ") line with
  | some value, _ => (parseNegotiationId format (wanted value)).map .want
  | none, some value => (parseNegotiationId format value).map .offer
  | none, none =>
      if line = asciiBytes "done" then .ok .done
      else if options.contains line then .ok (.option line)
      else .error .unsupportedRequest

/-- The loop over the packets; `skipped` are those without a line that do no harm. -/
def negotiate (skipped : Packet → Bool) :
    Negotiation → List Packet → Except UploadPackError Negotiation
  | n, [] => .ok n
  | n, .data line :: rest => do
      let argument ← readArgument format wanted options line
      let next := n.take argument
      ensure next.Within .negotiationLimit
      negotiate skipped next rest
  | n, packet :: rest =>
      if skipped packet then negotiate skipped n rest else .error .unsupportedRequest

/-- The loop of `respond_v1`: the first `want` has capabilities behind a space. -/
def negotiateV1 (packets : List Packet) : Except UploadPackError Negotiation :=
  negotiate format beforeSpace [] (fun _ => true) .start packets

def fetchOptions : List Bytes :=
  [asciiBytes "thin-pack", asciiBytes "no-progress", asciiBytes "include-tag",
    asciiBytes "ofs-delta"]

/-- The loop of `respond_fetch`. -/
def negotiateFetch (packets : List Packet) : Except UploadPackError Negotiation :=
  negotiate format id fetchOptions (fun packet => decide (packet = .flush)) .start packets

def commandLoop : Option Bytes → List Packet → Except UploadPackError Bytes
  | command, [] => required command .unsupportedRequest
  | command, .data line :: rest =>
      let line := chomp line
      match stripPrefix (asciiBytes "command=") line with
      | some value =>
          if command.isSome then .error .unsupportedRequest else commandLoop (some value) rest
      | none =>
          match stripPrefix (asciiBytes "object-format=") line with
          | some value => do
              ensure (value = hashName format) .invalidObjectId
              commandLoop command rest
          | none =>
              if (asciiBytes "agent=").isPrefixOf line then commandLoop command rest
              else .error .unsupportedRequest
  | _, _ :: _ => .error .unsupportedRequest

def commandName (packets : List Packet) : Except UploadPackError Bytes :=
  commandLoop format none packets

end Parser

/-! ## The references -/

/-- What `ls-refs` is asked for. -/
structure ListOptions where
  symrefs : Bool
  peel : Bool
  prefixes : List Bytes
  deriving DecidableEq, Repr

def listOptions : ListOptions → List Packet → Except UploadPackError ListOptions
  | o, [] => .ok o
  | o, .data line :: rest =>
      let line := chomp line
      if line = asciiBytes "symrefs" then listOptions { o with symrefs := true } rest
      else if line = asciiBytes "peel" then listOptions { o with peel := true } rest
      else
        match stripPrefix (asciiBytes "ref-prefix ") line with
        | some start => listOptions { o with prefixes := o.prefixes ++ [start] } rest
        | none => .error .unsupportedRequest
  | o, .flush :: rest => listOptions o rest
  | _, _ :: _ => .error .unsupportedRequest

def formatRef (format : ObjectFormat) (symrefs peel : Bool) (reference : NamedReference) : Bytes :=
  objectHex format reference.target ++ space :: reference.name ++
    (match reference.symbolicTarget with
      | some target => if symrefs then asciiBytes " symref-target:" ++ target else []
      | none => []) ++
    (match reference.peeled with
      | some target => if peel then asciiBytes " peeled:" ++ objectHex format target else []
      | none => []) ++
    [newline]

def advertisedRef (format : ObjectFormat) (target : ObjectId) (name : RefName)
    (capabilities : Option Bytes) : Bytes :=
  objectHex format target ++ space :: name ++
    (match capabilities with
      | some capabilities => 0 :: capabilities
      | none => []) ++
    [newline]

def agent : Bytes := asciiBytes "tit/0.2.0"

namespace UploadPack

variable (service : UploadPack)

def format : ObjectFormat := service.repository.format

def namedReferences : Except UploadPackError (List NamedReference) :=
  service.references.mapError fun reason => .repository (.references reason)

/-- `encode_data` for one payload after the other. -/
def encodeAll (payloads : List Bytes) (output : Bytes) : Except UploadPackError Bytes :=
  (payloads.foldlM (fun output payload => encodeData payload output) output).mapError .packetLine

def capabilities : Bytes :=
  asciiBytes "agent=" ++ agent ++ asciiBytes " object-format=" ++ hashName service.format

/-- The lines of one reference, and of what it is peeled to. -/
def advertisedLines (capabilities : Option Bytes) (reference : NamedReference) : List Bytes :=
  advertisedRef service.format reference.target reference.name capabilities ::
    reference.peeled.toList.map fun peeled =>
      advertisedRef service.format peeled (reference.name ++ asciiBytes "^{}") none

/-- The lines of all references.  A repository without one still tells its capabilities. -/
def advertisementLines : List NamedReference → List Bytes
  | [] => [advertisedRef service.format .null (asciiBytes "capabilities^{}")
      (some service.capabilities)]
  | first :: rest =>
      service.advertisedLines (some service.capabilities) first ++
        rest.flatMap (service.advertisedLines none)

def advertiseV0OrV1 (output : Bytes) (versionPacket : Bool) : Except UploadPackError Bytes := do
  let output ← encodeAll (if versionPacket then [asciiBytes "version 1\n"] else []) output
  let references ← service.namedReferences
  let output ← encodeAll (service.advertisementLines references) output
  pure (encodeFlush output)

def advertiseV2 (output : Bytes) : Except UploadPackError Bytes := do
  let output ← encodeAll
    [asciiBytes "version 2\n", asciiBytes "agent=" ++ agent ++ [newline],
      asciiBytes "object-format=" ++ hashName service.format ++ [newline],
      asciiBytes "ls-refs=symrefs peel\n", asciiBytes "fetch=wait-for-done\n"] output
  pure (encodeFlush output)

/-- What the advertisement begins with over HTTP. -/
def serviceHead (version : ProtocolVersion) (http : Bool) : Except UploadPackError Bytes :=
  if http = true ∧ version ≠ .v2 then
    (encodeAll [asciiBytes "# service=git-upload-pack\n"] []).map encodeFlush
  else .ok []

def advertisement (version : ProtocolVersion) (http : Bool) : Except UploadPackError Bytes := do
  let output ← serviceHead version http
  match version with
  | .v0 => service.advertiseV0OrV1 output false
  | .v1 => service.advertiseV0OrV1 output true
  | .v2 => service.advertiseV2 output

def respondLsRefs (packets : List Packet) : Except UploadPackError Bytes := do
  let o ← listOptions ⟨false, false, []⟩ packets
  let references ← service.namedReferences
  let listed := references.filter fun reference =>
    o.prefixes.isEmpty || o.prefixes.any (·.isPrefixOf reference.name)
  let output ← encodeAll (listed.map (formatRef service.format o.symrefs o.peel)) []
  pure (encodeFlush output)

/-! ## The pack -/

/-- `write_pack`: the writes of the pack of what is wanted and not there. -/
def writePack (n : Negotiation) : Except UploadPackError (List Bytes) :=
  ((service.repository.writePack (n.wants.map (⟨service.format, ·⟩))
    (n.haves.map (⟨service.format, ·⟩))).map service.packWrites).mapError .repository

def respondV1 (packets : List Packet) : Except UploadPackError Bytes := do
  let n ← negotiateV1 service.format packets
  ensure (n.done = true ∧ n.wants ≠ []) .incompleteNegotiation
  let output ← encodeAll [asciiBytes "NAK\n"] []
  let writes ← service.writePack n
  pure (output ++ writes.flatten)

def respondFetch (packets : List Packet) : Except UploadPackError Bytes := do
  let n ← negotiateFetch service.format packets
  ensure (n.wants ≠ []) .incompleteNegotiation
  if n.done then do
    let output ← encodeAll [asciiBytes "packfile\n"] []
    let writes ← service.writePack n
    let output ← (SidebandWriter.run output writes).mapError .packetLine
    pure (encodeFlush output)
  else do
    let output ← encodeAll [asciiBytes "acknowledgments\n", asciiBytes "NAK\n"] []
    pure (encodeFlush output)

def respondV2 (packets : List Packet) : Except UploadPackError Bytes := do
  ensure (.delimiter ∈ packets) .unsupportedRequest
  let command ← commandName service.format (packets.takeWhile (· ≠ .delimiter))
  let arguments := (packets.dropWhile (· ≠ .delimiter)).tail
  if command = asciiBytes "ls-refs" then service.respondLsRefs arguments
  else if command = asciiBytes "fetch" then service.respondFetch arguments
  else .error .unsupportedRequest

def respond (version : ProtocolVersion) (request : Bytes) : Except UploadPackError Bytes := do
  let packets ← (decode request).mapError .packetLine
  match version with
  | .v0 | .v1 => service.respondV1 packets
  | .v2 => service.respondV2 packets

theorem respond_v2 {service : UploadPack} {request : Bytes} {packets : List Packet}
    (decoded : decode request = .ok packets) :
    service.respond .v2 request = service.respondV2 packets := by
  rw [respond, decoded]
  rfl

end UploadPack

/-! ## What the loop accepts -/

theorem stripPrefix_eq_some {start line rest : Bytes} :
    stripPrefix start line = some rest ↔ line = start ++ rest := by
  unfold stripPrefix
  constructor
  · intro stripped
    split at stripped
    · rename_i begins
      obtain ⟨rest', rfl⟩ := List.isPrefixOf_iff_prefix.mp begins
      rw [List.drop_left] at stripped
      exact congrArg _ (Option.some.inj stripped)
    · cases stripped
  · rintro rfl
    rw [if_pos (List.isPrefixOf_iff_prefix.mpr (List.prefix_append start rest)), List.drop_left]

theorem stripPrefix_eq_none {start line : Bytes} :
    stripPrefix start line = none ↔ ¬start <+: line := by
  unfold stripPrefix
  rw [← List.isPrefixOf_iff_prefix]
  split <;> simp_all

/-- A line, without its end, that says the argument. -/
inductive ArgumentText (format : ObjectFormat) (wanted : Bytes → Bytes) (options : List Bytes) :
    Bytes → Argument → Prop where
  | want {value : Bytes} {id : ObjectId} (spelled : Spells format (wanted value) id) :
      ArgumentText format wanted options (asciiBytes "want " ++ value) (.want id)
  | offer {value : Bytes} {id : ObjectId} (spelled : Spells format value id) :
      ArgumentText format wanted options (asciiBytes "have " ++ value) (.offer id)
  | done : ArgumentText format wanted options (asciiBytes "done") .done
  | option {line : Bytes} (known : line ∈ options) :
      ArgumentText format wanted options line (.option line)

/-- The packets that say the arguments, in this order. -/
inductive ArgumentPackets (format : ObjectFormat) (wanted : Bytes → Bytes) (options : List Bytes)
    (skipped : Packet → Bool) : List Packet → List Argument → Prop where
  | nil : ArgumentPackets format wanted options skipped [] []
  | line {line : Bytes} {argument : Argument} {packets : List Packet} {arguments : List Argument}
      (spoken : ArgumentText format wanted options (chomp line) argument)
      (later : ArgumentPackets format wanted options skipped packets arguments) :
      ArgumentPackets format wanted options skipped (.data line :: packets) (argument :: arguments)
  | skip {packet : Packet} {packets : List Packet} {arguments : List Argument}
      (bare : ∀ line, packet ≠ .data line) (harmless : skipped packet = true)
      (later : ArgumentPackets format wanted options skipped packets arguments) :
      ArgumentPackets format wanted options skipped (packet :: packets) arguments

/-- The options are no other arguments. -/
def PlainOptions (options : List Bytes) : Prop :=
  ∀ o ∈ options, stripPrefix (asciiBytes "want ") o = none ∧
    stripPrefix (asciiBytes "have ") o = none ∧ o ≠ asciiBytes "done"

instance (options : List Bytes) : Decidable (PlainOptions options) :=
  inferInstanceAs (Decidable (∀ o ∈ options, _))

theorem plainOptions_fetch : PlainOptions fetchOptions := by decide

theorem plainOptions_nil : PlainOptions [] := by decide

section Loop

variable {format : ObjectFormat} {wanted : Bytes → Bytes} {options : List Bytes}
  {skipped : Packet → Bool} {line : Bytes} {id : ObjectId} {argument : Argument}
  {arguments : List Argument} {n n' : Negotiation} {packets : List Packet}

theorem parseNegotiationId_eq_ok {input : Bytes} :
    parseNegotiationId format input = .ok id ↔ Spells format input id := by
  unfold parseNegotiationId
  simp only [bind_eq_ok, required_eq_ok, ensure_eq_ok, pure_eq_ok, Except.ok.injEq, Prod.exists]
  constructor
  · rintro ⟨kind, id', read, ⟨⟩, rfl, rfl⟩
    exact fromHex_eq_some.mp read
  · intro spelled
    exact ⟨format, id, fromHex_eq_some.mpr spelled, ⟨⟩, rfl, rfl⟩

theorem readArgument_eq_ok (plain : PlainOptions options) :
    readArgument format wanted options line = .ok argument ↔
      ArgumentText format wanted options (chomp line) argument := by
  have noWant : ∀ value, stripPrefix (asciiBytes "want ") (asciiBytes "have " ++ value) = none :=
    fun value => stripPrefix_eq_none.mpr fun begins => by
      obtain ⟨rest, same⟩ := begins
      exact absurd (List.append_inj_left same rfl) (by decide)
  unfold readArgument
  constructor
  · intro read
    dsimp only at read
    split at read
    · rename_i value stripped
      obtain ⟨id, parsed, rfl⟩ := map_eq_ok.mp read
      rw [stripPrefix_eq_some.mp stripped]
      exact .want (parseNegotiationId_eq_ok.mp parsed)
    · rename_i value absent stripped
      obtain ⟨id, parsed, rfl⟩ := map_eq_ok.mp read
      rw [stripPrefix_eq_some.mp stripped]
      exact .offer (parseNegotiationId_eq_ok.mp parsed)
    · split at read
      · rename_i same
        cases read
        rw [same]
        exact .done
      · split at read
        · rename_i known
          cases read
          exact .option (List.contains_iff_mem.mp known)
        · cases read
  · intro spoken
    dsimp only
    generalize chomp line = text at spoken
    cases spoken with
    | want spelled =>
        rw [stripPrefix_eq_some.mpr rfl]
        exact map_eq_ok.mpr ⟨_, parseNegotiationId_eq_ok.mpr spelled, rfl⟩
    | offer spelled =>
        rw [noWant, stripPrefix_eq_some.mpr rfl]
        exact map_eq_ok.mpr ⟨_, parseNegotiationId_eq_ok.mpr spelled, rfl⟩
    | done => rfl
    | option known =>
        obtain ⟨want, offer, other⟩ := plain _ known
        rw [want, offer, if_neg other, if_pos (List.contains_iff_mem.mpr known)]

/-! The lists only grow, so that the last check of the limit says all that the others say. -/

theorem length_addId_le (ids : List ObjectId) (id : ObjectId) :
    ids.length ≤ (addId ids id).length := by
  unfold addId
  split
  · exact Nat.le_refl _
  · rw [List.length_append]
    exact Nat.le_add_right _ _

theorem Negotiation.take_le (n : Negotiation) (argument : Argument) :
    n.wants.length ≤ (n.take argument).wants.length ∧
      n.haves.length ≤ (n.take argument).haves.length := by
  cases argument with
  | want id => exact ⟨length_addId_le _ _, Nat.le_refl _⟩
  | offer id => exact ⟨Nat.le_refl _, length_addId_le _ _⟩
  | done => exact ⟨Nat.le_refl _, Nat.le_refl _⟩
  | option line => exact ⟨Nat.le_refl _, Nat.le_refl _⟩

theorem Negotiation.within_of_foldl (within : (arguments.foldl Negotiation.take n).Within) :
    n.Within := by
  induction arguments generalizing n with
  | nil => exact within
  | cons argument arguments ih =>
      obtain ⟨wants, haves⟩ := ih within
      obtain ⟨wants', haves'⟩ := n.take_le argument
      exact ⟨wants'.trans wants, haves'.trans haves⟩

/-- **What the loop takes**: the arguments that the packets say, when they are within the limit. -/
theorem negotiate_eq_ok (plain : PlainOptions options) (start : n.Within) :
    negotiate format wanted options skipped n packets = .ok n' ↔
      ∃ arguments, ArgumentPackets format wanted options skipped packets arguments ∧
        n' = arguments.foldl Negotiation.take n ∧ n'.Within := by
  constructor
  · intro taken
    fun_induction negotiate format wanted options skipped n packets with
    | case1 n =>
        cases taken
        exact ⟨[], .nil, rfl, start⟩
    | case2 n line rest ih =>
        obtain ⟨argument, read, taken⟩ := bind_eq_ok.mp taken
        obtain ⟨⟨⟩, within, taken⟩ := bind_eq_ok.mp taken
        have within := ensure_eq_ok.mp within
        obtain ⟨arguments, spoken, same, final⟩ := ih argument within taken
        exact ⟨argument :: arguments, .line ((readArgument_eq_ok plain).mp read) spoken, same, final⟩
    | case3 n packet rest bare harmless ih =>
        obtain ⟨arguments, spoken, same, final⟩ := ih start taken
        exact ⟨arguments, .skip (fun line same => bare line same) harmless spoken, same, final⟩
    | case4 => cases taken
  · rintro ⟨arguments, spoken, rfl, final⟩
    induction spoken generalizing n with
    | nil => rfl
    | @line line argument packets arguments spoken later ih =>
        have within : (n.take argument).Within := Negotiation.within_of_foldl final
        rw [negotiate, (readArgument_eq_ok plain).mpr spoken, ok_bind]
        dsimp only
        rw [ensure_of within, ok_bind]
        exact ih within final
    | @skip packet packets arguments bare harmless later ih =>
        have turn : negotiate format wanted options skipped n (packet :: packets) =
            negotiate format wanted options skipped n packets := by
          cases packet with
          | data line => exact absurd rfl (bare line)
          | _ => rw [negotiate, if_pos harmless]; exact fun line same => bare line same
        rw [turn]
        exact ih start final

end Loop

/-! ## What the arguments ask for -/

namespace Negotiation

variable {arguments : List Argument} {id : ObjectId}

theorem mem_addId {ids : List ObjectId} {x : ObjectId} : x ∈ addId ids id ↔ x ∈ ids ∨ x = id := by
  unfold addId
  split
  · rename_i known
    exact ⟨Or.inl, fun member => member.elim (·) fun same => same ▸ known⟩
  · rw [List.mem_append, List.mem_singleton]

theorem foldl_take_spec (n : Negotiation) :
    (∀ x, x ∈ (arguments.foldl take n).wants ↔ x ∈ n.wants ∨ .want x ∈ arguments) ∧
    (∀ x, x ∈ (arguments.foldl take n).haves ↔ x ∈ n.haves ∨ .offer x ∈ arguments) ∧
    ((arguments.foldl take n).done = true ↔ n.done = true ∨ .done ∈ arguments) := by
  induction arguments generalizing n with
  | nil => simp
  | cons argument arguments ih =>
      obtain ⟨wants, haves, done⟩ := ih (n.take argument)
      simp only [List.foldl_cons, wants, haves, done, List.mem_cons]
      cases argument with
      | want id => simp [take, mem_addId, or_assoc]
      | offer id => simp [take, mem_addId, or_assoc]
      | done => simp [take]
      | option line => simp [take]

theorem mem_wants : id ∈ (of arguments).wants ↔ .want id ∈ arguments := by
  rw [of, (foldl_take_spec start).1]
  simp [start]

theorem mem_haves : id ∈ (of arguments).haves ↔ .offer id ∈ arguments := by
  rw [of, (foldl_take_spec start).2.1]
  simp [start]

theorem done_iff : (of arguments).done = true ↔ .done ∈ arguments := by
  rw [of, (foldl_take_spec start).2.2]
  simp [start]

end Negotiation

end Tit.Git
