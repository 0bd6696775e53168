/-
# Git.Fetch -- a fetch over the wire, from the request to the pack

The client of a fetch writes a script of arguments, and reads the pack out of the response: after
the packet `NAK` in versions 0 and 1, out of the first band of the sideband in version 2
(`clientPack`).  A script that is within the limits is answered with the pack of what it asks for,
and the pack completes the client (`fetch_completes`).  Which version carries it makes no difference
(`fetch_versions_agree`).  Whatever bytes are sent instead, a response that holds a pack holds the
one of a request in them, for wants that are advertised (`served_only_advertised`).
-/
import Tit.Git.Negotiation

namespace Tit.Git

open Tit.Theory Tit.Theory.Text Tit.Store Tit.Store.Database

set_option autoImplicit false

/-! ## The client -/

def Argument.text (format : ObjectFormat) : Argument → Bytes
  | .want id => asciiBytes "want " ++ objectHex format id
  | .offer id => asciiBytes "have " ++ objectHex format id
  | .done => asciiBytes "done"
  | .option line => line

/-- The packets of a script; a flush stands between arguments where the client likes. -/
def scriptPackets (format : ObjectFormat) (script : List (Option Argument)) : List Packet :=
  script.map fun
    | some argument => .data (argument.text format ++ [newline])
    | none => .flush

def scriptArguments (script : List (Option Argument)) : List Argument := script.filterMap id

def fetchHeader (format : ObjectFormat) : List Packet :=
  [.data (asciiBytes "command=fetch\n"), .data (asciiBytes "agent=client\n"),
    .data (asciiBytes "object-format=" ++ hashName format ++ [newline])]

def clientPackets (format : ObjectFormat) (script : List (Option Argument)) :
    ProtocolVersion → List Packet
  | .v0 | .v1 => scriptPackets format script
  | .v2 => fetchHeader format ++ .delimiter :: scriptPackets format script

def knownOptions : ProtocolVersion → List Bytes
  | .v0 | .v1 => []
  | .v2 => fetchOptions

/-- The identifiers are of the hash of the repository, the options those of the version. -/
structure Speakable (format : ObjectFormat) (version : ProtocolVersion) (argument : Argument) :
    Prop where
  sized : ∀ id, argument = .want id ∨ argument = .offer id → id.value < 16 ^ objectIdLength format
  known : ∀ line, argument = .option line → line ∈ knownOptions version

/-- The bytes of the first band, up to the flush that ends them. -/
def bandOne : List Packet → Option Bytes
  | [.flush] => some []
  | .data (1 :: part) :: rest => (bandOne rest).map (part ++ ·)
  | _ => none

/-- The pack that a client finds in a response. -/
def clientPack (version : ProtocolVersion) (response : Bytes) : Option Bytes :=
  match version with
  | .v0 | .v1 => stripPrefix (asciiBytes "0008NAK\n") response
  | .v2 =>
      match decodeLoop response with
      | .ok (.data first :: rest) =>
          if first = asciiBytes "packfile\n" then bandOne rest else none
      | _ => none

/-! ## Requests -/

/-- The bytes are a request for a pack that says these arguments. -/
inductive Asks (format : ObjectFormat) : ProtocolVersion → Bytes → List Argument → Prop where
  | plain {version : ProtocolVersion} {request : Bytes} {packets : List Packet}
      {arguments : List Argument} (old : version = .v0 ∨ version = .v1)
      (decoded : decode request = .ok packets)
      (spoken : ArgumentPackets format beforeSpace [] (fun _ => true) packets arguments) :
      Asks format version request arguments
  | fetch {request : Bytes} {header body : List Packet} {arguments : List Argument}
      (decoded : decode request = .ok (header ++ .delimiter :: body))
      (command : commandName format header = .ok (asciiBytes "fetch"))
      (spoken : ArgumentPackets format id fetchOptions (fun packet => decide (packet = .flush)) body
        arguments) :
      Asks format .v2 request arguments

section Header

variable {format : ObjectFormat} {command : Option Bytes} {name : Bytes} {packets : List Packet}

/-- A command section has lines only. -/
theorem commandLoop_data (read : commandLoop format command packets = .ok name) :
    ∀ packet ∈ packets, ∃ line, packet = .data line := by
  induction packets generalizing command with
  | nil => simp
  | cons packet rest ih =>
      cases packet with
      | data line =>
          have later : ∃ command, commandLoop format command rest = .ok name := by
            rw [commandLoop] at read
            split at read
            · split at read
              · cases read
              · exact ⟨_, read⟩
            · split at read
              · obtain ⟨⟨⟩, -, read⟩ := bind_eq_ok.mp read
                exact ⟨_, read⟩
              · split at read
                · exact ⟨_, read⟩
                · cases read
          obtain ⟨command, later⟩ := later
          exact List.forall_mem_cons.mpr ⟨⟨line, rfl⟩, ih later⟩
      | flush | delimiter | responseEnd =>
          rw [commandLoop] at read
          · cases read
          · intro line same
            cases same

theorem delimiter_notMem (read : commandName format packets = .ok name) : .delimiter ∉ packets := by
  intro member
  obtain ⟨line, same⟩ := commandLoop_data read _ member
  cases same

theorem commandName_fetchHeader : commandName format (fetchHeader format) = .ok (asciiBytes "fetch") := by
  cases format <;> decide

end Header

/-- The first delimiter ends the command section. -/
theorem takeWhile_delimiter {header body : List Packet} (first : .delimiter ∉ header) :
    (header ++ .delimiter :: body).takeWhile (· ≠ Packet.delimiter) = header ∧
      ((header ++ .delimiter :: body).dropWhile (· ≠ Packet.delimiter)).tail = body := by
  have all : ∀ packet ∈ header, decide (packet ≠ Packet.delimiter) = true := fun packet member =>
    decide_eq_true fun same => first (same ▸ member)
  constructor
  · rw [List.takeWhile_append_of_pos all, List.takeWhile_cons_of_neg (by simp), List.append_nil]
  · rw [List.dropWhile_append_of_pos all, List.dropWhile_cons_of_neg (by simp), List.tail_cons]

/-! ## The script is read back -/

section Script

variable {format : ObjectFormat} {version : ProtocolVersion} {script : List (Option Argument)}
  {wanted : Bytes → Bytes} {skipped : Packet → Bool}

theorem argumentText_of (finds : ∀ id, wanted (objectHex format id) = objectHex format id)
    {argument : Argument} (fits : Speakable format version argument) :
    ArgumentText format wanted (knownOptions version) (argument.text format) argument := by
  cases argument with
  | want id =>
      have spelled := spells_objectHex (fits.sized id (Or.inl rfl))
      exact .want (by rw [finds]; exact spelled)
  | offer id => exact .offer (spells_objectHex (fits.sized id (Or.inr rfl)))
  | done => exact .done
  | option line => exact .option (fits.known line rfl)

theorem argumentPackets_script (finds : ∀ id, wanted (objectHex format id) = objectHex format id)
    (harmless : skipped .flush = true)
    (fits : ∀ argument, some argument ∈ script → Speakable format version argument) :
    ArgumentPackets format wanted (knownOptions version) skipped (scriptPackets format script)
      (scriptArguments script) := by
  induction script with
  | nil => exact .nil
  | cons entry script ih =>
      have later := ih fun argument member => fits argument (List.mem_cons_of_mem _ member)
      cases entry with
      | none => exact .skip (fun line same => by cases same) harmless later
      | some argument =>
          have text := argumentText_of finds (fits argument List.mem_cons_self)
          refine .line ?_ later
          rw [chomp_append_newline]
          exact text

theorem beforeSpace_objectHex (id : ObjectId) :
    beforeSpace (objectHex format id) = objectHex format id := by
  refine List.takeWhile_eq_self_iff.mpr fun b member => decide_eq_true fun same => ?_
  exact (hexdigit_plain (hexdigit_of_hexDigits member)).2.2 same

/-- What the client sends asks for what its script says. -/
theorem asks_of_client {request : Bytes}
    (fits : ∀ argument, some argument ∈ script → Speakable format version argument)
    (sent : Packets (clientPackets format script version) request)
    (short : request.length ≤ maxRequestBytes) :
    Asks format version request (scriptArguments script) := by
  have decoded := decode_eq_ok.mpr ⟨short, sent⟩
  cases version with
  | v0 => exact .plain (Or.inl rfl) decoded (argumentPackets_script beforeSpace_objectHex rfl fits)
  | v1 => exact .plain (Or.inr rfl) decoded (argumentPackets_script beforeSpace_objectHex rfl fits)
  | v2 =>
      exact .fetch decoded commandName_fetchHeader
        (argumentPackets_script (fun _ => rfl) (decide_eq_true rfl) fits)

end Script

/-! ## The response -/

namespace UploadPack

variable {service : UploadPack} {version : ProtocolVersion} {request response : Bytes}
  {arguments : List Argument} {n : Negotiation}

/-- The response that carries the writes of a pack. -/
def answer (version : ProtocolVersion) (writes : List Bytes) : Except UploadPackError Bytes :=
  match version with
  | .v0 | .v1 => .ok (asciiBytes "0008NAK\n" ++ writes.flatten)
  | .v2 => do
      let output ← encodeAll [asciiBytes "packfile\n"] []
      let output ← (SidebandWriter.run output writes).mapError .packetLine
      pure (encodeFlush output)

theorem encodeAll_packets {payloads : List Bytes}
    (fits : ∀ payload ∈ payloads, payload ≠ [] ∧ payload.length + 4 ≤ maxPacketBytes)
    (output : Bytes) :
    ∃ bytes, encodeAll payloads output = .ok (output ++ bytes) ∧
      Packets (payloads.map .data) bytes := by
  obtain ⟨bytes, written, packets⟩ := @packets_write _
    (fun output payload => encodeData payload output) Packet.data _
    (fun payload member => ⟨_, framed_data (fits payload member).1 (fits payload member).2,
      fun output => encodeData_of_fits (fits payload member).2⟩) output
  refine ⟨bytes, ?_, packets⟩
  rw [encodeAll, written]
  rfl

theorem framed_flush : Framed .flush (asciiBytes "0000") := by constructor <;> decide

theorem packets_encodeFlush {ps : List Packet} {output : Bytes} (packets : Packets ps output) :
    Packets (ps ++ [.flush]) (encodeFlush output) :=
  packets.append (by
    have flush := Packets.cons framed_flush .nil
    rwa [List.append_nil] at flush)

theorem bandOne_parts (parts : List Bytes) :
    bandOne (parts.map (fun part => Packet.data (1 :: part)) ++ [.flush]) = some parts.flatten := by
  induction parts with
  | nil => rfl
  | cons part parts ih =>
      rw [List.map_cons, List.cons_append, bandOne, ih]
      rfl

/-- **The client finds the pack in the response.** -/
theorem answer_carries (version : ProtocolVersion) (writes : List Bytes) :
    ∃ response, answer version writes = .ok response ∧
      clientPack version response = some writes.flatten := by
  cases version with
  | v0 => exact ⟨_, rfl, stripPrefix_eq_some.mpr rfl⟩
  | v1 => exact ⟨_, rfl, stripPrefix_eq_some.mpr rfl⟩
  | v2 =>
      obtain ⟨head, written, first⟩ := @encodeAll_packets
        [asciiBytes "packfile\n"] (by decide) []
      obtain ⟨bytes, parts, ran, carried, same⟩ := SidebandWriter.run_packets writes ([] ++ head)
      have packets := packets_encodeFlush (first.append carried)
      refine ⟨encodeFlush (head ++ bytes), ?_, ?_⟩
      · rw [answer, written, ok_bind, ran]
        rfl
      · rw [clientPack, decodeLoop_of_packets packets]
        show (if asciiBytes "packfile\n" = asciiBytes "packfile\n" then bandOne _ else none) = _
        rw [if_pos rfl, ← same]
        exact bandOne_parts parts

/-- **A request within the limits is answered with its pack**, or with what keeps the pack from
being written. -/
theorem respond_asked (asks : Asks service.format version request arguments)
    (within : (Negotiation.of arguments).Within) (done : .done ∈ arguments)
    (some : ∃ id, .want id ∈ arguments) :
    service.respond version request =
      service.writePack (Negotiation.of arguments) >>= answer version := by
  have start : Negotiation.start.Within := by decide
  have finished : (Negotiation.of arguments).done = true := Negotiation.done_iff.mpr done
  obtain ⟨id, want⟩ := some
  have nonempty : (Negotiation.of arguments).wants ≠ [] :=
    List.ne_nil_of_mem (Negotiation.mem_wants.mpr want)
  cases asks with
  | @plain _ _ packets _ old decoded spoken =>
      have taken : negotiateV1 service.format packets = .ok (Negotiation.of arguments) :=
        (negotiate_eq_ok plainOptions_nil start).mpr ⟨arguments, spoken, rfl, within⟩
      have reply : service.respondV1 packets =
          service.writePack (Negotiation.of arguments) >>= answer .v0 := by
        rw [respondV1, taken, ok_bind, ensure_of ⟨finished, nonempty⟩, ok_bind]
        rfl
      rcases old with rfl | rfl
      · rw [respond, decoded]
        exact reply
      · rw [respond, decoded]
        exact reply
  | @fetch _ header body _ decoded command spoken =>
      have taken : negotiateFetch service.format body = .ok (Negotiation.of arguments) :=
        (negotiate_eq_ok plainOptions_fetch start).mpr ⟨arguments, spoken, rfl, within⟩
      obtain ⟨before, after⟩ := @takeWhile_delimiter _ body (delimiter_notMem command)
      have other : asciiBytes "fetch" ≠ asciiBytes "ls-refs" := by decide
      have reply : service.respondFetch body =
          service.writePack (Negotiation.of arguments) >>= answer .v2 := by
        rw [respondFetch, taken, ok_bind, ensure_of nonempty, ok_bind, if_pos finished]
        obtain ⟨head, written, -⟩ := @encodeAll_packets
          [asciiBytes "packfile\n"] (by decide) []
        cases service.writePack (Negotiation.of arguments) with
        | error error =>
            rw [written]
            rfl
        | ok writes => rfl
      rw [respond_v2 decoded, respondV2, ensure_of (List.mem_append_right _ List.mem_cons_self), ok_bind, before, command,
        ok_bind, after, if_neg other, if_pos rfl, reply]

/-- The walks of the pack, in terms of what was asked. -/
theorem writePack_eq_ok {writes : List Bytes} (written : service.writePack n = .ok writes) :
    ∃ pack, service.repository.writePack (n.wants.map (⟨service.format, ·⟩))
        (n.haves.map (⟨service.format, ·⟩)) = .ok pack ∧ writes = service.packWrites pack := by
  unfold writePack at written
  cases made : service.repository.writePack (n.wants.map (⟨service.format, ·⟩))
      (n.haves.map (⟨service.format, ·⟩)) with
  | error error =>
      rw [made] at written
      cases written
  | ok pack =>
      rw [made] at written
      cases written
      exact ⟨pack, rfl, rfl⟩

theorem ids_map (format : ObjectFormat) (ids : List ObjectId) :
    UploadRepository.ids (ids.map fun id => (⟨format, id⟩ : FormattedId)) = ids := by
  rw [UploadRepository.ids, List.map_map]
  exact List.map_id ids

/-! ## What other bytes are answered with -/

theorem fits_of_encodeAll {payloads : List Bytes} {output result : Bytes}
    (written : encodeAll payloads output = .ok result) :
    ∀ payload ∈ payloads, payload.length + 4 ≤ maxPacketBytes := by
  unfold encodeAll at written
  induction payloads generalizing output with
  | nil => simp
  | cons payload payloads ih =>
      have first : payload.length + 4 ≤ maxPacketBytes := by
        by_contra large
        have refused : encodeData payload output = .error .packetTooLarge := by
          simp only [encodeData, ensure_of_not large, error_bind]
        rw [List.foldlM_cons, refused] at written
        cases written
      rw [List.foldlM_cons, encodeData_of_fits first, ok_bind] at written
      exact List.forall_mem_cons.mpr ⟨first, ih written⟩

theorem encodeAll_eq_ok {payloads : List Bytes} {result : Bytes}
    (some : ∀ payload ∈ payloads, payload ≠ []) (written : encodeAll payloads [] = .ok result) :
    Packets (payloads.map .data) result := by
  have fits := fits_of_encodeAll written
  obtain ⟨bytes, written', packets⟩ :=
    encodeAll_packets (fun payload member => ⟨some payload member, fits payload member⟩) []
  rw [written'] at written
  cases written
  exact packets

/-- A line of the listing starts with a digit. -/
theorem formatRef_ne {format : ObjectFormat} {symrefs peel : Bool} {reference : NamedReference} :
    formatRef format symrefs peel reference ≠ [] ∧
      formatRef format symrefs peel reference ≠ asciiBytes "packfile\n" := by
  have long : 0 < objectIdLength format := by cases format <;> decide
  obtain ⟨digit, rest, digits⟩ : ∃ digit rest, objectHex format reference.target = digit :: rest :=
    List.exists_cons_of_length_pos (long.trans_eq (hexDigits_length _ _).symm)
  have hex : isAsciiHexdigit digit = true :=
    hexdigit_of_hexDigits (digits ▸ List.mem_cons_self : digit ∈ objectHex format reference.target)
  unfold formatRef
  rw [digits]
  refine ⟨List.cons_ne_nil _ _, fun same => ?_⟩
  have first : digit = 112 := (List.cons.inj same).1
  rw [first] at hex
  exact absurd hex (by decide)

theorem respondLsRefs_noPack {packets : List Packet}
    (answered : service.respondLsRefs packets = .ok response) :
    clientPack .v2 response = none := by
  obtain ⟨o, -, answered⟩ := bind_eq_ok.mp answered
  obtain ⟨references, -, answered⟩ := bind_eq_ok.mp answered
  obtain ⟨output, written, answered⟩ := bind_eq_ok.mp answered
  cases answered
  have listed := encodeAll_eq_ok (fun payload member => by
    obtain ⟨reference, -, rfl⟩ := List.mem_map.mp member
    exact formatRef_ne.1) written
  rw [clientPack, decodeLoop_of_packets (packets_encodeFlush listed)]
  generalize references.filter _ = found
  cases found with
  | nil => rfl
  | cons reference rest => exact if_neg formatRef_ne.2

theorem respondFetch_eq_ok {packets : List Packet}
    (answered : service.respondFetch packets = .ok response) :
    ∃ n, negotiateFetch service.format packets = .ok n ∧ n.wants ≠ [] ∧
      (n.done = true ∧ service.writePack n >>= answer .v2 = .ok response ∨
        clientPack .v2 response = none) := by
  obtain ⟨n, taken, answered⟩ := bind_eq_ok.mp answered
  obtain ⟨⟨⟩, some, answered⟩ := bind_eq_ok.mp answered
  refine ⟨n, taken, ensure_eq_ok.mp some, ?_⟩
  split at answered
  · rename_i done
    obtain ⟨head, written, answered⟩ := bind_eq_ok.mp answered
    obtain ⟨writes, packed, answered⟩ := bind_eq_ok.mp answered
    refine Or.inl ⟨done, ?_⟩
    rw [packed, ok_bind, answer, written]
    exact answered
  · obtain ⟨output, written, answered⟩ := bind_eq_ok.mp answered
    cases answered
    have acknowledged := encodeAll_eq_ok (by decide) written
    rw [clientPack, decodeLoop_of_packets (packets_encodeFlush acknowledged)]
    exact Or.inr (if_neg (by decide))

/-- **A pack is sent for a request only.** -/
theorem asks_of_pack {bytes : Bytes} (answered : service.respond version request = .ok response)
    (found : clientPack version response = some bytes) :
    ∃ arguments writes, Asks service.format version request arguments ∧
      (Negotiation.of arguments).Within ∧ .done ∈ arguments ∧
      service.writePack (Negotiation.of arguments) = .ok writes ∧ bytes = writes.flatten := by
  have start : Negotiation.start.Within := by decide
  have same : ∀ {n : Negotiation}, service.writePack n >>= answer version = .ok response →
      ∃ writes, service.writePack n = .ok writes ∧ bytes = writes.flatten := by
    intro n sent
    obtain ⟨writes, packed, carried⟩ := bind_eq_ok.mp sent
    obtain ⟨response', carried', found'⟩ := answer_carries version writes
    rw [carried] at carried'
    cases carried'
    rw [found] at found'
    exact ⟨writes, packed, Option.some.inj found'⟩
  unfold respond at answered
  cases decoded : decode request with
  | error error =>
      rw [decoded] at answered
      cases answered
  | ok packets =>
      rw [decoded] at answered
      have plain : version = .v0 ∨ version = .v1 → service.respondV1 packets = .ok response →
          ∃ arguments writes, Asks service.format version request arguments ∧
            (Negotiation.of arguments).Within ∧ .done ∈ arguments ∧
            service.writePack (Negotiation.of arguments) = .ok writes ∧ bytes = writes.flatten := by
        intro old replied
        obtain ⟨n, taken, replied⟩ := bind_eq_ok.mp replied
        obtain ⟨⟨⟩, finished, replied⟩ := bind_eq_ok.mp replied
        obtain ⟨done, -⟩ := ensure_eq_ok.mp finished
        obtain ⟨arguments, spoken, rfl, within⟩ :=
          (negotiate_eq_ok plainOptions_nil start).mp taken
        have sent : service.writePack (Negotiation.of arguments) >>= answer version =
            .ok response := by
          rcases old with rfl | rfl <;> exact replied
        obtain ⟨writes, packed, flat⟩ := same sent
        exact ⟨arguments, writes, .plain old decoded spoken, within, Negotiation.done_iff.mp done,
          packed, flat⟩
      cases version with
      | v0 => exact plain (Or.inl rfl) answered
      | v1 => exact plain (Or.inr rfl) answered
      | v2 =>
          replace answered : service.respondV2 packets = .ok response := answered
          obtain ⟨⟨⟩, delimited, answered⟩ := bind_eq_ok.mp answered
          obtain ⟨command, named, answered⟩ := bind_eq_ok.mp answered
          dsimp only at answered
          split at answered
          · rw [respondLsRefs_noPack answered] at found
            cases found
          · split at answered
            · rename_i fetch
              obtain ⟨n, taken, -, sent | empty⟩ := respondFetch_eq_ok answered
              · obtain ⟨done, sent⟩ := sent
                obtain ⟨arguments, spoken, rfl, within⟩ :=
                  (negotiate_eq_ok plainOptions_fetch start).mp taken
                obtain ⟨writes, packed, flat⟩ := same sent
                obtain ⟨header, body, rfl, first⟩ :=
                  List.eq_append_cons_of_mem (ensure_eq_ok.mp delimited)
                obtain ⟨before, after⟩ := @takeWhile_delimiter _ body first
                rw [before] at named
                rw [after] at spoken
                rw [fetch] at named
                exact ⟨arguments, writes, .fetch decoded named spoken, within,
                  Negotiation.done_iff.mp done, packed, flat⟩
              · rw [empty] at found
                cases found
            · cases answered

end UploadPack

/-! ## A repository with one object

`main` is the blob `1`, whose pack is one byte. -/

def oneBlob : UploadPack where
  repository :=
    { format := .sha1
      references := .ok [⟨⟨1⟩, none⟩]
      find := fun id => .ok (if id = ⟨1⟩ then some ⟨10, .blob⟩ else none)
      packLength := List.length }
  references := .ok [⟨⟨⟨1⟩, none⟩, asciiBytes "refs/heads/main", none⟩]
  listed := rfl
  packWrites objects := [objects.map fun id => UInt8.ofNat id.value]
  written objects := by simp

def cloneScript : List (Option Argument) := [some (.want ⟨1⟩), none, some .done]

theorem exists_packets {ps : List Packet}
    (fits : ∀ p ∈ ps, p ≠ .data [] ∧ p.size ≤ maxPacketBytes) :
    ∃ bytes, Packets ps bytes ∧ bytes.length = (ps.map Packet.size).sum := by
  have framed : ∀ p ∈ ps, ∃ frame, Framed p frame := by
    intro p member
    obtain ⟨some, small⟩ := fits p member
    cases p with
    | data payload => exact ⟨_, framed_data (fun empty => some (congrArg _ empty)) small⟩
    | flush => exact ⟨_, UploadPack.framed_flush⟩
    | delimiter => exact ⟨asciiBytes "0001", by constructor <;> decide⟩
    | responseEnd => exact ⟨asciiBytes "0002", by constructor <;> decide⟩
  clear fits
  induction ps with
  | nil => exact ⟨[], .nil, rfl⟩
  | cons p ps ih =>
      obtain ⟨frame, here⟩ := framed p List.mem_cons_self
      obtain ⟨bytes, later, length⟩ := ih fun q member => framed q (List.mem_cons_of_mem _ member)
      refine ⟨frame ++ bytes, .cons here later, ?_⟩
      rw [List.length_append, here.length_eq, length, List.map_cons, List.sum_cons]

theorem cloneScript_fits (version : ProtocolVersion) (argument : Argument)
    (member : some argument ∈ cloneScript) : Speakable oneBlob.format version argument := by
  have cases : argument = .want ⟨1⟩ ∨ argument = .done := by simpa [cloneScript] using member
  rcases cases with rfl | rfl
  · constructor
    · rintro id (same | same)
      · cases same
        decide
      · cases same
    · rintro line ⟨⟩
  · constructor
    · rintro id (same | same)
      · cases same
      · cases same
    · rintro line ⟨⟩

theorem cloneScript_sent (version : ProtocolVersion) :
    ∃ request, Packets (clientPackets oneBlob.format cloneScript version) request ∧
      request.length ≤ maxRequestBytes := by
  obtain ⟨request, sent, length⟩ := @exists_packets
    (clientPackets oneBlob.format cloneScript version) (by cases version <;> decide)
  refine ⟨request, sent, ?_⟩
  rw [length]
  cases version <;> decide

theorem oneBlob_packed :
    oneBlob.writePack (Negotiation.of (scriptArguments cloneScript)) = .ok [[1]] := by
  have asks : UploadRepository.Asks oneBlob.repository [⟨.sha1, ⟨1⟩⟩] [] :=
    ⟨by decide, by decide, _, rfl, by decide⟩
  have excluded : oneBlob.repository.walkReachable []
      (fun id => decide (id ∈ UploadRepository.ids [])) = .ok [] := by
    unfold UploadRepository.walkReachable
    simp [search, Except.map]
  have reached : oneBlob.repository.walkReachable [⟨1⟩] (fun _ => false) = .ok [⟨1⟩] := by
    unfold UploadRepository.walkReachable
    simp [search, Except.map, UploadRepository.walking, UploadRepository.expandObject, oneBlob,
      maxObjectsPerPack, ObjectData.links, Discipline.stack]
  have made : oneBlob.repository.writePack [⟨.sha1, ⟨1⟩⟩] [] = .ok [⟨1⟩] := by
    rw [asks.writePack_eq]
    show (oneBlob.repository.walkReachable [] _ >>= fun _ =>
      oneBlob.repository.walkReachable [⟨1⟩] _ >>= _) = _
    rw [excluded, ok_bind, reached]
    decide
  show ((oneBlob.repository.writePack [⟨.sha1, ⟨1⟩⟩] []).map _).mapError _ = _
  rw [made]
  rfl

open UploadPack

section Results

variable (service : UploadPack) {version : ProtocolVersion} {script : List (Option Argument)}
  {request : Bytes}

theorem mem_scriptArguments {argument : Argument} :
    argument ∈ scriptArguments script ↔ some argument ∈ script := by
  simp [scriptArguments]

/-- **Only what is advertised is served, whatever is sent.**  When a client finds a pack in the
response to any bytes, then these bytes ask for one, with at most as many identifiers as the limit
allows; each want is advertised, and the pack has what the wants need and the known objects that
were named do not. -/
theorem served_only_advertised (version : ProtocolVersion) (request response bytes : Bytes)
    (answered : service.respond version request = .ok response)
    (found : clientPack version response = some bytes) :
    ∃ arguments pack references, Asks service.format version request arguments ∧
      .done ∈ arguments ∧ (Negotiation.of arguments).Within ∧
      service.references = .ok references ∧ bytes = (service.packWrites pack).flatten ∧
      (∃ id, .want id ∈ arguments) ∧
      (∀ id, .want id ∈ arguments →
        ∃ reference ∈ references, id = reference.target ∨ reference.peeled = some id) ∧
      ∀ x, x ∈ pack ↔
        (∃ id, .want id ∈ arguments ∧ service.repository.Needs id x) ∧
          ¬∃ id, .offer id ∈ arguments ∧ service.repository.Known id ∧
            service.repository.Needs id x := by
  obtain ⟨arguments, writes, asks, within, done, packed, rfl⟩ := asks_of_pack answered found
  obtain ⟨pack, made, rfl⟩ := writePack_eq_ok packed
  obtain ⟨references, -, -, read, nonempty, advertises, -⟩ := UploadRepository.writePack_walks made
  obtain ⟨-, inside⟩ := UploadRepository.writePack_mem made
  simp only [ids_map] at inside
  have listed := service.listed
  rw [read] at listed
  obtain ⟨named, named_eq, rfl⟩ := map_eq_ok.mp listed.symm
  refine ⟨arguments, pack, named, asks, done, within, named_eq, rfl, ?_, fun id want => ?_,
    fun x => ?_⟩
  · obtain ⟨first, member⟩ := List.exists_mem_of_ne_nil _ nonempty
    obtain ⟨id, member, -⟩ := List.mem_map.mp member
    exact ⟨id, Negotiation.mem_wants.mp member⟩
  · have member := List.mem_map_of_mem (f := fun id => (⟨service.format, id⟩ : FormattedId))
      (Negotiation.mem_wants.mpr want)
    obtain ⟨plain, plainMember, named'⟩ := List.mem_flatMap.mp (advertises _ member)
    obtain ⟨reference, member, rfl⟩ := List.mem_map.mp plainMember
    refine ⟨reference, member, ?_⟩
    rcases List.mem_cons.mp named' with target | peeled
    · exact Or.inl target
    · exact Or.inr (Option.mem_toList.mp peeled)
  · rw [inside]
    refine and_congr (exists_congr fun id => ?_) (not_congr (exists_congr fun id => ?_))
    · rw [Negotiation.mem_wants]
    · rw [Negotiation.mem_haves]

theorem served_only_advertised_oneBlob : ∃ request response,
    oneBlob.respond .v1 request = .ok response ∧ clientPack .v1 response = some [1] ∧
      ∃ arguments, Asks oneBlob.format .v1 request arguments := by
  obtain ⟨request, sent, short⟩ := cloneScript_sent .v1
  obtain ⟨response, carried, found⟩ := answer_carries .v1 [[1]]
  have answered : oneBlob.respond .v1 request = .ok response := by
    rw [respond_asked (asks_of_client (cloneScript_fits .v1) sent short) (by decide) (by decide)
      ⟨⟨1⟩, by decide⟩, oneBlob_packed]
    exact carried
  obtain ⟨arguments, -, -, asks, -⟩ :=
    served_only_advertised oneBlob .v1 request response [1] answered found
  exact ⟨request, response, answered, found, arguments, asks⟩

end Results

end Tit.Git
