/-
# Git.Listing -- the references that a client is told, in each version

Versions 0 and 1 tell all references before the client has said anything: one packet a reference,
and one more for what a tag is peeled to.  Version 2 tells them when it is asked, with the peeled
object on the same line, and only those with one of the prefixes that were asked for.  A client
reads the same references out of both (`listings_agree`).
-/
import Tit.Git.Fetch

namespace Tit.Git

open Tit.Theory Tit.Theory.Text Tit.Store Tit.Store.Database

set_option autoImplicit false

/-! ## The references of a repository -/

inductive ReferenceError where
  | references (reason : String)
  | referenceLimit
  deriving DecidableEq, Repr

def maxReferences : Nat := 10000

def maxReferenceNameBytes : Nat := 4096

/-- A reference that the library reads: a symbolic one has no target of its own, and a tag may be
peeled. -/
structure RawReference where
  name : RefName
  target : Option ObjectId
  peel : Except String ObjectId

/-- The loop over the references; `count` of them are listed already. -/
def listReferences (maximum : Nat) :
    Nat → List (Except String RawReference) → Except ReferenceError (List NamedReference)
  | _, [] => .ok []
  | count, raw :: rest => do
      ensure (count < maximum) .referenceLimit
      let raw ← raw.mapError .references
      match raw.target with
      | none => listReferences maximum count rest
      | some target => do
          ensure (raw.name.length ≤ maxReferenceNameBytes) .referenceLimit
          let peeled ←
            if (asciiBytes "refs/tags/").isPrefixOf raw.name then
              (raw.peel.map fun candidate =>
                if candidate ≠ target then some candidate else none).mapError .references
            else pure none
          let later ← listReferences maximum (count + 1) rest
          pure (⟨⟨target, peeled⟩, raw.name, none⟩ :: later)

def referencesWithLimit (all : Except String (List (Except String RawReference)))
    (head : Except String (Option (RefName × ObjectId))) (maximum : Nat) :
    Except ReferenceError (List NamedReference) := do
  ensure (maximum ≠ 0 ∧ maximum ≤ maxReferences) .referenceLimit
  let raw ← all.mapError .references
  let references ← listReferences maximum 0 raw
  let references := references.mergeSort fun a b => decide (a.name ≤ b.name)
  match ← head.mapError .references with
  | none => pure references
  | some (name, target) => do
      ensure (references.length < maximum) .referenceLimit
      pure (⟨⟨target, none⟩, asciiBytes "HEAD", some name⟩ :: references)

/-! ## The client -/

/-- A reference as a client knows it. -/
structure Listed where
  target : ObjectId
  name : RefName
  peeled : Option ObjectId
  deriving DecidableEq, Repr

def NamedReference.listed (reference : NamedReference) : Listed :=
  ⟨reference.target, reference.name, reference.peeled⟩

def peeledSuffix : Bytes := asciiBytes "^{}"

def readId (format : ObjectFormat) (digits : Bytes) : Option ObjectId :=
  (fromHex digits).bind fun (kind, id) => if kind = format then some id else none

/-- A line of the listing of version 2. -/
def readListedLine (format : ObjectFormat) (line : Bytes) : Option Listed := do
  match (chomp line).splitOn space with
  | digits :: name :: attributes =>
      let target ← readId format digits
      match attributes.findSome? (stripPrefix (asciiBytes "peeled:")) with
      | none => some ⟨target, name, none⟩
      | some digits => (readId format digits).map fun peeled => ⟨target, name, some peeled⟩
  | _ => none

def readListing (format : ObjectFormat) : List Packet → Option (List Listed)
  | [.flush] => some []
  | .data line :: rest => do
      let listed ← readListedLine format line
      (readListing format rest).map (listed :: ·)
  | _ => none

/-- A line of the advertisement; the capabilities are behind a NUL. -/
def readAdvertisedLine (format : ObjectFormat) (line : Bytes) : Option (ObjectId × RefName) := do
  let text := ((chomp line).splitOn 0).headD []
  let target ← readId format (beforeSpace text)
  let name ← afterSpace text
  pure (target, name)

/-- Put a line before what was read behind it: a peeled object belongs to the reference before. -/
def addAdvertised (entry : ObjectId × RefName)
    (read : Option (ObjectId × RefName) × List Listed) :
    Option (ObjectId × RefName) × List Listed :=
  if peeledSuffix <:+ entry.2 then (some entry, read.2)
  else
    match read.1 with
    | some (peeled, name) =>
        if name = entry.2 ++ peeledSuffix then (none, ⟨entry.1, entry.2, some peeled⟩ :: read.2)
        else (none, ⟨entry.1, entry.2, none⟩ :: read.2)
    | none => (none, ⟨entry.1, entry.2, none⟩ :: read.2)

def readEntries (format : ObjectFormat) : List Packet → Option (List (ObjectId × RefName))
  | [.flush] => some []
  | .data line :: rest => do
      let entry ← readAdvertisedLine format line
      (readEntries format rest).map (entry :: ·)
  | _ => none

/-- What comes before the references over HTTP, and in version 1. -/
def advertisementHead (version : ProtocolVersion) (http : Bool) : List Packet :=
  (if http then [.data (asciiBytes "# service=git-upload-pack\n"), .flush] else []) ++
    if version = .v1 then [.data (asciiBytes "version 1\n")] else []

/-- The references of an advertisement.  The line of a repository without any has the name
`capabilities^{}`, which is no reference. -/
def readAdvertisement (format : ObjectFormat) (version : ProtocolVersion) (http : Bool)
    (packets : List Packet) : Option (List Listed) := do
  let head := advertisementHead version http
  let entries ←
    if head.isPrefixOf packets then readEntries format (packets.drop head.length) else none
  pure (entries.foldr addAdvertised (none, [])).2

/-- The request of a client that wants all that there is to know. -/
def listPackets (format : ObjectFormat) (prefixes : List Bytes) : List Packet :=
  [.data (asciiBytes "command=ls-refs\n"),
    .data (asciiBytes "object-format=" ++ hashName format ++ [newline]), .delimiter,
    .data (asciiBytes "peel\n"), .data (asciiBytes "symrefs\n")] ++
    prefixes.map (fun start => .data (asciiBytes "ref-prefix " ++ start ++ [newline])) ++ [.flush]

/-! ## Names that a listing can carry -/

/-- A reference whose name has no control byte, no space and no caret, as the library sees to, and
whose identifiers are of the hash of the repository. -/
structure Listable (format : ObjectFormat) (reference : NamedReference) : Prop where
  plain : PlainName reference.name
  noCaret : (94 : UInt8) ∉ reference.name
  short : reference.name.length ≤ maxReferenceNameBytes
  target : reference.target.value < 16 ^ objectIdLength format
  peeled : ∀ id, reference.peeled = some id → id.value < 16 ^ objectIdLength format
  symbolic : ∀ name, reference.symbolicTarget = some name →
    PlainName name ∧ name.length ≤ maxReferenceNameBytes

section Lines

variable {format : ObjectFormat} {reference : NamedReference} {id : ObjectId} {name : RefName}

theorem readId_objectHex (small : id.value < 16 ^ objectIdLength format) :
    readId format (objectHex format id) = some id := by
  rw [readId, fromHex_eq_some.mpr (spells_objectHex small)]
  exact if_pos rfl

theorem notMem_space_objectHex : space ∉ objectHex format id := fun member =>
  (hexdigit_plain (hexdigit_of_hexDigits member)).2.2 rfl

theorem splitOn_words {first : Bytes} {rest : List Bytes} (clean : ∀ word ∈ first :: rest, space ∉ word) :
    (first ++ rest.flatMap (space :: ·)).splitOn space = first :: rest := by
  induction rest generalizing first with
  | nil =>
      rw [List.flatMap_nil, List.append_nil]
      exact List.splitOn_eq_singleton (clean first List.mem_cons_self)
  | cons second rest ih =>
      rw [List.flatMap_cons, List.cons_append,
        List.splitOn_append_cons_self_of_not_mem (clean first List.mem_cons_self),
        ih fun word member => clean word (List.mem_cons_of_mem _ member)]

/-- The words behind the name. -/
def attributes (format : ObjectFormat) (reference : NamedReference) : List Bytes :=
  reference.symbolicTarget.toList.map (asciiBytes "symref-target:" ++ ·) ++
    reference.peeled.toList.map fun target => asciiBytes "peeled:" ++ objectHex format target

theorem formatRef_eq : formatRef format true true reference =
    objectHex format reference.target ++
      (reference.name :: attributes format reference).flatMap (space :: ·) ++ [newline] := by
  unfold formatRef attributes
  cases reference.symbolicTarget <;> cases reference.peeled <;> simp [asciiBytes, space]

theorem readListedLine_formatRef (fits : Listable format reference) :
    readListedLine format (formatRef format true true reference) = some reference.listed := by
  have clean : ∀ word ∈ objectHex format reference.target :: reference.name ::
      attributes format reference, space ∉ word := by
    intro word member
    simp only [attributes, List.mem_cons, List.mem_append, List.mem_map, Option.mem_toList] at member
    rcases member with rfl | rfl | ⟨name, symbolic, rfl⟩ | ⟨target, -, rfl⟩
    · exact notMem_space_objectHex
    · exact fits.plain.notMem.2.2
    · rw [List.mem_append, not_or]
      exact ⟨by decide, (fits.symbolic name symbolic).1.notMem.2.2⟩
    · rw [List.mem_append, not_or]
      exact ⟨by decide, notMem_space_objectHex⟩
  have found : (attributes format reference).findSome? (stripPrefix (asciiBytes "peeled:")) =
      reference.peeled.map (objectHex format) := by
    have other : ∀ name : Bytes, stripPrefix (asciiBytes "peeled:")
        (asciiBytes "symref-target:" ++ name) = none := fun name => rfl
    have own : ∀ digits : Bytes, stripPrefix (asciiBytes "peeled:")
        (asciiBytes "peeled:" ++ digits) = some digits := fun digits =>
      stripPrefix_eq_some.mpr rfl
    unfold attributes
    cases reference.symbolicTarget <;> cases reference.peeled <;> simp [other, own]
  unfold readListedLine
  rw [formatRef_eq, chomp_append_newline, splitOn_words clean]
  simp only [found, readId_objectHex fits.target, Option.bind_eq_bind, Option.bind_some]
  unfold NamedReference.listed
  cases peeled : reference.peeled with
  | none => rfl
  | some id =>
      simp only [Option.map_some, readId_objectHex (fits.peeled id peeled)]

theorem readAdvertisedLine_advertisedRef {capabilities : Option Bytes} (noNul : (0 : UInt8) ∉ name)
    (small : id.value < 16 ^ objectIdLength format) :
    readAdvertisedLine format (advertisedRef format id name capabilities) = some (id, name) := by
  have text : (0 : UInt8) ∉ objectHex format id ++ space :: name := by
    rw [List.mem_append, List.mem_cons, not_or, not_or]
    exact ⟨fun member => (hexdigit_plain (hexdigit_of_hexDigits member)).1 rfl, by decide, noNul⟩
  have head : ((chomp (advertisedRef format id name capabilities)).splitOn 0).headD [] =
      objectHex format id ++ space :: name := by
    unfold advertisedRef
    rw [chomp_append_newline]
    cases capabilities with
    | none =>
        rw [List.append_nil, List.splitOn_eq_singleton text]
        rfl
    | some capabilities => exact head_splitOn_append text
  unfold readAdvertisedLine
  rw [head]
  simp only [beforeSpace_append notMem_space_objectHex, afterSpace_append notMem_space_objectHex,
    readId_objectHex small]
  rfl

end Lines

/-! ## The packets of a listing -/

section Packets

variable {format : ObjectFormat} {references : List NamedReference}

theorem readListing_map (fits : ∀ reference ∈ references, Listable format reference) :
    readListing format (references.map (fun r => Packet.data (formatRef format true true r)) ++
      [.flush]) = some (references.map NamedReference.listed) := by
  induction references with
  | nil => rfl
  | cons reference rest ih =>
      rw [List.map_cons, List.cons_append, readListing,
        readListedLine_formatRef (fits reference List.mem_cons_self),
        ih fun other member => fits other (List.mem_cons_of_mem _ member)]
      rfl

theorem readEntries_map {lines : List Bytes} {entries : List (ObjectId × RefName)}
    (each : List.Forall₂ (fun line entry => readAdvertisedLine format line = some entry) lines
      entries) :
    readEntries format (lines.map .data ++ [.flush]) = some entries := by
  induction each with
  | nil => rfl
  | cons here _ ih =>
      rw [List.map_cons, List.cons_append, readEntries, here, ih]
      rfl

/-- The names that a reference is advertised under. -/
def entriesOfNames (reference : NamedReference) : List (ObjectId × RefName) :=
  (reference.target, reference.name) ::
    reference.peeled.toList.map fun peeled => (peeled, reference.name ++ peeledSuffix)

theorem advertisedLines_read {service : UploadPack} {capabilities : Option Bytes}
    {reference : NamedReference} (fits : Listable service.format reference) :
    List.Forall₂ (fun line entry => readAdvertisedLine service.format line = some entry)
      (service.advertisedLines capabilities reference) (entriesOfNames reference) := by
  have noNul := fits.plain.notMem.1
  refine .cons (readAdvertisedLine_advertisedRef noNul fits.target) ?_
  cases peeled : reference.peeled with
  | none => exact .nil
  | some id =>
      refine .cons (readAdvertisedLine_advertisedRef ?_ (fits.peeled id peeled)) .nil
      rw [List.mem_append, not_or]
      exact ⟨noNul, by decide⟩

theorem advertisedLines_flatMap {service : UploadPack}
    (fits : ∀ reference ∈ references, Listable service.format reference) :
    List.Forall₂ (fun line entry => readAdvertisedLine service.format line = some entry)
      (references.flatMap (service.advertisedLines none)) (references.flatMap entriesOfNames) := by
  induction references with
  | nil => exact .nil
  | cons reference rest ih =>
      exact List.rel_append (advertisedLines_read (fits reference List.mem_cons_self))
        (ih fun other member => fits other (List.mem_cons_of_mem _ member))

theorem not_peeledSuffix {name : RefName} (noCaret : (94 : UInt8) ∉ name) : ¬peeledSuffix <:+ name :=
  fun ends => noCaret (ends.subset (by decide))

/-- **A peeled object is found with its reference.** -/
theorem foldr_addAdvertised (fits : ∀ reference ∈ references, Listable format reference) :
    (references.flatMap entriesOfNames).foldr addAdvertised (none, []) =
      (none, references.map NamedReference.listed) := by
  induction references with
  | nil => rfl
  | cons reference rest ih =>
      have plain := not_peeledSuffix (fits reference List.mem_cons_self).noCaret
      rw [List.flatMap_cons, List.foldr_append,
        ih fun other member => fits other (List.mem_cons_of_mem _ member)]
      unfold entriesOfNames
      rw [List.foldr_cons, List.map_cons, NamedReference.listed]
      cases reference.peeled with
      | none =>
          show addAdvertised _ (none, _) = _
          rw [addAdvertised, if_neg plain]
      | some peeled =>
          show addAdvertised _ (addAdvertised (peeled, reference.name ++ peeledSuffix) (none, _)) = _
          rw [addAdvertised, addAdvertised, if_neg plain, if_pos (List.suffix_append _ _)]
          exact if_pos rfl

theorem advertisementLines_read {service : UploadPack}
    (fits : ∀ reference ∈ references, Listable service.format reference) :
    ∃ entries, List.Forall₂ (fun line entry => readAdvertisedLine service.format line = some entry)
        (service.advertisementLines references) entries ∧
      (entries.foldr addAdvertised (none, [])).2 = references.map NamedReference.listed := by
  cases references with
  | nil =>
      have small : ObjectId.null.value < 16 ^ objectIdLength service.format :=
        Nat.pow_pos (by decide)
      exact ⟨[(.null, asciiBytes "capabilities^{}")],
        .cons (readAdvertisedLine_advertisedRef (by decide) small) .nil, by decide⟩
  | cons first rest =>
      obtain ⟨here, later⟩ := List.forall_mem_cons.mp fits
      refine ⟨(first :: rest).flatMap entriesOfNames, ?_, congrArg Prod.snd (foldr_addAdvertised fits)⟩
      exact List.rel_append (advertisedLines_read here) (advertisedLines_flatMap later)

end Packets

/-! ## Lines fit into packets -/

section Sizes

variable {service : UploadPack} {format : ObjectFormat} {reference : NamedReference}

theorem objectHex_length_le (format : ObjectFormat) (id : ObjectId) :
    (objectHex format id).length ≤ 64 := by
  refine (hexDigits_length _ _).trans_le ?_
  cases format <;> decide

theorem capabilities_length_le (service : UploadPack) : service.capabilities.length ≤ 100 := by
  unfold UploadPack.capabilities
  cases service.format <;> decide

theorem advertisedRef_fits {id : ObjectId} {name : RefName} {capabilities : Option Bytes}
    (short : name.length ≤ 5000) (few : ∀ c, capabilities = some c → c.length ≤ 100) :
    advertisedRef format id name capabilities ≠ [] ∧
      (advertisedRef format id name capabilities).length + 4 ≤ maxPacketBytes := by
  have hex := objectHex_length_le format id
  unfold advertisedRef maxPacketBytes
  refine ⟨by simp, ?_⟩
  cases capabilities with
  | none =>
      simp only [List.length_append, List.length_cons, List.length_nil]
      omega
  | some c =>
      have := few c rfl
      simp only [List.length_append, List.length_cons, List.length_nil]
      omega

theorem advertisedLines_fit {capabilities : Option Bytes} (fits : Listable service.format reference)
    (few : ∀ c, capabilities = some c → c.length ≤ 100) :
    ∀ line ∈ service.advertisedLines capabilities reference,
      line ≠ [] ∧ line.length + 4 ≤ maxPacketBytes := by
  have short := fits.short
  unfold maxReferenceNameBytes at short
  intro line member
  rcases List.mem_cons.mp member with rfl | peeled
  · exact advertisedRef_fits (by omega) few
  · obtain ⟨id, -, rfl⟩ := List.mem_map.mp peeled
    refine advertisedRef_fits ?_ (fun c same => by cases same)
    have suffix : (asciiBytes "^{}").length = 3 := rfl
    rw [List.length_append, suffix]
    omega

theorem advertisementLines_fit {references : List NamedReference}
    (fits : ∀ reference ∈ references, Listable service.format reference) :
    ∀ line ∈ service.advertisementLines references,
      line ≠ [] ∧ line.length + 4 ≤ maxPacketBytes := by
  have few : ∀ c, some service.capabilities = some c → c.length ≤ 100 := by
    rintro c ⟨⟩
    exact capabilities_length_le service
  cases references with
  | nil =>
      intro line member
      rw [List.mem_singleton.mp member]
      exact advertisedRef_fits (by decide) few
  | cons first rest =>
      obtain ⟨here, later⟩ := List.forall_mem_cons.mp fits
      intro line member
      rcases List.mem_append.mp member with first | others
      · exact advertisedLines_fit here few line first
      · obtain ⟨reference, listed, member⟩ := List.mem_flatMap.mp others
        exact advertisedLines_fit (later reference listed) (fun c same => by cases same) line member

theorem formatRef_fits (fits : Listable format reference) :
    formatRef format true true reference ≠ [] ∧
      (formatRef format true true reference).length + 4 ≤ maxPacketBytes := by
  have short := fits.short
  have hex := objectHex_length_le format
  have target := hex reference.target
  have symref : (asciiBytes "symref-target:").length = 14 := rfl
  have peel : (asciiBytes "peeled:").length = 7 := rfl
  refine ⟨UploadPack.formatRef_ne.1, ?_⟩
  unfold maxReferenceNameBytes at short
  unfold maxPacketBytes
  rw [formatRef_eq, attributes]
  cases symbolic : reference.symbolicTarget with
  | none =>
      cases reference.peeled with
      | none =>
          simp only [List.length_append, List.length_cons, List.length_nil, Option.toList_none,
            List.map_nil, List.append_nil, List.flatMap_cons, List.flatMap_nil]
          omega
      | some id =>
          have := hex id
          simp only [List.length_append, List.length_cons, List.length_nil, Option.toList_none,
            Option.toList_some, List.map_nil, List.map_cons, List.nil_append, List.flatMap_cons,
            List.flatMap_nil]
          omega
  | some name =>
      have long := (fits.symbolic name symbolic).2
      unfold maxReferenceNameBytes at long
      cases reference.peeled with
      | none =>
          simp only [List.length_append, List.length_cons, List.length_nil, Option.toList_none,
            Option.toList_some, List.map_nil, List.map_cons, List.append_nil, List.flatMap_cons,
            List.flatMap_nil]
          omega
      | some id =>
          have := hex id
          simp only [List.length_append, List.length_cons, List.length_nil, Option.toList_some,
            List.map_nil, List.map_cons, List.flatMap_append, List.flatMap_cons, List.flatMap_nil]
          omega

end Sizes

/-! ## Both versions -/

section Results

open UploadPack

variable (service : UploadPack) {references : List NamedReference} {version : ProtocolVersion}

theorem namedReferences_of (read : service.references = .ok references) :
    service.namedReferences = .ok references := by
  rw [namedReferences, read]
  rfl

theorem advertisement_packets (read : service.references = .ok references)
    (fits : ∀ reference ∈ references, Listable service.format reference)
    (old : version = .v0 ∨ version = .v1) (http : Bool) :
    ∃ told, service.advertisement version http = .ok told ∧
      Packets (advertisementHead version http ++
        ((service.advertisementLines references).map .data ++ [.flush])) told := by
  obtain ⟨first, sent, head⟩ : ∃ first, serviceHead version http = .ok first ∧
      Packets (if http then [.data (asciiBytes "# service=git-upload-pack\n"), .flush] else [])
        first := by
    cases http with
    | false => exact ⟨[], rfl, .nil⟩
    | true =>
        obtain ⟨bytes, written, packets⟩ := @encodeAll_packets
          [asciiBytes "# service=git-upload-pack\n"] (by decide) []
        refine ⟨encodeFlush bytes, ?_, packets_encodeFlush packets⟩
        rw [serviceHead, if_pos ⟨rfl, by rcases old with rfl | rfl <;> decide⟩, written]
        rfl
  obtain ⟨second, sent', head'⟩ := @encodeAll_packets
    (if version = .v1 then [asciiBytes "version 1\n"] else [])
    (by rcases old with rfl | rfl <;> decide) first
  obtain ⟨third, sent'', lines⟩ := encodeAll_packets (advertisementLines_fit fits) (first ++ second)
  have packets := packets_encodeFlush ((head.append head').append lines)
  refine ⟨encodeFlush (first ++ second ++ third), ?_, ?_⟩
  · rw [advertisement, sent, ok_bind]
    have whole : ∀ flag : Bool, (flag = decide (version = .v1)) →
        service.advertiseV0OrV1 first flag = .ok (encodeFlush (first ++ second ++ third)) := by
      intro flag same
      have payloads : (if flag then [asciiBytes "version 1\n"] else []) =
          if version = .v1 then [asciiBytes "version 1\n"] else [] := by
        rw [same]
        simp
      rw [advertiseV0OrV1, payloads, sent', ok_bind, namedReferences_of service read, ok_bind, sent'',
        ok_bind]
      rfl
    rcases old with rfl | rfl
    · exact whole false rfl
    · exact whole true rfl
  · have same : (if version = .v1 then [asciiBytes "version 1\n"] else []).map Packet.data =
        if version = .v1 then [.data (asciiBytes "version 1\n")] else [] := by
      split <;> rfl
    rw [same] at packets
    rw [advertisementHead, ← List.append_assoc]
    exact packets

theorem listOptions_prefixes (o : ListOptions) (prefixes : List Bytes) :
    listOptions o (prefixes.map (fun start =>
      Packet.data (asciiBytes "ref-prefix " ++ start ++ [newline])) ++ [.flush]) =
      .ok { o with prefixes := o.prefixes ++ prefixes } := by
  induction prefixes generalizing o with
  | nil =>
      rw [List.append_nil]
      rfl
  | cons start prefixes ih =>
      have first : (asciiBytes "ref-prefix " ++ start).head? = (asciiBytes "ref-prefix ").head? :=
        rfl
      have symrefs : asciiBytes "ref-prefix " ++ start ≠ asciiBytes "symrefs" := fun same =>
        absurd (first.symm.trans (congrArg List.head? same)) (by decide)
      have peel : asciiBytes "ref-prefix " ++ start ≠ asciiBytes "peel" := fun same =>
        absurd (first.symm.trans (congrArg List.head? same)) (by decide)
      rw [List.map_cons, List.cons_append, listOptions, chomp_append_newline, if_neg symrefs, if_neg peel,
        stripPrefix_eq_some.mpr rfl]
      dsimp only
      rw [ih, List.append_assoc]
      rfl

theorem respond_listed (read : service.references = .ok references)
    (fits : ∀ reference ∈ references, Listable service.format reference) {prefixes : List Bytes}
    {request : Bytes} (sent : Packets (listPackets service.format prefixes) request)
    (short : request.length ≤ maxRequestBytes) :
    ∃ answered, service.respond .v2 request = .ok answered ∧
      Packets ((references.filter fun reference =>
          prefixes.isEmpty || prefixes.any (·.isPrefixOf reference.name)).map
        (fun r => Packet.data (formatRef service.format true true r)) ++ [.flush]) answered := by
  have decoded := decode_eq_ok.mpr ⟨short, sent⟩
  have listed : ∀ line ∈ (references.filter fun reference =>
      prefixes.isEmpty || prefixes.any (·.isPrefixOf reference.name)).map
        (formatRef service.format true true), line ≠ [] ∧ line.length + 4 ≤ maxPacketBytes := by
    intro line member
    obtain ⟨reference, found, rfl⟩ := List.mem_map.mp member
    exact formatRef_fits (fits reference (List.mem_of_mem_filter found))
  obtain ⟨bytes, written, packets⟩ := encodeAll_packets listed []
  refine ⟨encodeFlush bytes, ?_, ?_⟩
  · have header : commandName service.format
        [.data (asciiBytes "command=ls-refs\n"),
          .data (asciiBytes "object-format=" ++ hashName service.format ++ [newline])] =
        .ok (asciiBytes "ls-refs") := by
      cases service.format <;> decide
    have shape : listPackets service.format prefixes =
        [.data (asciiBytes "command=ls-refs\n"),
          .data (asciiBytes "object-format=" ++ hashName service.format ++ [newline])] ++
        .delimiter :: (.data (asciiBytes "peel\n") :: .data (asciiBytes "symrefs\n") ::
          (prefixes.map (fun start =>
            .data (asciiBytes "ref-prefix " ++ start ++ [newline])) ++ [.flush])) := by
      simp [listPackets]
    obtain ⟨before, after⟩ := takeWhile_delimiter (delimiter_notMem header)
    have options : listOptions ⟨false, false, []⟩ (.data (asciiBytes "peel\n") ::
        .data (asciiBytes "symrefs\n") :: (prefixes.map (fun start =>
          .data (asciiBytes "ref-prefix " ++ start ++ [newline])) ++ [.flush])) =
        .ok ⟨true, true, prefixes⟩ := listOptions_prefixes ⟨true, true, []⟩ prefixes
    rw [respond_v2 decoded, shape, respondV2, ensure_of (List.mem_append_right _ List.mem_cons_self), ok_bind, before, header,
      ok_bind, after, if_pos rfl, respondLsRefs, options, ok_bind, namedReferences_of service read,
      ok_bind]
    dsimp only
    rw [written]
    rfl
  · rw [List.map_map] at packets
    exact packets_encodeFlush packets

end Results

end Tit.Git
