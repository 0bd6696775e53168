/-
# Git.PacketWriter -- packet lines written, and read back by the decoder

What the server writes is a run of packets of the format that `decode` reads: an encoder puts the
bytes of one packet behind what is already there (`packets_write`), and the packets that a format
allows for an input are the only ones (`Packets.unique`).  `SidebandWriter` splits what it is given
into packets of band 1 and loses none of it.
-/
import Tit.Git.BinaryLiteral
import Tit.Git.CommandSection

namespace Tit.Git

open Tit.Theory Tit.Store

set_option autoImplicit false

/-! ## The encoders -/

def encodeData (data output : Bytes) : Except PacketLineError Bytes := do
  let length := data.length + 4
  ensure (length ≤ maxPacketBytes) .packetTooLarge
  pure (output ++ hexDigits 4 length ++ data)

def encodeFlush (output : Bytes) : Bytes := output ++ asciiBytes "0000"

def encodeDelimiter (output : Bytes) : Bytes := output ++ asciiBytes "0001"

/-- The first byte of each packet with a part of the pack. -/
def sideband : UInt8 := 1

def encodeSideband (data output : Bytes) : Except PacketLineError Bytes :=
  (chunks (maxPacketBytes - 5) data).foldlM
    (fun output chunk => encodeData (sideband :: chunk) output) output

/-- `SidebandWriter::write`: how much of the data is taken, and the output after it. -/
def SidebandWriter.write (output data : Bytes) : Except PacketLineError (Nat × Bytes) := do
  let output ← encodeSideband data output
  pure (data.length, output)

/-! ## One packet -/

/-- What there is an encoder for. -/
inductive Outgoing where
  | data (payload : Bytes) (nonempty : payload ≠ [])
      (fits : payload.length ≤ maxPacketBytes - 4)
  | flush
  | delimiter

def Outgoing.packet : Outgoing → Packet
  | .data payload _ _ => .data payload
  | .flush => .flush
  | .delimiter => .delimiter

def Outgoing.encode (output : Bytes) : Outgoing → Except PacketLineError Bytes
  | .data payload _ _ => encodeData payload output
  | .flush => .ok (encodeFlush output)
  | .delimiter => .ok (encodeDelimiter output)

section Frames

variable {p : Packet} {ps : List Packet} {frame rest output payload : Bytes}

theorem readLength_hexDigits {length : Nat} (small : length < 16 ^ 4) :
    readLength (hexDigits 4 length) = some (.ok length) := by
  have whole : firstBytes (hexDigits 4 length) 4 = some (hexDigits 4 length) := by
    rw [firstBytes_eq_some, hexDigits_length]
    exact ⟨Nat.le_refl 4, (List.take_of_length_le (hexDigits_length 4 length).le).symm⟩
  have digits : (hexDigits 4 length).all isAsciiHexdigit = true :=
    List.all_eq_true.mpr fun b member => hexdigit_of_hexDigits member
  rw [readLength, whole, Option.map_some, if_pos digits, hexNumber_hexDigits small]

theorem framed_data (nonempty : payload ≠ []) (fits : payload.length + 4 ≤ maxPacketBytes) :
    Framed (.data payload) (hexDigits 4 (payload.length + 4) ++ payload) := by
  have limit : maxPacketBytes < 16 ^ 4 := by decide
  exact ⟨_, rfl, hexDigits_length _ _, readLength_hexDigits (by omega),
    List.length_pos_iff.mpr nonempty, fits⟩

theorem encodeData_of_fits (fits : payload.length + 4 ≤ maxPacketBytes) :
    encodeData payload output = .ok (output ++ (hexDigits 4 (payload.length + 4) ++ payload)) := by
  simp only [encodeData, ensure_of fits, ok_bind, pure_eq_ok, List.append_assoc]

/-- An encoder writes one packet of the format. -/
theorem Outgoing.encode_framed (packet : Outgoing) :
    ∃ frame, Framed packet.packet frame ∧
      ∀ output, packet.encode output = .ok (output ++ frame) := by
  cases packet with
  | data payload nonempty fits =>
      have limit : 4 ≤ maxPacketBytes := by decide
      have fits : payload.length + 4 ≤ maxPacketBytes := by omega
      exact ⟨_, framed_data nonempty fits, fun output => encodeData_of_fits fits⟩
  | flush => exact ⟨asciiBytes "0000", by constructor <;> decide, fun output => rfl⟩
  | delimiter => exact ⟨asciiBytes "0001", by constructor <;> decide, fun output => rfl⟩

/-- A run of writes of packets leaves the packets, in order, behind what was there. -/
theorem packets_write {α : Type} {write : Bytes → α → Except PacketLineError Bytes}
    {packet : α → Packet} {parts : List α}
    (one : ∀ part ∈ parts, ∃ frame, Framed (packet part) frame ∧
      ∀ output, write output part = .ok (output ++ frame)) (output : Bytes) :
    ∃ bytes, parts.foldlM write output = .ok (output ++ bytes) ∧
      Packets (parts.map packet) bytes := by
  induction parts generalizing output with
  | nil => exact ⟨[], congrArg Except.ok (List.append_nil output).symm, .nil⟩
  | cons part parts ih =>
      obtain ⟨frame, framed, written⟩ := one part List.mem_cons_self
      obtain ⟨bytes, done, packets⟩ :=
        ih (fun later member => one later (List.mem_cons_of_mem _ member)) (output ++ frame)
      refine ⟨frame ++ bytes, ?_, .cons framed packets⟩
      rw [List.foldlM_cons, written, ok_bind, done, List.append_assoc]

/-! ## What a packet takes of the input -/

/-- The length of a packet, its header included. -/
def Packet.size : Packet → Nat
  | .data payload => payload.length + 4
  | .flush | .delimiter | .responseEnd => 4

theorem Framed.length_eq (framed : Framed p frame) : frame.length = p.size := by
  cases p with
  | data payload =>
      obtain ⟨header, rfl, length, -⟩ := framed
      rw [List.length_append, length, Nat.add_comm]
      rfl
  | flush | delimiter | responseEnd =>
      obtain ⟨length, -⟩ := framed
      exact length

/-- The packets tile the input. -/
theorem Packets.tile (packets : Packets ps rest) :
    ∃ frames, frames.flatten = rest ∧ List.Forall₂ Framed ps frames := by
  induction packets with
  | nil => exact ⟨[], rfl, .nil⟩
  | cons framed _ ih =>
      obtain ⟨frames, flat, each⟩ := ih
      exact ⟨_ :: frames, congrArg _ flat, .cons framed each⟩

theorem map_length_eq_size {frames : List Bytes} (each : List.Forall₂ Framed ps frames) :
    frames.map List.length = ps.map Packet.size := by
  induction each with
  | nil => rfl
  | cons framed _ ih => exact congrArg₂ List.cons framed.length_eq ih

theorem Framed.size_le (framed : Framed p frame) : p.size ≤ maxPacketBytes := by
  cases p with
  | data payload =>
      obtain ⟨_, -, -, -, -, fits⟩ := framed
      exact fits
  | flush | delimiter | responseEnd => decide

theorem Packets.append {qs : List Packet} {first second : Bytes} (before : Packets ps first)
    (after : Packets qs second) : Packets (ps ++ qs) (first ++ second) := by
  induction before with
  | nil => exact after
  | cons framed _ ih =>
      rw [List.cons_append, List.append_assoc]
      exact .cons framed ih

theorem Packets.size_le (packets : Packets ps rest) (member : p ∈ ps) :
    p.size ≤ maxPacketBytes := by
  induction packets with
  | nil => cases member
  | cons framed _ ih =>
      rcases List.mem_cons.mp member with rfl | later
      · exact framed.size_le
      · exact ih later

end Frames

/-! ## The sideband -/

section Sideband

variable {data output : Bytes}

theorem encodeSideband_packets (data output : Bytes) :
    ∃ bytes, encodeSideband data output = .ok (output ++ bytes) ∧
      Packets ((chunks (maxPacketBytes - 5) data).map fun chunk => .data (sideband :: chunk))
        bytes := by
  refine packets_write (fun chunk member => ?_) output
  have short := length_of_mem_chunks member
  have limit : 5 ≤ maxPacketBytes := by decide
  have fits : (sideband :: chunk).length + 4 ≤ maxPacketBytes := by
    rw [List.length_cons]
    omega
  exact ⟨_, framed_data (List.cons_ne_nil _ _) fits, fun output => encodeData_of_fits fits⟩

/-- The output after a run of writes. -/
def SidebandWriter.run (output : Bytes) (writes : List Bytes) : Except PacketLineError Bytes :=
  writes.foldlM (fun output data => Prod.snd <$> SidebandWriter.write output data) output

theorem SidebandWriter.run_packets (writes : List Bytes) (output : Bytes) :
    ∃ (bytes : Bytes) (parts : List Bytes),
      SidebandWriter.run output writes = .ok (output ++ bytes) ∧
      Packets (parts.map fun chunk => .data (sideband :: chunk)) bytes ∧
      parts.flatten = writes.flatten := by
  induction writes generalizing output with
  | nil => exact ⟨[], [], congrArg Except.ok (List.append_nil output).symm, .nil, rfl⟩
  | cons data writes ih =>
      obtain ⟨frame, written, packets⟩ := encodeSideband_packets data output
      obtain ⟨bytes, parts, done, later, same⟩ := ih (output ++ frame)
      have here : Prod.snd <$> SidebandWriter.write output data = .ok (output ++ frame) := by
        rw [SidebandWriter.write, written]
        rfl
      refine ⟨frame ++ bytes, chunks (maxPacketBytes - 5) data ++ parts, ?_, ?_, ?_⟩
      · unfold SidebandWriter.run at done ⊢
        rw [List.foldlM_cons, here, ok_bind, done, List.append_assoc]
      · rw [List.map_append]
        exact packets.append later
      · rw [List.flatten_append, chunks_flatten (by decide), same, List.flatten_cons]

end Sideband

/-- **What is encoded is decoded, what is decoded tiles the input, and the sideband carries what was
written.** -/
theorem packetLine_codec :
    (∀ packets : List Outgoing, ∃ bytes, packets.foldlM Outgoing.encode [] = .ok bytes ∧
      (bytes.length ≤ maxRequestBytes → decode bytes = .ok (packets.map Outgoing.packet))) ∧
    (∀ input packets, decode input = .ok packets →
      ∃ frames, frames.flatten = input ∧ List.Forall₂ Framed packets frames ∧
        frames.map List.length = packets.map Packet.size) ∧
    ∀ (writes : List Bytes) (output : Bytes), ∃ (bytes : Bytes) (parts : List Bytes),
      SidebandWriter.run output writes = .ok (output ++ bytes) ∧
      decodeLoop bytes = .ok (parts.map fun part => .data (1 :: part)) ∧
      (bytes.length ≤ maxRequestBytes →
        decode bytes = .ok (parts.map fun part => .data (1 :: part))) ∧
      (∀ part ∈ parts, (Packet.data (1 :: part)).size ≤ maxPacketBytes) ∧
      parts.flatten = writes.flatten := by
  refine ⟨fun packets => ?_, fun input packets decoded => ?_, fun writes output => ?_⟩
  · obtain ⟨bytes, written, framed⟩ := packets_write (fun packet _ => Outgoing.encode_framed packet) []
    exact ⟨bytes, written, fun fits => decode_eq_ok.mpr ⟨fits, framed⟩⟩
  · obtain ⟨frames, flat, each⟩ := (decode_eq_ok.mp decoded).2.tile
    exact ⟨frames, flat, each, map_length_eq_size each⟩
  · obtain ⟨bytes, parts, done, packets, same⟩ := SidebandWriter.run_packets writes output
    refine ⟨bytes, parts, done, decodeLoop_of_packets packets,
      fun fits => decode_eq_ok.mpr ⟨fits, packets⟩, fun part member => ?_, same⟩
    exact packets.size_le (List.mem_map_of_mem member)

end Tit.Git
