/-
# Git.PacketLine -- packet lines, decoded and scanned

A packet line is a length of four hexadecimal digits and its payload; the lengths 0, 1 and 2 stand
for packets without one.  `decode` reads a whole request, `first_flush_end` scans what has arrived
so far for the end of the first flush packet.  The two are parsers of one format (`Packets`), with
checks of their own.

Both loops keep what is left of the input instead of an offset into it; the scan also keeps the
offset, which it compares with the limit of a request.
-/
import Tit.Git.Read
import Tit.Theory.Outcome

namespace Tit.Git

open Tit.Theory

set_option autoImplicit false

inductive Packet where
  | data (payload : Bytes)
  | flush
  | delimiter
  | responseEnd
  deriving DecidableEq, Repr

inductive PacketLineError where
  | requestTooLarge
  | truncatedHeader
  | invalidLength
  | packetTooLarge
  | truncatedPacket
  deriving DecidableEq, Repr

def maxPacketBytes : Nat := 65520

def maxRequestBytes : Nat := 1024 * 1024

/-! ## The two parsers -/

/-- `input.get(..n)`. -/
def firstBytes (input : Bytes) (n : Nat) : Option Bytes :=
  if n ≤ input.length then some (input.take n) else none

/-- `u8::is_ascii_hexdigit`. -/
def isAsciiHexdigit (b : UInt8) : Bool :=
  decide (48 ≤ b ∧ b ≤ 57 ∨ 65 ≤ b ∧ b ≤ 70 ∨ 97 ≤ b ∧ b ≤ 102)

def hexDigitValue (b : UInt8) : Nat :=
  if b ≤ 57 then b.toNat - 48 else if b ≤ 70 then b.toNat - 55 else b.toNat - 87

/-- `usize::from_str_radix` of the hexadecimal digits. -/
def hexNumber (digits : Bytes) : Nat := digits.foldl (fun n b => 16 * n + hexDigitValue b) 0

/-- The length in the header, when four bytes are there. -/
def readLength (rest : Bytes) : Option (Except PacketLineError Nat) :=
  (firstBytes rest 4).map fun header =>
    if header.all isAsciiHexdigit then .ok (hexNumber header) else .error .invalidLength

theorem drop_shorter {rest : Bytes} (some : rest ≠ []) {n : Nat} (positive : 0 < n) :
    (rest.drop n).length < rest.length := by
  have := List.length_pos_iff.mpr some
  rw [List.length_drop]
  omega

/-- The loop of `decode`. -/
def decodeLoop (rest : Bytes) : Except PacketLineError (List Packet) :=
  if rest = [] then .ok []
  else
    match readLength rest with
    | none => .error .truncatedHeader
    | some (.error error) => .error error
    | some (.ok 0) => (decodeLoop (rest.drop 4)).map (.flush :: ·)
    | some (.ok 1) => (decodeLoop (rest.drop 4)).map (.delimiter :: ·)
    | some (.ok 2) => (decodeLoop (rest.drop 4)).map (.responseEnd :: ·)
    | some (.ok 3) | some (.ok 4) => .error .invalidLength
    | some (.ok (n + 5)) =>
        if n + 5 > maxPacketBytes then .error .packetTooLarge
        else
          match firstBytes (rest.drop 4) (n + 1) with
          | none => .error .truncatedPacket
          | some payload => (decodeLoop (rest.drop (n + 5))).map (.data payload :: ·)
termination_by rest.length
decreasing_by all_goals exact drop_shorter ‹_› (by omega)

def decode (input : Bytes) : Except PacketLineError (List Packet) :=
  if input.length > maxRequestBytes then .error .requestTooLarge else decodeLoop input

/-- The loop of `first_flush_end`. -/
def flushLoop (offset : Nat) (rest : Bytes) : Except PacketLineError (Option Nat) :=
  if rest = [] then .ok none
  else if offset ≥ maxRequestBytes then .error .requestTooLarge
  else
    match readLength rest with
    | none => .ok none
    | some (.error error) => .error error
    | some (.ok 0) =>
        if offset + 4 ≤ maxRequestBytes then .ok (some (offset + 4)) else .error .requestTooLarge
    | some (.ok 1) | some (.ok 2) => flushLoop (offset + 4) (rest.drop 4)
    | some (.ok 3) | some (.ok 4) => .error .invalidLength
    | some (.ok (n + 5)) =>
        if n + 5 > maxPacketBytes then .error .packetTooLarge
        else if n + 5 > rest.length then .ok none
        else if offset + (n + 5) > maxRequestBytes then .error .requestTooLarge
        else flushLoop (offset + (n + 5)) (rest.drop (n + 5))
termination_by rest.length
decreasing_by all_goals exact drop_shorter ‹_› (by omega)

def firstFlushEnd (input : Bytes) : Except PacketLineError (Option Nat) := flushLoop 0 input

/-! ## The format -/

/-- The bytes of one packet. -/
def Framed : Packet → Bytes → Prop
  | .flush, frame => frame.length = 4 ∧ readLength frame = some (.ok 0)
  | .delimiter, frame => frame.length = 4 ∧ readLength frame = some (.ok 1)
  | .responseEnd, frame => frame.length = 4 ∧ readLength frame = some (.ok 2)
  | .data payload, frame => ∃ header, frame = header ++ payload ∧ header.length = 4 ∧
      readLength header = some (.ok (payload.length + 4)) ∧ 0 < payload.length ∧
      payload.length + 4 ≤ maxPacketBytes

inductive Packets : List Packet → Bytes → Prop where
  | nil : Packets [] []
  | cons {p : Packet} {ps : List Packet} {frame rest : Bytes} (framed : Framed p frame)
      (later : Packets ps rest) : Packets (p :: ps) (frame ++ rest)

section Format

variable {rest frame tail : Bytes} {ps : List Packet} {p : Packet} {n : Nat}

theorem firstBytes_eq_some {input bytes : Bytes} :
    firstBytes input n = some bytes ↔ n ≤ input.length ∧ bytes = input.take n := by
  unfold firstBytes
  by_cases fits : n ≤ input.length
  · rw [if_pos fits, Option.some.injEq]
    exact ⟨fun same => ⟨fits, same.symm⟩, fun same => same.2.symm⟩
  · rw [if_neg fits]
    exact ⟨nofun, fun same => absurd same.1 fits⟩

theorem readLength_append {header : Bytes} (length : 4 ≤ header.length) :
    readLength (header ++ tail) = readLength header := by
  unfold readLength firstBytes
  rw [if_pos length, if_pos (by rw [List.length_append]; omega), List.take_append_of_le_length length]

theorem readLength_some {result : Except PacketLineError Nat}
    (read : readLength rest = some result) :
    4 ≤ rest.length ∧ readLength (rest.take 4) = some result := by
  obtain ⟨header, found, -⟩ := Option.map_eq_some_iff.mp read
  obtain ⟨fits, -⟩ := firstBytes_eq_some.mp found
  refine ⟨fits, ?_⟩
  rw [← read]
  conv_rhs => rw [← List.take_append_drop 4 rest]
  exact (readLength_append (by rw [List.length_take]; omega)).symm

theorem Framed.length (framed : Framed p frame) : 4 ≤ frame.length := by
  cases p with
  | data payload =>
      obtain ⟨header, rfl, length, -⟩ := framed
      rw [List.length_append]
      omega
  | _ => exact framed.1.ge

theorem Framed.ne_nil (framed : Framed p frame) : frame ++ tail ≠ [] := by
  have length := framed.length
  intro empty
  rw [List.append_eq_nil_iff] at empty
  rw [empty.1] at length
  exact absurd length (by decide)

/-- A control packet at the start of the rest. -/
theorem control_framed (read : readLength rest = some (.ok n)) :
    (rest.take 4).length = 4 ∧ readLength (rest.take 4) = some (.ok n) := by
  obtain ⟨fits, header⟩ := readLength_some read
  exact ⟨by rw [List.length_take]; omega, header⟩

/-- A data packet at the start of the rest. -/
theorem data_framed (read : readLength rest = some (.ok (n + 5)))
    (small : n + 5 ≤ maxPacketBytes) (whole : n + 5 ≤ rest.length) :
    Framed (.data ((rest.drop 4).take (n + 1))) (rest.take (n + 5)) := by
  have length : ((rest.drop 4).take (n + 1)).length = n + 1 := by
    rw [List.length_take, List.length_drop]
    omega
  obtain ⟨four, header⟩ := control_framed read
  refine ⟨rest.take 4, ?_, four, ?_, by omega, by omega⟩
  · rw [show n + 5 = 4 + (n + 1) by omega, List.take_add]
  · rw [length]
    exact header

/-- What `decode` does with a packet of the format. -/
theorem decodeLoop_framed (framed : Framed p frame) :
    decodeLoop (frame ++ tail) = (decodeLoop tail).map (p :: ·) := by
  have some : frame ++ tail ≠ [] := framed.ne_nil
  rw [decodeLoop, if_neg some]
  cases p with
  | data payload =>
      obtain ⟨header, rfl, length, read, positive, small⟩ := framed
      obtain ⟨n, size⟩ : ∃ n, payload.length = n + 1 := ⟨payload.length - 1, by omega⟩
      have first : readLength (header ++ payload ++ tail) = .some (.ok (n + 5)) := by
        rw [List.append_assoc, readLength_append length.ge, read, size]
      have payload' : firstBytes ((header ++ payload ++ tail).drop 4) (n + 1) = .some payload := by
        rw [List.append_assoc, List.drop_left' length, firstBytes_eq_some, List.length_append]
        refine ⟨by omega, ?_⟩
        rw [List.take_left' size]
      have after : (header ++ payload ++ tail).drop (n + 5) = tail := by
        rw [List.drop_left' (by rw [List.length_append]; omega)]
      rw [first]
      simp only [payload', after]
      rw [if_neg (by omega)]
  | flush =>
      obtain ⟨length, read⟩ := framed
      rw [readLength_append length.ge, read]
      simp only [List.drop_left' length]
  | delimiter =>
      obtain ⟨length, read⟩ := framed
      rw [readLength_append length.ge, read]
      simp only [List.drop_left' length]
  | responseEnd =>
      obtain ⟨length, read⟩ := framed
      rw [readLength_append length.ge, read]
      simp only [List.drop_left' length]

theorem decodeLoop_nil : decodeLoop [] = .ok [] := by
  rw [decodeLoop, if_pos rfl]

theorem decodeLoop_of_packets (packets : Packets ps rest) : decodeLoop rest = .ok ps := by
  induction packets with
  | nil => exact decodeLoop_nil
  | cons framed _ ih =>
      rw [decodeLoop_framed framed, ih]
      rfl

theorem Packets.step (framed : Framed p (rest.take n)) (later : Packets ps (rest.drop n)) :
    Packets (p :: ps) rest := by
  have packets := Packets.cons framed later
  rwa [List.take_append_drop] at packets

theorem packets_of_decodeLoop (decoded : decodeLoop rest = .ok ps) : Packets ps rest := by
  fun_induction decodeLoop rest generalizing ps with
  | case1 =>
      cases decoded
      exact .nil
  | case4 rest _ read ih | case5 rest _ read ih | case6 rest _ read ih =>
      obtain ⟨later, decoded', rfl⟩ := map_eq_ok.mp decoded
      exact .step (control_framed read) (ih decoded')
  | case11 rest _ n read small payload whole ih =>
      obtain ⟨later, decoded', rfl⟩ := map_eq_ok.mp decoded
      obtain ⟨fits, rfl⟩ := firstBytes_eq_some.mp whole
      rw [List.length_drop] at fits
      exact .step (data_framed read (by omega) (by omega)) (ih decoded')
  | _ => cases decoded

theorem decode_eq_ok {input : Bytes} :
    decode input = .ok ps ↔ input.length ≤ maxRequestBytes ∧ Packets ps input := by
  unfold decode
  by_cases large : input.length > maxRequestBytes
  · rw [if_pos large]
    exact ⟨nofun, fun fits => absurd fits.1 (by omega)⟩
  · rw [if_neg large]
    exact ⟨fun decoded => ⟨by omega, packets_of_decodeLoop decoded⟩,
      fun packets => decodeLoop_of_packets packets.2⟩

end Format

/-! ## The scan for the first flush -/

section Scan

variable {rest frame tail first : Bytes} {ps : List Packet} {p : Packet} {offset n : Nat}

theorem firstFlushEnd_nil : firstFlushEnd [] = .ok none := by
  rw [firstFlushEnd, flushLoop, if_pos rfl]

/-- The scan steps over every packet that is no flush. -/
theorem flushLoop_framed (framed : Framed p frame) (other : p ≠ .flush)
    (within : offset + frame.length ≤ maxRequestBytes) :
    flushLoop offset (frame ++ tail) = flushLoop (offset + frame.length) tail := by
  have some : frame ++ tail ≠ [] := framed.ne_nil
  have long := framed.length
  rw [flushLoop, if_neg some, if_neg (by omega)]
  cases p with
  | flush => exact absurd rfl other
  | data payload =>
      obtain ⟨header, rfl, length, read, positive, small⟩ := framed
      obtain ⟨n, size⟩ : ∃ n, payload.length = n + 1 := ⟨payload.length - 1, by omega⟩
      have whole : (header ++ payload).length = n + 5 := by
        rw [List.length_append]
        omega
      have header' : readLength (header ++ payload ++ tail) = .some (.ok (n + 5)) := by
        rw [List.append_assoc, readLength_append length.ge, read, size]
      rw [header']
      simp only [List.drop_left' whole, @List.length_append _ (header ++ payload), whole]
      rw [if_neg (by omega), if_neg (by omega), if_neg (by omega)]
  | delimiter =>
      obtain ⟨length, read⟩ := framed
      rw [readLength_append length.ge, read]
      simp only [List.drop_left' length, length]
  | responseEnd =>
      obtain ⟨length, read⟩ := framed
      rw [readLength_append length.ge, read]
      simp only [List.drop_left' length, length]

theorem flushLoop_flush (framed : Framed .flush frame)
    (within : offset + frame.length ≤ maxRequestBytes) :
    flushLoop offset (frame ++ tail) = .ok (some (offset + frame.length)) := by
  have some : frame ++ tail ≠ [] := framed.ne_nil
  obtain ⟨length, read⟩ := framed
  rw [length] at within
  rw [flushLoop, if_neg some, if_neg (by omega), readLength_append length.ge, read, length]
  exact if_pos within

theorem flushLoop_of_packets (packets : Packets (ps ++ [.flush]) first) (before : .flush ∉ ps)
    (within : offset + first.length ≤ maxRequestBytes) :
    flushLoop offset (first ++ tail) = .ok (some (offset + first.length)) := by
  induction ps generalizing offset first with
  | nil =>
      cases packets with
      | @cons _ _ frame rest framed later =>
          cases later
          rw [List.append_nil] at within ⊢
          exact flushLoop_flush framed within
  | cons p ps ih =>
      cases packets with
      | @cons _ _ frame rest framed later =>
          rw [List.mem_cons, not_or] at before
          rw [List.length_append] at within
          rw [List.append_assoc, flushLoop_framed framed (Ne.symm before.1) (by omega),
            ih later before.2 (by omega), List.length_append, Nat.add_assoc]

/-- One packet before the end that the scan found. -/
theorem scanned_step {size : Nat} (framed : Framed p (rest.take size)) (other : p ≠ .flush)
    (whole : size ≤ rest.length)
    (later : n ≤ maxRequestBytes ∧ ∃ ps first tail, rest.drop size = first ++ tail ∧
      n = offset + size + first.length ∧ Packets (ps ++ [.flush]) first ∧ .flush ∉ ps) :
    n ≤ maxRequestBytes ∧ ∃ ps first tail, rest = first ++ tail ∧ n = offset + first.length ∧
      Packets (ps ++ [.flush]) first ∧ .flush ∉ ps := by
  obtain ⟨within, ps, first, tail, split, reached, packets, before⟩ := later
  refine ⟨within, p :: ps, rest.take size ++ first, tail, ?_, ?_, .cons framed packets, ?_⟩
  · rw [List.append_assoc, ← split, List.take_append_drop]
  · rw [List.length_append, List.length_take]
    omega
  · rw [List.mem_cons, not_or]
    exact ⟨Ne.symm other, before⟩

/-- What the scan found is the end of the first flush packet. -/
theorem packets_of_flushLoop (found : flushLoop offset rest = .ok (some n)) :
    n ≤ maxRequestBytes ∧ ∃ ps first tail, rest = first ++ tail ∧ n = offset + first.length ∧
      Packets (ps ++ [.flush]) first ∧ .flush ∉ ps := by
  fun_induction flushLoop offset rest with
  | case5 offset rest _ _ read within =>
      cases found
      have flush : Framed .flush (rest.take 4) := control_framed read
      refine ⟨within, [], rest.take 4, rest.drop 4, (List.take_append_drop 4 rest).symm,
        by rw [flush.1], ?_, List.not_mem_nil⟩
      have packets := Packets.cons flush .nil
      rwa [List.append_nil] at packets
  | case7 offset rest _ _ read ih =>
      exact scanned_step (p := .delimiter) (control_framed read) (by nofun) (readLength_some read).1
        (ih found)
  | case8 offset rest _ _ read ih =>
      exact scanned_step (p := .responseEnd) (control_framed read) (by nofun)
        (readLength_some read).1 (ih found)
  | case14 offset rest _ _ size read small whole _ ih =>
      exact scanned_step (data_framed read (by omega) (by omega)) (by nofun) (by omega) (ih found)
  | _ => cases found

/-- What the scan has decided, it decides on every longer input. -/
theorem flushLoop_append {result : Except PacketLineError (Option Nat)}
    (scanned : flushLoop offset rest = result) (decided : result ≠ .ok none) :
    flushLoop offset (rest ++ tail) = result := by
  have longer {rest : Bytes} (some : rest ≠ []) : rest ++ tail ≠ [] :=
    fun empty => some (List.append_eq_nil_iff.mp empty).1
  have header {read : Except PacketLineError Nat} {rest : Bytes}
      (header : readLength rest = some read) : readLength (rest ++ tail) = some read := by
    rw [readLength_append (readLength_some header).1, header]
  fun_induction flushLoop offset rest with
  | case1 | case3 | case12 => exact absurd scanned.symm decided
  | case2 offset rest ended large =>
      rw [flushLoop, if_neg (longer ended), if_pos large, scanned]
  | case4 offset rest ended small error read | case9 offset rest ended small read
  | case10 offset rest ended small read =>
      rw [flushLoop, if_neg (longer ended), if_neg small, header read]
      exact scanned
  | case5 offset rest ended small read within =>
      rw [flushLoop, if_neg (longer ended), if_neg small, header read]
      simp only [if_pos within]
      exact scanned
  | case6 offset rest ended small read beyond =>
      rw [flushLoop, if_neg (longer ended), if_neg small, header read]
      simp only [if_neg beyond]
      exact scanned
  | case7 offset rest ended small read ih | case8 offset rest ended small read ih =>
      rw [flushLoop, if_neg (longer ended), if_neg small, header read]
      simp only [List.drop_append_of_le_length (readLength_some read).1]
      exact ih scanned
  | case11 offset rest ended small n read large =>
      rw [flushLoop, if_neg (longer ended), if_neg small, header read]
      simp only [if_pos large]
      exact scanned
  | case13 offset rest ended small n read fits whole beyond =>
      have whole' : ¬n + 5 > (rest ++ tail).length := by
        rw [List.length_append]
        omega
      rw [flushLoop, if_neg (longer ended), if_neg small, header read]
      simp only [if_neg fits, if_neg whole', if_pos beyond]
      exact scanned
  | case14 offset rest ended small n read fits whole within ih =>
      have whole' : ¬n + 5 > (rest ++ tail).length := by
        rw [List.length_append]
        omega
      rw [flushLoop, if_neg (longer ended), if_neg small, header read]
      simp only [if_neg fits, if_neg whole', if_neg within,
        List.drop_append_of_le_length (show n + 5 ≤ rest.length by omega)]
      exact ih scanned

/-- **The scan agrees with the decoder**: it finds the prefix that decodes to packets of which the
last one, and no other, is a flush. -/
theorem firstFlushEnd_iff {input : Bytes} :
    firstFlushEnd input = .ok (some n) ↔ n ≤ maxRequestBytes ∧ ∃ first ps,
      firstBytes input n = some first ∧ decode first = .ok (ps ++ [.flush]) ∧ .flush ∉ ps := by
  constructor
  · intro found
    obtain ⟨within, ps, first, tail, rfl, reached, packets, before⟩ := packets_of_flushLoop found
    rw [Nat.zero_add] at reached
    refine ⟨within, first, ps, ?_, decode_eq_ok.mpr ⟨by omega, packets⟩, before⟩
    rw [firstBytes_eq_some, List.length_append, List.take_left' reached.symm]
    exact ⟨by omega, rfl⟩
  · rintro ⟨within, first, ps, taken, decoded, before⟩
    obtain ⟨fits, rfl⟩ := firstBytes_eq_some.mp taken
    have length : (input.take n).length = n := by
      rw [List.length_take]
      omega
    have found := @flushLoop_of_packets (input.drop n) _ _ 0 (decode_eq_ok.mp decoded).2 before
      (by omega)
    rwa [List.take_append_drop, length, Nat.zero_add] at found

theorem firstFlushEnd_le {input : Bytes} (found : firstFlushEnd input = .ok (some n)) :
    n ≤ input.length := by
  obtain ⟨-, first, -, taken, -⟩ := firstFlushEnd_iff.mp found
  exact (firstBytes_eq_some.mp taken).1

end Scan

end Tit.Git
