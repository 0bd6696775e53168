/-
# Ssh.ReceiveChannel -- a push that arrives in messages

The client of a push sends its commands up to a flush packet and then the pack, and SSH cuts the
stream into messages as it likes.  `receive_data` scans all command bytes again for each message
until it finds the flush; what comes behind the flush is the pack, and all that follows.

A refused message ends the channel: the handler drops it with everything it has received, so the
result is then `none`.
-/
import Tit.Git.PacketLine

namespace Tit.Ssh

open Tit.Git

set_option autoImplicit false

/-- What a push has sent so far: `pack` is the content of the file of the pack. -/
structure ReceiveChannel where
  commands : Bytes
  commandsComplete : Bool
  pack : Bytes
  packBytes : Nat
  deriving DecidableEq, Repr

def maxReceivePackBytes : Nat := 128 * 1024 * 1024

/-- The channel that the handler opens for a push. -/
def ReceiveChannel.opened : ReceiveChannel := ⟨[], false, [], 0⟩

def writeReceivePack (git : ReceiveChannel) (data : Bytes) : Option ReceiveChannel :=
  -- `checked_add` of `u64`
  if git.packBytes + data.length ≥ 2 ^ 64 then none
  else if git.packBytes + data.length > maxReceivePackBytes then none
  else some { git with packBytes := git.packBytes + data.length, pack := git.pack ++ data }

def receiveData (git : ReceiveChannel) (data : Bytes) : Option ReceiveChannel :=
  if git.commandsComplete then writeReceivePack git data
  else
    let commands := git.commands ++ data
    match firstFlushEnd commands with
    | .error _ => none
    | .ok none => some { git with commands := commands }
    | .ok (some boundary) =>
        writeReceivePack
          { git with commands := commands.take boundary, commandsComplete := true }
          (commands.drop boundary)

section Messages

variable {git git' : ReceiveChannel} {a b data : Bytes}

/-- The first limit is never the one that decides. -/
theorem writeReceivePack_eq :
    writeReceivePack git data =
      if git.packBytes + data.length > maxReceivePackBytes then none
      else some { git with packBytes := git.packBytes + data.length, pack := git.pack ++ data } := by
  unfold writeReceivePack
  by_cases overflow : git.packBytes + data.length ≥ 2 ^ 64
  · rw [if_pos overflow, if_pos (by unfold maxReceivePackBytes; omega)]
  · rw [if_neg overflow]

theorem writeReceivePack_append :
    writeReceivePack git (a ++ b) = (writeReceivePack git a).bind (writeReceivePack · b) := by
  rw [@writeReceivePack_eq git a, @writeReceivePack_eq git (a ++ b), List.length_append]
  by_cases large : git.packBytes + a.length > maxReceivePackBytes
  · rw [if_pos large, if_pos (by omega)]
    rfl
  · rw [if_neg large, Option.bind_some, writeReceivePack_eq]
    simp only [Nat.add_assoc, List.append_assoc]

theorem writeReceivePack_complete (complete : git.commandsComplete = true)
    (written : writeReceivePack git data = some git') :
    git'.commandsComplete = true ∧ git'.commands = git.commands := by
  rw [writeReceivePack_eq] at written
  split at written
  · cases written
  · cases written
    exact ⟨complete, rfl⟩

theorem receiveData_complete (complete : git.commandsComplete = true) :
    receiveData git data = writeReceivePack git data := if_pos complete

theorem receiveData_refused {error : PacketLineError} (open' : git.commandsComplete = false)
    (found : firstFlushEnd (git.commands ++ data) = .error error) : receiveData git data = none := by
  simp only [receiveData, open', Bool.false_eq_true, if_false, found]

theorem receiveData_more (open' : git.commandsComplete = false)
    (found : firstFlushEnd (git.commands ++ data) = .ok none) :
    receiveData git data = some { git with commands := git.commands ++ data } := by
  simp only [receiveData, open', Bool.false_eq_true, if_false, found]

theorem receiveData_flush {n : Nat} (open' : git.commandsComplete = false)
    (found : firstFlushEnd (git.commands ++ data) = .ok (some n)) :
    receiveData git data =
      writeReceivePack
        { git with commands := (git.commands ++ data).take n, commandsComplete := true }
        ((git.commands ++ data).drop n) := by
  simp only [receiveData, open', Bool.false_eq_true, if_false, found]

/-- After the flush a message is a part of the pack, whatever the message that brought it held. -/
theorem bind_complete (complete : git.commandsComplete = true) :
    (writeReceivePack git a).bind (receiveData · b) =
      (writeReceivePack git a).bind (writeReceivePack · b) := by
  cases written : writeReceivePack git a with
  | none => rfl
  | some git' => exact receiveData_complete (writeReceivePack_complete complete written).1

/-- **A cut does not matter**: two messages are received as the one they make up. -/
theorem receiveData_append :
    receiveData git (a ++ b) = (receiveData git a).bind (receiveData · b) := by
  cases complete : git.commandsComplete with
  | true =>
      rw [receiveData_complete complete, receiveData_complete complete, bind_complete complete,
        writeReceivePack_append]
  | false =>
      cases found : firstFlushEnd (git.commands ++ a) with
      | error error =>
          have found' : firstFlushEnd (git.commands ++ a ++ b) = .error error :=
            flushLoop_append found (by nofun)
          rw [List.append_assoc] at found'
          rw [receiveData_refused complete found, receiveData_refused complete found']
          rfl
      | ok boundary =>
          cases boundary with
          | none =>
              -- the second message finds the same bytes to scan
              rw [receiveData_more complete found, Option.bind_some]
              simp only [receiveData, complete, List.append_assoc, Bool.false_eq_true, if_false]
          | some n =>
              have found' : firstFlushEnd (git.commands ++ a ++ b) = .ok (some n) :=
                flushLoop_append found (by nofun)
              have fits := firstFlushEnd_le found
              rw [receiveData_flush complete found, bind_complete rfl, ← writeReceivePack_append,
                ← List.drop_append_of_le_length fits, ← List.take_append_of_le_length fits]
              rw [List.append_assoc] at found' ⊢
              exact receiveData_flush complete found'

/-- Nothing is left to do with what has been received. -/
theorem receiveData_nil (received : receiveData git data = some git') :
    receiveData git' [] = some git' := by
  have cut := @receiveData_append git data []
  rw [List.append_nil, received, Option.bind_some] at cut
  exact cut.symm

theorem receiveData_opened : receiveData .opened [] = some .opened :=
  receiveData_more rfl firstFlushEnd_nil

/-- Messages in a row are received as one. -/
theorem foldlM_receiveData {chunks : List Bytes} (settled : receiveData git [] = some git) :
    chunks.foldlM receiveData git = receiveData git chunks.flatten := by
  induction chunks generalizing git with
  | nil => exact settled.symm
  | cons data chunks ih =>
      rw [List.foldlM_cons, List.flatten_cons, receiveData_append]
      cases received : receiveData git data with
      | none => rfl
      | some git' => exact ih (receiveData_nil received)

/-- Once the commands are complete they decode, to packets of which the last alone is a flush. -/
theorem commands_decode {chunks : List Bytes} (received : chunks.foldlM receiveData .opened = some git)
    (complete : git.commandsComplete = true) :
    ∃ ps, decode git.commands = .ok (ps ++ [.flush]) ∧ .flush ∉ ps := by
  rw [foldlM_receiveData receiveData_opened] at received
  cases found : firstFlushEnd (ReceiveChannel.opened.commands ++ chunks.flatten) with
  | error error =>
      rw [receiveData_refused rfl found] at received
      cases received
  | ok boundary =>
      cases boundary with
      | none =>
          rw [receiveData_more rfl found] at received
          cases received
          cases complete
      | some n =>
          rw [receiveData_flush rfl found] at received
          obtain ⟨-, first, ps, taken, decoded, before⟩ := firstFlushEnd_iff.mp found
          rw [(writeReceivePack_complete rfl received).2, ← (firstBytes_eq_some.mp taken).2]
          exact ⟨ps, decoded, before⟩

end Messages

/-- **Streaming does not matter**: the messages of a push are received as its whole stream would
be, and the commands end where the decoder sees the first flush. -/
theorem received_as_stream (chunks : List Bytes) (input : Bytes) (n : Nat) :
    chunks.foldlM receiveData .opened = receiveData .opened chunks.flatten ∧
    (firstFlushEnd input = .ok (some n) ↔ n ≤ maxRequestBytes ∧ ∃ first ps,
      firstBytes input n = some first ∧ decode first = .ok (ps ++ [.flush]) ∧ .flush ∉ ps) :=
  ⟨foldlM_receiveData receiveData_opened, firstFlushEnd_iff⟩

end Tit.Ssh
