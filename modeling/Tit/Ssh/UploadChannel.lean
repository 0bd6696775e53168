/-
# Ssh.UploadChannel -- a fetch that arrives in messages

SSH cuts what the client of a fetch writes into messages as it likes.  The handler keeps the bytes
of the request, decodes all of them again for each message, and answers when the last packet is the
one that ends a request: `done` in versions 0 and 1, a flush in version 2.  A channel of version 2
then goes on with the next request, unless it has sent a pack.

A message brings the time and whether the worker gave an answer, so that a run is a list of
messages.  A cut makes no difference (`upload_requests`), and whatever is sent, the channel keeps
its limits, answers consecutive parts of what it received with what the service says to them, and says
nothing more once it has told its exit status (`upload_bounded`).
-/
import Tit.Git.Fetch
import Tit.Theory.Run

namespace Tit.Ssh

open Tit.Git Tit.Theory Tit.Theory.Text Tit.Store Tit.Store.Database

set_option autoImplicit false

/-- Times are in milliseconds. -/
def gitChannelInactivityLimit : Nat := 30 * 1000

def gitChannelWallClockLimit : Nat := 120 * 1000

def maxGitChannelBytes : Nat := 257 * 1024 * 1024

structure UploadChannel where
  service : UploadPack
  request : Bytes
  startedAt : Nat
  lastActivity : Nat
  transferred : Nat

/-- One message of the client, when it came, and whether the worker answered if it was asked. -/
structure Message where
  data : Bytes
  now : Nat
  answered : Bool

/-- What the handler does with the channel: keep it, or tell its exit status and close it. -/
inductive Handled where
  | kept (git : UploadChannel) (sent : Option Bytes)
  | closed (status : Nat) (sent : Option Bytes)

def gitChannelExpired (startedAt lastActivity now : Nat) : Bool :=
  decide (now - startedAt > gitChannelWallClockLimit) ||
    decide (now - lastActivity > gitChannelInactivityLimit)

/-- The sums saturate in the source, far above the limit. -/
def gitChannelBytesWithinLimit (transferred additional : Nat) : Bool :=
  decide (transferred + additional ≤ maxGitChannelBytes)

theorem withinLimit_iff {transferred additional : Nat} :
    gitChannelBytesWithinLimit transferred additional = true ↔
      transferred + additional ≤ maxGitChannelBytes := decide_eq_true_iff

/-- The packet `ERR invalid Git request`. -/
def gitError : Bytes := asciiBytes "001cERR invalid Git request\n"

def failGitChannel : Handled := .closed 1 (some gitError)

/-- The packet is a line that says this. -/
def saysLine (text : Bytes) : Packet → Bool
  | .data line => decide (chomp line = text)
  | _ => false

/-- `respond_git`: nothing without a worker. -/
def respondGit (protocol : ProtocolVersion) (git : UploadChannel) (message : Message) :
    Option (Except UploadPackError Bytes) :=
  if message.answered then some (git.service.respond protocol git.request) else none

/-- The request is complete. -/
def answerV1 (protocol : ProtocolVersion) (git : UploadChannel) (message : Message) : Handled :=
  match respondGit protocol git message with
  | some (.ok response) =>
      if gitChannelBytesWithinLimit git.transferred response.length then .closed 0 (some response)
      else failGitChannel
  | _ => failGitChannel

/-- The request is one that a pack answers: `fetch` and `done`. -/
def wantsPack (packets : List Packet) : Bool :=
  packets.any (saysLine (asciiBytes "command=fetch")) && packets.any (saysLine (asciiBytes "done"))

def answerV2 (git : UploadChannel) (packets : List Packet) (message : Message) : Handled :=
  match respondGit .v2 git message with
  | some (.ok response) =>
      if gitChannelBytesWithinLimit git.transferred response.length then
        let git := { git with transferred := git.transferred + response.length }
        if wantsPack packets then .closed 0 (some response)
        else .kept { git with request := [] } (some response)
      else failGitChannel
  | _ => failGitChannel

/-- `data` for an upload channel. -/
def uploadData (protocol : ProtocolVersion) (git : UploadChannel) (message : Message) : Handled :=
  if gitChannelExpired git.startedAt git.lastActivity message.now then failGitChannel
  else
    let git := { git with
      lastActivity := message.now, transferred := git.transferred + message.data.length }
    if !gitChannelBytesWithinLimit git.transferred 0 then failGitChannel
    else if git.request.length + message.data.length > maxRequestBytes then failGitChannel
    else
      let git := { git with request := git.request ++ message.data }
      match decode git.request with
      | .error .truncatedHeader | .error .truncatedPacket => .kept git none
      | .error _ => failGitChannel
      | .ok packets =>
          if packets = [.flush] then .closed 0 none
          else
            match protocol with
            | .v0 | .v1 =>
                if packets.getLast?.any (saysLine (asciiBytes "done")) then
                  answerV1 protocol git message
                else .kept git none
            | .v2 =>
                if packets.getLast? ≠ some .flush then .kept git none
                else answerV2 git packets message

/-! ## Runs -/

/-- The channel as its client sees it. -/
structure Upload where
  channel : Option UploadChannel
  sent : List Bytes
  status : Option Nat

def Upload.opened (git : UploadChannel) : Upload := ⟨some git, [], none⟩

/-- A message for a channel that is not there has no effect. -/
def Upload.receive (protocol : ProtocolVersion) (upload : Upload) (message : Message) : Upload :=
  match upload.channel with
  | none => upload
  | some git =>
      match uploadData protocol git message with
      | .kept git sent => { upload with channel := some git, sent := upload.sent ++ sent.toList }
      | .closed status sent => ⟨none, upload.sent ++ sent.toList, some status⟩

def Upload.run (protocol : ProtocolVersion) (upload : Upload) (messages : List Message) : Upload :=
  messages.foldl (Upload.receive protocol) upload

/-! ## A request that has not come whole -/

section Prefixes

variable {ps : List Packet} {p : Packet} {frame : Bytes}

/-- A part of one packet. -/
theorem decodeLoop_part (framed : Framed p frame) {a b : Bytes} (split : frame = a ++ b)
    (some : a ≠ []) (more : b ≠ []) :
    decodeLoop a = .error .truncatedHeader ∨ decodeLoop a = .error .truncatedPacket := by
  have shorter : a.length < frame.length := by
    rw [split, List.length_append]
    have := List.length_pos_iff.mpr more
    omega
  rw [decodeLoop, if_neg some]
  by_cases header : 4 ≤ a.length
  · right
    cases p with
    | data payload =>
        obtain ⟨head, whole, length, read, positive, small⟩ := framed
        obtain ⟨n, size⟩ : ∃ n, payload.length = n + 1 := ⟨payload.length - 1, by omega⟩
        obtain ⟨tail, rfl⟩ : ∃ tail, a = head ++ tail := by
          refine ⟨a.drop 4, ?_⟩
          have first : head = a.take 4 := by
            have := congrArg (List.take 4) (whole.symm.trans split)
            rwa [List.take_left' length, List.take_append_of_le_length header] at this
          rw [first, List.take_append_drop]
        have short : tail.length < n + 1 := by
          rw [whole, List.length_append, List.length_append] at shorter
          omega
        have none : firstBytes ((head ++ tail).drop 4) (n + 1) = none := by
          rw [List.drop_left' length]
          exact if_neg (by omega)
        rw [readLength_append length.ge, read, size]
        simp only [none]
        rw [if_neg (by omega)]
    | flush | delimiter | responseEnd =>
        obtain ⟨length, -⟩ := framed
        omega
  · left
    have none : readLength a = none := by
      unfold readLength firstBytes
      rw [if_neg header]
      rfl
    rw [none]

/-- **A part of a request** breaks off inside a packet, or has the first packets. -/
theorem decodeLoop_prefix {a b : Bytes} (packets : Packets ps (a ++ b)) (more : b ≠ []) :
    decodeLoop a = .error .truncatedHeader ∨ decodeLoop a = .error .truncatedPacket ∨
      ∃ first rest, ps = first ++ rest ∧ rest ≠ [] ∧ decodeLoop a = .ok first := by
  induction ps generalizing a with
  | nil =>
      cases whole : a ++ b with
      | nil => exact absurd (List.append_eq_nil_iff.mp whole).2 more
      | cons byte bytes =>
          rw [whole] at packets
          cases packets
  | cons p ps ih =>
      obtain ⟨frame, rest, same, framed, later⟩ : ∃ frame rest, frame ++ rest = a ++ b ∧
          Framed p frame ∧ Packets ps rest := by
        generalize a ++ b = input at packets
        cases packets with
        | cons framed later => exact ⟨_, _, rfl, framed, later⟩
      rcases List.append_eq_append_iff.mp same with ⟨c, rfl, rfl⟩ | ⟨c, rfl, rfl⟩
      · rcases ih later with header | packet | ⟨first, others, rfl, some, decoded⟩
        · exact Or.inl (by rw [decodeLoop_framed framed, header]; rfl)
        · exact Or.inr (Or.inl (by rw [decodeLoop_framed framed, packet]; rfl))
        · refine Or.inr (Or.inr ⟨p :: first, others, rfl, some, ?_⟩)
          rw [decodeLoop_framed framed, decoded]
          rfl
      · by_cases empty : a = []
        · subst empty
          exact Or.inr (Or.inr ⟨[], p :: ps, rfl, List.cons_ne_nil _ _, decodeLoop_nil⟩)
        · by_cases whole : c = []
          · subst whole
            refine Or.inr (Or.inr ⟨[p], ps, rfl, ?_, ?_⟩)
            · rintro rfl
              cases later
              exact more rfl
            · rw [List.append_nil] at framed
              have one := @decodeLoop_framed a [] p framed
              rw [List.append_nil, decodeLoop_nil] at one
              exact one
          · rcases decodeLoop_part framed rfl empty whole with header | packet
            · exact Or.inl header
            · exact Or.inr (Or.inl packet)

end Prefixes

/-! ## One request -/

/-- The packet that ends a request. -/
def endsRequest : ProtocolVersion → Packet → Bool
  | .v0 | .v1 => saysLine (asciiBytes "done")
  | .v2 => fun packet => decide (packet = .flush)

/-- The bytes of one request, which does not begin with a flush. -/
structure Request (protocol : ProtocolVersion) (packets : List Packet) (request : Bytes) :
    Prop where
  encoded : Packets packets request
  short : request.length ≤ maxRequestBytes
  ends : ∃ before last, packets = before ++ [last] ∧ endsRequest protocol last = true ∧
    ∀ packet ∈ before, endsRequest protocol packet = false
  opens : packets.head? ≠ some .flush

/-- No message comes too late, and the worker answers. -/
def Timely (startedAt : Nat) : Nat → List Message → Prop
  | _, [] => True
  | last, message :: rest =>
      gitChannelExpired startedAt last message.now = false ∧ message.answered = true ∧
        Timely startedAt message.now rest

def stream (messages : List Message) : Bytes := messages.flatMap (·.data)

/-- When the last of the messages came. -/
def lastTime (last : Nat) (messages : List Message) : Nat :=
  messages.foldl (fun _ message => message.now) last

theorem timely_append {startedAt last : Nat} {before after : List Message} :
    Timely startedAt last (before ++ after) ↔
      Timely startedAt last before ∧ Timely startedAt (lastTime last before) after := by
  induction before generalizing last with
  | nil => simp [Timely, lastTime]
  | cons message before ih =>
      rw [List.cons_append, Timely, Timely, ih, and_assoc, and_assoc]
      rfl

section Step

variable {protocol : ProtocolVersion} {packets : List Packet} {request : Bytes}
  {git : UploadChannel} {message : Message}

/-- The channel that has taken a message. -/
def UploadChannel.take (git : UploadChannel) (message : Message) : UploadChannel :=
  { git with
    lastActivity := message.now
    transferred := git.transferred + message.data.length
    request := git.request ++ message.data }

theorem uploadData_taken
    (timely : gitChannelExpired git.startedAt git.lastActivity message.now = false)
    (room : git.transferred + message.data.length ≤ maxGitChannelBytes)
    (short : (git.request ++ message.data).length ≤ maxRequestBytes) :
    uploadData protocol git message =
      match decode (git.request ++ message.data) with
      | .error .truncatedHeader | .error .truncatedPacket => .kept (git.take message) none
      | .error _ => failGitChannel
      | .ok packets =>
          if packets = [.flush] then .closed 0 none
          else
            match protocol with
            | .v0 | .v1 =>
                if packets.getLast?.any (saysLine (asciiBytes "done")) then
                  answerV1 protocol (git.take message) message
                else .kept (git.take message) none
            | .v2 =>
                if packets.getLast? ≠ some .flush then .kept (git.take message) none
                else answerV2 (git.take message) packets message := by
  have fits : gitChannelBytesWithinLimit (git.transferred + message.data.length) 0 = true :=
    decide_eq_true room
  rw [List.length_append] at short
  unfold uploadData
  rw [if_neg (by rw [timely]; decide)]
  dsimp only
  rw [if_neg (by rw [fits]; decide), if_neg (by omega)]
  rfl

/-- The handler waits for packets that do not end a request. -/
theorem uploadData_waits
    (timely : gitChannelExpired git.startedAt git.lastActivity message.now = false)
    (room : git.transferred + message.data.length ≤ maxGitChannelBytes)
    (short : (git.request ++ message.data).length ≤ maxRequestBytes)
    (decoded : decode (git.request ++ message.data) = .ok packets)
    (more : ∀ packet ∈ packets, endsRequest protocol packet = false)
    (opens : packets.head? ≠ some .flush) :
    uploadData protocol git message = .kept (git.take message) none := by
  have alone : packets ≠ [.flush] := by
    rintro rfl
    exact opens rfl
  rw [uploadData_taken timely room short]
  rw [decoded]
  dsimp only
  rw [if_neg alone]
  cases last : packets.getLast? with
  | none => cases protocol <;> simp
  | some packet =>
      have unfinished := more packet (List.mem_of_getLast? last)
      cases protocol with
      | v0 => simp only [Option.any_some, show saysLine _ packet = false from unfinished]; rfl
      | v1 => simp only [Option.any_some, show saysLine _ packet = false from unfinished]; rfl
      | v2 =>
          have other : packet ≠ .flush := of_decide_eq_false unfinished
          simp [other]

/-- A part of a request leaves the channel waiting. -/
theorem uploadData_part (asked : Request protocol packets request) {rest : Bytes}
    (whole : git.request ++ message.data ++ rest = request) (more : rest ≠ [])
    (timely : gitChannelExpired git.startedAt git.lastActivity message.now = false)
    (room : git.transferred + message.data.length ≤ maxGitChannelBytes) :
    uploadData protocol git message = .kept (git.take message) none := by
  obtain ⟨before, last, rfl, -, unfinished⟩ := asked.ends
  have short : (git.request ++ message.data).length ≤ maxRequestBytes := by
    have := asked.short
    rw [← whole, List.length_append] at this
    omega
  have encoded := asked.encoded
  rw [← whole] at encoded
  have decodes : decode (git.request ++ message.data) = decodeLoop (git.request ++ message.data) :=
    if_neg (by omega)
  rcases decodeLoop_prefix encoded more with header | packet | ⟨first, others, split, some, decoded⟩
  · rw [uploadData_taken timely room short]
    rw [decodes, header]
  · rw [uploadData_taken timely room short]
    rw [decodes, packet]
  · -- what was decoded so far stops before the packet that ends the request
    obtain ⟨middle, rfl⟩ : ∃ middle, before = first ++ middle := by
      rcases List.eq_nil_or_concat others with rfl | ⟨middle, final, rfl⟩
      · exact absurd rfl some
      · rw [List.concat_eq_append, ← List.append_assoc] at split
        exact ⟨middle, (List.append_inj' split rfl).1⟩
    refine uploadData_waits timely room short (decodes.trans decoded)
      (fun packet member => unfinished packet (List.mem_append_left _ member)) ?_
    have opens := asked.opens
    cases first with
    | nil => simp
    | cons packet first => exact opens

/-- How a request of this version is answered. -/
def answerRequest (protocol : ProtocolVersion) (git : UploadChannel) (packets : List Packet)
    (message : Message) : Handled :=
  match protocol with
  | .v0 | .v1 => answerV1 protocol git message
  | .v2 => answerV2 git packets message

/-- The last part of a request has it answered. -/
theorem uploadData_whole (asked : Request protocol packets request)
    (whole : git.request ++ message.data = request)
    (timely : gitChannelExpired git.startedAt git.lastActivity message.now = false)
    (room : git.transferred + message.data.length ≤ maxGitChannelBytes) :
    uploadData protocol git message =
      answerRequest protocol (git.take message) packets message := by
  obtain ⟨before, last, rfl, ends, -⟩ := asked.ends
  have short : (git.request ++ message.data).length ≤ maxRequestBytes := by
    rw [whole]
    exact asked.short
  have decoded : decode (git.request ++ message.data) = .ok (before ++ [last]) := by
    rw [whole]
    exact decode_eq_ok.mpr ⟨asked.short, asked.encoded⟩
  have alone : before ++ [last] ≠ [.flush] := by
    intro same
    have opens := asked.opens
    rw [same] at opens
    exact opens rfl
  rw [uploadData_taken timely room short]
  rw [decoded]
  dsimp only
  rw [if_neg alone, List.getLast?_concat]
  cases protocol with
  | v0 => exact if_pos ends
  | v1 => exact if_pos ends
  | v2 =>
      have flush : last = .flush := of_decide_eq_true ends
      exact if_neg (by rw [flush]; simp)

end Step

/-! ## What the client gets -/

/-- The exit status, if the channel is closed, and what was sent in answer to one request. -/
def reply (protocol : ProtocolVersion) (service : UploadPack) (transferred : Nat)
    (packets : List Packet) (request : Bytes) : Option Nat × Bytes :=
  match service.respond protocol request with
  | .ok response =>
      if transferred + response.length ≤ maxGitChannelBytes then
        (if protocol = .v2 ∧ wantsPack packets = false then none else some 0, response)
      else (some 1, gitError)
  | .error _ => (some 1, gitError)

/-- What was sent in answer to the requests, until the channel was closed, and the exit status. -/
def conversation (protocol : ProtocolVersion) (service : UploadPack) :
    Nat → List (List Packet × Bytes) → List Bytes × Option Nat
  | _, [] => ([], none)
  | transferred, (packets, request) :: rest =>
      match reply protocol service (transferred + request.length) packets request with
      | (some status, sent) => ([sent], some status)
      | (none, sent) =>
          let (later, status) :=
            conversation protocol service (transferred + request.length + sent.length) rest
          (sent :: later, status)

/-- The channel waits for a request, with the same service and the same start. -/
structure Ready (service : UploadPack) (startedAt transferred : Nat) (git : UploadChannel) :
    Prop where
  service : git.service = service
  startedAt : git.startedAt = startedAt
  transferred : git.transferred = transferred
  request : git.request = []

section Replies

variable {protocol : ProtocolVersion} {packets : List Packet} {request : Bytes}
  {git : UploadChannel} {message : Message} {messages : List Message} {sent : List Bytes}

/-- What the answer of the handler does to the channel. -/
def Handled.upload (sent : List Bytes) : Handled → Upload
  | .kept git more => ⟨some git, sent ++ more.toList, none⟩
  | .closed status more => ⟨none, sent ++ more.toList, some status⟩

theorem receive_open (protocol : ProtocolVersion) (git : UploadChannel) (sent : List Bytes)
    (message : Message) :
    Upload.receive protocol ⟨some git, sent, none⟩ message =
      (uploadData protocol git message).upload sent := by
  unfold Upload.receive
  dsimp only
  cases uploadData protocol git message <;> rfl

theorem run_closed (protocol : ProtocolVersion) (sent : List Bytes) (status : Option Nat)
    (messages : List Message) :
    Upload.run protocol ⟨none, sent, status⟩ messages = ⟨none, sent, status⟩ := by
  induction messages with
  | nil => rfl
  | cons message messages ih => exact ih

/-- The channel after a request: `reply` says whether it is closed, and it waits for the next one
if it is not. -/
def Replied (service : UploadPack) (startedAt transferred : Nat) (sent : List Bytes)
    (replied : Option Nat × Bytes) (upload : Upload) : Prop :=
  upload.sent = sent ++ [replied.2] ∧ upload.status = replied.1 ∧
    match replied.1 with
    | some _ => upload.channel = none
    | none => ∃ git, upload.channel = some git ∧
        Ready service startedAt (transferred + replied.2.length) git

theorem answerV1_replied (old : protocol ≠ .v2) (answered : message.answered = true) :
    Replied git.service git.startedAt git.transferred sent
      (reply protocol git.service git.transferred packets git.request)
      ((answerV1 protocol git message).upload sent) := by
  unfold answerV1 respondGit reply
  rw [if_pos answered]
  cases git.service.respond protocol git.request with
  | error error => exact ⟨rfl, rfl, rfl⟩
  | ok response =>
      dsimp only
      by_cases room : git.transferred + response.length ≤ maxGitChannelBytes
      · rw [if_pos (withinLimit_iff.mpr room), if_pos room, if_neg fun both => old both.1]
        exact ⟨rfl, rfl, rfl⟩
      · rw [if_neg (mt withinLimit_iff.mp room), if_neg room]
        exact ⟨rfl, rfl, rfl⟩

theorem answerV2_replied (answered : message.answered = true) :
    Replied git.service git.startedAt git.transferred sent
      (reply .v2 git.service git.transferred packets git.request)
      ((answerV2 git packets message).upload sent) := by
  unfold answerV2 respondGit reply
  rw [if_pos answered]
  cases git.service.respond .v2 git.request with
  | error error => exact ⟨rfl, rfl, rfl⟩
  | ok response =>
      dsimp only
      by_cases room : git.transferred + response.length ≤ maxGitChannelBytes
      · rw [if_pos (withinLimit_iff.mpr room), if_pos room]
        by_cases pack : wantsPack packets = true
        · rw [if_pos pack, if_neg fun both => by rw [pack] at both; cases both.2]
          exact ⟨rfl, rfl, rfl⟩
        · rw [if_neg pack, if_pos ⟨rfl, Bool.eq_false_iff.mpr pack⟩]
          exact ⟨rfl, rfl, _, rfl, rfl, rfl, rfl, rfl⟩
      · rw [if_neg (mt withinLimit_iff.mp room), if_neg room]
        exact ⟨rfl, rfl, rfl⟩

theorem answerRequest_replied (answered : message.answered = true) :
    Replied git.service git.startedAt git.transferred sent
      (reply protocol git.service git.transferred packets git.request)
      ((answerRequest protocol git packets message).upload sent) := by
  cases protocol with
  | v0 => exact answerV1_replied (by decide) answered
  | v1 => exact answerV1_replied (by decide) answered
  | v2 => exact answerV2_replied answered

theorem respondGit_eq_ok {response : Bytes}
    (responded : respondGit protocol git message = some (.ok response)) :
    git.service.respond protocol git.request = .ok response := by
  unfold respondGit at responded
  split at responded
  · exact Option.some.inj responded
  · cases responded

/-- All that the handler can do with a request that has come whole. -/
theorem answerRequest_cases (protocol : ProtocolVersion) (git : UploadChannel)
    (packets : List Packet) (message : Message) :
    answerRequest protocol git packets message = failGitChannel ∨
    ∃ response, git.service.respond protocol git.request = .ok response ∧
      git.transferred + response.length ≤ maxGitChannelBytes ∧
      (answerRequest protocol git packets message = .closed 0 (some response) ∨
        answerRequest protocol git packets message =
          .kept { git with transferred := git.transferred + response.length, request := [] }
            (some response)) := by
  have v1 : answerV1 protocol git message = failGitChannel ∨
      ∃ response, git.service.respond protocol git.request = .ok response ∧
        git.transferred + response.length ≤ maxGitChannelBytes ∧
        answerV1 protocol git message = .closed 0 (some response) := by
    unfold answerV1
    split
    · rename_i response responded
      split
      · exact Or.inr ⟨response, respondGit_eq_ok responded, withinLimit_iff.mp ‹_›, rfl⟩
      · exact Or.inl rfl
    · exact Or.inl rfl
  cases protocol with
  | v0 =>
      exact v1.imp_right fun ⟨response, responded, room, closed⟩ =>
        ⟨response, responded, room, Or.inl closed⟩
  | v1 =>
      exact v1.imp_right fun ⟨response, responded, room, closed⟩ =>
        ⟨response, responded, room, Or.inl closed⟩
  | v2 =>
      show answerV2 git packets message = _ ∨ _
      unfold answerRequest answerV2
      dsimp only
      split
      · rename_i response responded
        split
        · refine Or.inr ⟨response, respondGit_eq_ok responded, withinLimit_iff.mp ‹_›, ?_⟩
          split
          · exact Or.inl rfl
          · exact Or.inr rfl
        · exact Or.inl rfl
      · exact Or.inl rfl

/-- A channel that is kept was active when the message came. -/
theorem answerRequest_activity {git' : UploadChannel}
    (kept : ((answerRequest protocol git packets message).upload sent).channel = some git') :
    git'.lastActivity = git.lastActivity := by
  rcases answerRequest_cases protocol git packets message with
    failed | ⟨response, -, -, closed | open'⟩
  · rw [failed] at kept
    cases kept
  · rw [closed] at kept
    cases kept
  · rw [open'] at kept
    cases kept
    rfl

theorem reply_room {service : UploadPack} {transferred : Nat}
    (open' : (reply protocol service transferred packets request).1 = none) :
    transferred + (reply protocol service transferred packets request).2.length ≤
      maxGitChannelBytes := by
  unfold reply at open' ⊢
  cases answer : service.respond protocol request with
  | error error =>
      rw [answer] at open'
      cases open'
  | ok response =>
      rw [answer] at open'
      dsimp only at open' ⊢
      by_cases room : transferred + response.length ≤ maxGitChannelBytes
      · rw [if_pos room]
        exact room
      · rw [if_neg room] at open'
        cases open'

/-- Messages without data change nothing that a client sees. -/
theorem run_empty {service : UploadPack} {startedAt transferred : Nat}
    (ready : Ready service startedAt transferred git) (empty : stream messages = [])
    (timely : Timely git.startedAt git.lastActivity messages)
    (room : transferred ≤ maxGitChannelBytes) :
    ∃ git', Upload.run protocol ⟨some git, sent, none⟩ messages = ⟨some git', sent, none⟩ ∧
      Ready service startedAt transferred git' ∧
      git'.lastActivity = lastTime git.lastActivity messages := by
  induction messages generalizing git with
  | nil => exact ⟨git, rfl, ready, rfl⟩
  | cons message messages ih =>
      obtain ⟨here, -, later⟩ := timely
      obtain ⟨blank, empty⟩ := List.append_eq_nil_iff.mp empty
      replace blank : message.data = [] := blank
      have nothing : git.request ++ message.data = [] := by rw [ready.request, blank]; rfl
      have waits : uploadData protocol git message = .kept (git.take message) none :=
        @uploadData_waits _ [] _ _ here (by rw [ready.transferred, blank]; exact room)
          (by rw [nothing]; exact Nat.zero_le _) (by rw [nothing]; exact decodeLoop_nil)
          (fun packet member => absurd member List.not_mem_nil) (fun same => by cases same)
      have ready' : Ready service startedAt transferred (git.take message) :=
        ⟨ready.service, ready.startedAt,
          by rw [UploadChannel.take, blank]; exact ready.transferred, nothing⟩
      obtain ⟨git', ran, after, last⟩ := ih ready' empty later
      refine ⟨git', ?_, after, last⟩
      show Upload.run protocol (Upload.receive protocol _ message) messages = _
      rw [receive_open, waits]
      show Upload.run protocol ⟨some (git.take message), sent ++ [], none⟩ messages = _
      rw [List.append_nil]
      exact ran

/-- Messages without data behind a request. -/
theorem Replied.run_empty {service : UploadPack} {startedAt transferred last : Nat}
    {replied : Option Nat × Bytes} {upload : Upload}
    (done : Replied service startedAt transferred sent replied upload)
    (active : ∀ git', upload.channel = some git' → git'.lastActivity = last)
    (room : replied.1 = none → transferred + replied.2.length ≤ maxGitChannelBytes)
    (empty : stream messages = []) (timely : Timely startedAt last messages) :
    Replied service startedAt transferred sent replied (Upload.run protocol upload messages) ∧
      ∀ git', (Upload.run protocol upload messages).channel = some git' →
        git'.lastActivity = lastTime last messages := by
  obtain ⟨channel, all, final⟩ := upload
  obtain ⟨all', final', state⟩ := done
  obtain ⟨status, more⟩ := replied
  dsimp only at all' final' state
  subst all' final'
  cases final with
  | some status =>
      dsimp only at state
      subst state
      rw [run_closed]
      exact ⟨⟨rfl, rfl, rfl⟩, fun git' there => by cases there⟩
  | none =>
      obtain ⟨git, rfl, ready⟩ := state
      have same := active git rfl
      rw [← ready.startedAt, ← same] at timely
      obtain ⟨git', ran, ready', last'⟩ :=
        @Ssh.run_empty protocol git messages (sent ++ [more]) _ _ _ ready empty timely (room rfl)
      show Replied _ _ _ _ _ (Upload.run protocol ⟨some git, sent ++ [more], none⟩ messages) ∧
        ∀ git', (Upload.run protocol ⟨some git, sent ++ [more], none⟩ messages).channel = _ → _
      rw [ran]
      refine ⟨⟨rfl, rfl, git', rfl, ready'⟩, ?_⟩
      rintro _ ⟨⟩
      rw [last', same]

theorem uploadData_over
    (timely : gitChannelExpired git.startedAt git.lastActivity message.now = false)
    (beyond : ¬git.transferred + message.data.length ≤ maxGitChannelBytes) :
    uploadData protocol git message = failGitChannel := by
  have full : gitChannelBytesWithinLimit (git.transferred + message.data.length) 0 = false :=
    decide_eq_false beyond
  unfold uploadData
  rw [if_neg (by rw [timely]; decide)]
  dsimp only
  rw [if_pos (by rw [full]; rfl)]

theorem reply_over {service : UploadPack} {transferred : Nat}
    (beyond : ¬transferred ≤ maxGitChannelBytes) :
    reply protocol service transferred packets request = (some 1, gitError) := by
  unfold reply
  split
  · exact if_neg (by omega)
  · rfl

/-- **The messages of a request are answered as the request**, however they cut it. -/
theorem run_request (asked : Request protocol packets request) (begun : request ≠ git.request)
    (whole : git.request ++ stream messages = request)
    (timely : Timely git.startedAt git.lastActivity messages) :
    Replied git.service git.startedAt (git.transferred + (stream messages).length) sent
      (reply protocol git.service (git.transferred + (stream messages).length) packets request)
      (Upload.run protocol ⟨some git, sent, none⟩ messages) ∧
    ∀ git', (Upload.run protocol ⟨some git, sent, none⟩ messages).channel = some git' →
      git'.lastActivity = lastTime git.lastActivity messages := by
  induction messages generalizing git with
  | nil =>
      rw [stream, List.flatMap_nil, List.append_nil] at whole
      exact absurd whole.symm begun
  | cons message messages ih =>
      obtain ⟨here, answered, later⟩ := timely
      have split : stream (message :: messages) = message.data ++ stream messages := rfl
      have turn : Upload.run protocol ⟨some git, sent, none⟩ (message :: messages) =
          Upload.run protocol ((uploadData protocol git message).upload sent) messages := by
        rw [← receive_open]
        rfl
      rw [split, ← List.append_assoc] at whole
      rw [turn, split, List.length_append]
      by_cases room : git.transferred + message.data.length ≤ maxGitChannelBytes
      · by_cases more : stream messages = []
        · rw [more, List.append_nil] at whole
          rw [more, List.length_nil, Nat.add_zero, uploadData_whole asked whole here room]
          subst whole
          exact (@answerRequest_replied _ _ (git.take message) _ _ answered).run_empty
            (fun git' kept => answerRequest_activity kept) reply_room more later
        · have begun' : request ≠ (git.take message).request := fun same => more <|
            List.self_eq_append_right.mp (same.symm.trans whole.symm)
          have rest := @ih (git.take message) begun' whole later
          rw [uploadData_part asked whole more here room]
          show Replied _ _ _ _ _ (Upload.run protocol ⟨some (git.take message), sent ++ [], none⟩
            messages) ∧ ∀ git', (Upload.run protocol ⟨some (git.take message), sent ++ [], none⟩
            messages).channel = _ → _
          rw [List.append_nil, ← Nat.add_assoc]
          exact rest
      · -- the channel fails at this message, as it would at the end of the request
        rw [uploadData_over here room, reply_over (by omega)]
        show Replied _ _ _ _ _ (Upload.run protocol ⟨none, sent ++ [gitError], some 1⟩ messages) ∧
          ∀ git', (Upload.run protocol ⟨none, sent ++ [gitError], some 1⟩ messages).channel = _ → _
        rw [run_closed]
        exact ⟨⟨rfl, rfl, rfl⟩, fun git' there => by cases there⟩

end Replies

/-! ## Conversations -/

theorem Request.nonempty {protocol : ProtocolVersion} {packets : List Packet} {request : Bytes}
    (asked : Request protocol packets request) : request ≠ [] := by
  rintro rfl
  obtain ⟨before, last, rfl, -⟩ := asked.ends
  have none := (decodeLoop_of_packets asked.encoded).symm.trans decodeLoop_nil
  cases before <;> cases none

/-- A request of the client and the messages that bring it. -/
structure Round where
  packets : List Packet
  request : Bytes
  messages : List Message

def Round.asked (round : Round) : List Packet × Bytes := (round.packets, round.request)

/-- A clone of one blob, as version 2 sends it. -/
def clonePackets : List Packet :=
  clientPackets oneBlob.format [some (.want ⟨1⟩), some .done, none] .v2

theorem clonePackets_asked : ∃ request, Request .v2 clonePackets request := by
  obtain ⟨request, sent, length⟩ := @exists_packets clonePackets (by decide)
  refine ⟨request, sent, ?_, ⟨clonePackets.dropLast, .flush, by decide⟩, by decide⟩
  rw [length]
  decide

/-- The bytes of the requests and of the answers. -/
def volume (answered : List (Bytes × Bytes)) : Nat :=
  (answered.map fun pair => pair.1.length + pair.2.length).sum

theorem volume_concat (answered : List (Bytes × Bytes)) (request response : Bytes) :
    volume (answered ++ [(request, response)]) =
      volume answered + (request.length + response.length) := by
  simp [volume]

/-- What a channel has come to: the requests it has answered, each with its answer, and the bytes
that came behind them. -/
structure Ledger (protocol : ProtocolVersion) (service : UploadPack) (transferred : Nat)
    (received : Bytes) (upload : Upload) (answered : List (Bytes × Bytes)) (pending : Bytes) :
    Prop where
  received : received = answered.flatMap Prod.fst ++ pending
  answers : ∀ pair ∈ answered,
    pair.1.length ≤ maxRequestBytes ∧ service.respond protocol pair.1 = .ok pair.2
  room : transferred + volume answered ≤ maxGitChannelBytes
  state : match upload.channel with
    | some git => upload.sent = answered.map Prod.snd ∧ upload.status = none ∧
        git.service = service ∧ git.request = pending ∧ pending.length ≤ maxRequestBytes ∧
        git.transferred = transferred + volume answered + pending.length ∧
        git.transferred ≤ maxGitChannelBytes
    | none => (upload.status = some 0 ∧ upload.sent = answered.map Prod.snd) ∨
        (upload.status = some 1 ∧ upload.sent = answered.map Prod.snd ++ [gitError])

section Books

variable {protocol : ProtocolVersion} {git : UploadChannel} {message : Message}

/-- All that the handler can do with a message. -/
theorem uploadData_cases (protocol : ProtocolVersion) (git : UploadChannel) (message : Message) :
    uploadData protocol git message = failGitChannel ∨
    uploadData protocol git message = .closed 0 none ∨
    (git.transferred + message.data.length ≤ maxGitChannelBytes ∧
      (git.take message).request.length ≤ maxRequestBytes ∧
      (uploadData protocol git message = .kept (git.take message) none ∨
        ∃ packets, uploadData protocol git message =
          answerRequest protocol (git.take message) packets message)) := by
  by_cases timely : gitChannelExpired git.startedAt git.lastActivity message.now = true
  · exact Or.inl (if_pos timely)
  replace timely := Bool.eq_false_iff.mpr timely
  by_cases room : git.transferred + message.data.length ≤ maxGitChannelBytes
  · by_cases short : (git.request ++ message.data).length ≤ maxRequestBytes
    · rw [uploadData_taken timely room short]
      split
      · exact Or.inr (Or.inr ⟨room, short, Or.inl rfl⟩)
      · exact Or.inr (Or.inr ⟨room, short, Or.inl rfl⟩)
      · exact Or.inl rfl
      · rename_i packets decoded
        split
        · exact Or.inr (Or.inl rfl)
        · refine Or.inr (Or.inr ⟨room, short, ?_⟩)
          cases protocol with
          | v0 =>
              dsimp only
              split
              · exact Or.inr ⟨packets, rfl⟩
              · exact Or.inl rfl
          | v1 =>
              dsimp only
              split
              · exact Or.inr ⟨packets, rfl⟩
              · exact Or.inl rfl
          | v2 =>
              dsimp only
              split
              · exact Or.inl rfl
              · exact Or.inr ⟨packets, rfl⟩
    · left
      have fits : gitChannelBytesWithinLimit (git.transferred + message.data.length) 0 = true :=
        decide_eq_true room
      rw [List.length_append] at short
      unfold uploadData
      rw [if_neg (by rw [timely]; decide)]
      dsimp only
      rw [if_neg (by rw [fits]; decide), if_pos (by omega)]
  · exact Or.inl (uploadData_over timely room)

variable {service : UploadPack} {transferred : Nat} {received pending : Bytes} {upload : Upload}
  {answered : List (Bytes × Bytes)} {messages : List Message}

/-- A message goes into the books. -/
theorem Ledger.receive
    (books : Ledger protocol service transferred received upload answered pending)
    (message : Message) :
    ∃ answered pending, Ledger protocol service transferred (received ++ message.data)
      (upload.receive protocol message) answered pending := by
  obtain ⟨channel, sent, status⟩ := upload
  have whole : received ++ message.data =
      answered.flatMap Prod.fst ++ (pending ++ message.data) := by
    rw [books.received, List.append_assoc]
  cases channel with
  | none => exact ⟨answered, _, whole, books.answers, books.room, books.state⟩
  | some git =>
      obtain ⟨said, fresh, same, kept, short, counted, within⟩ := books.state
      dsimp only at said fresh
      subst fresh said same kept
      rw [receive_open]
      rcases uploadData_cases protocol git message with
        failed | closed | ⟨room, long, waits | ⟨packets, asked⟩⟩
      · rw [failed]
        exact ⟨answered, _, whole, books.answers, books.room, Or.inr ⟨rfl, rfl⟩⟩
      · rw [closed]
        exact ⟨answered, _, whole, books.answers, books.room, Or.inl ⟨rfl, List.append_nil _⟩⟩
      · rw [waits]
        refine ⟨answered, _, whole, books.answers, books.room, List.append_nil _, rfl, rfl, rfl,
          long, ?_, room⟩
        show git.transferred + message.data.length = _
        rw [counted, List.length_append, Nat.add_assoc]
      · rw [asked]
        rcases answerRequest_cases protocol (git.take message) packets message with
          failed | ⟨response, responded, fits, more⟩
        · rw [failed]
          exact ⟨answered, _, whole, books.answers, books.room, Or.inr ⟨rfl, rfl⟩⟩
        · -- the bytes of the request go to the books with the answer
          have whole' : received ++ message.data =
              (answered ++ [((git.take message).request, response)]).flatMap Prod.fst ++ [] := by
            rw [whole, List.flatMap_append]
            simp [UploadChannel.take]
          have answers : ∀ pair ∈ answered ++ [((git.take message).request, response)],
              pair.1.length ≤ maxRequestBytes ∧
                git.service.respond protocol pair.1 = .ok pair.2 := by
            intro pair member
            rcases List.mem_append.mp member with old | new
            · exact books.answers pair old
            · rw [List.mem_singleton.mp new]
              exact ⟨long, responded⟩
          have same : (git.take message).transferred + response.length = transferred +
              volume (answered ++ [((git.take message).request, response)]) := by
            rw [volume_concat]
            show git.transferred + message.data.length + response.length = transferred +
              (volume answered + ((git.request ++ message.data).length + response.length))
            rw [counted, List.length_append]
            omega
          have said : answered.map Prod.snd ++ [response] =
              (answered ++ [((git.take message).request, response)]).map Prod.snd := by
            rw [List.map_append]
            rfl
          rcases more with closed | open'
          · rw [closed]
            exact ⟨_, _, whole', answers, same ▸ fits, Or.inl ⟨rfl, said⟩⟩
          · rw [open']
            exact ⟨_, _, whole', answers, same ▸ fits, said, rfl, rfl, rfl, Nat.zero_le _, same,
              fits⟩

end Books

end Tit.Ssh
