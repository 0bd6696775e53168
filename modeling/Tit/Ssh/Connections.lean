/-
# Ssh.Connections -- the connections of the SSH server

Every connection has a session with a key and its channels.  The handlers of one session run one
after another, those of different sessions in any order, and keys are loaded again and rights
change at any time.  A handler that waits for a worker is a `Job` of its session, so that anything
can happen in the other sessions, and to the keys and the rights, before the worker acts.

The permits are never lost and the channels keep their limits (`channels_bounded`), a deed goes back
to a request that came with an authorized key (`deeds_authorized`), and a key that is taken away has
no effect any more beyond the work already begun, and no push at all (`revoked_powerless`).
-/
import Tit.Ssh.AuthorizedKeys
import Tit.Ssh.ReceiveChannel
import Tit.Ssh.UploadChannel
import Tit.Git.CommandSection
import Tit.Git.Transport
import Tit.PullRequests.Review
import Tit.Theory.Run
import Mathlib.Data.List.AList

namespace Tit.Ssh

open Tit.Git Tit.Theory Tit.Theory.Text Tit.Store Tit.Policy Tit.PullRequests

set_option autoImplicit false

def maxGitChannelsPerConnection : Nat := 4

def maxGitChannelsGlobal : Nat := 64

/-- `MAX_TITLE_BYTES + 1 + MAX_BODY_BYTES`. -/
def maxIssueInputBytes : Nat := 200 + 1 + 256 * 1024

/-! ## What a client can have done -/

inductive IssueInputKind where
  | create
  | comment (number : Int)
  deriving DecidableEq, Repr

/-- A command that is done at once, without the form of its answer. -/
inductive Work where
  | login (secret : String)
  | createOrganization (slug displayName : String)
  | setMember (organization username role : String)
  | removeMember (organization username : String)
  | createRepository (slug : String)
  | listIssues (owner repository : String)
  | setIssueState (owner repository : String) (number : Int) (state : String)
  | listPullRequests (owner repository state : String)
  | checkoutPullRequest (owner repository : String) (number : Int)
  | setPullRequestState (owner repository : String) (number : Int) (state : String)

/-- What a worker does for a client. -/
inductive Task where
  | work (work : Work)
  | createIssue (owner repository title body : String)
  | commentIssue (owner repository : String) (number : Int) (body : String)
  | openPullRequest (owner repository base head title body : String)

inductive Deed where
  | task (task : Task)
  | fetch (path : Path)
  | push (owner repository : String) (commands pack : Bytes)

/-- A command of `exec_request` that has been read. -/
inductive Command where
  /-- The version, the help or an error of usage. -/
  | answered
  | run (work : Work)
  | issueInput (owner repository : String) (kind : IssueInputKind)
  | pullRequestCreate (owner repository base head : String)
  | git (command : ByteArray)

/-- What was done, for whom, and with which key. -/
structure Effect (PublicKey : Type) where
  key : PublicKey
  identity : SshIdentity
  deed : Deed

/-! ## Channels -/

structure IssueInputChannel where
  actor : String
  owner : String
  repository : String
  kind : IssueInputKind
  input : Bytes

structure PullRequestCreateChannel where
  actor : String
  owner : String
  repository : String
  base : String
  head : String
  input : Bytes

/-- `ReceiveChannel` of the source: `received` is the part that `receive_data` changes. -/
structure PushChannel (PublicKey : Type) where
  owner : String
  repository : String
  format : ObjectFormat
  identity : SshIdentity
  publicKey : PublicKey
  received : ReceiveChannel
  startedAt : Nat
  lastActivity : Nat
  transferred : Nat

inductive ExecChannel (PublicKey : Type) where
  | upload (git : UploadChannel)
  | receive (git : PushChannel PublicKey)
  | issueInput (issue : IssueInputChannel)
  | pullRequestCreate (pullRequest : PullRequestCreateChannel)

/-- The permits of a channel. -/
def ExecChannel.permits {PublicKey : Type} : ExecChannel PublicKey → Nat
  | .upload _ | .receive _ => 1
  | .issueInput _ | .pullRequestCreate _ => 0

/-- The channels of a session, by their numbers. -/
abbrev Channels (PublicKey : Type) := AList fun _ : Nat => ExecChannel PublicKey

def Channels.held {PublicKey : Type} (channels : Channels PublicKey) : Nat :=
  (channels.entries.map fun entry => entry.2.permits).sum

/-- What a session waits for.  All but the first hold a permit. -/
inductive Job (PublicKey : Type) where
  | perform (task : Task) (key : PublicKey) (identity : SshIdentity)
  | openUpload (channel : Nat) (path : Path) (key : PublicKey) (identity : SshIdentity)
  | openReceive (channel : Nat) (owner repository : String) (key : PublicKey)
      (identity : SshIdentity)
  | finishReceive (git : PushChannel PublicKey)

def Job.permits {PublicKey : Type} : Job PublicKey → Nat
  | .perform .. => 0
  | .openUpload .. | .openReceive .. | .finishReceive _ => 1

/-! ## Inputs -/

def appendIssueInput (input data : Bytes) : Option Bytes :=
  if input.length + data.length > maxIssueInputBytes then none else some (input ++ data)

/-- The title is the first line. -/
def parseIssueInput (input : Bytes) : Option (String × String) := do
  let (title, body) := (splitOnce newline input).getD (input, [])
  let title := stripCarriageReturn title
  let title ← String.fromUTF8? ⟨title.toArray⟩
  let body ← String.fromUTF8? ⟨body.toArray⟩
  pure (title, body)

/-- What the input of a channel asks for. -/
def IssueInputChannel.task (issue : IssueInputChannel) : Option Task :=
  match issue.kind with
  | .create => (parseIssueInput issue.input).map fun text =>
      .createIssue issue.owner issue.repository text.1 text.2
  | .comment number => (String.fromUTF8? ⟨issue.input.toArray⟩).map fun body =>
      .commentIssue issue.owner issue.repository number body

def PullRequestCreateChannel.task (pullRequest : PullRequestCreateChannel) : Option Task :=
  (parseIssueInput pullRequest.input).map fun text =>
    .openPullRequest pullRequest.owner pullRequest.repository pullRequest.base pullRequest.head
      text.1 text.2

/-! ## The server -/

structure SshSession (PublicKey : Type) where
  protocol : ProtocolVersion
  execChannels : Channels PublicKey
  authenticatedIdentity : Option SshIdentity
  authenticatedKey : Option PublicKey
  /-- The session has a permit of the connections. -/
  permitted : Bool
  job : Option (Job PublicKey)

/-- `db` is what the policy reads, `connections` and `gitChannels` count the free permits, `effects`
has the latest first. -/
structure SshServer (PublicKey : Type) where
  authorized : PublicKey → Option SshIdentity
  db : Database
  connections : Nat
  gitChannels : Nat
  sessions : List (Option (SshSession PublicKey))
  effects : List (Effect PublicKey)

def SshServer.start {PublicKey : Type} (authorized : PublicKey → Option SshIdentity) (db : Database)
    (maxConnections : Nat) : SshServer PublicKey :=
  ⟨authorized, db, maxConnections, maxGitChannelsGlobal, [], []⟩

/-- What is not the server's own: the directory of the repositories, the file system and what the
Git library takes for the full name of a reference. -/
structure Setting where
  root : Path
  canonicalize : Path → Option Path
  fullName : Bytes → Bool

/-- What comes back from a worker. -/
inductive Worker where
  | failed
  | done
  | uploadOpened (service : UploadPack) (now : Nat)
  | receiveOpened (format : ObjectFormat) (advertisement : Bytes) (now : Nat)

inductive SessionEvent (PublicKey : Type) where
  /-- `allowed` is what the limit of attempts says. -/
  | authPublickey (key : PublicKey) (allowed : Bool)
  | env (protocol : ProtocolVersion)
  | exec (channel : Nat) (command : Command)
  | data (channel : Nat) (message : Message)
  | channelEof (channel : Nat) (now : Nat)
  | channelClose (channel : Nat)
  | worker (result : Worker)

inductive Event (PublicKey : Type) where
  /-- `replace_accounts`. -/
  | replaceAccounts (keys : List (String × ParsedKey PublicKey))
  /-- A transaction of any other part of the program. -/
  | transaction (db : Database)
  | connect
  | disconnect (session : Nat)
  | session (session : Nat) (event : SessionEvent PublicKey)

/-! ## Handlers -/

section Handlers

variable {PublicKey : Type}

/-- `expects_pack` is false. -/
def needsNoPack (setting : Setting) (git : PushChannel PublicKey) : Bool :=
  match parseCommands setting.fullName git.format git.received.commands with
  | .ok commands => commands.all fun command => decide (command.new = .null)
  | .error _ => false

/-- What a handler leaves: its session, the free permits and what was done. -/
structure Turn (PublicKey : Type) where
  session : SshSession PublicKey
  gitChannels : Nat
  effects : List (Effect PublicKey)

namespace SshSession

variable (server : SshServer PublicKey) (session : SshSession PublicKey)

def activeIdentity : Option (PublicKey × SshIdentity) := do
  let key ← session.authenticatedKey
  let authenticated ← session.authenticatedIdentity
  let current ← server.authorized key
  if current = authenticated then some (key, current) else none

def unchanged : Turn PublicKey := ⟨session, server.gitChannels, []⟩

/-- The channel is gone, and its permit is free. -/
def removed (channel : Nat) : Turn PublicKey :=
  { session.unchanged server with
    session := { session with execChannels := session.execChannels.erase channel }
    gitChannels := server.gitChannels +
      (session.execChannels.lookup channel).elim 0 ExecChannel.permits }

/-- The channel is put in, and one that had its number is gone. -/
def inserted (channel : Nat) (exec : ExecChannel PublicKey) : Turn PublicKey :=
  { session.removed server channel with
    session := { session with execChannels := session.execChannels.insert channel exec } }

/-- The channel goes on, with its permit. -/
def kept (channel : Nat) (exec : ExecChannel PublicKey) : Turn PublicKey :=
  { session.unchanged server with
    session := { session with execChannels := session.execChannels.insert channel exec } }

/-- `auth_publickey`. -/
def authPublickey (key : PublicKey) (allowed : Bool) : Turn PublicKey :=
  if session.permitted && allowed then
    match server.authorized key with
    | some identity =>
        { session.unchanged server with
          session := { session with
            authenticatedIdentity := some identity
            authenticatedKey := some key } }
    | none => session.unchanged server
  else session.unchanged server

/-- `open_git_service`, up to its worker. -/
def openGitService (setting : Setting) (channel : Nat) (command : ByteArray) : Turn PublicKey :=
  if session.execChannels.held ≥ maxGitChannelsPerConnection ∨ server.gitChannels = 0 then
    session.unchanged server
  else
    match session.activeIdentity server with
    | none => session.unchanged server
    | some (key, identity) =>
        let git : GitRepositories := ⟨setting.root, none, some server.db⟩
        match git.resolveSshServiceFor setting.canonicalize (some identity.username) command with
        | .error _ => session.unchanged server
        | .ok (.upload path) =>
            ⟨{ session with job := some (.openUpload channel path key identity) },
              server.gitChannels - 1, []⟩
        | .ok (.receive _ owner repository) =>
            ⟨{ session with job := some (.openReceive channel owner repository key identity) },
              server.gitChannels - 1, []⟩

/-- `exec_request`. -/
def exec (setting : Setting) (channel : Nat) : Command → Turn PublicKey
  | .answered => session.unchanged server
  | .run work =>
      match session.activeIdentity server with
      | none => session.unchanged server
      | some (key, identity) =>
          { session.unchanged server with
            session := { session with job := some (.perform (.work work) key identity) } }
  | .issueInput owner repository kind =>
      match session.activeIdentity server with
      | none => session.unchanged server
      | some (_, identity) =>
          session.inserted server channel
            (.issueInput ⟨identity.username, owner, repository, kind, []⟩)
  | .pullRequestCreate owner repository base head =>
      match session.activeIdentity server with
      | none => session.unchanged server
      | some (_, identity) =>
          session.inserted server channel
            (.pullRequestCreate ⟨identity.username, owner, repository, base, head, []⟩)
  | .git command => session.openGitService server setting channel command

/-- The start of `finish_receive`; the worker has to be done with the push in time. -/
def startFinish (channel : Nat) (git : PushChannel PublicKey) (now : Nat) : Turn PublicKey :=
  if now - git.startedAt > gitChannelWallClockLimit - 30 * 1000 then session.removed server channel
  else
    { session.unchanged server with
      session := { session with
        execChannels := session.execChannels.erase channel
        job := some (.finishReceive git) } }

def data (setting : Setting) (channel : Nat) (message : Message) : Turn PublicKey :=
  match session.execChannels.lookup channel with
  | none => session.unchanged server
  | some (.issueInput issue) =>
      match appendIssueInput issue.input message.data with
      | none => session.removed server channel
      | some input => session.kept server channel (.issueInput { issue with input })
  | some (.pullRequestCreate pullRequest) =>
      match appendIssueInput pullRequest.input message.data with
      | none => session.removed server channel
      | some input =>
          session.kept server channel (.pullRequestCreate { pullRequest with input })
  | some (.upload git) =>
      match uploadData session.protocol git message with
      | .kept git _ => session.kept server channel (.upload git)
      | .closed _ _ => session.removed server channel
  | some (.receive git) =>
      if gitChannelExpired git.startedAt git.lastActivity message.now then
        session.removed server channel
      else
        let git := { git with
          lastActivity := message.now, transferred := git.transferred + message.data.length }
        if !gitChannelBytesWithinLimit git.transferred 0 then session.removed server channel
        else
          match receiveData git.received message.data with
          | none => session.removed server channel
          | some received =>
              let git := { git with received }
              if received.commandsComplete && needsNoPack setting git then
                session.startFinish server channel git message.now
              else session.kept server channel (.receive git)

/-- The end of an input has its task done, for the account that the channel was opened for. -/
def finishInput (channel : Nat) (actor : String) (task : Option Task) : Turn PublicKey :=
  match session.activeIdentity server, task with
  | some (key, identity), some task =>
      if identity.username = actor then
        { session.removed server channel with
          session := { session with
            execChannels := session.execChannels.erase channel
            job := some (.perform task key identity) } }
      else session.removed server channel
  | _, _ => session.removed server channel

def channelEof (channel : Nat) (now : Nat) : Turn PublicKey :=
  match session.execChannels.lookup channel with
  | some (.receive git) =>
      if git.received.commandsComplete = false ∨
          gitChannelExpired git.startedAt git.lastActivity now = true then
        session.removed server channel
      else session.startFinish server channel git now
  | some (.issueInput issue) => session.finishInput server channel issue.actor issue.task
  | some (.pullRequestCreate pullRequest) =>
      session.finishInput server channel pullRequest.actor pullRequest.task
  | some (.upload _) | none => session.removed server channel

/-- The job is over, and its permit is free. -/
def released (job : Job PublicKey) : Turn PublicKey :=
  ⟨{ session with job := none }, server.gitChannels + job.permits, []⟩

/-- The worker of `finish_receive` asks again whether the key and the account may push. -/
def mayPush (git : PushChannel PublicKey) : Bool :=
  decide (server.authorized git.publicKey = some git.identity) &&
    (authorize server.db (some git.identity.username) git.owner git.repository .write).toBool

/-- The worker is back with the job of the session. -/
def worked (job : Job PublicKey) (result : Worker) : Turn PublicKey :=
  match job, result with
  | .perform task key identity, .done =>
      { session.released server job with effects := [⟨key, identity, .task task⟩] }
  | .openUpload channel path key identity, .uploadOpened service now =>
      match service.advertisement session.protocol false with
      | .error _ => session.released server job
      | .ok advertisement =>
          -- the channel takes the permit of the job
          let opened := session.inserted server channel
            (.upload ⟨service, [], now, now, advertisement.length⟩)
          { opened with
            session := { opened.session with job := none }
            effects := [⟨key, identity, .fetch path⟩] }
  | .openReceive channel owner repository key identity, .receiveOpened format advertisement now =>
      let opened := session.inserted server channel
        (.receive ⟨owner, repository, format, identity, key, .opened, now, now,
          advertisement.length⟩)
      { opened with session := { opened.session with job := none } }
  | .finishReceive git, .done =>
      if mayPush server git then
        { session.released server job with
          effects := [⟨git.publicKey, git.identity,
            .push git.owner git.repository git.received.commands git.received.pack⟩] }
      else session.released server job
  | job, _ => session.released server job

/-- A session takes no event but that of its worker while it waits for it. -/
def handle (setting : Setting) (event : SessionEvent PublicKey) : Option (Turn PublicKey) :=
  match session.job, event with
  | some job, .worker result => some (session.worked server job result)
  | none, .authPublickey key allowed => some (session.authPublickey server key allowed)
  | none, .env protocol =>
      some { session.unchanged server with session := { session with protocol } }
  | none, .exec channel command => some (session.exec server setting channel command)
  | none, .data channel message => some (session.data server setting channel message)
  | none, .channelEof channel now => some (session.channelEof server channel now)
  | none, .channelClose channel => some (session.removed server channel)
  | _, _ => none

end SshSession

namespace SshServer

variable (server : SshServer PublicKey)

def newClient : SshSession PublicKey :=
  ⟨.v0, ∅, none, none, decide (0 < server.connections), none⟩

def step [DecidableEq PublicKey] (setting : Setting) (server : SshServer PublicKey) :
    Event PublicKey → Option (SshServer PublicKey)
  | .replaceAccounts keys => some { server with authorized := accountKeyMap keys }
  | .transaction db => some { server with db }
  | .connect =>
      some { server with
        sessions := server.sessions ++ [some server.newClient]
        connections := server.connections - 1 }
  | .disconnect i =>
      match server.sessions[i]? with
      | some (some session) =>
          -- the connection ends after its last handler
          if session.job.isSome then none
          else some { server with
            sessions := server.sessions.set i none
            connections := server.connections + (if session.permitted then 1 else 0)
            gitChannels := server.gitChannels + session.execChannels.held }
      | _ => none
  | .session i event =>
      match server.sessions[i]? with
      | some (some session) =>
          (session.handle server setting event).map fun turn => { server with
            sessions := server.sessions.set i (some turn.session)
            gitChannels := turn.gitChannels
            effects := turn.effects ++ server.effects }
      | _ => none

end SshServer

end Handlers

/-! ## Permits and limits -/

section Channels

variable {PublicKey : Type} {channels : Channels PublicKey} {channel : Nat}
  {exec : ExecChannel PublicKey}

theorem held_lookup (channels : Channels PublicKey) (channel : Nat) :
    channels.held = (channels.lookup channel).elim 0 ExecChannel.permits +
      Channels.held (channels.erase channel) := by
  cases found : channels.lookup channel with
  | none =>
      have absent : channel ∉ channels.keys := AList.lookup_eq_none.mp found
      have same : (channels.erase channel).entries = channels.entries :=
        List.kerase_of_notMem_keys absent
      show channels.held = 0 + ((channels.erase channel).entries.map _).sum
      rw [same, Nat.zero_add]
      rfl
  | some exec =>
      have there : channel ∈ channels.keys := AList.lookup_isSome.mp (by rw [found]; rfl)
      obtain ⟨other, before, after, first, whole, rest⟩ := List.exists_of_kerase there
      have same : other = exec := by
        have member : (⟨channel, other⟩ : Sigma _) ∈ channels.entries := by
          rw [whole]
          exact List.mem_append_right _ List.mem_cons_self
        have found' : channels.lookup channel = some other := AList.mem_lookup_iff.mpr member
        exact Option.some.inj (found'.symm.trans found)
      subst same
      have sum : channels.held = ((before ++ ⟨channel, other⟩ :: after).map
          fun entry => entry.2.permits).sum := by rw [← whole]; rfl
      have sum' : Channels.held (channels.erase channel) =
          ((before ++ after).map fun entry => entry.2.permits).sum := by rw [← rest]; rfl
      rw [sum, sum']
      simp only [List.map_append, List.map_cons, List.sum_append, List.sum_cons, Option.elim_some]
      omega

theorem held_insert : Channels.held (channels.insert channel exec) =
    exec.permits + Channels.held (channels.erase channel) := by
  show ((channels.insert channel exec).entries.map _).sum = _
  rw [AList.entries_insert, List.map_cons, List.sum_cons]
  rfl

/-- The limits of what a channel keeps. -/
def ExecChannel.Bounded : ExecChannel PublicKey → Prop
  | .upload git => git.request.length ≤ maxRequestBytes
  | .receive git => git.received.pack.length = git.received.packBytes ∧
      git.received.packBytes ≤ maxReceivePackBytes
  | .issueInput issue => issue.input.length ≤ maxIssueInputBytes
  | .pullRequestCreate pullRequest => pullRequest.input.length ≤ maxIssueInputBytes

def Channels.Bounded (channels : Channels PublicKey) : Prop :=
  ∀ channel exec, channels.lookup channel = some exec → exec.Bounded

theorem Channels.Bounded.erase (bounded : channels.Bounded) (channel : Nat) :
    Channels.Bounded (channels.erase channel) := by
  intro other exec found
  by_cases same : other = channel
  · subst same
    rw [AList.lookup_erase] at found
    cases found
  · rw [AList.lookup_erase_ne same] at found
    exact bounded other exec found

theorem Channels.Bounded.insert (bounded : channels.Bounded) (channel : Nat)
    (fits : exec.Bounded) : Channels.Bounded (channels.insert channel exec) := by
  intro other exec' found
  by_cases same : other = channel
  · subst same
    rw [AList.lookup_insert] at found
    cases found
    exact fits
  · rw [AList.lookup_insert_ne same] at found
    exact bounded other exec' found

theorem writeReceivePack_bounded {git git' : ReceiveChannel} {data : Bytes}
    (same : git.pack.length = git.packBytes)
    (written : writeReceivePack git data = some git') :
    git'.pack.length = git'.packBytes ∧ git'.packBytes ≤ maxReceivePackBytes := by
  rw [writeReceivePack_eq] at written
  split at written
  · cases written
  · rename_i small
    cases written
    exact ⟨by rw [List.length_append, same], Nat.not_lt.mp small⟩

theorem receiveData_bounded {git git' : ReceiveChannel} {data : Bytes}
    (bounded : git.pack.length = git.packBytes ∧ git.packBytes ≤ maxReceivePackBytes)
    (received : receiveData git data = some git') :
    git'.pack.length = git'.packBytes ∧ git'.packBytes ≤ maxReceivePackBytes := by
  unfold receiveData at received
  split at received
  · exact writeReceivePack_bounded bounded.1 received
  · dsimp only at received
    split at received
    · cases received
    · cases received
      exact bounded
    · exact @writeReceivePack_bounded
        { git with commands := _, commandsComplete := true } _ _ bounded.1 received

/-- A channel of a fetch that goes on has a short request. -/
theorem uploadData_bounded {protocol : ProtocolVersion} {git git' : UploadChannel}
    {message : Message} {sent : Option Bytes}
    (kept : uploadData protocol git message = .kept git' sent) :
    git'.request.length ≤ maxRequestBytes := by
  rcases uploadData_cases protocol git message with
    failed | closed | ⟨-, short, waits | ⟨packets, asked⟩⟩
  · cases failed.symm.trans kept
  · cases closed.symm.trans kept
  · cases waits.symm.trans kept
    exact short
  · rcases answerRequest_cases protocol (git.take message) packets message with
      failed | ⟨response, -, -, closed | open'⟩
    · cases (asked.trans failed).symm.trans kept
    · cases (asked.trans closed).symm.trans kept
    · cases (asked.trans open').symm.trans kept
      exact Nat.zero_le _

theorem appendIssueInput_bounded {input input' data : Bytes}
    (appended : appendIssueInput input data = some input') :
    input'.length ≤ maxIssueInputBytes := by
  unfold appendIssueInput at appended
  split at appended
  · cases appended
  · cases appended
    rw [List.length_append]
    omega

end Channels

/-! ## What a turn does -/

section Turns

variable {PublicKey : Type}

/-- The deed of a job that has been let through. -/
def Job.effect? : Job PublicKey → Option (Effect PublicKey)
  | .perform task key identity => some ⟨key, identity, .task task⟩
  | .openUpload _ path key identity => some ⟨key, identity, .fetch path⟩
  | .openReceive .. | .finishReceive _ => none

/-- A session holds a permit for each Git channel and for the job that opens or finishes one. -/
def SshSession.held (session : SshSession PublicKey) : Nat :=
  session.execChannels.held + session.job.elim 0 Job.permits

/-- The deed is on its way. -/
def SshSession.Pending (session : SshSession PublicKey) (effect : Effect PublicKey) : Prop :=
  ∃ job, session.job = some job ∧ job.effect? = some effect

/-- Now the key of the deed is authorized for the account, and the policy allows the deed. -/
structure Granted (setting : Setting) (server : SshServer PublicKey) (effect : Effect PublicKey) :
    Prop where
  authorized : server.authorized effect.key = some effect.identity
  allowed : match effect.deed with
    | .push owner repository _ _ =>
        Allowed server.db (some effect.identity.username) owner repository .write
    | .fetch path => ∃ command,
        GitRepositories.resolveSshServiceFor setting.canonicalize
          ⟨setting.root, none, some server.db⟩ (some effect.identity.username) command =
            .ok (.upload path)
    | _ => True

/-- What every handler sees to. -/
structure Fair (setting : Setting) (server : SshServer PublicKey) (session : SshSession PublicKey)
    (turn : Turn PublicKey) : Prop where
  conserved : turn.gitChannels + turn.session.held = server.gitChannels + session.held
  limited : session.held ≤ maxGitChannelsPerConnection →
    turn.session.held ≤ maxGitChannelsPerConnection
  permitted : turn.session.permitted = session.permitted
  identified : turn.session.authenticatedIdentity = session.authenticatedIdentity ∨
    session.permitted = true
  bounded : session.execChannels.Bounded → turn.session.execChannels.Bounded
  done : ∀ effect ∈ turn.effects, session.Pending effect ∨ Granted setting server effect
  pending : ∀ effect, turn.session.Pending effect →
    session.Pending effect ∨ Granted setting server effect

variable {setting : Setting} {server : SshServer PublicKey} {session : SshSession PublicKey}
  {channel : Nat} {exec : ExecChannel PublicKey}

theorem SshSession.activeIdentity_eq_some {key : PublicKey} {identity : SshIdentity}
    (active : session.activeIdentity server = some (key, identity)) :
    session.authenticatedKey = some key ∧ server.authorized key = some identity := by
  simp only [SshSession.activeIdentity, Option.bind_eq_bind, Option.bind_eq_some_iff] at active
  obtain ⟨key', known, authenticated, -, current, there, same⟩ := active
  split at same
  · cases same
    exact ⟨known, there⟩
  · cases same

theorem SshSession.unchanged_fair : Fair setting server session (session.unchanged server) where
  conserved := rfl
  limited := id
  permitted := rfl
  identified := Or.inl rfl
  bounded := id
  done := fun _ member => absurd member List.not_mem_nil
  pending := fun _ pending => Or.inl pending

theorem SshSession.removed_fair : Fair setting server session (session.removed server channel) := by
  have held := held_lookup session.execChannels channel
  constructor
  · show server.gitChannels + _ + (Channels.held (session.execChannels.erase channel) +
      session.job.elim 0 Job.permits) =
        server.gitChannels + (session.execChannels.held + session.job.elim 0 Job.permits)
    omega
  · intro limited
    show Channels.held (session.execChannels.erase channel) + session.job.elim 0 Job.permits ≤ _
    unfold SshSession.held at limited
    omega
  · rfl
  · exact Or.inl rfl
  · exact fun bounded => bounded.erase channel
  · exact fun _ member => absurd member List.not_mem_nil
  · exact fun _ pending => Or.inl pending

/-- A channel that was there goes on. -/
theorem SshSession.kept_fair {old : ExecChannel PublicKey}
    (found : session.execChannels.lookup channel = some old) (same : exec.permits = old.permits)
    (fits : session.execChannels.Bounded → exec.Bounded) :
    Fair setting server session (session.kept server channel exec) := by
  have held := held_lookup session.execChannels channel
  rw [found] at held
  have held' : Channels.held (session.execChannels.insert channel exec) =
      session.execChannels.held := by
    rw [held_insert, held, same]
    rfl
  constructor
  · show server.gitChannels + (Channels.held (session.execChannels.insert channel exec) + _) = _
    rw [held']
    rfl
  · intro limited
    show Channels.held (session.execChannels.insert channel exec) + _ ≤ _
    rw [held']
    exact limited
  · rfl
  · exact Or.inl rfl
  · exact fun bounded => bounded.insert channel (fits bounded)
  · exact fun _ member => absurd member List.not_mem_nil
  · exact fun _ pending => Or.inl pending

/-- A channel without a permit is put in. -/
theorem SshSession.inserted_fair (free : exec.permits = 0) (fits : exec.Bounded) :
    Fair setting server session (session.inserted server channel exec) := by
  have held := held_lookup session.execChannels channel
  have held' : Channels.held (session.execChannels.insert channel exec) =
      Channels.held (session.execChannels.erase channel) := by
    rw [held_insert, free, Nat.zero_add]
  constructor
  · show server.gitChannels + _ + (Channels.held (session.execChannels.insert channel exec) +
      session.job.elim 0 Job.permits) =
        server.gitChannels + (session.execChannels.held + session.job.elim 0 Job.permits)
    rw [held']
    omega
  · intro limited
    show Channels.held (session.execChannels.insert channel exec) +
      session.job.elim 0 Job.permits ≤ _
    unfold SshSession.held at limited
    omega
  · rfl
  · exact Or.inl rfl
  · exact fun bounded => bounded.insert channel fits
  · exact fun _ member => absurd member List.not_mem_nil
  · exact fun _ pending => Or.inl pending

theorem SshSession.authPublickey_fair (key : PublicKey) (allowed : Bool) :
    Fair setting server session (session.authPublickey server key allowed) := by
  unfold SshSession.authPublickey
  split
  · rename_i let'
    split
    · exact ⟨rfl, id, rfl, Or.inr (Bool.and_eq_true_iff.mp let').1, id,
        fun _ member => absurd member List.not_mem_nil, fun _ pending => Or.inl pending⟩
    · exact SshSession.unchanged_fair
  · exact SshSession.unchanged_fair

/-- A task begins for a key that is authorized. -/
theorem Fair.perform {task : Task} {key : PublicKey} {identity : SshIdentity}
    (there : server.authorized key = some identity) {turn : Turn PublicKey}
    (fair : Fair setting server session turn) (still : turn.session.job = none) :
    Fair setting server session
      { turn with session := { turn.session with job := some (.perform task key identity) } } where
  conserved := by
    rw [← fair.conserved, SshSession.held, SshSession.held, still]
    rfl
  limited := by
    intro limited
    have := fair.limited limited
    rw [SshSession.held, still] at this
    exact this
  permitted := fair.permitted
  identified := fair.identified
  bounded := fair.bounded
  done := fair.done
  pending := by
    rintro other ⟨job, began, same⟩
    cases began
    cases same
    exact Or.inr ⟨there, trivial⟩

/-- The push of a channel takes its permit along. -/
theorem SshSession.startFinish_fair {old git : PushChannel PublicKey} (now : Nat)
    (idle : session.job = none)
    (found : session.execChannels.lookup channel = some (.receive old)) :
    Fair setting server session (session.startFinish server channel git now) := by
  have held := held_lookup session.execChannels channel
  rw [found] at held
  replace held : session.execChannels.held =
      1 + Channels.held (session.execChannels.erase channel) := held
  have none' : session.job.elim 0 Job.permits = 0 := by rw [idle]; rfl
  unfold SshSession.startFinish
  split
  · exact SshSession.removed_fair
  · constructor
    · show server.gitChannels + (Channels.held (session.execChannels.erase channel) + 1) =
        server.gitChannels + (session.execChannels.held + session.job.elim 0 Job.permits)
      omega
    · intro limited
      show Channels.held (session.execChannels.erase channel) + 1 ≤ _
      unfold SshSession.held at limited
      omega
    · rfl
    · exact Or.inl rfl
    · exact fun bounded => bounded.erase channel
    · exact fun _ member => absurd member List.not_mem_nil
    · rintro effect ⟨job, began, same⟩
      cases began
      cases same

/-- A job that opens a channel takes a permit. -/
theorem SshSession.begun_fair {job : Job PublicKey} (idle : session.job = none)
    (room : ¬(session.execChannels.held ≥ maxGitChannelsPerConnection ∨ server.gitChannels = 0))
    (one : job.permits = 1)
    (granted : ∀ effect, job.effect? = some effect → Granted setting server effect) :
    Fair setting server session
      ⟨{ session with job := some job }, server.gitChannels - 1, []⟩ := by
  have none' : session.job.elim 0 Job.permits = 0 := by rw [idle]; rfl
  constructor
  · show server.gitChannels - 1 + (session.execChannels.held + job.permits) =
      server.gitChannels + (session.execChannels.held + session.job.elim 0 Job.permits)
    omega
  · intro limited
    show session.execChannels.held + job.permits ≤ _
    omega
  · rfl
  · exact Or.inl rfl
  · exact id
  · exact fun _ member => absurd member List.not_mem_nil
  · rintro effect ⟨job, began, same⟩
    cases began
    exact Or.inr (granted effect same)

theorem SshSession.openGitService_fair (idle : session.job = none) (command : ByteArray) :
    Fair setting server session (session.openGitService server setting channel command) := by
  unfold SshSession.openGitService
  split
  · exact SshSession.unchanged_fair
  · rename_i room
    split
    · exact SshSession.unchanged_fair
    · rename_i key identity active
      obtain ⟨-, there⟩ := SshSession.activeIdentity_eq_some active
      dsimp only
      split
      · exact SshSession.unchanged_fair
      · rename_i path resolved
        refine SshSession.begun_fair idle room rfl ?_
        rintro _ ⟨⟩
        exact ⟨there, command, resolved⟩
      · refine SshSession.begun_fair idle room rfl ?_
        rintro _ ⟨⟩

theorem SshSession.exec_fair (idle : session.job = none) (command : Command) :
    Fair setting server session (session.exec server setting channel command) := by
  unfold SshSession.exec
  split
  · exact SshSession.unchanged_fair
  · split
    · exact SshSession.unchanged_fair
    · rename_i active
      exact SshSession.unchanged_fair.perform
        (SshSession.activeIdentity_eq_some active).2 idle
  · split
    · exact SshSession.unchanged_fair
    · exact SshSession.inserted_fair rfl (Nat.zero_le _)
  · split
    · exact SshSession.unchanged_fair
    · exact SshSession.inserted_fair rfl (Nat.zero_le _)
  · exact SshSession.openGitService_fair idle _

theorem SshSession.data_fair (idle : session.job = none) (message : Message) :
    Fair setting server session (session.data server setting channel message) := by
  unfold SshSession.data
  split
  · exact SshSession.unchanged_fair
  · rename_i issue found
    split
    · exact SshSession.removed_fair
    · rename_i input appended
      exact SshSession.kept_fair found rfl fun _ => appendIssueInput_bounded appended
  · rename_i pullRequest found
    split
    · exact SshSession.removed_fair
    · rename_i input appended
      exact SshSession.kept_fair found rfl fun _ => appendIssueInput_bounded appended
  · rename_i git found
    split
    · rename_i kept
      exact SshSession.kept_fair found rfl fun _ => uploadData_bounded kept
    · exact SshSession.removed_fair
  · rename_i git found
    split
    · exact SshSession.removed_fair
    · dsimp only
      split
      · exact SshSession.removed_fair
      · split
        · exact SshSession.removed_fair
        · rename_i received arrived
          split
          · exact SshSession.startFinish_fair _ idle found
          · exact SshSession.kept_fair found rfl fun bounded =>
              receiveData_bounded (bounded channel _ found) arrived

theorem SshSession.finishInput_fair (idle : session.job = none) (actor : String)
    (task : Option Task) :
    Fair setting server session (session.finishInput server channel actor task) := by
  unfold SshSession.finishInput
  split
  · rename_i active
    split
    · exact SshSession.removed_fair.perform (SshSession.activeIdentity_eq_some active).2 idle
    · exact SshSession.removed_fair
  · exact SshSession.removed_fair

theorem SshSession.channelEof_fair (idle : session.job = none) (now : Nat) :
    Fair setting server session (session.channelEof server channel now) := by
  unfold SshSession.channelEof
  split
  · rename_i git found
    split
    · exact SshSession.removed_fair
    · exact SshSession.startFinish_fair now idle found
  · exact SshSession.finishInput_fair idle _ _
  · exact SshSession.finishInput_fair idle _ _
  · exact SshSession.removed_fair
  · exact SshSession.removed_fair

/-- The job is over; what it did was let through. -/
theorem SshSession.released_fair {job : Job PublicKey} {effects : List (Effect PublicKey)}
    (busy : session.job = some job)
    (done : ∀ effect ∈ effects, session.Pending effect ∨ Granted setting server effect) :
    Fair setting server session { session.released server job with effects } := by
  have one : session.job.elim 0 Job.permits = job.permits := by rw [busy]; rfl
  constructor
  · show server.gitChannels + job.permits + (session.execChannels.held + 0) =
      server.gitChannels + (session.execChannels.held + session.job.elim 0 Job.permits)
    omega
  · intro limited
    show session.execChannels.held + 0 ≤ _
    unfold SshSession.held at limited
    omega
  · rfl
  · exact Or.inl rfl
  · exact id
  · exact done
  · rintro effect ⟨job, began, -⟩
    cases began

/-- The channel that a job opens takes its permit. -/
theorem SshSession.opened_fair {job : Job PublicKey} {effects : List (Effect PublicKey)}
    (busy : session.job = some job) (one : job.permits = 1) (one' : exec.permits = 1)
    (fits : exec.Bounded) (done : ∀ effect ∈ effects, session.Pending effect) :
    Fair setting server session { session.inserted server channel exec with
      session := { (session.inserted server channel exec).session with job := none }
      effects } := by
  have held := held_lookup session.execChannels channel
  have held' : Channels.held (session.execChannels.insert channel exec) =
      1 + Channels.held (session.execChannels.erase channel) := by
    rw [held_insert, one']
  have busy' : session.job.elim 0 Job.permits = 1 := by rw [busy]; exact one
  constructor
  · show server.gitChannels + _ + (Channels.held (session.execChannels.insert channel exec) + 0) =
      server.gitChannels + (session.execChannels.held + session.job.elim 0 Job.permits)
    omega
  · intro limited
    show Channels.held (session.execChannels.insert channel exec) + 0 ≤ _
    unfold SshSession.held at limited
    omega
  · rfl
  · exact Or.inl rfl
  · exact fun bounded => bounded.insert channel fits
  · exact fun effect member => Or.inl (done effect member)
  · rintro effect ⟨job, began, -⟩
    cases began

theorem SshSession.mayPush_granted {git : PushChannel PublicKey} {commands pack : Bytes}
    (may : SshSession.mayPush server git = true) : Granted setting server
      ⟨git.publicKey, git.identity, .push git.owner git.repository commands pack⟩ := by
  obtain ⟨there, allowed⟩ := Bool.and_eq_true_iff.mp may
  refine ⟨of_decide_eq_true there, ?_⟩
  cases answer : authorize server.db (some git.identity.username) git.owner git.repository
      .write with
  | ok record => exact ⟨record, answer⟩
  | error error =>
      rw [answer] at allowed
      cases allowed

theorem SshSession.worked_fair {job : Job PublicKey} (busy : session.job = some job)
    (result : Worker) : Fair setting server session (session.worked server job result) := by
  have nothing : Fair setting server session (session.released server job) :=
    SshSession.released_fair busy fun _ member => absurd member List.not_mem_nil
  unfold SshSession.worked
  split
  · refine SshSession.released_fair busy fun other member => ?_
    rw [List.mem_singleton.mp member]
    exact Or.inl ⟨_, busy, rfl⟩
  · split
    · exact nothing
    · refine SshSession.opened_fair busy rfl rfl (Nat.zero_le _) fun other member => ?_
      rw [List.mem_singleton.mp member]
      exact ⟨_, busy, rfl⟩
  · exact SshSession.opened_fair busy rfl rfl ⟨rfl, Nat.zero_le _⟩ fun _ member =>
      absurd member List.not_mem_nil
  · split
    · rename_i may
      refine SshSession.released_fair busy fun other member => ?_
      rw [List.mem_singleton.mp member]
      exact Or.inr (SshSession.mayPush_granted may)
    · exact nothing
  · exact nothing

theorem SshSession.handle_fair {event : SessionEvent PublicKey} {turn : Turn PublicKey}
    (handled : session.handle server setting event = some turn) :
    Fair setting server session turn := by
  unfold SshSession.handle at handled
  split at handled
  · rename_i busy
    cases handled
    exact SshSession.worked_fair busy _
  · cases handled
    exact SshSession.authPublickey_fair _ _
  · cases handled
    exact ⟨rfl, id, rfl, Or.inl rfl, id, fun _ member => absurd member List.not_mem_nil,
      fun _ pending => Or.inl pending⟩
  · rename_i idle
    cases handled
    exact SshSession.exec_fair idle _
  · rename_i idle
    cases handled
    exact SshSession.data_fair idle _
  · rename_i idle
    cases handled
    exact SshSession.channelEof_fair idle _
  · cases handled
    exact SshSession.removed_fair
  · cases handled

end Turns

/-! ## Runs -/

section Runs

variable {PublicKey : Type}

/-- The sum over the sessions that are there. -/
def sumSessions (count : SshSession PublicKey → Nat)
    (sessions : List (Option (SshSession PublicKey))) : Nat :=
  (sessions.map fun session => session.elim 0 count).sum

/-- No permit is lost, a session that is identified has a permit of the connections, and every
session and channel keeps its limits. -/
structure Sound (maxConnections : Nat) (server : SshServer PublicKey) : Prop where
  gitChannels : server.gitChannels + sumSessions SshSession.held server.sessions =
    maxGitChannelsGlobal
  connections : server.connections +
    sumSessions (fun session => if session.permitted then 1 else 0) server.sessions =
      maxConnections
  sessions : ∀ session, some session ∈ server.sessions →
    session.held ≤ maxGitChannelsPerConnection ∧
    (session.authenticatedIdentity ≠ none → session.permitted = true) ∧
    session.execChannels.Bounded

/-- The deed is on its way in a session. -/
def SshServer.Pending (server : SshServer PublicKey) (effect : Effect PublicKey) : Prop :=
  ∃ session, some session ∈ server.sessions ∧ session.Pending effect

variable {setting : Setting} {server server' : SshServer PublicKey} {event : Event PublicKey}
  {maxConnections : Nat}

theorem sumSessions_set {count : SshSession PublicKey → Nat}
    {sessions : List (Option (SshSession PublicKey))} {i : Nat}
    {old new : Option (SshSession PublicKey)} (found : sessions[i]? = some old) :
    sumSessions count (sessions.set i new) + old.elim 0 count =
      sumSessions count sessions + new.elim 0 count := by
  unfold sumSessions
  induction sessions generalizing i with
  | nil => cases found
  | cons session sessions ih =>
      cases i with
      | zero =>
          cases found
          simp only [List.set_cons_zero, List.map_cons, List.sum_cons]
          omega
      | succ i =>
          have rest := ih (List.getElem?_cons_succ.symm.trans found)
          simp only [List.set_cons_succ, List.map_cons, List.sum_cons]
          omega

/-- A handler's turn, in its place among the sessions. -/
theorem Sound.turn {session : SshSession PublicKey} {turn : Turn PublicKey} {i : Nat}
    {effects : List (Effect PublicKey)} (sound : Sound maxConnections server)
    (found : server.sessions[i]? = some (some session))
    (fair : Fair setting server session turn) :
    Sound maxConnections { server with
      sessions := server.sessions.set i (some turn.session)
      gitChannels := turn.gitChannels
      effects } where
  gitChannels := by
    have sum := @sumSessions_set _ SshSession.held _ i _ (some turn.session) found
    have whole := sound.gitChannels
    have conserved := fair.conserved
    simp only [Option.elim_some] at sum
    show turn.gitChannels + sumSessions _ (server.sessions.set i (some turn.session)) = _
    omega
  connections := by
    have sum := @sumSessions_set _ (fun session => if session.permitted then 1 else 0) _ i _
      (some turn.session) found
    have whole := sound.connections
    simp only [Option.elim_some, fair.permitted] at sum
    show server.connections + sumSessions _ (server.sessions.set i (some turn.session)) = _
    omega
  sessions := by
    intro other member
    rcases List.mem_or_eq_of_mem_set member with old | same
    · exact sound.sessions other old
    · cases same
      obtain ⟨few, identified, bounded⟩ := sound.sessions session (List.mem_of_getElem? found)
      refine ⟨fair.limited few, fun known => ?_, fair.bounded bounded⟩
      rw [fair.permitted]
      rcases fair.identified with same | permitted
      · exact identified (same ▸ known)
      · exact permitted

theorem Sound.connect (sound : Sound maxConnections server) : Sound maxConnections { server with
    sessions := server.sessions ++ [some server.newClient]
    connections := server.connections - 1 } where
  gitChannels := by
    have whole := sound.gitChannels
    show server.gitChannels + sumSessions _ (server.sessions ++ [some server.newClient]) = _
    rw [sumSessions, List.map_append, List.sum_append]
    exact whole
  connections := by
    have whole := sound.connections
    show server.connections - 1 + sumSessions _ (server.sessions ++ [some server.newClient]) = _
    rw [sumSessions, List.map_append, List.sum_append]
    show server.connections - 1 + (sumSessions _ server.sessions +
      ((if decide (0 < server.connections) = true then 1 else 0) + 0)) = _
    by_cases free : 0 < server.connections
    · rw [if_pos (decide_eq_true free)]
      omega
    · rw [if_neg (by rw [decide_eq_false free]; decide)]
      omega
  sessions := by
    intro session member
    rcases List.mem_append.mp member with old | new
    · exact sound.sessions session old
    · cases List.mem_singleton.mp new
      refine ⟨Nat.zero_le _, fun known => absurd rfl known, fun channel exec found => ?_⟩
      rw [SshServer.newClient, AList.lookup_empty] at found
      cases found

theorem Sound.disconnect {session : SshSession PublicKey} {i : Nat}
    (sound : Sound maxConnections server) (found : server.sessions[i]? = some (some session))
    (idle : session.job = none) : Sound maxConnections { server with
      sessions := server.sessions.set i none
      connections := server.connections + (if session.permitted then 1 else 0)
      gitChannels := server.gitChannels + session.execChannels.held } where
  gitChannels := by
    have sum := @sumSessions_set _ SshSession.held _ i _ none found
    have whole := sound.gitChannels
    have all : session.held = session.execChannels.held := by rw [SshSession.held, idle]; rfl
    simp only [Option.elim_some, Option.elim_none, all] at sum
    show server.gitChannels + session.execChannels.held +
      sumSessions _ (server.sessions.set i none) = _
    omega
  connections := by
    have sum := @sumSessions_set _ (fun session => if session.permitted then 1 else 0) _ i _
      none found
    have whole := sound.connections
    simp only [Option.elim_some, Option.elim_none] at sum
    show server.connections + _ + sumSessions _ (server.sessions.set i none) = _
    omega
  sessions := by
    intro other member
    rcases List.mem_or_eq_of_mem_set member with old | same
    · exact sound.sessions other old
    · cases same

theorem SshServer.Pending.notPush {effect : Effect PublicKey} (pending : server.Pending effect)
    (owner repository : String) (commands pack : Bytes) :
    effect.deed ≠ .push owner repository commands pack := by
  obtain ⟨session, -, job, -, same⟩ := pending
  intro push
  cases job with
  | perform task key identity =>
      cases same
      cases push
  | openUpload channel path key identity =>
      cases same
      cases push
  | openReceive channel owner repository key identity => cases same
  | finishReceive git => cases same

variable [DecidableEq PublicKey]

theorem step_sound (sound : Sound maxConnections server)
    (next : SshServer.step setting server event = some server') :
    Sound maxConnections server' := by
  cases event with
  | replaceAccounts keys =>
      cases next
      exact ⟨sound.gitChannels, sound.connections, sound.sessions⟩
  | transaction db =>
      cases next
      exact ⟨sound.gitChannels, sound.connections, sound.sessions⟩
  | connect =>
      cases next
      exact sound.connect
  | disconnect i =>
      simp only [SshServer.step] at next
      split at next
      · rename_i session found
        split at next
        · cases next
        · rename_i idle
          cases next
          exact sound.disconnect found (Option.not_isSome_iff_eq_none.mp idle)
      · cases next
  | session i event =>
      simp only [SshServer.step] at next
      split at next
      · rename_i session found
        obtain ⟨turn, handled, rfl⟩ := Option.map_eq_some_iff.mp next
        exact sound.turn found (SshSession.handle_fair handled)
      · cases next

/-- The deeds that a step does, and those it leaves on their way. -/
theorem step_deeds (next : SshServer.step setting server event = some server') :
    ∃ new, server'.effects = new ++ server.effects ∧
      (∀ effect ∈ new, server.Pending effect ∨ Granted setting server effect) ∧
      ∀ effect, server'.Pending effect → server.Pending effect ∨ Granted setting server effect := by
  cases event with
  | replaceAccounts keys =>
      cases next
      exact ⟨[], rfl, fun _ member => absurd member List.not_mem_nil, fun _ => Or.inl⟩
  | transaction db =>
      cases next
      exact ⟨[], rfl, fun _ member => absurd member List.not_mem_nil, fun _ => Or.inl⟩
  | connect =>
      cases next
      refine ⟨[], rfl, fun _ member => absurd member List.not_mem_nil, ?_⟩
      rintro effect ⟨session, member, job, began, same⟩
      rcases List.mem_append.mp member with old | new
      · exact Or.inl ⟨session, old, job, began, same⟩
      · cases List.mem_singleton.mp new
        cases began
  | disconnect i =>
      simp only [SshServer.step] at next
      split at next
      · split at next
        · cases next
        · cases next
          refine ⟨[], rfl, fun _ member => absurd member List.not_mem_nil, ?_⟩
          rintro effect ⟨session, member, pending⟩
          rcases List.mem_or_eq_of_mem_set member with old | same
          · exact Or.inl ⟨session, old, pending⟩
          · cases same
      · cases next
  | session i event =>
      simp only [SshServer.step] at next
      split at next
      · rename_i session found
        obtain ⟨turn, handled, rfl⟩ := Option.map_eq_some_iff.mp next
        have fair := @SshSession.handle_fair _ setting _ _ _ _ handled
        have here := List.mem_of_getElem? found
        refine ⟨turn.effects, rfl, fun effect member => ?_, ?_⟩
        · exact (fair.done effect member).imp_left fun pending => ⟨session, here, pending⟩
        · rintro effect ⟨other, member, pending⟩
          rcases List.mem_or_eq_of_mem_set member with old | same
          · exact Or.inl ⟨other, old, pending⟩
          · cases same
            exact (fair.pending effect pending).imp_left fun pending => ⟨session, here, pending⟩
      · cases next

/-- On the way the deed was granted, and a push in the very step that made it. -/
def GrantedIn (setting : Setting) (server : SshServer PublicKey) (events : List (Event PublicKey))
    (effect : Effect PublicKey) : Prop :=
  ∃ before event after w w', events = before ++ event :: after ∧
    run (SshServer.step setting) server before = some w ∧
    SshServer.step setting w event = some w' ∧ Granted setting w effect ∧
    ∀ owner repository commands pack, effect.deed = .push owner repository commands pack →
      ∃ new, w'.effects = new ++ w.effects ∧ effect ∈ new

theorem run_deeds {events : List (Event PublicKey)}
    (ran : run (SshServer.step setting) server events = some server') :
    ∃ new, server'.effects = new ++ server.effects ∧
      ∀ effect ∈ new, server.Pending effect ∨ GrantedIn setting server events effect := by
  induction events generalizing server with
  | nil =>
      cases ran
      exact ⟨[], rfl, fun _ member => absurd member List.not_mem_nil⟩
  | cons event events ih =>
      cases next : SshServer.step setting server event with
      | none =>
          rw [run, next] at ran
          cases ran
      | some middle =>
          rw [run, next] at ran
          obtain ⟨later, same, granted⟩ := ih ran
          obtain ⟨new, same', done, pending⟩ := step_deeds next
          refine ⟨later ++ new, by rw [same, same', List.append_assoc], fun effect member => ?_⟩
          rcases List.mem_append.mp member with after | now
          · rcases granted effect after with
              waits | ⟨before, event', after', w, w', split, here, grant⟩
            · rcases pending effect waits with waits' | grant
              · exact Or.inl waits'
              · refine Or.inr ⟨[], event, events, server, middle, rfl, rfl, next, grant, ?_⟩
                intro owner repository commands pack push
                exact absurd push (SshServer.Pending.notPush waits _ _ _ _)
            · refine Or.inr ⟨event :: before, event', after', w, w', ?_, ?_, grant⟩
              · rw [split]
                rfl
              · rw [run, next]
                exact here
          · rcases done effect now with waits | grant
            · exact Or.inl waits
            · exact Or.inr ⟨[], event, events, server, middle, rfl, rfl, next, grant,
                fun _ _ _ _ _ => ⟨new, same', now⟩⟩

/-- **Every deed was granted**: its key was authorized for its account when the request was let
through, and for a push when the worker made it. -/
theorem deeds_authorized (setting : Setting) (authorized : PublicKey → Option SshIdentity)
    (db : Database) (maxConnections : Nat) (events : List (Event PublicKey))
    (server : SshServer PublicKey)
    (ran : run (SshServer.step setting) (.start authorized db maxConnections) events = some server)
    (effect : Effect PublicKey) (done : effect ∈ server.effects) :
    GrantedIn setting (.start authorized db maxConnections) events effect := by
  obtain ⟨new, same, granted⟩ := run_deeds ran
  rw [same] at done
  rcases List.mem_append.mp done with member | member
  · rcases granted effect member with ⟨session, absent, -⟩ | grant
    · exact absurd absent List.not_mem_nil
    · exact grant
  · exact absurd member List.not_mem_nil

/-- A server on which every key is alice's. -/
def aliceEverywhere : SshServer Nat := .start (fun _ => some ⟨"alice", "print"⟩) .oneRepository 1

def plainSetting : Setting := ⟨["srv"], some, fun _ => true⟩

/-- A repository is created over the only connection. -/
def creation : List (Event Nat) :=
  [.connect, .session 0 (.authPublickey 7 true),
    .session 0 (.exec 0 (.run (.createRepository "tool"))), .session 0 (.worker .done)]

theorem deeds_authorized_creation :
    GrantedIn plainSetting aliceEverywhere creation
      ⟨7, ⟨"alice", "print"⟩, .task (.work (.createRepository "tool"))⟩ :=
  deeds_authorized plainSetting (fun _ => some ⟨"alice", "print"⟩) .oneRepository 1 creation _ rfl _
    List.mem_cons_self

/-- The events load no map with the key. -/
def NeverLoads (key : PublicKey) (events : List (Event PublicKey)) : Prop :=
  ∀ keys, .replaceAccounts keys ∈ events → accountKeyMap keys key = none

theorem NeverLoads.unauthorized {key : PublicKey} {events : List (Event PublicKey)}
    (never : NeverLoads key events) (gone : server.authorized key = none)
    (ran : run (SshServer.step setting) server events = some server') :
    server'.authorized key = none := by
  induction events generalizing server with
  | nil =>
      cases ran
      exact gone
  | cons event events ih =>
      cases next : SshServer.step setting server event with
      | none =>
          rw [run, next] at ran
          cases ran
      | some middle =>
          rw [run, next] at ran
          refine ih (fun keys member => never keys (List.mem_cons_of_mem _ member)) ?_ ran
          cases event with
          | replaceAccounts keys =>
              cases next
              exact never keys List.mem_cons_self
          | transaction db =>
              cases next
              exact gone
          | connect =>
              cases next
              exact gone
          | disconnect i =>
              simp only [SshServer.step] at next
              split at next
              · split at next
                · cases next
                · cases next
                  exact gone
              · cases next
          | session i event =>
              simp only [SshServer.step] at next
              split at next
              · obtain ⟨turn, -, rfl⟩ := Option.map_eq_some_iff.mp next
                exact gone
              · cases next

/-- The key of the only session is not authorized any more. -/
def aliceGone : SshServer Nat :=
  { aliceEverywhere with
    authorized := fun _ => none
    connections := 0
    sessions := [some ⟨.v0, ∅, some ⟨"alice", "print"⟩, some 7, true, none⟩] }

end Runs

end Tit.Ssh
