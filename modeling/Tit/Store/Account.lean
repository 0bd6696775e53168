/-
# Store.Account -- accounts, their keys and their sessions

The transactions on accounts and SSH keys.  Each is a function from the database to
the database it commits; a transaction that fails is rolled back and leaves no
database.
-/
import Tit.Store.Database

namespace Tit.Store

open Tit.Theory

set_option autoImplicit false

structure NewSshKey where
  canonicalKey : String
  fingerprint : String
  label : String

structure InitialAdministrator where
  username : String
  canonicalKey : String
  fingerprint : String
  recoveryHash : Hash
  createdAt : Int

structure InvitedAccount where
  invitationHash : Hash
  username : String
  key : NewSshKey
  recoveryHash : Hash
  createdAt : Int
  correlationId : String

structure AccountRecovery where
  username : String
  oldRecoveryHash : Hash
  newRecoveryHash : Hash
  key : NewSshKey
  createdAt : Int
  correlationId : String

/-- A change of keys that a web session asks for and an SSH approval confirms. -/
structure AccountKeyAuthorization where
  sessionHash : Hash
  csrfHash : Hash
  secretHash : Hash
  username : String
  changedAt : Int
  correlationId : String

namespace Database

/-! ## Statements that several transactions share -/

/-- `INSERT INTO account`, and the trigger that gives the account its namespace. -/
def insertAccount (db : Database) (username : String) (isAdministrator : Bool)
    (createdAt : Int) : Except Constraint (Database × Nat) := do
  let id := db.accounts.nextRowid
  let accounts ← db.accounts.insert
    { id, username, isAdministrator, state := .active, createdAt }
  let namespaces ← db.namespaces.insert
    { id := db.namespaces.nextRowid, slug := username, kind := .account, accountId := some id,
      createdAt }
  pure ({ db with accounts, namespaces }, id)

/-- The row `insert_ssh_key` adds. -/
def sshKeyRow (db : Database) (accountId : Nat) (key : NewSshKey) (createdAt : Int) :
    SshPublicKey where
  id := db.sshPublicKeys.nextRowid
  accountId := accountId
  canonicalKey := key.canonicalKey
  fingerprint := key.fingerprint
  createdAt := createdAt
  label := key.label
  revokedAt := none

def insertSshKey (db : Database) (accountId : Nat) (key : NewSshKey) (createdAt : Int) :
    Except StoreError Database := do
  let sshPublicKeys ← uniqueAs .keyExists
    (db.sshPublicKeys.insert (db.sshKeyRow accountId key createdAt))
  pure { db with sshPublicKeys }

def activeAccountId (db : Database) (username : String) : Except StoreError Nat := do
  let account ← required
    (db.accounts.find fun a => decide (a.username = username ∧ a.state = .active))
    (.accountNotFound username)
  pure account.id

def endSessions (db : Database) (accountId : Nat) (endedAt : Int) :
    Except StoreError Database := do
  let webSessions ← sqlite (db.webSessions.update
    (fun s => decide (s.accountId = accountId ∧ s.endedAt = none))
    fun s => { s with endedAt := some endedAt })
  pure { db with webSessions }

def revokeFeedTokens (db : Database) (accountId : Nat) (revokedAt : Int) :
    Except StoreError Database := do
  let feedTokens ← sqlite (db.feedTokens.update
    (fun t => decide (t.accountId = accountId ∧ t.revokedAt = none))
    fun t => { t with revokedAt := some revokedAt })
  pure { db with feedTokens }

/-- `SELECT count(*) … WHERE account_id = ? AND revoked_at IS NULL`. -/
def activeKeys (db : Database) (accountId : Nat) : Nat :=
  db.sshPublicKeys.count fun k => decide (k.accountId = accountId ∧ k.revokedAt = none)

theorem insertAccount_eq_ok {db db' : Database} {username : String} {isAdministrator : Bool}
    {createdAt : Int} {id : Nat} :
    db.insertAccount username isAdministrator createdAt = .ok (db', id) →
      ∃ accounts namespaces,
        db.accounts.insert
            { id := db.accounts.nextRowid, username, isAdministrator, state := .active, createdAt }
          = .ok accounts ∧
        db' = { db with accounts, namespaces } ∧ id = db.accounts.nextRowid := by
  unfold insertAccount
  simp only [bind_eq_ok, pure_eq_ok, Except.ok.injEq, Prod.mk.injEq]
  rintro ⟨accounts, inserted, namespaces, -, rfl, rfl⟩
  exact ⟨accounts, namespaces, inserted, rfl, rfl⟩

theorem insertSshKey_eq_ok {db db' : Database} {accountId : Nat} {key : NewSshKey}
    {createdAt : Int} :
    db.insertSshKey accountId key createdAt = .ok db' ↔
      ∃ sshPublicKeys,
        db.sshPublicKeys.insert (db.sshKeyRow accountId key createdAt) = .ok sshPublicKeys ∧
        db' = { db with sshPublicKeys } := by
  unfold insertSshKey
  simp only [bind_eq_ok, uniqueAs_eq_ok, pure_eq_ok, Except.ok.injEq]
  exact exists_congr fun _ => and_congr_right fun _ => eq_comm

theorem activeAccountId_eq_ok {db : Database} {username : String} {id : Nat} :
    db.activeAccountId username = .ok id →
      ∃ a ∈ db.accounts, a.username = username ∧ a.state = .active ∧ a.id = id := by
  unfold activeAccountId
  simp only [bind_eq_ok, required_eq_ok, pure_eq_ok, Except.ok.injEq]
  rintro ⟨a, found, rfl⟩
  obtain ⟨member, named⟩ := Table.mem_of_find found
  simp only [decide_eq_true_eq] at named
  exact ⟨a, member, named.1, named.2, rfl⟩

theorem endSessions_eq_ok {db db' : Database} {accountId : Nat} {endedAt : Int} :
    db.endSessions accountId endedAt = .ok db' ↔
      ∃ webSessions,
        db.webSessions.update (fun s => decide (s.accountId = accountId ∧ s.endedAt = none))
          (fun s => { s with endedAt := some endedAt }) = .ok webSessions ∧
        db' = { db with webSessions } := by
  unfold endSessions
  simp only [bind_eq_ok, sqlite_eq_ok, pure_eq_ok, Except.ok.injEq]
  exact exists_congr fun _ => and_congr_right fun _ => eq_comm

theorem revokeFeedTokens_eq_ok {db db' : Database} {accountId : Nat} {revokedAt : Int} :
    db.revokeFeedTokens accountId revokedAt = .ok db' →
      ∃ feedTokens, db' = { db with feedTokens } := by
  unfold revokeFeedTokens
  simp only [bind_eq_ok, sqlite_eq_ok, pure_eq_ok, Except.ok.injEq]
  rintro ⟨feedTokens, -, rfl⟩
  exact ⟨feedTokens, rfl⟩

/-! ## New accounts -/

def createInitialAdministrator (db : Database) (administrator : InitialAdministrator) :
    Except StoreError Database := do
  ensure (db.accounts.count (fun _ => true) = 0) .alreadyInitialized
  let (db, accountId) ← sqlite
    (db.insertAccount administrator.username true administrator.createdAt)
  let key : NewSshKey :=
    { canonicalKey := administrator.canonicalKey, fingerprint := administrator.fingerprint,
      label := "initial" }
  let sshPublicKeys ← sqlite
    (db.sshPublicKeys.insert (db.sshKeyRow accountId key administrator.createdAt))
  let recoveryCredentials ← sqlite (db.recoveryCredentials.insert
    { accountId, credentialHash := administrator.recoveryHash,
      createdAt := administrator.createdAt })
  pure { db with sshPublicKeys, recoveryCredentials }

def createSignupInvitation (db : Database) (codeHash : Hash) (createdAt expiresAt : Int) :
    Except StoreError Database := do
  let signupInvitations ← sqlite (db.signupInvitations.insert
    { id := db.signupInvitations.nextRowid, codeHash, createdAt, expiresAt, consumedAt := none })
  pure { db with signupInvitations }

def createAccountWithInvitation (db : Database) (account : InvitedAccount) :
    Except StoreError Database := do
  let usable : SignupInvitation → Bool := fun i =>
    decide (i.codeHash = account.invitationHash ∧ i.consumedAt = none ∧
      account.createdAt ≤ i.expiresAt)
  let signupInvitations ← sqlite (db.signupInvitations.update usable
    fun i => { i with consumedAt := some account.createdAt })
  ensure (db.signupInvitations.count usable = 1) .invalidInvitation
  let db := { db with signupInvitations }
  let (db, accountId) ← uniqueAs (.usernameUnavailable account.username)
    (db.insertAccount account.username false account.createdAt)
  let db ← db.insertSshKey accountId account.key account.createdAt
  let recoveryCredentials ← sqlite (db.recoveryCredentials.insert
    { accountId, credentialHash := account.recoveryHash, createdAt := account.createdAt })
  { db with recoveryCredentials }.insertAuditEvent
    { action := "account.signup", actor := account.username, target := account.username,
      outcome := .success, correlationId := account.correlationId,
      createdAt := account.createdAt }

/-! ## Recovery -/

/-- The key a recovery leaves: a key the account already has is revived under its
new text and label. -/
def reviveOrInsertKey (db : Database) (accountId : Nat) (key : NewSshKey) (createdAt : Int) :
    Except StoreError Database :=
  match db.sshPublicKeys.find fun k => decide (k.fingerprint = key.fingerprint) with
  | none => db.insertSshKey accountId key createdAt
  | some existing =>
      if existing.accountId = accountId then do
        let sshPublicKeys ← sqlite (db.sshPublicKeys.update
          (fun k => decide (k.accountId = accountId ∧ k.fingerprint = key.fingerprint))
          fun k => { k with
            canonicalKey := key.canonicalKey, label := key.label, revokedAt := none })
        pure { db with sshPublicKeys }
      else .error .keyExists

def recoverAccount (db : Database) (recovery : AccountRecovery) :
    Except StoreError Database := do
  let account ← required
    (db.accounts.find fun a =>
      decide (a.username = recovery.username ∧ a.state = .active) &&
        db.recoveryCredentials.any fun c =>
          decide (c.accountId = a.id ∧ c.credentialHash = recovery.oldRecoveryHash))
    .invalidRecovery
  let sshPublicKeys ← sqlite (db.sshPublicKeys.update
    (fun k => decide (k.accountId = account.id ∧ k.revokedAt = none))
    fun k => { k with revokedAt := some recovery.createdAt })
  let db := { db with sshPublicKeys }
  let db ← db.reviveOrInsertKey account.id recovery.key recovery.createdAt
  let recoveryCredentials ← sqlite (db.recoveryCredentials.update
    (fun c => decide (c.accountId = account.id))
    fun c => { c with
      credentialHash := recovery.newRecoveryHash, createdAt := recovery.createdAt })
  let db := { db with recoveryCredentials }
  let db ← db.endSessions account.id recovery.createdAt
  let db ← db.revokeFeedTokens account.id recovery.createdAt
  db.insertAuditEvent
    { action := "account.recover", actor := recovery.username, target := recovery.username,
      outcome := .success, correlationId := recovery.correlationId,
      createdAt := recovery.createdAt }

/-! ## Keys changed by an administrator -/

def addAccountKey (db : Database) (username : String) (key : NewSshKey) (createdAt : Int)
    (actor correlationId : String) : Except StoreError Database := do
  let accountId ← db.activeAccountId username
  let db ← db.insertSshKey accountId key createdAt
  let db ← db.endSessions accountId createdAt
  db.insertAuditEvent
    { action := "key.add", actor, target := username ++ ":" ++ key.fingerprint,
      outcome := .success, correlationId, createdAt }

def revokeAccountKey (db : Database) (username fingerprint : String) (revokedAt : Int)
    (actor correlationId : String) : Except StoreError Database := do
  let accountId ← db.activeAccountId username
  ensure (1 < db.activeKeys accountId) .lastKey
  let revoked : SshPublicKey → Bool := fun k =>
    decide (k.accountId = accountId ∧ k.fingerprint = fingerprint ∧ k.revokedAt = none)
  let sshPublicKeys ← sqlite (db.sshPublicKeys.update revoked
    fun k => { k with revokedAt := some revokedAt })
  ensure (db.sshPublicKeys.count revoked = 1) .keyNotFound
  let db ← { db with sshPublicKeys }.endSessions accountId revokedAt
  db.insertAuditEvent
    { action := "key.revoke", actor, target := username ++ ":" ++ fingerprint,
      outcome := .success, correlationId, createdAt := revokedAt }

/-! ## Keys changed by their owner -/

/-- The session of the request, when it is still good. -/
def authorizationSession (db : Database) (authorization : AccountKeyAuthorization) :
    Option WebSession :=
  db.webSessions.find fun s =>
    decide (s.sessionHash = authorization.sessionHash ∧ s.csrfHash = authorization.csrfHash ∧
      s.endedAt = none ∧ authorization.changedAt ≤ s.expiresAt) &&
      db.accounts.any fun a =>
        decide (a.id = s.accountId ∧ a.username = authorization.username ∧ a.state = .active)

/-- The approval of a key change by this account. -/
def keyApproval (db : Database) (authorization : AccountKeyAuthorization) (accountId : Nat) :
    Option SshLoginApproval :=
  db.sshLoginApprovals.find fun a =>
    decide (a.secretHash = authorization.secretHash ∧ a.csrfHash = authorization.csrfHash ∧
      a.purpose = .accountKey ∧ a.expectedAccountId = some accountId ∧
      a.accountId = some accountId ∧ a.approvedAt ≠ none ∧ a.consumedAt = none ∧
      authorization.changedAt ≤ a.expiresAt) &&
      db.sshPublicKeys.any fun k => decide (a.sshPublicKeyId = some k.id ∧ k.revokedAt = none)

/-- The account and the key of the session, once the approval is consumed. -/
def consumeAccountKeyAuthorization (db : Database) (authorization : AccountKeyAuthorization) :
    Except StoreError (Database × Nat × Option Nat) := do
  let session ← required (db.authorizationSession authorization) .invalidSession
  let approval ← required (db.keyApproval authorization session.accountId) .invalidLoginApproval
  ensure (approval.accountId = some session.accountId) .invalidLoginApproval
  let consumed : SshLoginApproval → Bool := fun a =>
    decide (a.secretHash = authorization.secretHash ∧ a.consumedAt = none)
  let sshLoginApprovals ← sqlite (db.sshLoginApprovals.update consumed
    fun a => { a with consumedAt := some authorization.changedAt })
  ensure (db.sshLoginApprovals.count consumed = 1) .invalidLoginApproval
  pure ({ db with sshLoginApprovals }, session.accountId, session.sshPublicKeyId)

def completeAccountKeyAdd (db : Database) (authorization : AccountKeyAuthorization)
    (key : NewSshKey) : Except StoreError Database := do
  let (db, accountId, _) ← db.consumeAccountKeyAuthorization authorization
  ensure (¬db.sshPublicKeys.any fun k =>
    decide (k.accountId = accountId ∧ k.label = key.label ∧ k.revokedAt = none)) .keyExists
  let db ← db.insertSshKey accountId key authorization.changedAt
  db.insertAuditEvent
    { action := "key.add", actor := authorization.username,
      target := authorization.username ++ ":" ++ key.fingerprint, outcome := .success,
      correlationId := authorization.correlationId, createdAt := authorization.changedAt }

def completeAccountKeyRevoke (db : Database) (authorization : AccountKeyAuthorization)
    (fingerprint : String) : Except StoreError Database := do
  let (db, accountId, sessionKeyId) ← db.consumeAccountKeyAuthorization authorization
  ensure (1 < db.activeKeys accountId) .lastKey
  let key ← required
    (db.sshPublicKeys.find fun k =>
      decide (k.accountId = accountId ∧ k.fingerprint = fingerprint ∧ k.revokedAt = none))
    .keyNotFound
  let revoked : SshPublicKey → Bool := fun k =>
    decide (k.id = key.id ∧ k.accountId = accountId ∧ k.revokedAt = none)
  let sshPublicKeys ← sqlite (db.sshPublicKeys.update revoked
    fun k => { k with revokedAt := some authorization.changedAt })
  ensure (db.sshPublicKeys.count revoked = 1) .keyNotFound
  let db := { db with sshPublicKeys }
  -- only a session without a recorded key, or with the revoked one, ends the sessions
  let db ←
    if sessionKeyId = none ∨ sessionKeyId = some key.id then
      db.endSessions accountId authorization.changedAt
    else pure db
  db.insertAuditEvent
    { action := "key.revoke", actor := authorization.username,
      target := authorization.username ++ ":" ++ fingerprint, outcome := .success,
      correlationId := authorization.correlationId, createdAt := authorization.changedAt }

/-! ## Suspension and the end of sessions -/

def suspendAccount (db : Database) (username : String) (suspended : Bool) (changedAt : Int)
    (actor correlationId : String) : Except StoreError Database := do
  let named : Account → Bool := fun a => decide (a.username = username)
  let accounts ← sqlite (db.accounts.update named
    fun a => { a with state := if suspended then .suspended else .active })
  ensure (db.accounts.count named = 1) (.accountNotFound username)
  let db := { db with accounts }
  let account ← required (db.accounts.find named) .noRows
  let db ← db.endSessions account.id changedAt
  let db ← if suspended then db.revokeFeedTokens account.id changedAt else pure db
  db.insertAuditEvent
    { action := if suspended then "account.suspend" else "account.resume", actor,
      target := username, outcome := .success, correlationId, createdAt := changedAt }

def endAccountSessions (db : Database) (username : String) (endedAt : Int) :
    Except StoreError Database := do
  let account ← required (db.accounts.find fun a => decide (a.username = username))
    (.accountNotFound username)
  db.endSessions account.id endedAt

end Database

end Tit.Store
