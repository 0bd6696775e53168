/-
# Store.Login -- login challenges, approvals and web sessions

The transactions that turn a signed nonce or an SSH approval into a web session,
the look-up of a session, and the periodic deletion of what has expired.
-/
import Tit.Store.Account

namespace Tit.Store

open Tit.Theory

set_option autoImplicit false

structure NewLoginNonce where
  nonceHash : Hash
  csrfHash : Hash
  username : String
  createdAt : Int
  expiresAt : Int

structure NewWebSession where
  nonceHash : Hash
  loginCsrfHash : Hash
  username : String
  fingerprint : String
  sessionHash : Hash
  csrfHash : Hash
  createdAt : Int
  expiresAt : Int
  correlationId : String

structure NewLoginApproval where
  secretHash : Hash
  csrfHash : Hash
  createdAt : Int
  expiresAt : Int
  purpose : ApprovalPurpose
  expectedUsername : Option String

structure ApproveLogin where
  secretHash : Hash
  username : String
  fingerprint : String
  approvedAt : Int

structure NewApprovedWebSession where
  secretHash : Hash
  loginCsrfHash : Hash
  sessionHash : Hash
  csrfHash : Hash
  createdAt : Int
  expiresAt : Int
  correlationId : String

structure WebSessionRecord where
  username : String
  isAdministrator : Bool
  deriving DecidableEq, Repr

namespace Database

/-- The most login challenges, and the most approvals, that may be open at once. -/
def challengeLimit : Nat := 1024

/-! ## Signed nonces -/

def createLoginNonce (db : Database) (nonce : NewLoginNonce) : Except StoreError Database := do
  let loginNonces := db.loginNonces.delete fun n =>
    decide (n.expiresAt < nonce.createdAt ∨ n.consumedAt ≠ none)
  ensure (loginNonces.count (fun _ => true) < challengeLimit) .loginNonceLimit
  let account ← required
    (db.accounts.find fun a => decide (a.username = nonce.username ∧ a.state = .active))
    .loginIdentity
  let loginNonces ← sqlite (loginNonces.insert
    { id := loginNonces.nextRowid, nonceHash := nonce.nonceHash, csrfHash := nonce.csrfHash,
      accountId := account.id, sshPublicKeyId := none, createdAt := nonce.createdAt,
      expiresAt := nonce.expiresAt, consumedAt := none })
  pure { db with loginNonces }

/-- The account and the key that a signed nonce logs in with: the nonce, the account
and the key are each pinned by a `UNIQUE` column. -/
def signedIdentity (db : Database) (login : NewWebSession) : Option (Nat × Nat) := do
  let nonce ← db.loginNonces.find fun n =>
    decide (n.nonceHash = login.nonceHash ∧ n.consumedAt = none ∧
      login.createdAt ≤ n.expiresAt ∧ n.csrfHash = login.loginCsrfHash)
  let account ← db.accounts.find fun a =>
    decide (a.id = nonce.accountId ∧ a.username = login.username ∧ a.state = .active)
  let key ← db.sshPublicKeys.find fun k =>
    decide (k.accountId = account.id ∧ k.fingerprint = login.fingerprint ∧
      k.revokedAt = none ∧ (nonce.sshPublicKeyId = none ∨ nonce.sshPublicKeyId = some k.id))
  pure (account.id, key.id)

def insertWebSession (db : Database) (sessionHash csrfHash : Hash) (accountId keyId : Nat)
    (createdAt expiresAt : Int) : Except StoreError Database := do
  let webSessions ← sqlite (db.webSessions.insert
    { id := db.webSessions.nextRowid, sessionHash, csrfHash, accountId, createdAt, expiresAt,
      endedAt := none, sshPublicKeyId := some keyId })
  pure { db with webSessions }

def consumeLoginNonce (db : Database) (login : NewWebSession) : Except StoreError Database := do
  let (accountId, keyId) ← required (db.signedIdentity login) .invalidLoginChallenge
  let consumed : LoginNonce → Bool := fun n =>
    decide (n.nonceHash = login.nonceHash ∧ n.consumedAt = none)
  let loginNonces ← sqlite (db.loginNonces.update consumed
    fun n => { n with consumedAt := some login.createdAt })
  ensure (db.loginNonces.count consumed = 1) .invalidLoginChallenge
  let db ← { db with loginNonces }.insertWebSession login.sessionHash login.csrfHash accountId
    keyId login.createdAt login.expiresAt
  db.insertAuditEvent
    { action := "login", actor := login.username, target := login.username, outcome := .success,
      correlationId := login.correlationId, createdAt := login.createdAt }

/-! ## Approvals over SSH -/

def createLoginApproval (db : Database) (approval : NewLoginApproval) :
    Except StoreError Database := do
  let sshLoginApprovals := db.sshLoginApprovals.delete fun a =>
    decide (a.expiresAt < approval.createdAt ∨ a.consumedAt ≠ none)
  ensure (sshLoginApprovals.count (fun _ => true) < challengeLimit) .loginNonceLimit
  let expectedAccountId ← approval.expectedUsername.mapM db.activeAccountId
  let sshLoginApprovals ← sqlite (sshLoginApprovals.insert
    { id := sshLoginApprovals.nextRowid, secretHash := approval.secretHash,
      csrfHash := approval.csrfHash, accountId := none, sshPublicKeyId := none,
      createdAt := approval.createdAt, expiresAt := approval.expiresAt, approvedAt := none,
      consumedAt := none, purpose := approval.purpose, expectedAccountId })
  pure { db with sshLoginApprovals }

/-- The account and the key of an SSH identity. -/
def sshIdentity (db : Database) (username fingerprint : String) : Option (Nat × Nat) := do
  let account ← db.accounts.find fun a =>
    decide (a.username = username ∧ a.state = .active)
  let key ← db.sshPublicKeys.find fun k =>
    decide (k.accountId = account.id ∧ k.fingerprint = fingerprint ∧ k.revokedAt = none)
  pure (account.id, key.id)

def approveLogin (db : Database) (approval : ApproveLogin) : Except StoreError Database := do
  let (accountId, keyId) ← required (db.sshIdentity approval.username approval.fingerprint)
    .loginIdentity
  let approved : SshLoginApproval → Bool := fun a =>
    decide (a.secretHash = approval.secretHash ∧ a.accountId = none ∧ a.approvedAt = none ∧
      a.consumedAt = none ∧ approval.approvedAt ≤ a.expiresAt ∧
      (a.expectedAccountId = none ∨ a.expectedAccountId = some accountId))
  let sshLoginApprovals ← sqlite (db.sshLoginApprovals.update approved
    fun a => { a with
      accountId := some accountId, sshPublicKeyId := some keyId,
      approvedAt := some approval.approvedAt })
  ensure (db.sshLoginApprovals.count approved = 1) .invalidLoginApproval
  pure { db with sshLoginApprovals }

/-- The `WHERE` of the approval: one nobody approved yet, or one whose account is
active and whose key is not revoked (a missing row joins as `NULL`). -/
def approvalUsable (db : Database) (login : NewApprovedWebSession) (a : SshLoginApproval) :
    Bool :=
  decide (a.secretHash = login.secretHash ∧ a.csrfHash = login.loginCsrfHash ∧
    a.purpose = .login ∧ a.expectedAccountId = none ∧ a.consumedAt = none ∧
    login.createdAt ≤ a.expiresAt) &&
    (decide (a.accountId = none) ||
      ((db.accounts.any fun account =>
          decide (a.accountId = some account.id ∧ account.state = .active)) &&
        !(db.sshPublicKeys.any fun k =>
          decide (a.sshPublicKeyId = some k.id ∧ k.revokedAt ≠ none))))

def consumeLoginApproval (db : Database) (login : NewApprovedWebSession) :
    Except StoreError (Database × String) := do
  let approval ← required (db.sshLoginApprovals.find (db.approvalUsable login))
    .invalidLoginApproval
  let account ← required
    (db.accounts.find fun account => decide (approval.accountId = some account.id))
    .loginApprovalPending
  let keyId ← required approval.sshPublicKeyId .loginApprovalPending
  ensure (approval.approvedAt ≠ none) .loginApprovalPending
  let consumed : SshLoginApproval → Bool := fun a =>
    decide (a.secretHash = login.secretHash ∧ a.consumedAt = none)
  let sshLoginApprovals ← sqlite (db.sshLoginApprovals.update consumed
    fun a => { a with consumedAt := some login.createdAt })
  ensure (db.sshLoginApprovals.count consumed = 1) .invalidLoginApproval
  let db ← { db with sshLoginApprovals }.insertWebSession login.sessionHash login.csrfHash
    account.id keyId login.createdAt login.expiresAt
  let db ← db.insertAuditEvent
    { action := "login", actor := account.username, target := account.username,
      outcome := .success, correlationId := login.correlationId, createdAt := login.createdAt }
  pure (db, account.username)

/-! ## Sessions -/

/-- The session that a cookie names, and its account; both must still be good. -/
def webSession (db : Database) (sessionHash : Hash) (csrfHash : Option Hash) (now : Int) :
    Except StoreError WebSessionRecord := do
  let session ← required
    (db.webSessions.find fun s =>
      decide (s.sessionHash = sessionHash ∧ s.endedAt = none ∧ now ≤ s.expiresAt ∧
        (csrfHash = none ∨ csrfHash = some s.csrfHash)))
    .invalidSession
  let account ← required
    (db.accounts.find fun a => decide (a.id = session.accountId ∧ a.state = .active))
    .invalidSession
  pure { username := account.username, isAdministrator := account.isAdministrator }

/-- The periodic deletion of expired and ended rows. -/
def maintain (db : Database) (cutoff : Int) : Database :=
  { db with
    signupInvitations := db.signupInvitations.delete fun i => decide (i.expiresAt < cutoff)
    loginNonces := db.loginNonces.delete fun n => decide (n.expiresAt < cutoff)
    sshLoginApprovals := db.sshLoginApprovals.delete fun a => decide (a.expiresAt < cutoff)
    webSessions := db.webSessions.delete fun s =>
      decide (s.expiresAt < cutoff) || s.endedAt.any fun ended => decide (ended < cutoff)
    feedTokens := db.feedTokens.delete fun t =>
      t.revokedAt.any fun revoked => decide (revoked < cutoff)
    auditEvents := db.auditEvents.delete fun e => decide (e.createdAt < cutoff) }

end Database

end Tit.Store
