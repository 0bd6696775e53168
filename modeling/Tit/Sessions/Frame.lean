/-
# Sessions.Frame -- the tables that the account and login transactions leave alone

Every one of them reads and writes the tables of accounts and logins, the namespaces of new
accounts, and the audit history, and no other table.
-/
import Tit.Sessions.Operations

namespace Tit.Sessions

open Tit.Theory Tit.Store

set_option autoImplicit false

/-- `db'` is `db` but for the tables of accounts and logins. -/
def AccountsOnly (db db' : Database) : Prop :=
  db' = { db with
    accounts := db'.accounts
    namespaces := db'.namespaces
    sshPublicKeys := db'.sshPublicKeys
    recoveryCredentials := db'.recoveryCredentials
    signupInvitations := db'.signupInvitations
    loginNonces := db'.loginNonces
    sshLoginApprovals := db'.sshLoginApprovals
    webSessions := db'.webSessions
    feedTokens := db'.feedTokens
    auditEvents := db'.auditEvents }

namespace AccountsOnly

variable {db db₁ db' : Database}

theorem refl (db : Database) : AccountsOnly db db := rfl

theorem trans (first : AccountsOnly db db₁) (second : AccountsOnly db₁ db') :
    AccountsOnly db db' := by
  unfold AccountsOnly at *
  rw [first] at second
  exact second

theorem organizations (only : AccountsOnly db db') : db'.organizations = db.organizations := by
  rw [only]

theorem organizationMembers (only : AccountsOnly db db') :
    db'.organizationMembers = db.organizationMembers := by
  rw [only]

/-! ## Statements -/

theorem insertAuditEvent {event : Database.NewAuditEvent}
    (ok : db.insertAuditEvent event = .ok db') : AccountsOnly db db' := by
  obtain ⟨auditEvents, -, rfl⟩ := Database.insertAuditEvent_eq_ok.mp ok
  rfl

theorem insertAccount {username : String} {isAdministrator : Bool} {createdAt : Int} {id : Nat}
    (ok : db.insertAccount username isAdministrator createdAt = .ok (db', id)) :
    AccountsOnly db db' := by
  obtain ⟨accounts, namespaces, -, rfl, -⟩ := Database.insertAccount_eq_ok ok
  rfl

theorem insertSshKey {accountId : Nat} {key : NewSshKey} {createdAt : Int}
    (ok : db.insertSshKey accountId key createdAt = .ok db') : AccountsOnly db db' := by
  obtain ⟨keys, -, rfl⟩ := Database.insertSshKey_eq_ok.mp ok
  rfl

theorem endSessions {accountId : Nat} {endedAt : Int}
    (ok : db.endSessions accountId endedAt = .ok db') : AccountsOnly db db' := by
  obtain ⟨sessions, -, rfl⟩ := Database.endSessions_eq_ok.mp ok
  rfl

theorem revokeFeedTokens {accountId : Nat} {revokedAt : Int}
    (ok : db.revokeFeedTokens accountId revokedAt = .ok db') : AccountsOnly db db' := by
  obtain ⟨tokens, rfl⟩ := Database.revokeFeedTokens_eq_ok ok
  rfl

theorem insertWebSession {sessionHash csrfHash : Hash} {accountId keyId : Nat}
    {createdAt expiresAt : Int}
    (ok : db.insertWebSession sessionHash csrfHash accountId keyId createdAt expiresAt = .ok db') :
    AccountsOnly db db' := by
  unfold Database.insertWebSession at ok
  obtain ⟨sessions, -, ok⟩ := bind_eq_ok.mp ok
  cases ok
  rfl

theorem reviveOrInsertKey {accountId : Nat} {key : NewSshKey} {createdAt : Int}
    (ok : db.reviveOrInsertKey accountId key createdAt = .ok db') : AccountsOnly db db' := by
  unfold Database.reviveOrInsertKey at ok
  split at ok
  · exact insertSshKey ok
  · split at ok
    · obtain ⟨keys, -, ok⟩ := bind_eq_ok.mp ok
      cases ok
      rfl
    · cases ok

theorem consumeAccountKeyAuthorization {authorization : AccountKeyAuthorization} {id : Nat}
    {keyId : Option Nat}
    (ok : db.consumeAccountKeyAuthorization authorization = .ok (db', id, keyId)) :
    AccountsOnly db db' := by
  unfold Database.consumeAccountKeyAuthorization at ok
  obtain ⟨session, -, ok⟩ := bind_eq_ok.mp ok
  obtain ⟨approval, -, ok⟩ := bind_eq_ok.mp ok
  obtain ⟨_, -, ok⟩ := bind_eq_ok.mp ok
  obtain ⟨approvals, -, ok⟩ := bind_eq_ok.mp ok
  obtain ⟨_, -, ok⟩ := bind_eq_ok.mp ok
  cases ok
  rfl

end AccountsOnly

/-! ## Transactions -/

variable {db db' : Database}

theorem recoverAccount_only {recovery : AccountRecovery}
    (ok : db.recoverAccount recovery = .ok db') : AccountsOnly db db' := by
  simp only [Database.recoverAccount, bind_eq_ok] at ok
  obtain ⟨account, -, keys, -, db₁, revived, credentials, -, db₂, ended, db₃, tokens, audit⟩ := ok
  have first : AccountsOnly db { db with sshPublicKeys := keys } := rfl
  have second : AccountsOnly db₁ { db₁ with recoveryCredentials := credentials } := rfl
  exact first.trans ((AccountsOnly.reviveOrInsertKey revived).trans (second.trans
    ((AccountsOnly.endSessions ended).trans ((AccountsOnly.revokeFeedTokens tokens).trans
      (AccountsOnly.insertAuditEvent audit)))))

theorem completeAccountKeyRevoke_only {authorization : AccountKeyAuthorization}
    {fingerprint : String} (ok : db.completeAccountKeyRevoke authorization fingerprint = .ok db') :
    AccountsOnly db db' := by
  simp only [Database.completeAccountKeyRevoke, bind_eq_ok] at ok
  obtain ⟨⟨db₁, accountId, keyId⟩, consumed, _, -, key, -, keys, -, _, -, ok⟩ := ok
  have first := AccountsOnly.consumeAccountKeyAuthorization consumed
  have second : AccountsOnly db₁ { db₁ with sshPublicKeys := keys } := rfl
  split at ok
  · obtain ⟨db₂, ended, audit⟩ := bind_eq_ok.mp ok
    exact first.trans (second.trans ((AccountsOnly.endSessions ended).trans
      (AccountsOnly.insertAuditEvent audit)))
  · obtain ⟨db₂, same, audit⟩ := bind_eq_ok.mp ok
    cases same
    exact first.trans (second.trans (AccountsOnly.insertAuditEvent audit))

theorem suspendAccount_only {username : String} {suspended : Bool} {changedAt : Int}
    {actor correlationId : String}
    (ok : db.suspendAccount username suspended changedAt actor correlationId = .ok db') :
    AccountsOnly db db' := by
  simp only [Database.suspendAccount, bind_eq_ok] at ok
  obtain ⟨accounts, -, _, -, account, -, db₁, ended, ok⟩ := ok
  have first : AccountsOnly db { db with accounts } := rfl
  have second := first.trans (AccountsOnly.endSessions ended)
  split at ok
  · obtain ⟨db₂, tokens, audit⟩ := bind_eq_ok.mp ok
    exact second.trans ((AccountsOnly.revokeFeedTokens tokens).trans
      (AccountsOnly.insertAuditEvent audit))
  · obtain ⟨db₂, same, audit⟩ := bind_eq_ok.mp ok
    cases same
    exact second.trans (AccountsOnly.insertAuditEvent audit)

/-- **The account and login transactions leave the other tables alone.** -/
theorem transact_accountsOnly (operation : Operation)
    (ok : operation.transact db = .ok db') : AccountsOnly db db' := by
  cases operation with
  | createInitialAdministrator administrator =>
      simp only [Operation.transact, Database.createInitialAdministrator, bind_eq_ok,
        sqlite_eq_ok, pure_eq_ok, Except.ok.injEq] at ok
      obtain ⟨_, -, ⟨db₁, id⟩, created, keys, -, credentials, -, rfl⟩ := ok
      exact (AccountsOnly.insertAccount created).trans rfl
  | createSignupInvitation codeHash createdAt expiresAt =>
      simp only [Operation.transact, Database.createSignupInvitation, bind_eq_ok,
        pure_eq_ok, Except.ok.injEq] at ok
      obtain ⟨invitations, -, rfl⟩ := ok
      rfl
  | createAccountWithInvitation account =>
      simp only [Operation.transact, Database.createAccountWithInvitation, bind_eq_ok,
        uniqueAs_eq_ok] at ok
      obtain ⟨invitations, -, _, -, ⟨db₁, id⟩, created, db₂, key, credentials, -, audit⟩ := ok
      have first : AccountsOnly db { db with signupInvitations := invitations } := rfl
      have second : AccountsOnly db₂ { db₂ with recoveryCredentials := credentials } := rfl
      exact first.trans ((AccountsOnly.insertAccount created).trans
        ((AccountsOnly.insertSshKey key).trans (second.trans
          (AccountsOnly.insertAuditEvent audit))))
  | recoverAccount recovery => exact recoverAccount_only ok
  | addAccountKey username key createdAt actor correlationId =>
      simp only [Operation.transact, Database.addAccountKey, bind_eq_ok] at ok
      obtain ⟨id, -, db₁, inserted, db₂, ended, audit⟩ := ok
      exact (AccountsOnly.insertSshKey inserted).trans ((AccountsOnly.endSessions ended).trans
        (AccountsOnly.insertAuditEvent audit))
  | revokeAccountKey username fingerprint revokedAt actor correlationId =>
      simp only [Operation.transact, Database.revokeAccountKey, bind_eq_ok] at ok
      obtain ⟨id, -, _, -, keys, -, _, -, db₁, ended, audit⟩ := ok
      have first : AccountsOnly db { db with sshPublicKeys := keys } := rfl
      exact first.trans ((AccountsOnly.endSessions ended).trans
        (AccountsOnly.insertAuditEvent audit))
  | completeAccountKeyAdd authorization key =>
      simp only [Operation.transact, Database.completeAccountKeyAdd, bind_eq_ok] at ok
      obtain ⟨⟨db₁, id, keyId⟩, consumed, _, -, db₂, inserted, audit⟩ := ok
      exact (AccountsOnly.consumeAccountKeyAuthorization consumed).trans
        ((AccountsOnly.insertSshKey inserted).trans (AccountsOnly.insertAuditEvent audit))
  | completeAccountKeyRevoke authorization fingerprint => exact completeAccountKeyRevoke_only ok
  | suspendAccount username suspended changedAt actor correlationId =>
      exact suspendAccount_only ok
  | endAccountSessions username endedAt =>
      simp only [Operation.transact, Database.endAccountSessions, bind_eq_ok] at ok
      obtain ⟨account, -, ended⟩ := ok
      exact AccountsOnly.endSessions ended
  | createLoginNonce nonce =>
      simp only [Operation.transact, Database.createLoginNonce, bind_eq_ok, pure_eq_ok,
        Except.ok.injEq] at ok
      obtain ⟨_, -, account, -, nonces, -, rfl⟩ := ok
      rfl
  | consumeLoginNonce login =>
      simp only [Operation.transact, Database.consumeLoginNonce, bind_eq_ok] at ok
      obtain ⟨⟨id, keyId⟩, -, nonces, -, _, -, db₁, session, audit⟩ := ok
      have first : AccountsOnly db { db with loginNonces := nonces } := rfl
      exact first.trans ((AccountsOnly.insertWebSession session).trans
        (AccountsOnly.insertAuditEvent audit))
  | createLoginApproval approval =>
      simp only [Operation.transact, Database.createLoginApproval, bind_eq_ok, pure_eq_ok,
        Except.ok.injEq] at ok
      obtain ⟨_, -, expected, -, approvals, -, rfl⟩ := ok
      rfl
  | approveLogin approval =>
      simp only [Operation.transact, Database.approveLogin, bind_eq_ok, pure_eq_ok,
        Except.ok.injEq] at ok
      obtain ⟨⟨id, keyId⟩, -, approvals, -, _, -, rfl⟩ := ok
      rfl
  | consumeLoginApproval login =>
      obtain ⟨⟨db₁, username⟩, consumed, rfl⟩ := map_eq_ok.mp ok
      simp only [Database.consumeLoginApproval, bind_eq_ok, pure_eq_ok, Except.ok.injEq,
        Prod.mk.injEq] at consumed
      obtain ⟨approval, -, account, -, keyId, -, _, -, approvals, -, _, -, db₂, session, db₃,
        audit, rfl, rfl⟩ := consumed
      have first : AccountsOnly db { db with sshLoginApprovals := approvals } := rfl
      exact first.trans ((AccountsOnly.insertWebSession session).trans
        (AccountsOnly.insertAuditEvent audit))
  | maintain cutoff =>
      cases ok
      rfl

end Tit.Sessions
