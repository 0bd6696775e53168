/-
# Sessions.Operations -- runs of the account and login transactions

Any sequence of the account and login transactions, each with any arguments and any
reading of the clock.  A transaction that fails is rolled back.
-/
import Tit.Store.Login
import Tit.Theory.Run

namespace Tit.Sessions

open Tit.Theory Tit.Store

set_option autoImplicit false

inductive Operation where
  | createInitialAdministrator (administrator : InitialAdministrator)
  | createSignupInvitation (codeHash : Hash) (createdAt expiresAt : Int)
  | createAccountWithInvitation (account : InvitedAccount)
  | recoverAccount (recovery : AccountRecovery)
  | addAccountKey (username : String) (key : NewSshKey) (createdAt : Int)
      (actor correlationId : String)
  | revokeAccountKey (username fingerprint : String) (revokedAt : Int)
      (actor correlationId : String)
  | completeAccountKeyAdd (authorization : AccountKeyAuthorization) (key : NewSshKey)
  | completeAccountKeyRevoke (authorization : AccountKeyAuthorization) (fingerprint : String)
  | suspendAccount (username : String) (suspended : Bool) (changedAt : Int)
      (actor correlationId : String)
  | endAccountSessions (username : String) (endedAt : Int)
  | createLoginNonce (nonce : NewLoginNonce)
  | consumeLoginNonce (login : NewWebSession)
  | createLoginApproval (approval : NewLoginApproval)
  | approveLogin (approval : ApproveLogin)
  | consumeLoginApproval (login : NewApprovedWebSession)
  | maintain (cutoff : Int)

def Operation.transact (db : Database) : Operation → Except StoreError Database
  | .createInitialAdministrator administrator => db.createInitialAdministrator administrator
  | .createSignupInvitation codeHash createdAt expiresAt =>
      db.createSignupInvitation codeHash createdAt expiresAt
  | .createAccountWithInvitation account => db.createAccountWithInvitation account
  | .recoverAccount recovery => db.recoverAccount recovery
  | .addAccountKey username key createdAt actor correlationId =>
      db.addAccountKey username key createdAt actor correlationId
  | .revokeAccountKey username fingerprint revokedAt actor correlationId =>
      db.revokeAccountKey username fingerprint revokedAt actor correlationId
  | .completeAccountKeyAdd authorization key => db.completeAccountKeyAdd authorization key
  | .completeAccountKeyRevoke authorization fingerprint =>
      db.completeAccountKeyRevoke authorization fingerprint
  | .suspendAccount username suspended changedAt actor correlationId =>
      db.suspendAccount username suspended changedAt actor correlationId
  | .endAccountSessions username endedAt => db.endAccountSessions username endedAt
  | .createLoginNonce nonce => db.createLoginNonce nonce
  | .consumeLoginNonce login => db.consumeLoginNonce login
  | .createLoginApproval approval => db.createLoginApproval approval
  | .approveLogin approval => db.approveLogin approval
  | .consumeLoginApproval login => (db.consumeLoginApproval login).map (·.1)
  | .maintain cutoff => .ok (db.maintain cutoff)

/-- One transaction, rolled back when it fails. -/
def step (db : Database) (operation : Operation) : Option Database :=
  some (committed db (operation.transact db))

end Tit.Sessions
