/-
# Sessions.Effects -- what the transactions do to credentials

Most statements of the account and login transactions are quiet: they leave invitations, nonces,
approvals and recovery credentials alone, keep the name of every account and the owner and the
fingerprint of every key, and make no session.  Each transaction that is not quiet is read back here
as the one or two statements that are not, with quiet ones around them.
-/
import Tit.Sessions.Keyed

namespace Tit.Sessions

open Tit.Theory Tit.Store

set_option autoImplicit false

/-- Nothing happens to credentials, names and sessions. -/
structure Quiet (db db' : Database) : Prop where
  invitations : db'.signupInvitations = db.signupInvitations
  nonces : db'.loginNonces = db.loginNonces
  approvals : db'.sshLoginApprovals = db.sshLoginApprovals
  credentials : db'.recoveryCredentials = db.recoveryCredentials
  named : ∀ a ∈ db.accounts, ∃ a' ∈ db'.accounts, a'.id = a.id ∧ a'.username = a.username
  owned : ∀ k ∈ db.sshPublicKeys, ∃ k' ∈ db'.sshPublicKeys,
    k'.id = k.id ∧ k'.accountId = k.accountId ∧ k'.fingerprint = k.fingerprint
  sessions : ∀ s ∈ db'.webSessions, ∃ t ∈ db.webSessions, t.id = s.id

namespace Quiet

variable {db db₁ db' : Database}

theorem trans (first : Quiet db db₁) (second : Quiet db₁ db') : Quiet db db' where
  invitations := second.invitations.trans first.invitations
  nonces := second.nonces.trans first.nonces
  approvals := second.approvals.trans first.approvals
  credentials := second.credentials.trans first.credentials
  named a ha := by
    obtain ⟨a₁, ha₁, sameId, sameName⟩ := first.named a ha
    obtain ⟨a', ha', sameId', sameName'⟩ := second.named a₁ ha₁
    exact ⟨a', ha', sameId'.trans sameId, sameName'.trans sameName⟩
  owned k hk := by
    obtain ⟨k₁, hk₁, sameId, sameOwner, samePrint⟩ := first.owned k hk
    obtain ⟨k', hk', sameId', sameOwner', samePrint'⟩ := second.owned k₁ hk₁
    exact ⟨k', hk', sameId'.trans sameId, sameOwner'.trans sameOwner, samePrint'.trans samePrint⟩
  sessions s hs := by
    obtain ⟨s₁, hs₁, same⟩ := second.sessions s hs
    obtain ⟨t, ht, same'⟩ := first.sessions s₁ hs₁
    exact ⟨t, ht, same'.trans same⟩

/-- The tables that a quiet statement leaves alone, the others aside. -/
theorem of_eq (invitations : db'.signupInvitations = db.signupInvitations)
    (nonces : db'.loginNonces = db.loginNonces)
    (approvals : db'.sshLoginApprovals = db.sshLoginApprovals)
    (credentials : db'.recoveryCredentials = db.recoveryCredentials)
    (accounts : db'.accounts = db.accounts) (keys : db'.sshPublicKeys = db.sshPublicKeys)
    (sessions : db'.webSessions = db.webSessions) : Quiet db db' where
  invitations := invitations
  nonces := nonces
  approvals := approvals
  credentials := credentials
  named a ha := ⟨a, accounts ▸ ha, rfl, rfl⟩
  owned k hk := ⟨k, keys ▸ hk, rfl, rfl, rfl⟩
  sessions s hs := ⟨s, sessions ▸ hs, rfl⟩

theorem refl (db : Database) : Quiet db db := of_eq rfl rfl rfl rfl rfl rfl rfl

/-! ## Statements -/

theorem insertAuditEvent {event : Database.NewAuditEvent}
    (ok : db.insertAuditEvent event = .ok db') : Quiet db db' := by
  obtain ⟨auditEvents, -, rfl⟩ := Database.insertAuditEvent_eq_ok.mp ok
  exact of_eq rfl rfl rfl rfl rfl rfl rfl

theorem revokeFeedTokens {accountId : Nat} {revokedAt : Int}
    (ok : db.revokeFeedTokens accountId revokedAt = .ok db') : Quiet db db' := by
  obtain ⟨tokens, rfl⟩ := Database.revokeFeedTokens_eq_ok ok
  exact of_eq rfl rfl rfl rfl rfl rfl rfl

theorem insertAccount {username : String} {isAdministrator : Bool} {createdAt : Int} {id : Nat}
    (ok : db.insertAccount username isAdministrator createdAt = .ok (db', id)) :
    Quiet db db' := by
  obtain ⟨accounts, namespaces, inserted, rfl, -⟩ := Database.insertAccount_eq_ok ok
  exact { Quiet.refl db with
    named := fun a ha => ⟨a, (Table.mem_insert inserted).mpr (Or.inl ha), rfl, rfl⟩ }

theorem updateAccounts {p : Account → Bool} {f : Account → Account} {accounts : Table Account}
    (updated : db.accounts.update p f = .ok accounts)
    (same : ∀ a, (f a).id = a.id ∧ (f a).username = a.username) :
    Quiet db { db with accounts } where
  invitations := rfl
  nonces := rfl
  approvals := rfl
  credentials := rfl
  named a ha := by
    refine ⟨_, (Table.mem_update updated).mpr ⟨a, ha, rfl⟩, ?_⟩
    split
    · exact same a
    · exact ⟨rfl, rfl⟩
  owned k hk := ⟨k, hk, rfl, rfl, rfl⟩
  sessions s hs := ⟨s, hs, rfl⟩

theorem insertKey {row : SshPublicKey} {keys : Table SshPublicKey}
    (inserted : db.sshPublicKeys.insert row = .ok keys) :
    Quiet db { db with sshPublicKeys := keys } where
  invitations := rfl
  nonces := rfl
  approvals := rfl
  credentials := rfl
  named a ha := ⟨a, ha, rfl, rfl⟩
  owned k hk := ⟨k, (Table.mem_insert inserted).mpr (Or.inl hk), rfl, rfl, rfl⟩
  sessions s hs := ⟨s, hs, rfl⟩

theorem updateKeys {p : SshPublicKey → Bool} {f : SshPublicKey → SshPublicKey}
    {keys : Table SshPublicKey} (updated : db.sshPublicKeys.update p f = .ok keys)
    (same : ∀ k, (f k).id = k.id ∧ (f k).accountId = k.accountId ∧
      (f k).fingerprint = k.fingerprint) :
    Quiet db { db with sshPublicKeys := keys } where
  invitations := rfl
  nonces := rfl
  approvals := rfl
  credentials := rfl
  named a ha := ⟨a, ha, rfl, rfl⟩
  owned k hk := by
    refine ⟨_, (Table.mem_update updated).mpr ⟨k, hk, rfl⟩, ?_⟩
    split
    · exact same k
    · exact ⟨rfl, rfl, rfl⟩
  sessions s hs := ⟨s, hs, rfl⟩

theorem endSessions {accountId : Nat} {endedAt : Int}
    (ok : db.endSessions accountId endedAt = .ok db') : Quiet db db' := by
  obtain ⟨sessions, updated, rfl⟩ := Database.endSessions_eq_ok.mp ok
  refine ⟨rfl, rfl, rfl, rfl, fun a ha => ⟨a, ha, rfl, rfl⟩, fun k hk => ⟨k, hk, rfl, rfl, rfl⟩, ?_⟩
  intro s hs
  obtain ⟨t, ht, rfl⟩ := (Table.mem_update updated).mp hs
  refine ⟨t, ht, ?_⟩
  split <;> rfl

theorem insertSshKey {accountId : Nat} {key : NewSshKey} {createdAt : Int}
    (ok : db.insertSshKey accountId key createdAt = .ok db') : Quiet db db' := by
  obtain ⟨keys, inserted, rfl⟩ := Database.insertSshKey_eq_ok.mp ok
  exact insertKey inserted

theorem reviveOrInsertKey {accountId : Nat} {key : NewSshKey} {createdAt : Int}
    (ok : db.reviveOrInsertKey accountId key createdAt = .ok db') : Quiet db db' := by
  unfold Database.reviveOrInsertKey at ok
  split at ok
  · exact insertSshKey ok
  · split at ok
    · obtain ⟨keys, updated, ok⟩ := bind_eq_ok.mp ok
      cases ok
      exact updateKeys (sqlite_eq_ok.mp updated) fun k => ⟨rfl, rfl, rfl⟩
    · cases ok

end Quiet

/-! ## Transactions that are quiet -/

variable {db db' : Database}

theorem addAccountKey_quiet {username : String} {key : NewSshKey} {createdAt : Int}
    {actor correlationId : String}
    (ok : db.addAccountKey username key createdAt actor correlationId = .ok db') :
    Quiet db db' := by
  simp only [Database.addAccountKey, bind_eq_ok] at ok
  obtain ⟨id, -, db₁, inserted, db₂, ended, audit⟩ := ok
  exact (Quiet.insertSshKey inserted).trans
    ((Quiet.endSessions ended).trans (Quiet.insertAuditEvent audit))

theorem revokeAccountKey_quiet {username fingerprint : String} {revokedAt : Int}
    {actor correlationId : String}
    (ok : db.revokeAccountKey username fingerprint revokedAt actor correlationId = .ok db') :
    Quiet db db' := by
  simp only [Database.revokeAccountKey, bind_eq_ok, sqlite_eq_ok] at ok
  obtain ⟨id, -, _, -, keys, revoked, _, -, db₁, ended, audit⟩ := ok
  exact (Quiet.updateKeys revoked fun k => ⟨rfl, rfl, rfl⟩).trans
    ((Quiet.endSessions ended).trans (Quiet.insertAuditEvent audit))

theorem suspendAccount_quiet {username : String} {suspended : Bool} {changedAt : Int}
    {actor correlationId : String}
    (ok : db.suspendAccount username suspended changedAt actor correlationId = .ok db') :
    Quiet db db' := by
  simp only [Database.suspendAccount, bind_eq_ok, sqlite_eq_ok] at ok
  obtain ⟨accounts, updated, _, -, account, -, db₁, ended, ok⟩ := ok
  have first := (Quiet.updateAccounts updated fun a => ⟨rfl, rfl⟩).trans (Quiet.endSessions ended)
  split at ok
  · obtain ⟨db₂, tokens, audit⟩ := bind_eq_ok.mp ok
    exact first.trans ((Quiet.revokeFeedTokens tokens).trans (Quiet.insertAuditEvent audit))
  · obtain ⟨db₂, same, audit⟩ := bind_eq_ok.mp ok
    cases same
    exact first.trans (Quiet.insertAuditEvent audit)

theorem endAccountSessions_quiet {username : String} {endedAt : Int}
    (ok : db.endAccountSessions username endedAt = .ok db') : Quiet db db' := by
  simp only [Database.endAccountSessions, bind_eq_ok] at ok
  obtain ⟨account, -, ended⟩ := ok
  exact Quiet.endSessions ended

/-! ## Invitations and recovery credentials -/

theorem createInitialAdministrator_effect {administrator : InitialAdministrator}
    (ok : db.createInitialAdministrator administrator = .ok db') :
    ∃ db₁ accountId credentials, Quiet db db₁ ∧
      db₁.recoveryCredentials.insert
        { accountId, credentialHash := administrator.recoveryHash,
          createdAt := administrator.createdAt } = .ok credentials ∧
      db' = { db₁ with recoveryCredentials := credentials } := by
  simp only [Database.createInitialAdministrator, bind_eq_ok, sqlite_eq_ok, pure_eq_ok,
    Except.ok.injEq] at ok
  obtain ⟨_, -, ⟨db₁, accountId⟩, created, keys, inserted, credentials, issued, rfl⟩ := ok
  exact ⟨{ db₁ with sshPublicKeys := keys }, accountId, credentials,
    (Quiet.insertAccount created).trans (Quiet.insertKey inserted), issued, rfl⟩

/-- The invitations that a signup takes. -/
def invited (account : InvitedAccount) (i : SignupInvitation) : Bool :=
  decide (i.codeHash = account.invitationHash ∧ i.consumedAt = none ∧
    account.createdAt ≤ i.expiresAt)

theorem createAccountWithInvitation_effect {account : InvitedAccount}
    (ok : db.createAccountWithInvitation account = .ok db') :
    ∃ invitations db₁ accountId credentials,
      db.signupInvitations.update (invited account)
        (fun i => { i with consumedAt := some account.createdAt }) = .ok invitations ∧
      db.signupInvitations.count (invited account) = 1 ∧
      Quiet { db with signupInvitations := invitations } db₁ ∧
      db₁.recoveryCredentials.insert
        { accountId, credentialHash := account.recoveryHash, createdAt := account.createdAt }
          = .ok credentials ∧
      Quiet { db₁ with recoveryCredentials := credentials } db' := by
  simp only [Database.createAccountWithInvitation, bind_eq_ok, sqlite_eq_ok, uniqueAs_eq_ok,
    ensure_eq_ok] at ok
  obtain ⟨invitations, taken, _, one, ⟨db₁, accountId⟩, created, db₂, key, credentials, issued,
    audit⟩ := ok
  exact ⟨invitations, db₂, accountId, credentials, taken, one,
    (Quiet.insertAccount created).trans (Quiet.insertSshKey key), issued,
    Quiet.insertAuditEvent audit⟩

theorem recoverAccount_effect {recovery : AccountRecovery}
    (ok : db.recoverAccount recovery = .ok db') :
    ∃ db₁ accountId credentials,
      (∃ c ∈ db.recoveryCredentials, c.accountId = accountId ∧
        c.credentialHash = recovery.oldRecoveryHash) ∧
      Quiet db db₁ ∧
      db₁.recoveryCredentials.update (fun c => decide (c.accountId = accountId))
        (fun c => { c with
          credentialHash := recovery.newRecoveryHash, createdAt := recovery.createdAt })
          = .ok credentials ∧
      Quiet { db₁ with recoveryCredentials := credentials } db' := by
  simp only [Database.recoverAccount, bind_eq_ok, sqlite_eq_ok, required_eq_ok] at ok
  obtain ⟨account, found, keys, revoked, db₁, revived, credentials, changed, db₂, ended, db₃, tokens,
    audit⟩ := ok
  have presented := (Table.mem_of_find found).2
  rw [Bool.and_eq_true, Table.any_iff] at presented
  obtain ⟨-, c, hc, held⟩ := presented
  exact ⟨db₁, account.id, credentials, ⟨c, hc, of_decide_eq_true held⟩,
    (Quiet.updateKeys revoked fun k => ⟨rfl, rfl, rfl⟩).trans (Quiet.reviveOrInsertKey revived),
    changed, (Quiet.endSessions ended).trans
      ((Quiet.revokeFeedTokens tokens).trans (Quiet.insertAuditEvent audit))⟩

/-! ## Nonces -/

/-- The nonce of a login, which no statement has consumed. -/
def unconsumedNonce (nonceHash : Hash) (n : LoginNonce) : Bool :=
  decide (n.nonceHash = nonceHash ∧ n.consumedAt = none)

theorem createLoginNonce_effect {nonce : NewLoginNonce}
    (ok : db.createLoginNonce nonce = .ok db') :
    ∃ account ∈ db.accounts, account.username = nonce.username ∧
      ∃ outdated id loginNonces,
        (db.loginNonces.delete outdated).insert
          { id, nonceHash := nonce.nonceHash, csrfHash := nonce.csrfHash, accountId := account.id,
            sshPublicKeyId := none, createdAt := nonce.createdAt, expiresAt := nonce.expiresAt,
            consumedAt := none } = .ok loginNonces ∧
        db' = { db with loginNonces } := by
  simp only [Database.createLoginNonce, bind_eq_ok, sqlite_eq_ok, required_eq_ok, pure_eq_ok,
    Except.ok.injEq] at ok
  obtain ⟨_, -, account, found, nonces, inserted, rfl⟩ := ok
  obtain ⟨member, named⟩ := Table.mem_of_find found
  exact ⟨account, member, (of_decide_eq_true named).1, _, _, nonces, inserted, rfl⟩

/-- A session is made for an account and a key. -/
theorem insertWebSession_eq_ok {sessionHash csrfHash : Hash} {accountId keyId : Nat}
    {createdAt expiresAt : Int}
    (ok : db.insertWebSession sessionHash csrfHash accountId keyId createdAt expiresAt = .ok db') :
    ∃ webSessions, db' = { db with webSessions } ∧ ∀ s ∈ webSessions, s ∈ db.webSessions ∨
      s.accountId = accountId ∧ s.sshPublicKeyId = some keyId := by
  simp only [Database.insertWebSession, bind_eq_ok, sqlite_eq_ok, pure_eq_ok, Except.ok.injEq] at ok
  obtain ⟨sessions, inserted, rfl⟩ := ok
  refine ⟨sessions, rfl, fun s hs => ?_⟩
  rcases (Table.mem_insert inserted).mp hs with old | rfl
  · exact Or.inl old
  · exact Or.inr ⟨rfl, rfl⟩

theorem consumeLoginNonce_effect {login : NewWebSession}
    (ok : db.consumeLoginNonce login = .ok db') :
    ∃ n ∈ db.loginNonces, (n.nonceHash = login.nonceHash ∧ n.consumedAt = none ∧
        login.createdAt ≤ n.expiresAt ∧ n.csrfHash = login.loginCsrfHash) ∧
      ∃ a ∈ db.accounts, (a.id = n.accountId ∧ a.username = login.username ∧ a.state = .active) ∧
      ∃ k ∈ db.sshPublicKeys,
        (k.accountId = a.id ∧ k.fingerprint = login.fingerprint ∧ k.revokedAt = none) ∧
      ∃ loginNonces webSessions,
        db.loginNonces.update (unconsumedNonce login.nonceHash)
          (fun n => { n with consumedAt := some login.createdAt }) = .ok loginNonces ∧
        db.loginNonces.count (unconsumedNonce login.nonceHash) = 1 ∧
        Quiet { db with loginNonces, webSessions } db' ∧
        ∀ s ∈ db'.webSessions, s ∈ db.webSessions ∨
          s.accountId = a.id ∧ s.sshPublicKeyId = some k.id := by
  simp only [Database.consumeLoginNonce, bind_eq_ok, sqlite_eq_ok, required_eq_ok,
    ensure_eq_ok] at ok
  obtain ⟨⟨accountId, keyId⟩, found, nonces, consumed, _, one, db₁, session, audit⟩ := ok
  simp only [Database.signedIdentity, Option.bind_eq_bind, Option.bind_eq_some_iff, Option.pure_def,
    Option.some.injEq, Prod.mk.injEq] at found
  obtain ⟨n, foundNonce, a, foundAccount, k, foundKey, rfl, rfl⟩ := found
  obtain ⟨hn, open'⟩ := Table.mem_of_find foundNonce
  obtain ⟨ha, named⟩ := Table.mem_of_find foundAccount
  obtain ⟨hk, owned⟩ := Table.mem_of_find foundKey
  have owned := of_decide_eq_true owned
  obtain ⟨sessions, rfl, made⟩ := insertWebSession_eq_ok session
  have quiet := Quiet.insertAuditEvent audit
  obtain ⟨auditEvents, -, rfl⟩ := Database.insertAuditEvent_eq_ok.mp audit
  exact ⟨n, hn, of_decide_eq_true open', a, ha, of_decide_eq_true named, k, hk,
    ⟨owned.1, owned.2.1, owned.2.2.1⟩, nonces, sessions, consumed, one, quiet, made⟩

/-! ## Approvals -/

theorem createLoginApproval_effect {approval : NewLoginApproval}
    (ok : db.createLoginApproval approval = .ok db') :
    ∃ expectedAccountId,
      (match approval.expectedUsername with
        | none => expectedAccountId = none
        | some username => ∃ a ∈ db.accounts, a.username = username ∧
            expectedAccountId = some a.id) ∧
      ∃ outdated id sshLoginApprovals,
        (db.sshLoginApprovals.delete outdated).insert
          { id, secretHash := approval.secretHash, csrfHash := approval.csrfHash, accountId := none,
            sshPublicKeyId := none, createdAt := approval.createdAt,
            expiresAt := approval.expiresAt, approvedAt := none, consumedAt := none,
            purpose := approval.purpose, expectedAccountId } = .ok sshLoginApprovals ∧
        db' = { db with sshLoginApprovals } := by
  simp only [Database.createLoginApproval, bind_eq_ok, sqlite_eq_ok, pure_eq_ok,
    Except.ok.injEq] at ok
  obtain ⟨_, -, expected, named, approvals, inserted, rfl⟩ := ok
  refine ⟨expected, ?_, _, _, approvals, inserted, rfl⟩
  cases username : approval.expectedUsername with
  | none =>
      rw [username] at named
      cases named
      rfl
  | some username' =>
      rw [username, Option.mapM_some] at named
      obtain ⟨id, active, done⟩ := map_eq_ok.mp named
      obtain ⟨a, ha, named, -, rfl⟩ := Database.activeAccountId_eq_ok active
      exact ⟨a, ha, named, done.symm⟩

/-- The approvals that an SSH identity may confirm. -/
def approvable (approval : ApproveLogin) (accountId : Nat) (a : SshLoginApproval) : Bool :=
  decide (a.secretHash = approval.secretHash ∧ a.accountId = none ∧ a.approvedAt = none ∧
    a.consumedAt = none ∧ approval.approvedAt ≤ a.expiresAt ∧
    (a.expectedAccountId = none ∨ a.expectedAccountId = some accountId))

theorem approveLogin_effect {approval : ApproveLogin} (ok : db.approveLogin approval = .ok db') :
    ∃ account ∈ db.accounts, account.username = approval.username ∧
      ∃ k ∈ db.sshPublicKeys,
        (k.accountId = account.id ∧ k.fingerprint = approval.fingerprint ∧ k.revokedAt = none) ∧
      ∃ sshLoginApprovals,
        db.sshLoginApprovals.update (approvable approval account.id)
          (fun a => { a with
            accountId := some account.id, sshPublicKeyId := some k.id,
            approvedAt := some approval.approvedAt }) = .ok sshLoginApprovals ∧
        db.sshLoginApprovals.count (approvable approval account.id) = 1 ∧
        db' = { db with sshLoginApprovals } := by
  simp only [Database.approveLogin, bind_eq_ok, sqlite_eq_ok, required_eq_ok, ensure_eq_ok,
    pure_eq_ok, Except.ok.injEq] at ok
  obtain ⟨⟨accountId, keyId⟩, found, approvals, updated, _, one, rfl⟩ := ok
  simp only [Database.sshIdentity, Option.bind_eq_bind, Option.bind_eq_some_iff, Option.pure_def,
    Option.some.injEq, Prod.mk.injEq] at found
  obtain ⟨a, foundAccount, k, foundKey, rfl, rfl⟩ := found
  obtain ⟨ha, named⟩ := Table.mem_of_find foundAccount
  obtain ⟨hk, owned⟩ := Table.mem_of_find foundKey
  exact ⟨a, ha, (of_decide_eq_true named).1, k, hk, of_decide_eq_true owned, approvals, updated, one,
    rfl⟩

/-- The approval of a secret, which no statement has consumed. -/
def unconsumedApproval (secretHash : Hash) (a : SshLoginApproval) : Bool :=
  decide (a.secretHash = secretHash ∧ a.consumedAt = none)

theorem consumeLoginApproval_effect {login : NewApprovedWebSession} {username : String}
    (ok : db.consumeLoginApproval login = .ok (db', username)) :
    ∃ a ∈ db.sshLoginApprovals, db.approvalUsable login a = true ∧
      ∃ account ∈ db.accounts, a.accountId = some account.id ∧
      ∃ keyId, a.sshPublicKeyId = some keyId ∧
      ∃ sshLoginApprovals webSessions,
        db.sshLoginApprovals.update (unconsumedApproval login.secretHash)
          (fun a => { a with consumedAt := some login.createdAt }) = .ok sshLoginApprovals ∧
        db.sshLoginApprovals.count (unconsumedApproval login.secretHash) = 1 ∧
        Quiet { db with sshLoginApprovals, webSessions } db' ∧
        ∀ s ∈ db'.webSessions, s ∈ db.webSessions ∨
          s.accountId = account.id ∧ s.sshPublicKeyId = some keyId := by
  simp only [Database.consumeLoginApproval, bind_eq_ok, sqlite_eq_ok, required_eq_ok, ensure_eq_ok,
    pure_eq_ok, Except.ok.injEq, Prod.mk.injEq] at ok
  obtain ⟨a, found, account, joined, keyId, recorded, _, -, approvals, consumed, _, one, db₁,
    session, db₂, audit, rfl, -⟩ := ok
  obtain ⟨ha, usable⟩ := Table.mem_of_find found
  obtain ⟨haccount, owned⟩ := Table.mem_of_find joined
  obtain ⟨sessions, rfl, made⟩ := insertWebSession_eq_ok session
  have quiet := Quiet.insertAuditEvent audit
  obtain ⟨auditEvents, -, rfl⟩ := Database.insertAuditEvent_eq_ok.mp audit
  exact ⟨a, ha, usable, account, haccount, of_decide_eq_true owned, keyId, recorded, approvals,
    sessions, consumed, one, quiet, made⟩

/-! ## Changes of keys -/

/-- The session that asks for a change of keys, and the approval that it consumes. -/
def Authorized (db db' : Database) (authorization : AccountKeyAuthorization) (accountId : Nat) :
    Prop :=
  (∃ s ∈ db.webSessions, (s.sessionHash = authorization.sessionHash ∧
      s.csrfHash = authorization.csrfHash ∧ s.endedAt = none ∧
      authorization.changedAt ≤ s.expiresAt) ∧ s.accountId = accountId ∧
    ∃ a ∈ db.accounts, a.id = accountId ∧ a.username = authorization.username ∧
      a.state = .active) ∧
  (∃ a ∈ db.sshLoginApprovals, (a.secretHash = authorization.secretHash ∧
      a.csrfHash = authorization.csrfHash ∧ a.purpose = .accountKey ∧
      a.expectedAccountId = some accountId ∧ a.accountId = some accountId ∧ a.approvedAt ≠ none ∧
      a.consumedAt = none ∧ authorization.changedAt ≤ a.expiresAt) ∧
    ∃ k ∈ db.sshPublicKeys, a.sshPublicKeyId = some k.id ∧ k.revokedAt = none) ∧
  ∃ sshLoginApprovals,
    db.sshLoginApprovals.update (unconsumedApproval authorization.secretHash)
      (fun a => { a with consumedAt := some authorization.changedAt }) = .ok sshLoginApprovals ∧
    db.sshLoginApprovals.count (unconsumedApproval authorization.secretHash) = 1 ∧
    Quiet { db with sshLoginApprovals } db'

/-- Only the keys of one account differ. -/
def KeysOf (accountId : Nat) (db db' : Database) : Prop :=
  ∀ k, (k ∈ db'.sshPublicKeys ↔ k ∈ db.sshPublicKeys) ∨ k.accountId = accountId

theorem Authorized.quiet {db₁ : Database} {authorization : AccountKeyAuthorization} {accountId : Nat}
    (authorized : Authorized db db₁ authorization accountId) (quiet : Quiet db₁ db') :
    Authorized db db' authorization accountId := by
  obtain ⟨session, approval, approvals, consumed, one, first⟩ := authorized
  exact ⟨session, approval, approvals, consumed, one, first.trans quiet⟩

theorem consumeAccountKeyAuthorization_effect {authorization : AccountKeyAuthorization}
    {accountId : Nat} {keyId : Option Nat}
    (ok : db.consumeAccountKeyAuthorization authorization = .ok (db', accountId, keyId)) :
    Authorized db db' authorization accountId ∧ db'.sshPublicKeys = db.sshPublicKeys := by
  simp only [Database.consumeAccountKeyAuthorization, bind_eq_ok, sqlite_eq_ok, required_eq_ok,
    ensure_eq_ok, pure_eq_ok, Except.ok.injEq, Prod.mk.injEq] at ok
  obtain ⟨session, foundSession, approval, foundApproval, _, -, approvals, consumed, _, one, rfl, rfl,
    -⟩ := ok
  obtain ⟨hs, good⟩ := Table.mem_of_find foundSession
  rw [Bool.and_eq_true, Table.any_iff] at good
  obtain ⟨pinned, a, ha, owner⟩ := good
  obtain ⟨happroval, usable⟩ := Table.mem_of_find foundApproval
  rw [Bool.and_eq_true, Table.any_iff] at usable
  obtain ⟨open', k, hk, live⟩ := usable
  refine ⟨⟨⟨session, hs, of_decide_eq_true pinned, rfl, a, ha, of_decide_eq_true owner⟩,
    ⟨approval, happroval, of_decide_eq_true open', k, hk, of_decide_eq_true live⟩,
    approvals, consumed, one, Quiet.refl _⟩, rfl⟩

theorem completeAccountKeyAdd_effect {authorization : AccountKeyAuthorization} {key : NewSshKey}
    (ok : db.completeAccountKeyAdd authorization key = .ok db') :
    ∃ accountId, Authorized db db' authorization accountId ∧ KeysOf accountId db db' := by
  simp only [Database.completeAccountKeyAdd, bind_eq_ok] at ok
  obtain ⟨⟨db₁, accountId, keyId⟩, consumed, _, -, db₂, added, audit⟩ := ok
  obtain ⟨authorized, same⟩ := consumeAccountKeyAuthorization_effect consumed
  refine ⟨accountId, authorized.quiet ((Quiet.insertSshKey added).trans
    (Quiet.insertAuditEvent audit)), fun k => ?_⟩
  obtain ⟨keys, inserted, rfl⟩ := Database.insertSshKey_eq_ok.mp added
  obtain ⟨auditEvents, -, rfl⟩ := Database.insertAuditEvent_eq_ok.mp audit
  by_cases new : k = db₁.sshKeyRow accountId key authorization.changedAt
  · exact Or.inr (new ▸ rfl)
  · exact Or.inl (by rw [← same, Table.mem_insert inserted, or_iff_left new])

theorem completeAccountKeyRevoke_effect {authorization : AccountKeyAuthorization}
    {fingerprint : String} (ok : db.completeAccountKeyRevoke authorization fingerprint = .ok db') :
    ∃ accountId, Authorized db db' authorization accountId ∧ KeysOf accountId db db' := by
  simp only [Database.completeAccountKeyRevoke, bind_eq_ok, sqlite_eq_ok] at ok
  obtain ⟨⟨db₁, accountId, keyId⟩, consumed, _, -, key, -, keys, revoked, _, -, ok⟩ := ok
  obtain ⟨authorized, same⟩ := consumeAccountKeyAuthorization_effect consumed
  have first : Quiet db₁ { db₁ with sshPublicKeys := keys } :=
    Quiet.updateKeys revoked fun k => ⟨rfl, rfl, rfl⟩
  have rest : Quiet { db₁ with sshPublicKeys := keys } db' ∧ db'.sshPublicKeys = keys := by
    split at ok
    · obtain ⟨db₂, ended, audit⟩ := bind_eq_ok.mp ok
      obtain ⟨sessions, -, rfl⟩ := Database.endSessions_eq_ok.mp ended
      refine ⟨(Quiet.endSessions ended).trans (Quiet.insertAuditEvent audit), ?_⟩
      obtain ⟨auditEvents, -, rfl⟩ := Database.insertAuditEvent_eq_ok.mp audit
      rfl
    · obtain ⟨db₂, unchanged, audit⟩ := bind_eq_ok.mp ok
      cases unchanged
      refine ⟨Quiet.insertAuditEvent audit, ?_⟩
      obtain ⟨auditEvents, -, rfl⟩ := Database.insertAuditEvent_eq_ok.mp audit
      rfl
  refine ⟨accountId, authorized.quiet (first.trans rest.1), fun k => ?_⟩
  rw [rest.2, ← same]
  by_cases own : k.accountId = accountId
  · exact Or.inr own
  · refine Or.inl ?_
    rw [Table.mem_update revoked]
    constructor
    · rintro ⟨r, hr, made⟩
      split at made
      · rename_i chosen
        have owner : k.accountId = r.accountId := by rw [made]
        exact absurd (owner.trans (of_decide_eq_true chosen).2.1) own
      · exact made ▸ hr
    · intro hk
      refine ⟨k, hk, (if_neg ?_).symm⟩
      exact fun chosen => own (of_decide_eq_true chosen).2.1

end Tit.Sessions
