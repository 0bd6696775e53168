/-
# Sessions.LastKey -- every account keeps a key

An account starts with a key, the two revocations ask for a second unrevoked key first, and a
recovery revokes every key of its account but leaves the one that it brings, new or revived.  A
fingerprint is `UNIQUE` among all keys, so that it belongs to one account.
-/
import Tit.Sessions.Operations

namespace Tit.Sessions

open Tit.Theory Tit.Store

set_option autoImplicit false

/-- The account has a key that is not revoked. -/
def HasKey (keys : Table SshPublicKey) (accountId : Nat) : Prop :=
  ∃ k ∈ keys, k.accountId = accountId ∧ k.revokedAt = none

def AccountsHaveKeys (db : Database) : Prop := ∀ a ∈ db.accounts, HasKey db.sshPublicKeys a.id

/-- Accounts have keys, fingerprints have one account, and an operation that fails changes
nothing. -/
structure KeysSound (db : Database) : Prop where
  held : AccountsHaveKeys db
  single : ∀ k ∈ db.sshPublicKeys, ∀ k' ∈ db.sshPublicKeys, k.fingerprint = k'.fingerprint →
    k.accountId = k'.accountId
  rejected : ∀ operation error, Operation.transact db operation = .error error →
    ∀ db', step db operation = some db' → db' = db

theorem same_fingerprint {keys : Table SshPublicKey} {k k' : SshPublicKey} (hk : k ∈ keys)
    (hk' : k' ∈ keys) (same : k.fingerprint = k'.fingerprint) : k = k' :=
  Table.eq_of_clash hk hk' (decide_eq_true (Or.inr (Or.inl same)))

/-! ## What a statement leaves of the keys -/

section Keys

variable {keys keys' : Table SshPublicKey} {accountId : Nat}

theorem HasKey.insert (has : HasKey keys accountId) {row : SshPublicKey}
    (inserted : keys.insert row = .ok keys') : HasKey keys' accountId := by
  obtain ⟨k, hk, facts⟩ := has
  exact ⟨k, (Table.mem_insert inserted).mpr (Or.inl hk), facts⟩

theorem hasKey_inserted {row : SshPublicKey} (inserted : keys.insert row = .ok keys')
    (unrevoked : row.revokedAt = none) : HasKey keys' row.accountId :=
  ⟨row, (Table.mem_insert inserted).mpr (Or.inr rfl), rfl, unrevoked⟩

/-- A key that an update does not choose stays. -/
theorem HasKey.update {chosen : SshPublicKey → Bool} {f : SshPublicKey → SshPublicKey}
    (updated : keys.update chosen f = .ok keys')
    (spared : ∃ k ∈ keys, k.accountId = accountId ∧ k.revokedAt = none ∧ ¬chosen k = true) :
    HasKey keys' accountId := by
  obtain ⟨k, hk, own, unrevoked, other⟩ := spared
  exact ⟨k, (Table.mem_update updated).mpr ⟨k, hk, by rw [if_neg other]⟩, own, unrevoked⟩

/-- Beside any one key, an account with more than one unrevoked key has another. -/
theorem other_key {db : Database} (several : 1 < db.activeKeys accountId)
    {chosen : SshPublicKey → Bool}
    (single : ∀ k ∈ db.sshPublicKeys, ∀ k' ∈ db.sshPublicKeys, chosen k = true →
      chosen k' = true → k = k') :
    ∃ k ∈ db.sshPublicKeys, k.accountId = accountId ∧ k.revokedAt = none ∧ ¬chosen k = true := by
  by_contra none
  push Not at none
  have all : ∀ k ∈ db.sshPublicKeys, decide (k.accountId = accountId ∧ k.revokedAt = .none) =
      true → chosen k = true := by
    intro k hk active
    obtain ⟨own, unrevoked⟩ := of_decide_eq_true active
    exact none k hk own unrevoked
  have positive : db.activeKeys accountId ≠ 0 := by omega
  obtain ⟨k, hk, active⟩ := Table.exists_of_count positive
  have one : db.activeKeys accountId = 1 :=
    Table.count_eq_one hk active fun k' hk' active' =>
      congrArg Schema.key (single k' hk' k hk (all k' hk' active') (all k hk active))
  omega

end Keys

/-! ## The transactions -/

section Transactions

variable {db db' : Database}

/-- The accounts are those of before, and their keys are still there. -/
theorem AccountsHaveKeys.carried (held : AccountsHaveKeys db)
    (back : ∀ a ∈ db'.accounts, ∃ a₁ ∈ db.accounts, a₁.id = a.id)
    (keeps : ∀ id, HasKey db.sshPublicKeys id → HasKey db'.sshPublicKeys id) :
    AccountsHaveKeys db' := by
  intro a ha
  obtain ⟨a₁, ha₁, same⟩ := back a ha
  rw [← same]
  exact keeps _ (held a₁ ha₁)

theorem AccountsHaveKeys.of_eq (held : AccountsHaveKeys db) (accounts : db'.accounts = db.accounts)
    (keys : db'.sshPublicKeys = db.sshPublicKeys) : AccountsHaveKeys db' := by
  unfold AccountsHaveKeys
  rw [accounts, keys]
  exact held

theorem AccountsHaveKeys.audit (held : AccountsHaveKeys db) {event : Database.NewAuditEvent}
    (ok : db.insertAuditEvent event = .ok db') : AccountsHaveKeys db' := by
  obtain ⟨auditEvents, -, rfl⟩ := Database.insertAuditEvent_eq_ok.mp ok
  exact held

theorem AccountsHaveKeys.endSessions (held : AccountsHaveKeys db) {accountId : Nat} {endedAt : Int}
    (ok : db.endSessions accountId endedAt = .ok db') : AccountsHaveKeys db' := by
  obtain ⟨sessions, -, rfl⟩ := Database.endSessions_eq_ok.mp ok
  exact held

theorem AccountsHaveKeys.revokeFeedTokens (held : AccountsHaveKeys db) {accountId : Nat}
    {revokedAt : Int} (ok : db.revokeFeedTokens accountId revokedAt = .ok db') :
    AccountsHaveKeys db' := by
  obtain ⟨tokens, rfl⟩ := Database.revokeFeedTokens_eq_ok ok
  exact held

theorem AccountsHaveKeys.insertWebSession (held : AccountsHaveKeys db)
    {sessionHash csrfHash : Hash} {accountId keyId : Nat} {createdAt expiresAt : Int}
    (ok : db.insertWebSession sessionHash csrfHash accountId keyId createdAt expiresAt = .ok db') :
    AccountsHaveKeys db' := by
  unfold Database.insertWebSession at ok
  obtain ⟨sessions, -, ok⟩ := bind_eq_ok.mp ok
  cases ok
  exact held

theorem AccountsHaveKeys.insertSshKey (held : AccountsHaveKeys db) {accountId : Nat}
    {key : NewSshKey} {createdAt : Int} (ok : db.insertSshKey accountId key createdAt = .ok db') :
    AccountsHaveKeys db' := by
  obtain ⟨keys, inserted, rfl⟩ := Database.insertSshKey_eq_ok.mp ok
  exact held.carried (fun a ha => ⟨a, ha, rfl⟩) fun _ has => has.insert inserted

theorem AccountsHaveKeys.consume (held : AccountsHaveKeys db)
    {authorization : AccountKeyAuthorization} {id : Nat} {keyId : Option Nat}
    (ok : db.consumeAccountKeyAuthorization authorization = .ok (db', id, keyId)) :
    AccountsHaveKeys db' := by
  unfold Database.consumeAccountKeyAuthorization at ok
  obtain ⟨session, -, ok⟩ := bind_eq_ok.mp ok
  obtain ⟨approval, -, ok⟩ := bind_eq_ok.mp ok
  obtain ⟨_, -, ok⟩ := bind_eq_ok.mp ok
  obtain ⟨approvals, -, ok⟩ := bind_eq_ok.mp ok
  obtain ⟨_, -, ok⟩ := bind_eq_ok.mp ok
  cases ok
  exact held

/-- The account that is inserted has no key yet. -/
theorem AccountsHaveKeys.insertAccount (held : AccountsHaveKeys db) {username : String}
    {isAdministrator : Bool} {createdAt : Int} {id : Nat}
    (ok : db.insertAccount username isAdministrator createdAt = .ok (db', id)) :
    db'.sshPublicKeys = db.sshPublicKeys ∧
      ∀ a ∈ db'.accounts, a.id = id ∨ HasKey db.sshPublicKeys a.id := by
  obtain ⟨accounts, namespaces, inserted, rfl, rfl⟩ := Database.insertAccount_eq_ok ok
  refine ⟨rfl, fun a ha => ?_⟩
  rcases (Table.mem_insert inserted).mp ha with old | rfl
  · exact Or.inr (held a old)
  · exact Or.inl rfl

/-- An update of the keys of one account that leaves it a key. -/
theorem AccountsHaveKeys.update (held : AccountsHaveKeys db) {accountId : Nat}
    {chosen : SshPublicKey → Bool} {f : SshPublicKey → SshPublicKey} {keys : Table SshPublicKey}
    (updated : db.sshPublicKeys.update chosen f = .ok keys)
    (own : ∀ k, chosen k = true → k.accountId = accountId) (left : HasKey keys accountId) :
    AccountsHaveKeys { db with sshPublicKeys := keys } := by
  intro a ha
  by_cases same : a.id = accountId
  · rw [same]
    exact left
  · obtain ⟨k, hk, of, unrevoked⟩ := held a ha
    exact HasKey.update updated ⟨k, hk, of, unrevoked, fun yes => same (of.symm.trans (own k yes))⟩

theorem revokeAccountKey_held (held : AccountsHaveKeys db) {username fingerprint : String}
    {revokedAt : Int} {actor correlationId : String}
    (ok : db.revokeAccountKey username fingerprint revokedAt actor correlationId = .ok db') :
    AccountsHaveKeys db' := by
  simp only [Database.revokeAccountKey, bind_eq_ok, ensure_eq_ok, sqlite_eq_ok] at ok
  obtain ⟨id, -, _, several, keys, updated, _, -, db₁, ended, audit⟩ := ok
  have revoked := @AccountsHaveKeys.update _ held id _ _ _ updated
    (fun k chosen => (of_decide_eq_true chosen).1)
    (HasKey.update updated (other_key several fun k hk k' hk' chosen chosen' =>
      same_fingerprint hk hk' ((of_decide_eq_true chosen).2.1.trans
        (of_decide_eq_true chosen').2.1.symm)))
  exact (revoked.endSessions ended).audit audit

theorem completeAccountKeyRevoke_held (held : AccountsHaveKeys db)
    {authorization : AccountKeyAuthorization} {fingerprint : String}
    (ok : db.completeAccountKeyRevoke authorization fingerprint = .ok db') :
    AccountsHaveKeys db' := by
  simp only [Database.completeAccountKeyRevoke, bind_eq_ok, ensure_eq_ok, sqlite_eq_ok] at ok
  obtain ⟨⟨db₁, id, keyId⟩, consumed, _, several, key, -, keys, updated, _, -, ok⟩ := ok
  have revoked := @AccountsHaveKeys.update _ (held.consume consumed) id _ _ _ updated
    (fun k chosen => (of_decide_eq_true chosen).2.1)
    (HasKey.update updated (other_key several fun k hk k' hk' chosen chosen' =>
      Table.eq_of_key hk hk' ((of_decide_eq_true chosen).1.trans
        (of_decide_eq_true chosen').1.symm)))
  split at ok
  · obtain ⟨db₂, ended, audit⟩ := bind_eq_ok.mp ok
    exact (revoked.endSessions ended).audit audit
  · obtain ⟨db₂, same, audit⟩ := bind_eq_ok.mp ok
    cases same
    exact revoked.audit audit

/-- A recovery leaves its account the key that it brings, and the others theirs. -/
theorem reviveOrInsertKey_held {accountId : Nat} {key : NewSshKey} {createdAt : Int}
    (others : ∀ a ∈ db.accounts, a.id = accountId ∨ HasKey db.sshPublicKeys a.id)
    (ok : db.reviveOrInsertKey accountId key createdAt = .ok db') : AccountsHaveKeys db' := by
  unfold Database.reviveOrInsertKey at ok
  split at ok
  · obtain ⟨keys, inserted, rfl⟩ := Database.insertSshKey_eq_ok.mp ok
    intro a ha
    rcases others a ha with own | has
    · rw [own]
      exact hasKey_inserted inserted rfl
    · exact has.insert inserted
  · rename_i existing found
    split at ok
    · rename_i own
      obtain ⟨keys, updated, ok⟩ := bind_eq_ok.mp ok
      rw [sqlite_eq_ok] at updated
      cases ok
      obtain ⟨hk, fingerprint⟩ := Table.mem_of_find found
      have left : HasKey keys accountId := by
        refine ⟨_, (Table.mem_update updated).mpr ⟨existing, hk, rfl⟩, ?_⟩
        rw [if_pos (decide_eq_true ⟨own, of_decide_eq_true fingerprint⟩)]
        exact ⟨own, rfl⟩
      intro a ha
      by_cases same : a.id = accountId
      · rw [same]
        exact left
      · obtain ⟨k, hk, of, unrevoked⟩ := (others a ha).resolve_left same
        exact HasKey.update updated ⟨k, hk, of, unrevoked, fun yes =>
          same (of.symm.trans (of_decide_eq_true yes).1)⟩
    · cases ok

theorem recoverAccount_held (held : AccountsHaveKeys db) {recovery : AccountRecovery}
    (ok : db.recoverAccount recovery = .ok db') : AccountsHaveKeys db' := by
  simp only [Database.recoverAccount, bind_eq_ok, sqlite_eq_ok] at ok
  obtain ⟨account, -, keys, updated, db₁, revived, credentials, -, db₂, ended, db₃, tokens,
    audit⟩ := ok
  have left : AccountsHaveKeys db₁ := by
    refine reviveOrInsertKey_held (fun a ha => ?_) revived
    by_cases same : a.id = account.id
    · exact Or.inl same
    · obtain ⟨k, hk, of, unrevoked⟩ := held a ha
      exact Or.inr (HasKey.update updated ⟨k, hk, of, unrevoked, fun yes =>
        same (of.symm.trans (of_decide_eq_true yes).1)⟩)
  have credited : AccountsHaveKeys { db₁ with recoveryCredentials := credentials } := left
  exact ((credited.endSessions ended).revokeFeedTokens tokens).audit audit

theorem createInitialAdministrator_held (held : AccountsHaveKeys db)
    {administrator : InitialAdministrator}
    (ok : db.createInitialAdministrator administrator = .ok db') : AccountsHaveKeys db' := by
  simp only [Database.createInitialAdministrator, bind_eq_ok, sqlite_eq_ok, pure_eq_ok,
    Except.ok.injEq] at ok
  obtain ⟨_, -, ⟨db₁, id⟩, created, keys, inserted, credentials, -, rfl⟩ := ok
  obtain ⟨-, others⟩ := held.insertAccount created
  obtain ⟨same, -⟩ := held.insertAccount created
  intro a ha
  rcases others a ha with own | has
  · rw [own]
    exact hasKey_inserted inserted rfl
  · rw [← same] at has
    exact has.insert inserted

theorem createAccountWithInvitation_held (held : AccountsHaveKeys db) {account : InvitedAccount}
    (ok : db.createAccountWithInvitation account = .ok db') : AccountsHaveKeys db' := by
  simp only [Database.createAccountWithInvitation, bind_eq_ok, uniqueAs_eq_ok] at ok
  obtain ⟨invitations, -, _, -, ⟨db₁, id⟩, created, db₂, key, credentials, -, audit⟩ := ok
  have invited : AccountsHaveKeys { db with signupInvitations := invitations } := held
  obtain ⟨same, others⟩ := invited.insertAccount created
  obtain ⟨keys, inserted, rfl⟩ := Database.insertSshKey_eq_ok.mp key
  have left : AccountsHaveKeys { db₁ with
      sshPublicKeys := keys, recoveryCredentials := credentials } := by
    intro a ha
    rcases others a ha with own | has
    · rw [own]
      exact hasKey_inserted inserted rfl
    · have before : HasKey db₁.sshPublicKeys a.id := by
        rw [same]
        exact has
      exact before.insert inserted
  exact left.audit audit

theorem suspendAccount_held (held : AccountsHaveKeys db) {username : String} {suspended : Bool}
    {changedAt : Int} {actor correlationId : String}
    (ok : db.suspendAccount username suspended changedAt actor correlationId = .ok db') :
    AccountsHaveKeys db' := by
  simp only [Database.suspendAccount, bind_eq_ok, sqlite_eq_ok] at ok
  obtain ⟨accounts, updated, _, -, account, -, db₁, ended, ok⟩ := ok
  have named : AccountsHaveKeys { db with accounts } := by
    refine held.carried (fun a ha => ?_) fun _ has => has
    obtain ⟨a₁, ha₁, rfl⟩ := (Table.mem_update updated).mp ha
    refine ⟨a₁, ha₁, ?_⟩
    split <;> rfl
  have after := named.endSessions ended
  split at ok
  · obtain ⟨db₂, tokens, audit⟩ := bind_eq_ok.mp ok
    exact (after.revokeFeedTokens tokens).audit audit
  · obtain ⟨db₂, same, audit⟩ := bind_eq_ok.mp ok
    cases same
    exact after.audit audit

theorem transact_held (held : AccountsHaveKeys db) {operation : Operation}
    (ok : operation.transact db = .ok db') : AccountsHaveKeys db' := by
  cases operation with
  | createInitialAdministrator administrator => exact createInitialAdministrator_held held ok
  | createSignupInvitation codeHash createdAt expiresAt =>
      simp only [Operation.transact, Database.createSignupInvitation, bind_eq_ok, pure_eq_ok,
        Except.ok.injEq] at ok
      obtain ⟨invitations, -, rfl⟩ := ok
      exact held
  | createAccountWithInvitation account => exact createAccountWithInvitation_held held ok
  | recoverAccount recovery => exact recoverAccount_held held ok
  | addAccountKey username key createdAt actor correlationId =>
      simp only [Operation.transact, Database.addAccountKey, bind_eq_ok] at ok
      obtain ⟨id, -, db₁, inserted, db₂, ended, audit⟩ := ok
      exact ((held.insertSshKey inserted).endSessions ended).audit audit
  | revokeAccountKey username fingerprint revokedAt actor correlationId =>
      exact revokeAccountKey_held held ok
  | completeAccountKeyAdd authorization key =>
      simp only [Operation.transact, Database.completeAccountKeyAdd, bind_eq_ok] at ok
      obtain ⟨⟨db₁, id, keyId⟩, consumed, _, -, db₂, inserted, audit⟩ := ok
      exact ((held.consume consumed).insertSshKey inserted).audit audit
  | completeAccountKeyRevoke authorization fingerprint =>
      exact completeAccountKeyRevoke_held held ok
  | suspendAccount username suspended changedAt actor correlationId =>
      exact suspendAccount_held held ok
  | endAccountSessions username endedAt =>
      simp only [Operation.transact, Database.endAccountSessions, bind_eq_ok] at ok
      obtain ⟨account, -, ended⟩ := ok
      exact held.endSessions ended
  | createLoginNonce nonce =>
      simp only [Operation.transact, Database.createLoginNonce, bind_eq_ok, pure_eq_ok,
        Except.ok.injEq] at ok
      obtain ⟨_, -, account, -, nonces, -, rfl⟩ := ok
      exact held
  | consumeLoginNonce login =>
      simp only [Operation.transact, Database.consumeLoginNonce, bind_eq_ok] at ok
      obtain ⟨⟨id, keyId⟩, -, nonces, -, _, -, db₁, session, audit⟩ := ok
      have noted : AccountsHaveKeys { db with loginNonces := nonces } := held
      exact (noted.insertWebSession session).audit audit
  | createLoginApproval approval =>
      simp only [Operation.transact, Database.createLoginApproval, bind_eq_ok, pure_eq_ok,
        Except.ok.injEq] at ok
      obtain ⟨_, -, expected, -, approvals, -, rfl⟩ := ok
      exact held
  | approveLogin approval =>
      simp only [Operation.transact, Database.approveLogin, bind_eq_ok, pure_eq_ok,
        Except.ok.injEq] at ok
      obtain ⟨⟨id, keyId⟩, -, approvals, -, _, -, rfl⟩ := ok
      exact held
  | consumeLoginApproval login =>
      obtain ⟨⟨db₁, username⟩, consumed, rfl⟩ := map_eq_ok.mp ok
      simp only [Database.consumeLoginApproval, bind_eq_ok, pure_eq_ok, Except.ok.injEq,
        Prod.mk.injEq] at consumed
      obtain ⟨approval, -, account, -, keyId, -, _, -, approvals, -, _, -, db₂, session, db₃,
        audit, rfl, rfl⟩ := consumed
      have noted : AccountsHaveKeys { db with sshLoginApprovals := approvals } := held
      exact (noted.insertWebSession session).audit audit
  | maintain cutoff =>
      cases ok
      exact held

theorem step_held (db : Database) (operation : Operation) (db' : Database)
    (held : AccountsHaveKeys db) (stepped : step db operation = some db') :
    AccountsHaveKeys db' := by
  cases stepped
  rcases committed_eq_or db (operation.transact db) with same | ok
  · rw [same]
    exact held
  · exact transact_held held ok

theorem AccountsHaveKeys.sound (held : AccountsHaveKeys db) : KeysSound db where
  held := held
  single k hk k' hk' same := by rw [same_fingerprint hk hk' same]
  rejected operation error failed db' stepped := by
    cases stepped
    rw [failed]
    rfl

end Transactions

/-- **Every account has an unrevoked key in every state of every run**, a fingerprint belongs to
one account, and an operation that fails leaves keys, sessions, tokens, approvals and
credentials as they were. -/
theorem always_keysSound (operations : List Operation) :
    Always step KeysSound .initial operations := by
  have start : AccountsHaveKeys .initial := fun a ha => absurd ha (Table.not_mem_empty a)
  exact (always_of_steps step_held start operations).mono fun _ held => held.sound

end Tit.Sessions
