/-
# Sessions.Keyed -- a web session and the SSH key it was created with

`Keyed` is the invariant: a session that has not ended was created with a key that
the account still has and that is not revoked, and an approval names a key of its
account.  It is stated for the accounts in `settled`, because a transaction that
revokes keys breaks it for one account until it has ended the sessions of that
account (`Keyed.endSessions`).

Every transaction keeps it, except `complete_account_key_revoke`: that one ends the
sessions only when its own session has no recorded key or the revoked one, so the
other sessions of the revoked key stay alive.
-/
import Tit.Sessions.Operations

namespace Tit.Sessions

open Tit.Theory Tit.Store

set_option autoImplicit false

/-- Live sessions of the settled accounts have a live key, and approvals name a key
of their account. -/
structure Keyed (settled : Nat → Prop) (db : Database) : Prop where
  live : ∀ s ∈ db.webSessions, settled s.accountId → s.endedAt = none →
    ∀ id, s.sshPublicKeyId = some id →
      ∃ k ∈ db.sshPublicKeys, k.id = id ∧ k.accountId = s.accountId ∧ k.revokedAt = none
  approved : ∀ a ∈ db.sshLoginApprovals, ∀ id, a.sshPublicKeyId = some id →
    ∃ k ∈ db.sshPublicKeys, k.id = id ∧ a.accountId = some k.accountId

/-- All accounts. -/
def everyone : Nat → Prop := fun _ => True

theorem initial_keyed : Keyed everyone .initial :=
  ⟨fun _ member => absurd member (Table.not_mem_empty _),
    fun _ member => absurd member (Table.not_mem_empty _)⟩

namespace Keyed

variable {settled : Nat → Prop} {db db' : Database}

/-- The invariant reads three tables. -/
theorem frame (keyed : Keyed settled db) (keys : db'.sshPublicKeys = db.sshPublicKeys)
    (sessions : db'.webSessions = db.webSessions)
    (approvals : db'.sshLoginApprovals = db.sshLoginApprovals) : Keyed settled db' := by
  refine ⟨?_, ?_⟩
  · rw [keys, sessions]
    exact keyed.live
  · rw [keys, approvals]
    exact keyed.approved

theorem weaken {fewer : Nat → Prop} (keyed : Keyed settled db)
    (included : ∀ id, fewer id → settled id) : Keyed fewer db :=
  ⟨fun s hs inside => keyed.live s hs (included _ inside), keyed.approved⟩

/-! ## Statements -/

theorem insertAuditEvent (keyed : Keyed settled db) {event : Database.NewAuditEvent}
    (ok : db.insertAuditEvent event = .ok db') : Keyed settled db' := by
  obtain ⟨auditEvents, -, rfl⟩ := Database.insertAuditEvent_eq_ok.mp ok
  exact keyed.frame rfl rfl rfl

theorem insertAccount (keyed : Keyed settled db) {username : String} {isAdministrator : Bool}
    {createdAt : Int} {id : Nat}
    (ok : db.insertAccount username isAdministrator createdAt = .ok (db', id)) :
    Keyed settled db' := by
  obtain ⟨accounts, namespaces, -, rfl, -⟩ := Database.insertAccount_eq_ok ok
  exact keyed.frame rfl rfl rfl

theorem revokeFeedTokens (keyed : Keyed settled db) {accountId : Nat} {revokedAt : Int}
    (ok : db.revokeFeedTokens accountId revokedAt = .ok db') : Keyed settled db' := by
  obtain ⟨feedTokens, rfl⟩ := Database.revokeFeedTokens_eq_ok ok
  exact keyed.frame rfl rfl rfl

/-- Keys that stay, under the same account and no more revoked than before, keep the
invariant. -/
theorem ofKeys (keyed : Keyed settled db) {keys : Table SshPublicKey}
    (kept : ∀ k ∈ db.sshPublicKeys, ∃ k' ∈ keys, k'.id = k.id ∧ k'.accountId = k.accountId ∧
      (settled k.accountId → k.revokedAt = none → k'.revokedAt = none)) :
    Keyed settled { db with sshPublicKeys := keys } := by
  refine ⟨?_, ?_⟩
  · intro s hs inside unended id recorded
    obtain ⟨k, hk, rfl, owner, unrevoked⟩ := keyed.live s hs inside unended id recorded
    obtain ⟨k', hk', sameId, sameOwner, still⟩ := kept k hk
    exact ⟨k', hk', sameId, sameOwner.trans owner, still (owner ▸ inside) unrevoked⟩
  · intro a ha id recorded
    obtain ⟨k, hk, rfl, owner⟩ := keyed.approved a ha id recorded
    obtain ⟨k', hk', sameId, sameOwner, -⟩ := kept k hk
    exact ⟨k', hk', sameId, by rw [owner, sameOwner]⟩

theorem insertKey (keyed : Keyed settled db) {row : SshPublicKey} {keys : Table SshPublicKey}
    (inserted : db.sshPublicKeys.insert row = .ok keys) :
    Keyed settled { db with sshPublicKeys := keys } :=
  keyed.ofKeys fun k hk =>
    ⟨k, (Table.mem_insert inserted).mpr (Or.inl hk), rfl, rfl, fun _ unrevoked => unrevoked⟩

theorem insertSshKey (keyed : Keyed settled db) {accountId : Nat} {key : NewSshKey}
    {createdAt : Int} (ok : db.insertSshKey accountId key createdAt = .ok db') :
    Keyed settled db' := by
  obtain ⟨keys, inserted, rfl⟩ := Database.insertSshKey_eq_ok.mp ok
  exact keyed.insertKey inserted

/-- An update of the keys of one account leaves the other accounts settled. -/
theorem updateKeys (keyed : Keyed settled db) {p : SshPublicKey → Bool}
    {f : SshPublicKey → SshPublicKey} {keys : Table SshPublicKey} {accountId : Nat}
    (updated : db.sshPublicKeys.update p f = .ok keys)
    (owned : ∀ k, p k = true → k.accountId = accountId)
    (same : ∀ k, (f k).id = k.id ∧ (f k).accountId = k.accountId) :
    Keyed (fun id => settled id ∧ id ≠ accountId) { db with sshPublicKeys := keys } := by
  refine (keyed.weaken fun id inside => inside.1).ofKeys fun k hk =>
    ⟨_, (Table.mem_update updated).mpr ⟨k, hk, rfl⟩, ?_⟩
  cases chosen : p k with
  | true => exact ⟨(same k).1, (same k).2, fun inside => absurd (owned k chosen) inside.2⟩
  | false => exact ⟨rfl, rfl, fun _ unrevoked => unrevoked⟩

/-- **Ending the sessions of an account settles it.** -/
theorem endSessions {accountId : Nat} {endedAt : Int}
    (keyed : Keyed (fun id => settled id ∧ id ≠ accountId) db)
    (ok : db.endSessions accountId endedAt = .ok db') : Keyed settled db' := by
  obtain ⟨sessions, updated, rfl⟩ := Database.endSessions_eq_ok.mp ok
  refine ⟨?_, keyed.approved⟩
  intro s hs inside unended id recorded
  obtain ⟨before, member, same⟩ := (Table.mem_update updated).mp hs
  by_cases chosen : before.accountId = accountId ∧ before.endedAt = none
  · rw [if_pos (decide_eq_true chosen)] at same
    rw [same] at unended
    cases unended
  · rw [if_neg (by simpa using chosen)] at same
    rw [same] at inside unended recorded ⊢
    have other : before.accountId ≠ accountId := fun owner => chosen ⟨owner, unended⟩
    exact keyed.live before member ⟨inside, other⟩ unended id recorded

theorem insertWebSession (keyed : Keyed settled db) {sessionHash csrfHash : Hash}
    {accountId keyId : Nat} {createdAt expiresAt : Int}
    (key : ∃ k ∈ db.sshPublicKeys, k.id = keyId ∧ k.accountId = accountId ∧ k.revokedAt = none)
    (ok : db.insertWebSession sessionHash csrfHash accountId keyId createdAt expiresAt = .ok db') :
    Keyed settled db' := by
  unfold Database.insertWebSession at ok
  simp only [bind_eq_ok, sqlite_eq_ok, pure_eq_ok, Except.ok.injEq] at ok
  obtain ⟨sessions, inserted, rfl⟩ := ok
  refine ⟨?_, keyed.approved⟩
  intro s hs inside unended id recorded
  rcases (Table.mem_insert inserted).mp hs with old | rfl
  · exact keyed.live s old inside unended id recorded
  · obtain ⟨k, hk, rfl, owner, unrevoked⟩ := key
    cases recorded
    exact ⟨k, hk, rfl, owner, unrevoked⟩

/-- Approvals that keep the account and the key they name. -/
theorem ofApprovals (keyed : Keyed settled db) {approvals : Table SshLoginApproval}
    (kept : ∀ a ∈ approvals, a.sshPublicKeyId = none ∨ ∃ b ∈ db.sshLoginApprovals,
      b.sshPublicKeyId = a.sshPublicKeyId ∧ b.accountId = a.accountId) :
    Keyed settled { db with sshLoginApprovals := approvals } := by
  refine ⟨keyed.live, ?_⟩
  intro a ha id recorded
  rcases kept a ha with absent | ⟨b, hb, sameKey, sameAccount⟩
  · rw [absent] at recorded
    cases recorded
  · obtain ⟨k, hk, named, owner⟩ := keyed.approved b hb id (sameKey.trans recorded)
    exact ⟨k, hk, named, sameAccount ▸ owner⟩

/-- Consuming an approval keeps what it names. -/
theorem consumeApprovals (keyed : Keyed settled db) {p : SshLoginApproval → Bool}
    {consumedAt : Int} {approvals : Table SshLoginApproval}
    (updated : db.sshLoginApprovals.update p (fun a => { a with consumedAt := some consumedAt })
      = .ok approvals) :
    Keyed settled { db with sshLoginApprovals := approvals } := by
  refine keyed.ofApprovals fun a ha => Or.inr ?_
  obtain ⟨b, hb, rfl⟩ := (Table.mem_update updated).mp ha
  refine ⟨b, hb, ?_⟩
  split <;> exact ⟨rfl, rfl⟩

end Keyed

/-! ## Transactions -/

variable {db db' : Database}

theorem createInitialAdministrator_keyed (keyed : Keyed everyone db)
    {administrator : InitialAdministrator}
    (ok : db.createInitialAdministrator administrator = .ok db') : Keyed everyone db' := by
  unfold Database.createInitialAdministrator at ok
  simp only [bind_eq_ok, sqlite_eq_ok, pure_eq_ok, Except.ok.injEq] at ok
  obtain ⟨_, -, ⟨db₁, accountId⟩, account, keys, inserted, credentials, -, rfl⟩ := ok
  exact ((keyed.insertAccount account).insertKey inserted).frame rfl rfl rfl

theorem createSignupInvitation_keyed (keyed : Keyed everyone db) {codeHash : Hash}
    {createdAt expiresAt : Int}
    (ok : db.createSignupInvitation codeHash createdAt expiresAt = .ok db') :
    Keyed everyone db' := by
  unfold Database.createSignupInvitation at ok
  simp only [bind_eq_ok, sqlite_eq_ok, pure_eq_ok, Except.ok.injEq] at ok
  obtain ⟨invitations, -, rfl⟩ := ok
  exact keyed.frame rfl rfl rfl

theorem createAccountWithInvitation_keyed (keyed : Keyed everyone db) {account : InvitedAccount}
    (ok : db.createAccountWithInvitation account = .ok db') : Keyed everyone db' := by
  unfold Database.createAccountWithInvitation at ok
  simp only [bind_eq_ok, sqlite_eq_ok, uniqueAs_eq_ok] at ok
  obtain ⟨invitations, -, _, -, ⟨db₁, accountId⟩, created, db₂, key, credentials, -, audit⟩ := ok
  have start : Keyed everyone { db with signupInvitations := invitations } :=
    keyed.frame rfl rfl rfl
  have keyInserted := (start.insertAccount created).insertSshKey key
  have credential : Keyed everyone { db₂ with recoveryCredentials := credentials } :=
    keyInserted.frame rfl rfl rfl
  exact credential.insertAuditEvent audit

/-- A recovery revokes the keys of the account, revives or adds one, and then ends
the sessions that were created with any of them. -/
theorem recoverAccount_keyed (keyed : Keyed everyone db) {recovery : AccountRecovery}
    (ok : db.recoverAccount recovery = .ok db') : Keyed everyone db' := by
  unfold Database.recoverAccount at ok
  simp only [bind_eq_ok, sqlite_eq_ok] at ok
  obtain ⟨account, -, keys, revoked, db₁, revived, credentials, -, db₂, ended, db₃, tokens,
    audit⟩ := ok
  have unsettled := keyed.updateKeys revoked
    (fun k chosen => (of_decide_eq_true chosen).1) (fun k => ⟨rfl, rfl⟩)
  have afterKey : Keyed (fun id => everyone id ∧ id ≠ account.id) db₁ := by
    unfold Database.reviveOrInsertKey at revived
    split at revived
    · exact unsettled.insertSshKey revived
    · split at revived
      · simp only [bind_eq_ok, sqlite_eq_ok, pure_eq_ok, Except.ok.injEq] at revived
        obtain ⟨keys', updated, rfl⟩ := revived
        refine (unsettled.updateKeys updated (fun k chosen => (of_decide_eq_true chosen).1)
          (fun k => ⟨rfl, rfl⟩)).weaken ?_
        exact fun id inside => ⟨inside, inside.2⟩
      · cases revived
  have credential :
      Keyed (fun id => everyone id ∧ id ≠ account.id)
        { db₁ with recoveryCredentials := credentials } :=
    afterKey.frame rfl rfl rfl
  exact ((credential.endSessions ended).revokeFeedTokens tokens).insertAuditEvent audit

theorem addAccountKey_keyed (keyed : Keyed everyone db) {username : String} {key : NewSshKey}
    {createdAt : Int} {actor correlationId : String}
    (ok : db.addAccountKey username key createdAt actor correlationId = .ok db') :
    Keyed everyone db' := by
  unfold Database.addAccountKey at ok
  simp only [bind_eq_ok] at ok
  obtain ⟨accountId, -, db₁, inserted, db₂, ended, audit⟩ := ok
  have unsettled : Keyed (fun id => everyone id ∧ id ≠ accountId) db₁ :=
    (keyed.insertSshKey inserted).weaken fun _ inside => inside.1
  exact (unsettled.endSessions ended).insertAuditEvent audit

theorem revokeAccountKey_keyed (keyed : Keyed everyone db) {username fingerprint : String}
    {revokedAt : Int} {actor correlationId : String}
    (ok : db.revokeAccountKey username fingerprint revokedAt actor correlationId = .ok db') :
    Keyed everyone db' := by
  unfold Database.revokeAccountKey at ok
  simp only [bind_eq_ok, sqlite_eq_ok] at ok
  obtain ⟨accountId, -, _, -, keys, revoked, _, -, db₁, ended, audit⟩ := ok
  have unsettled := keyed.updateKeys revoked
    (fun k chosen => (of_decide_eq_true chosen).1) (fun k => ⟨rfl, rfl⟩)
  exact (unsettled.endSessions ended).insertAuditEvent audit

theorem consumeAccountKeyAuthorization_keyed (keyed : Keyed everyone db)
    {authorization : AccountKeyAuthorization} {accountId : Nat} {keyId : Option Nat}
    (ok : db.consumeAccountKeyAuthorization authorization = .ok (db', accountId, keyId)) :
    Keyed everyone db' := by
  unfold Database.consumeAccountKeyAuthorization at ok
  simp only [bind_eq_ok, sqlite_eq_ok, pure_eq_ok, Except.ok.injEq, Prod.mk.injEq] at ok
  obtain ⟨session, -, approval, -, _, -, approvals, updated, _, -, rfl, -⟩ := ok
  exact keyed.consumeApprovals updated

theorem completeAccountKeyAdd_keyed (keyed : Keyed everyone db)
    {authorization : AccountKeyAuthorization} {key : NewSshKey}
    (ok : db.completeAccountKeyAdd authorization key = .ok db') : Keyed everyone db' := by
  unfold Database.completeAccountKeyAdd at ok
  simp only [bind_eq_ok] at ok
  obtain ⟨⟨db₁, accountId, keyId⟩, consumed, _, -, db₂, inserted, audit⟩ := ok
  have consumedKeyed := consumeAccountKeyAuthorization_keyed keyed consumed
  exact (consumedKeyed.insertSshKey inserted).insertAuditEvent audit

theorem suspendAccount_keyed (keyed : Keyed everyone db) {username : String} {suspended : Bool}
    {changedAt : Int} {actor correlationId : String}
    (ok : db.suspendAccount username suspended changedAt actor correlationId = .ok db') :
    Keyed everyone db' := by
  unfold Database.suspendAccount at ok
  simp only [bind_eq_ok, sqlite_eq_ok] at ok
  obtain ⟨accounts, -, _, -, account, -, db₁, ended, rest⟩ := ok
  have start : Keyed (fun id => everyone id ∧ id ≠ account.id) { db with accounts } :=
    (keyed.weaken fun _ inside => inside.1).frame rfl rfl rfl
  have settled := start.endSessions ended
  split at rest
  · simp only [bind_eq_ok] at rest
    obtain ⟨db₂, tokens, audit⟩ := rest
    exact (settled.revokeFeedTokens tokens).insertAuditEvent audit
  · exact settled.insertAuditEvent rest

theorem endAccountSessions_keyed (keyed : Keyed everyone db) {username : String}
    {endedAt : Int} (ok : db.endAccountSessions username endedAt = .ok db') :
    Keyed everyone db' := by
  unfold Database.endAccountSessions at ok
  simp only [bind_eq_ok] at ok
  obtain ⟨account, -, ended⟩ := ok
  have unsettled : Keyed (fun id => everyone id ∧ id ≠ account.id) db :=
    keyed.weaken fun _ inside => inside.1
  exact unsettled.endSessions ended

theorem createLoginNonce_keyed (keyed : Keyed everyone db) {nonce : NewLoginNonce}
    (ok : db.createLoginNonce nonce = .ok db') : Keyed everyone db' := by
  unfold Database.createLoginNonce at ok
  simp only [bind_eq_ok, sqlite_eq_ok, pure_eq_ok, Except.ok.injEq] at ok
  obtain ⟨_, -, account, -, nonces, -, rfl⟩ := ok
  exact keyed.frame rfl rfl rfl

/-- The key of a signed login belongs to the account and is not revoked. -/
theorem signedIdentity_key {login : NewWebSession} {accountId keyId : Nat}
    (found : db.signedIdentity login = some (accountId, keyId)) :
    ∃ k ∈ db.sshPublicKeys, k.id = keyId ∧ k.accountId = accountId ∧ k.revokedAt = none := by
  unfold Database.signedIdentity at found
  simp only [Option.bind_eq_bind, Option.bind_eq_some_iff, Option.pure_def, Option.some.injEq,
    Prod.mk.injEq] at found
  obtain ⟨nonce, -, account, -, key, foundKey, rfl, rfl⟩ := found
  obtain ⟨member, pinned⟩ := Table.mem_of_find foundKey
  have pinned := of_decide_eq_true pinned
  exact ⟨key, member, rfl, pinned.1, pinned.2.2.1⟩

theorem consumeLoginNonce_keyed (keyed : Keyed everyone db) {login : NewWebSession}
    (ok : db.consumeLoginNonce login = .ok db') : Keyed everyone db' := by
  unfold Database.consumeLoginNonce at ok
  simp only [bind_eq_ok, sqlite_eq_ok, required_eq_ok] at ok
  obtain ⟨⟨accountId, keyId⟩, found, nonces, -, _, -, db₁, session, audit⟩ := ok
  have start : Keyed everyone { db with loginNonces := nonces } := keyed.frame rfl rfl rfl
  have key := signedIdentity_key found
  exact (start.insertWebSession key session).insertAuditEvent audit

theorem createLoginApproval_keyed (keyed : Keyed everyone db) {approval : NewLoginApproval}
    (ok : db.createLoginApproval approval = .ok db') : Keyed everyone db' := by
  unfold Database.createLoginApproval at ok
  simp only [bind_eq_ok, sqlite_eq_ok, pure_eq_ok, Except.ok.injEq] at ok
  obtain ⟨_, -, expected, -, approvals, inserted, rfl⟩ := ok
  refine keyed.ofApprovals fun a ha => ?_
  rcases (Table.mem_insert inserted).mp ha with old | rfl
  · exact Or.inr ⟨a, (Table.mem_delete.mp old).1, rfl, rfl⟩
  · exact Or.inl rfl

theorem sshIdentity_key {username fingerprint : String} {accountId keyId : Nat}
    (found : db.sshIdentity username fingerprint = some (accountId, keyId)) :
    ∃ k ∈ db.sshPublicKeys, k.id = keyId ∧ k.accountId = accountId ∧ k.revokedAt = none := by
  unfold Database.sshIdentity at found
  simp only [Option.bind_eq_bind, Option.bind_eq_some_iff, Option.pure_def, Option.some.injEq,
    Prod.mk.injEq] at found
  obtain ⟨account, -, key, foundKey, rfl, rfl⟩ := found
  obtain ⟨member, pinned⟩ := Table.mem_of_find foundKey
  have pinned := of_decide_eq_true pinned
  exact ⟨key, member, rfl, pinned.1, pinned.2.2⟩

theorem approveLogin_keyed (keyed : Keyed everyone db) {approval : ApproveLogin}
    (ok : db.approveLogin approval = .ok db') : Keyed everyone db' := by
  unfold Database.approveLogin at ok
  simp only [bind_eq_ok, sqlite_eq_ok, required_eq_ok, pure_eq_ok, Except.ok.injEq] at ok
  obtain ⟨⟨accountId, keyId⟩, found, approvals, updated, _, -, rfl⟩ := ok
  refine ⟨keyed.live, ?_⟩
  intro a ha id recorded
  obtain ⟨before, member, same⟩ := (Table.mem_update updated).mp ha
  split at same
  · obtain ⟨k, hk, named, owner, -⟩ := sshIdentity_key found
    subst same
    cases recorded
    exact ⟨k, hk, named, by rw [owner]⟩
  · rw [same] at recorded ⊢
    exact keyed.approved before member id recorded

/-- The key of a usable approval belongs to the account and is not revoked. -/
theorem approvalUsable_key (keyed : Keyed everyone db) {login : NewApprovedWebSession}
    {approval : SshLoginApproval} {account : Account} {keyId : Nat}
    (member : approval ∈ db.sshLoginApprovals)
    (usable : db.approvalUsable login approval = true)
    (owned : approval.accountId = some account.id) (named : approval.sshPublicKeyId = some keyId) :
    ∃ k ∈ db.sshPublicKeys, k.id = keyId ∧ k.accountId = account.id ∧ k.revokedAt = none := by
  obtain ⟨k, hk, sameId, owner⟩ := keyed.approved approval member keyId named
  rw [owned, Option.some.injEq] at owner
  refine ⟨k, hk, sameId, owner.symm, ?_⟩
  unfold Database.approvalUsable at usable
  rw [owned] at usable
  simp only [reduceCtorEq, decide_false, Bool.false_or, Bool.and_eq_true,
    Bool.not_eq_true', Bool.eq_false_iff, ne_eq, Table.any_iff, not_exists, not_and] at usable
  by_contra revoked
  exact usable.2.2 k hk (decide_eq_true ⟨sameId ▸ named, revoked⟩)

theorem consumeLoginApproval_keyed (keyed : Keyed everyone db) {login : NewApprovedWebSession}
    {username : String} (ok : db.consumeLoginApproval login = .ok (db', username)) :
    Keyed everyone db' := by
  unfold Database.consumeLoginApproval at ok
  simp only [bind_eq_ok, sqlite_eq_ok, required_eq_ok, pure_eq_ok, Except.ok.injEq,
    Prod.mk.injEq] at ok
  obtain ⟨approval, found, account, owned, keyId, named, _, -, approvals, updated, _, -, db₁,
    session, db₂, audit, rfl, -⟩ := ok
  obtain ⟨member, usable⟩ := Table.mem_of_find found
  have owned := of_decide_eq_true (Table.mem_of_find owned).2
  have key := approvalUsable_key keyed member usable owned named
  exact ((keyed.consumeApprovals updated).insertWebSession key session).insertAuditEvent audit

theorem maintain_keyed (keyed : Keyed everyone db) (cutoff : Int) :
    Keyed everyone (db.maintain cutoff) := by
  refine ⟨?_, ?_⟩
  · intro s hs
    exact keyed.live s (Table.mem_delete.mp hs).1
  · intro a ha
    exact keyed.approved a (Table.mem_delete.mp ha).1

end Tit.Sessions
