/-
# Sessions.Revocation -- does revoking a key end the sessions it created?

`AcceptedKeysLive` is what a reader expects: a session that `web_session` accepts
was created with a key that is not revoked.  Every transaction keeps it except one.
`complete_account_key_revoke` ends the sessions of the account only when the session
that asks has no recorded key or has the revoked key itself; with a third session of
the revoked key still open, the property fails at once
(`acceptedKeysLive_iff_endsSessions`).  `revoke_account_key`, the same change made by
an administrator, always ends the sessions.
-/
import Tit.Sessions.Keyed

namespace Tit.Sessions

open Tit.Theory Tit.Store

set_option autoImplicit false

/-- A session accepted now, by its cookie, was created with a key that is live now. -/
def AcceptedKeysLive (db : Database) : Prop :=
  ∀ sessionHash csrfHash now record, db.webSession sessionHash csrfHash now = .ok record →
    ∀ s ∈ db.webSessions, s.sessionHash = sessionHash → ∀ id, s.sshPublicKeyId = some id →
      ∃ k ∈ db.sshPublicKeys, k.id = id ∧ k.revokedAt = none

variable {db db' : Database}

theorem webSession_unended {sessionHash : Hash} {csrfHash : Option Hash} {now : Int}
    {record : WebSessionRecord} (accepted : db.webSession sessionHash csrfHash now = .ok record) :
    ∃ s ∈ db.webSessions, s.sessionHash = sessionHash ∧ s.endedAt = none := by
  unfold Database.webSession at accepted
  simp only [bind_eq_ok, required_eq_ok] at accepted
  obtain ⟨s, found, -⟩ := accepted
  obtain ⟨member, pinned⟩ := Table.mem_of_find found
  have pinned := of_decide_eq_true pinned
  exact ⟨s, member, pinned.1, pinned.2.1⟩

theorem eq_of_sessionHash {s t : WebSession} (hs : s ∈ db.webSessions) (ht : t ∈ db.webSessions)
    (same : s.sessionHash = t.sessionHash) : s = t :=
  Table.eq_of_clash hs ht (decide_eq_true (Or.inr same))

theorem Keyed.acceptedKeysLive (keyed : Keyed everyone db) : AcceptedKeysLive db := by
  intro sessionHash csrfHash now record accepted s hs named id recorded
  obtain ⟨t, ht, sameHash, unended⟩ := webSession_unended accepted
  have same := eq_of_sessionHash hs ht (named.trans sameHash.symm)
  obtain ⟨k, hk, named, -, unrevoked⟩ :=
    keyed.live s hs trivial (same ▸ unended) id recorded
  exact ⟨k, hk, named, unrevoked⟩

/-! ## The one transaction that leaves sessions behind -/

/-- The change that `complete_account_key_revoke` accepts: a good session, an
approval, another key to log in with, and times that the columns take. -/
structure RevocationAccepted (db : Database) (authorization : AccountKeyAuthorization)
    (fingerprint : String) (session : WebSession) (key : SshPublicKey) : Prop where
  signed : db.authorizationSession authorization = some session
  approved : ∃ a, db.keyApproval authorization session.accountId = some a ∧
    a.createdAt ≤ authorization.changedAt
  another : 1 < db.activeKeys session.accountId
  member : key ∈ db.sshPublicKeys
  owner : key.accountId = session.accountId
  named : key.fingerprint = fingerprint
  unrevoked : key.revokedAt = none
  since : key.createdAt ≤ authorization.changedAt
  correlated : 1 ≤ authorization.correlationId.length ∧ authorization.correlationId.length ≤ 128

/-- No session of the revoked key outlives its revocation: the session that asks
makes the transaction end all of them, or there is none. -/
def EndsSessions (db : Database) : Operation → Prop
  | .completeAccountKeyRevoke authorization fingerprint =>
      ∀ session key, RevocationAccepted db authorization fingerprint session key →
        session.sshPublicKeyId = none ∨ session.sshPublicKeyId = some key.id ∨
          ∀ s ∈ db.webSessions, s.accountId = session.accountId → s.endedAt = none →
            s.sshPublicKeyId ≠ some key.id
  | _ => True

/-- The approval is consumed and nothing else changes. -/
theorem consumeAccountKeyAuthorization_spec {authorization : AccountKeyAuthorization}
    {accountId : Nat} {keyId : Option Nat}
    (ok : db.consumeAccountKeyAuthorization authorization = .ok (db', accountId, keyId)) :
    ∃ session approval approvals, db.authorizationSession authorization = some session ∧
      db.keyApproval authorization session.accountId = some approval ∧
      approval.createdAt ≤ authorization.changedAt ∧
      db' = { db with sshLoginApprovals := approvals } ∧
      accountId = session.accountId ∧ keyId = session.sshPublicKeyId := by
  unfold Database.consumeAccountKeyAuthorization at ok
  simp only [bind_eq_ok, sqlite_eq_ok, required_eq_ok, pure_eq_ok, Except.ok.injEq,
    Prod.mk.injEq] at ok
  obtain ⟨session, signed, approval, approved, _, -, approvals, updated, _, -, rfl, rfl, rfl⟩ := ok
  refine ⟨session, approval, approvals, signed, approved, ?_, rfl, rfl, rfl⟩
  obtain ⟨member, pinned⟩ := Table.mem_of_find approved
  rw [Bool.and_eq_true] at pinned
  have pinned := of_decide_eq_true pinned.1
  have chosen : decide (approval.secretHash = authorization.secretHash ∧
      approval.consumedAt = none) = true := decide_eq_true ⟨pinned.1, pinned.2.2.2.2.2.2.1⟩
  have checked := approvals.checked _ ((Table.mem_update updated).mpr ⟨approval, member, rfl⟩)
  rw [if_pos chosen] at checked
  simp only [Schema.check, Bool.and_eq_true, absentOrSince_some] at checked
  exact checked.1.2

theorem consumeAccountKeyAuthorization_succeeds {authorization : AccountKeyAuthorization}
    {session : WebSession} {approval : SshLoginApproval}
    (signed : db.authorizationSession authorization = some session)
    (approved : db.keyApproval authorization session.accountId = some approval)
    (since : approval.createdAt ≤ authorization.changedAt) :
    ∃ approvals, db.consumeAccountKeyAuthorization authorization =
      .ok ({ db with sshLoginApprovals := approvals }, session.accountId,
        session.sshPublicKeyId) := by
  obtain ⟨member, pinned⟩ := Table.mem_of_find approved
  rw [Bool.and_eq_true] at pinned
  have pinned := of_decide_eq_true pinned.1
  have only : ∀ a ∈ db.sshLoginApprovals,
      decide (a.secretHash = authorization.secretHash ∧ a.consumedAt = none) = true →
        a = approval := by
    intro a ha chosen
    have same := (of_decide_eq_true chosen).1.trans pinned.1.symm
    exact Table.eq_of_clash ha member (decide_eq_true (Or.inr same))
  obtain ⟨approvals, updated⟩ :
      ∃ approvals, db.sshLoginApprovals.update
        (fun a => decide (a.secretHash = authorization.secretHash ∧ a.consumedAt = none))
        (fun a => { a with consumedAt := some authorization.changedAt }) = .ok approvals := by
    refine Table.update_of (fun r s => Iff.rfl) ?_
    intro a ha chosen
    have checked := db.sshLoginApprovals.checked a ha
    rw [only a ha chosen] at checked ⊢
    simp only [Schema.check, Bool.and_eq_true, absentOrSince_some] at checked ⊢
    exact ⟨⟨checked.1.1, since⟩, checked.2⟩
  have counted : db.sshLoginApprovals.count
      (fun a => decide (a.secretHash = authorization.secretHash ∧ a.consumedAt = none)) = 1 :=
    Table.count_eq_one member (decide_eq_true ⟨pinned.1, pinned.2.2.2.2.2.2.1⟩)
      fun a ha chosen => by rw [only a ha chosen]
  refine ⟨approvals, ?_⟩
  unfold Database.consumeAccountKeyAuthorization
  simp only [bind_eq_ok, sqlite_eq_ok, required_eq_ok, ensure_eq_ok, pure_eq_ok]
  exact ⟨session, signed, approval, approved, ⟨⟩, pinned.2.2.2.2.1, approvals, updated, ⟨⟩,
    counted, rfl⟩

theorem active_account {authorization : AccountKeyAuthorization} {session : WebSession}
    (signed : db.authorizationSession authorization = some session) :
    session ∈ db.webSessions ∧ session.endedAt = none ∧
      ∃ a ∈ db.accounts, a.id = session.accountId ∧ a.username = authorization.username ∧
        a.state = .active := by
  obtain ⟨member, pinned⟩ := Table.mem_of_find signed
  rw [Bool.and_eq_true, Table.any_iff] at pinned
  obtain ⟨pinned, account, ha, named⟩ := pinned
  have pinned := of_decide_eq_true pinned
  exact ⟨member, pinned.2.2.1, account, ha, of_decide_eq_true named⟩

/-- A revocation that does not end the sessions keeps the invariant when no live
session has the key. -/
theorem Keyed.revokeUnused (keyed : Keyed everyone db) {key : SshPublicKey} {revokedAt : Int}
    {p : SshPublicKey → Bool} {keys : Table SshPublicKey} (member : key ∈ db.sshPublicKeys)
    (only : ∀ k, p k = true → k.id = key.id)
    (unused : ∀ s ∈ db.webSessions, s.accountId = key.accountId → s.endedAt = none →
      s.sshPublicKeyId ≠ some key.id)
    (updated : db.sshPublicKeys.update p (fun k => { k with revokedAt := some revokedAt })
      = .ok keys) :
    Keyed everyone { db with sshPublicKeys := keys } := by
  have kept : ∀ k ∈ db.sshPublicKeys, ∃ k' ∈ keys, k'.id = k.id ∧ k'.accountId = k.accountId ∧
      (k.id ≠ key.id → k'.revokedAt = k.revokedAt) := by
    intro k hk
    refine ⟨_, (Table.mem_update updated).mpr ⟨k, hk, rfl⟩, ?_⟩
    cases chosen : p k with
    | true => exact ⟨rfl, rfl, fun other => absurd (only k chosen) other⟩
    | false => exact ⟨rfl, rfl, fun _ => rfl⟩
  refine ⟨?_, ?_⟩
  · intro s hs inside unended id recorded
    obtain ⟨k, hk, rfl, owner, unrevoked⟩ := keyed.live s hs inside unended id recorded
    obtain ⟨k', hk', sameId, sameOwner, same⟩ := kept k hk
    have other : k.id ≠ key.id := by
      intro eq
      have sameKey : k = key := Table.eq_of_key hk member eq
      exact unused s hs (sameKey ▸ owner.symm) unended (eq ▸ recorded)
    exact ⟨k', hk', sameId, sameOwner.trans owner, (same other).trans unrevoked⟩
  · intro a ha id recorded
    obtain ⟨k, hk, rfl, owner⟩ := keyed.approved a ha id recorded
    obtain ⟨k', hk', sameId, sameOwner, -⟩ := kept k hk
    exact ⟨k', hk', sameId, by rw [owner, sameOwner]⟩

theorem completeAccountKeyRevoke_keyed (keyed : Keyed everyone db)
    {authorization : AccountKeyAuthorization} {fingerprint : String}
    (ends : EndsSessions db (.completeAccountKeyRevoke authorization fingerprint))
    (ok : db.completeAccountKeyRevoke authorization fingerprint = .ok db') :
    Keyed everyone db' := by
  unfold Database.completeAccountKeyRevoke at ok
  simp only [bind_eq_ok, sqlite_eq_ok, required_eq_ok, ensure_eq_ok] at ok
  obtain ⟨⟨db₁, accountId, keyId⟩, consumed, _, another, key, found, keys, updated, _, -,
    rest⟩ := ok
  have consumedKeyed := consumeAccountKeyAuthorization_keyed keyed consumed
  obtain ⟨session, approval, approvals, signed, approved, since, rfl, rfl, rfl⟩ :=
    consumeAccountKeyAuthorization_spec consumed
  split at rest
  · simp only [bind_eq_ok] at rest
    obtain ⟨db₂, ended, audit⟩ := rest
    have unsettled := consumedKeyed.updateKeys updated
      (fun k chosen => (of_decide_eq_true chosen).2.1) (fun k => ⟨rfl, rfl⟩)
    exact (unsettled.endSessions ended).insertAuditEvent audit
  · rename_i keeps
    push Not at keeps
    obtain ⟨member, pinned⟩ := Table.mem_of_find found
    have pinned := of_decide_eq_true pinned
    have fits := (Database.insertAuditEvent_succeeds _).mp ⟨_, rest⟩
    have keySince : key.createdAt ≤ authorization.changedAt := by
      have checked := keys.checked _ ((Table.mem_update updated).mpr ⟨key, member, rfl⟩)
      rw [if_pos (decide_eq_true ⟨rfl, pinned.1, pinned.2.2⟩)] at checked
      simp only [Schema.check, Bool.and_eq_true, absentOrSince_some] at checked
      exact checked.2
    have unused := ends session key
      { signed, approved := ⟨approval, approved, since⟩, another, member, owner := pinned.1,
        named := pinned.2.1, unrevoked := pinned.2.2, since := keySince,
        correlated := fits.2.2.2.1 }
    have unused := (unused.resolve_left keeps.1).resolve_left keeps.2
    have revoked := consumedKeyed.revokeUnused member
      (fun k chosen => (of_decide_eq_true chosen).1)
      (fun s hs owner unended => unused s hs (owner.trans pinned.1) unended) updated
    exact revoked.insertAuditEvent rest

/-- The texts of an accepted change fit the audit history. -/
theorem revocation_audited (target : Database) {authorization : AccountKeyAuthorization}
    {fingerprint : String} {session : WebSession} {key : SshPublicKey}
    (accepted : RevocationAccepted db authorization fingerprint session key) :
    ∃ db', target.insertAuditEvent
      { action := "key.revoke", actor := authorization.username,
        target := authorization.username ++ ":" ++ fingerprint, outcome := .success,
        correlationId := authorization.correlationId, createdAt := authorization.changedAt }
      = .ok db' := by
  obtain ⟨-, -, account, ha, -, username, -⟩ := active_account accepted.signed
  have nameFits := db.accounts.checked account ha
  have keyFits := db.sshPublicKeys.checked key accepted.member
  simp only [Schema.check, Bool.and_eq_true, lengthBetween_iff, decide_eq_true_eq, nameCheck,
    username, accepted.named] at nameFits keyFits
  have since := accepted.since
  have colon : ":".length = 1 := by decide
  have target : (authorization.username ++ ":" ++ fingerprint).length =
      authorization.username.length + 1 + fingerprint.length := by
    rw [String.length_append, String.length_append, colon]
  refine (Database.insertAuditEvent_succeeds _).mpr
    ⟨by simp only; decide, by simp only; omega, by simp only [target]; omega,
      accepted.correlated, by simp only; omega⟩

/-- The accepted change that keeps the sessions goes through. -/
theorem completeAccountKeyRevoke_succeeds {authorization : AccountKeyAuthorization}
    {fingerprint : String} {session : WebSession} {key : SshPublicKey}
    (accepted : RevocationAccepted db authorization fingerprint session key)
    (keeps : ¬(session.sshPublicKeyId = none ∨ session.sshPublicKeyId = some key.id)) :
    ∃ db', db.completeAccountKeyRevoke authorization fingerprint = .ok db' ∧
      db'.webSessions = db.webSessions ∧ db'.accounts = db.accounts ∧
      ∀ k ∈ db'.sshPublicKeys, k.id = key.id → k.revokedAt ≠ none := by
  obtain ⟨approval, approved, since⟩ := accepted.approved
  obtain ⟨approvals, consumed⟩ :=
    consumeAccountKeyAuthorization_succeeds accepted.signed approved since
  have pinned : (decide (key.accountId = session.accountId ∧ key.fingerprint = fingerprint ∧
      key.revokedAt = none)) = true :=
    decide_eq_true ⟨accepted.owner, accepted.named, accepted.unrevoked⟩
  have only : ∀ k ∈ db.sshPublicKeys, decide (k.accountId = session.accountId ∧
      k.fingerprint = fingerprint ∧ k.revokedAt = none) = true → k = key := by
    intro k hk chosen
    have same := (of_decide_eq_true chosen).2.1.trans accepted.named.symm
    exact Table.eq_of_clash hk accepted.member (decide_eq_true (Or.inr (Or.inl same)))
  have found := Table.find_eq_some accepted.member pinned only
  have counted : db.sshPublicKeys.count (fun k => decide (k.id = key.id ∧
      k.accountId = session.accountId ∧ k.revokedAt = none)) = 1 :=
    Table.count_eq_one accepted.member
      (decide_eq_true ⟨rfl, accepted.owner, accepted.unrevoked⟩)
      fun k _ chosen => (of_decide_eq_true chosen).1
  obtain ⟨keys, updated⟩ : ∃ keys, db.sshPublicKeys.update
      (fun k => decide (k.id = key.id ∧ k.accountId = session.accountId ∧ k.revokedAt = none))
      (fun k => { k with revokedAt := some authorization.changedAt }) = .ok keys := by
    refine Table.update_of (fun r s => Iff.rfl) ?_
    intro k hk chosen
    obtain rfl := Table.eq_of_key hk accepted.member (of_decide_eq_true chosen).1
    have checked := db.sshPublicKeys.checked k hk
    simp only [Schema.check, Bool.and_eq_true, absentOrSince_some] at checked ⊢
    exact ⟨checked.1, accepted.since⟩
  obtain ⟨db', audit⟩ := revocation_audited
    { db with sshLoginApprovals := approvals, sshPublicKeys := keys } accepted
  refine ⟨db', ?_, ?_⟩
  · unfold Database.completeAccountKeyRevoke
    simp only [bind_eq_ok, sqlite_eq_ok, required_eq_ok, ensure_eq_ok]
    refine ⟨_, consumed, ⟨⟩, accepted.another, key, found, keys, updated, ⟨⟩, counted, ?_⟩
    rw [if_neg keeps]
    exact audit
  · obtain ⟨auditEvents, -, rfl⟩ := Database.insertAuditEvent_eq_ok.mp audit
    refine ⟨rfl, rfl, ?_⟩
    intro k hk same
    obtain ⟨before, hb, rfl⟩ := (Table.mem_update updated).mp hk
    by_cases chosen : before.id = key.id ∧ before.accountId = session.accountId ∧
        before.revokedAt = none
    · rw [if_pos (decide_eq_true chosen)]
      simp
    · rw [if_neg (by simpa using chosen)] at same
      obtain rfl := Table.eq_of_key hb accepted.member same
      exact absurd ⟨rfl, accepted.owner, accepted.unrevoked⟩ chosen

/-- The session that outlives its key is accepted. -/
theorem completeAccountKeyRevoke_exposed {authorization : AccountKeyAuthorization}
    {fingerprint : String}
    (good : AcceptedKeysLive (committed db
      (db.completeAccountKeyRevoke authorization fingerprint))) :
    EndsSessions db (.completeAccountKeyRevoke authorization fingerprint) := by
  intro session key accepted
  by_contra kept
  push Not at kept
  obtain ⟨recorded, other, s, hs, owner, unended, used⟩ := kept
  obtain ⟨db', ok, sessions, accounts, revoked⟩ :=
    completeAccountKeyRevoke_succeeds accepted (not_or.mpr ⟨recorded, other⟩)
  rw [ok] at good
  obtain ⟨-, -, account, ha, owned, -, active⟩ := active_account accepted.signed
  have found : db'.webSession s.sessionHash none s.expiresAt =
      .ok { username := account.username, isAdministrator := account.isAdministrator } := by
    unfold Database.webSession
    simp only [bind_eq_ok, required_eq_ok, pure_eq_ok]
    refine ⟨s, ?_, account, ?_, rfl⟩
    · refine Table.find_eq_some (sessions ▸ hs) (by simp [unended]) ?_
      intro t ht chosen
      exact eq_of_sessionHash ht (sessions ▸ hs) (of_decide_eq_true chosen).1
    · refine Table.find_eq_some (accounts ▸ ha) (decide_eq_true ⟨owned.trans owner.symm, active⟩) ?_
      intro b hb chosen
      have same := (of_decide_eq_true chosen).1.trans (owner.trans owned.symm)
      exact Table.eq_of_key hb (accounts ▸ ha) same
  obtain ⟨k, hk, same, unrevoked⟩ := good _ _ _ _ found s (sessions ▸ hs) rfl key.id used
  exact revoked k hk same unrevoked

/-! ## Runs -/

/-- What one transaction preserves. -/
theorem operation_keyed (keyed : Keyed everyone db) (operation : Operation)
    (ends : EndsSessions db operation) :
    Keyed everyone (committed db (operation.transact db)) := by
  rcases committed_eq_or db (operation.transact db) with failed | ok
  · rw [failed]
    exact keyed
  · revert ok
    generalize committed db (operation.transact db) = db'
    intro ok
    cases operation with
    | createInitialAdministrator => exact createInitialAdministrator_keyed keyed ok
    | createSignupInvitation => exact createSignupInvitation_keyed keyed ok
    | createAccountWithInvitation => exact createAccountWithInvitation_keyed keyed ok
    | recoverAccount => exact recoverAccount_keyed keyed ok
    | addAccountKey => exact addAccountKey_keyed keyed ok
    | revokeAccountKey => exact revokeAccountKey_keyed keyed ok
    | completeAccountKeyAdd => exact completeAccountKeyAdd_keyed keyed ok
    | completeAccountKeyRevoke => exact completeAccountKeyRevoke_keyed keyed ends ok
    | suspendAccount => exact suspendAccount_keyed keyed ok
    | endAccountSessions => exact endAccountSessions_keyed keyed ok
    | createLoginNonce => exact createLoginNonce_keyed keyed ok
    | consumeLoginNonce => exact consumeLoginNonce_keyed keyed ok
    | createLoginApproval => exact createLoginApproval_keyed keyed ok
    | approveLogin => exact approveLogin_keyed keyed ok
    | consumeLoginApproval login =>
        cases consumed : db.consumeLoginApproval login with
        | error error =>
            rw [Operation.transact, consumed] at ok
            cases ok
        | ok result =>
            rw [Operation.transact, consumed] at ok
            cases ok
            exact consumeLoginApproval_keyed keyed consumed
    | maintain cutoff =>
        cases ok
        exact maintain_keyed keyed cutoff

theorem step_keyed (before : Database) (operation : Operation) (after : Database)
    (keyed : Keyed everyone before) (ends : EndsSessions before operation)
    (next : step before operation = some after) : Keyed everyone after := by
  cases next
  exact operation_keyed keyed operation ends

theorem step_exposed (before : Database) (operation : Operation) (after : Database)
    (next : step before operation = some after) (good : AcceptedKeysLive after) :
    EndsSessions before operation := by
  cases next
  cases operation with
  | completeAccountKeyRevoke authorization fingerprint =>
      exact completeAccountKeyRevoke_exposed good
  | _ => trivial

/-- **Accepted sessions have live keys along a run exactly when every self-service
revocation ends the sessions of the key it revokes.** -/
theorem acceptedKeysLive_iff_endsSessions (operations : List Operation) :
    Always step AcceptedKeysLive .initial operations ↔
      Meets step EndsSessions .initial operations :=
  always_iff_meets step_keyed (fun _ keyed => keyed.acceptedKeysLive)
    (fun before operation after _ => step_exposed before operation after) initial_keyed

/-! Pole: two browsers are logged in with two keys, and the first one revokes the key
of the second. -/

def twoBrowsers : List Operation :=
  [.createInitialAdministrator
    { username := "alice", canonicalKey := "k1", fingerprint := "f1", recoveryHash := 0,
      createdAt := 0 },
   .addAccountKey "alice" { canonicalKey := "k2", fingerprint := "f2", label := "laptop" } 1
    "alice" "c",
   .createLoginApproval
    { secretHash := 1, csrfHash := 1, createdAt := 2, expiresAt := 100, purpose := .login,
      expectedUsername := none },
   .approveLogin { secretHash := 1, username := "alice", fingerprint := "f1", approvedAt := 3 },
   .consumeLoginApproval
    { secretHash := 1, loginCsrfHash := 1, sessionHash := 11, csrfHash := 11, createdAt := 4,
      expiresAt := 100, correlationId := "c" },
   .createLoginApproval
    { secretHash := 2, csrfHash := 2, createdAt := 5, expiresAt := 100, purpose := .login,
      expectedUsername := none },
   .approveLogin { secretHash := 2, username := "alice", fingerprint := "f2", approvedAt := 6 },
   .consumeLoginApproval
    { secretHash := 2, loginCsrfHash := 2, sessionHash := 12, csrfHash := 12, createdAt := 7,
      expiresAt := 100, correlationId := "c" },
   .createLoginApproval
    { secretHash := 3, csrfHash := 11, createdAt := 8, expiresAt := 100, purpose := .accountKey,
      expectedUsername := some "alice" },
   .approveLogin { secretHash := 3, username := "alice", fingerprint := "f1", approvedAt := 9 },
   .completeAccountKeyRevoke
    { sessionHash := 11, csrfHash := 11, secretHash := 3, username := "alice", changedAt := 10,
      correlationId := "c" } "f2"]

/-- The second browser is accepted and its key is revoked. -/
def secondBrowserAccepted (db : Database) : Bool :=
  decide (db.webSession 12 none 10 = .ok { username := "alice", isAdministrator := true }) &&
    db.webSessions.any (fun s => decide (s.sessionHash = 12 ∧ s.sshPublicKeyId = some 2)) &&
    (db.sshPublicKeys.get 2).any fun k => decide (k.revokedAt = some 10)

theorem twoBrowsers_accepted : ((run step .initial twoBrowsers).any secondBrowserAccepted) = true := by
  decide

theorem revoked_key_still_accepted : ¬Always step AcceptedKeysLive .initial twoBrowsers := by
  intro always
  obtain ⟨db, ran, accepted⟩ := (Option.any_eq_true _ _).mp twoBrowsers_accepted
  simp only [secondBrowserAccepted, Bool.and_eq_true, decide_eq_true_eq, Table.any_iff,
    Option.any_eq_true] at accepted
  obtain ⟨⟨accepted, s, hs, named, recorded⟩, k, found, revoked⟩ := accepted
  obtain ⟨k', hk', same, unrevoked⟩ := always.final ran _ _ _ _ accepted s hs named 2 recorded
  obtain ⟨hk, id⟩ := Table.get_eq_some.mp found
  obtain rfl := Table.eq_of_key hk' hk (same.trans id.symm)
  rw [revoked] at unrevoked
  cases unrevoked

end Tit.Sessions
