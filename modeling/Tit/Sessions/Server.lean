/-
# Sessions.Server -- what the server gives for a credential

The requests of a running server: any transaction with any arguments, except that a nonce is consumed
only behind `verify`, that is for a challenge whose signature the SSH key library has confirmed.  The
`World` is the database with the history of the transactions that succeeded, newest first.

`credentials_sound` holds in every state of every run.  `Sound` says it of the transaction that comes
next, at the instant that it is applied.
-/
import Tit.Sessions.Credentials

namespace Tit.Sessions

open Tit.Theory Tit.Store Tit.Ssh

set_option autoImplicit false

structure Server (PublicKey Signature : Type) where
  library : SignatureLibrary PublicKey Signature
  /-- SHA-256. -/
  digest : List UInt8 → Hash
  origin : String

inductive Request where
  | verify (login : SignedLogin)
  | operation (operation : Operation)

structure World where
  db : Database
  history : List Operation

section Requests

variable {PublicKey Signature : Type} (server : Server PublicKey Signature)

/-- The transaction that a request leads to, if it is let through. -/
def Request.transaction : Request → Option Operation
  | .verify login =>
      match login.verify server.library server.digest server.origin with
      | .ok session => some (.consumeLoginNonce session)
      | .error _ => none
  | .operation (.consumeLoginNonce _) => none
  | .operation other => some other

def serve (w : World) (request : Request) : Option World :=
  match request.transaction server with
  | none => some w
  | some operation =>
      match operation.transact w.db with
      | .ok db => some { db, history := operation :: w.history }
      | .error _ => some w

/-! ## What is sound -/

/-- The key has signed a challenge with a nonce that was issued to the account, and the browser
presents the token that the nonce was issued with. -/
def SignedBy (history : List Operation) (request : Request) (a : Account) (k : SshPublicKey) :
    Prop :=
  ∃ login fields nonce, request = .verify login ∧
    KeylessChallengeFields.parse login.challenge = .ok fields ∧
    Signs server.library k.fingerprint login.challenge login.signature ∧
    nonceOf (server.digest fields.nonce) history = some nonce ∧
    fields.username = a.username ∧ nonce.username = a.username ∧
    nonce.csrfHash = server.digest login.loginCsrf.toUTF8.data.toList ∧
    login.createdAt ≤ nonce.expiresAt

end Requests

/-- The key has approved a login that was asked for with this token. -/
def ApprovedBy (history : List Operation) (operation : Operation) (a : Account)
    (k : SshPublicKey) : Prop :=
  ∃ login challenge approval, operation = .consumeLoginApproval login ∧
    approvalOf login.secretHash history = some challenge ∧
    challenge.purpose = .login ∧ challenge.expectedUsername = none ∧
    challenge.csrfHash = login.loginCsrfHash ∧ login.createdAt ≤ challenge.expiresAt ∧
    approverOf login.secretHash history = some approval ∧
    approval.username = a.username ∧ approval.fingerprint = k.fingerprint ∧
    approval.approvedAt ≤ challenge.expiresAt

/-- The session of this account asks for the change, with an approval that was issued for this
account to change keys and that the account has approved; only its keys differ then. -/
def KeyChange (w : World) (db' : Database) (authorization : AccountKeyAuthorization) : Prop :=
  ∃ s ∈ w.db.webSessions, (s.sessionHash = authorization.sessionHash ∧
      s.csrfHash = authorization.csrfHash ∧ s.endedAt = none ∧
      authorization.changedAt ≤ s.expiresAt) ∧
    ∃ a ∈ w.db.accounts, (a.id = s.accountId ∧ a.username = authorization.username ∧
        a.state = .active) ∧
      KeysOf s.accountId w.db db' ∧
      ∃ challenge approval, approvalOf authorization.secretHash w.history = some challenge ∧
        challenge.purpose = .accountKey ∧ challenge.expectedUsername = some a.username ∧
        challenge.csrfHash = authorization.csrfHash ∧
        authorization.changedAt ≤ challenge.expiresAt ∧
        approverOf authorization.secretHash w.history = some approval ∧
        approval.username = a.username ∧
        ∃ k ∈ w.db.sshPublicKeys, k.accountId = a.id ∧ k.fingerprint = approval.fingerprint ∧
          k.revokedAt = none

section Sound

variable {PublicKey Signature : Type} (server : Server PublicKey Signature)

/-- The transaction that comes next is sound. -/
structure Sound (w : World) (request : Request) (operation : Operation) (db' : Database) :
    Prop where
  /-- What is consumed has not expired; a recovery credential has no end. -/
  unexpired : ∀ credential at', operation.consumed = some (credential, at') →
    (∃ hash, credential = .recovery hash) ∨
      ∃ expiresAt, expiry w.history credential = some expiresAt ∧ at' ≤ expiresAt
  /-- A new session is for an active account and a key of it that is not revoked. -/
  session : ∀ s ∈ db'.webSessions, (∀ t ∈ w.db.webSessions, t.id ≠ s.id) →
    ∃ a ∈ w.db.accounts, a.id = s.accountId ∧ a.state = .active ∧
    ∃ k ∈ w.db.sshPublicKeys, s.sshPublicKeyId = some k.id ∧ k.accountId = a.id ∧
      k.revokedAt = none ∧
      (SignedBy server w.history request a k ∨ ApprovedBy w.history operation a k)
  keys : ∀ authorization, operation.authorization = some authorization →
    KeyChange w db' authorization

structure Good (w : World) : Prop where
  /-- Nothing is consumed more often than it was issued. -/
  once : ∀ credential, w.history.countP (Operation.consumes credential) ≤
    w.history.countP (Operation.issues credential)
  next : ∀ request operation db', request.transaction server = some operation →
    operation.transact w.db = .ok db' → Sound server w request operation db'

/-! ## The transaction that comes next -/

variable {server} {w : World} {db' : Database} {operation : Operation}

/-- No session is new. -/
theorem old_sessions {request : Request} (kept : ∀ s ∈ db'.webSessions, ∃ t ∈ w.db.webSessions,
    t.id = s.id) : ∀ s ∈ db'.webSessions, (∀ t ∈ w.db.webSessions, t.id ≠ s.id) →
    ∃ a ∈ w.db.accounts, a.id = s.accountId ∧ a.state = .active ∧
    ∃ k ∈ w.db.sshPublicKeys, s.sshPublicKeyId = some k.id ∧ k.accountId = a.id ∧
      k.revokedAt = none ∧
      (SignedBy server w.history request a k ∨ ApprovedBy w.history operation a k) := by
  intro s hs new
  obtain ⟨t, ht, same⟩ := kept s hs
  exact absurd same (new t ht)

theorem sound_quiet {request : Request} (quiet : Quiet w.db db')
    (none : operation.consumed = none) (keys : operation.authorization = .none) :
    Sound server w request operation db' where
  unexpired credential at' consumed := by
    rw [none] at consumed
    cases consumed
  session := old_sessions quiet.sessions
  keys authorization asked := by
    rw [keys] at asked
    cases asked

theorem sound_unchanged {request : Request} (sessions : db'.webSessions = w.db.webSessions)
    (none : operation.consumed = none) (keys : operation.authorization = .none) :
    Sound server w request operation db' where
  unexpired credential at' consumed := by
    rw [none] at consumed
    cases consumed
  session := old_sessions fun s hs => ⟨s, sessions ▸ hs, rfl⟩
  keys authorization asked := by
    rw [keys] at asked
    cases asked

/-- The account and the key behind an approval that a key change consumes. -/
theorem keyChange_of_authorized (traced : Traced w.db w.history)
    {authorization : AccountKeyAuthorization} {accountId : Nat}
    (authorized : Authorized w.db db' authorization accountId)
    (only : KeysOf accountId w.db db') :
    KeyChange w db' authorization ∧ ∃ expiresAt,
      expiry w.history (.approval authorization.secretHash) = some expiresAt ∧
        authorization.changedAt ≤ expiresAt := by
  obtain ⟨⟨s, hs, pinned, rfl, a, ha, owner, called, active⟩,
    ⟨row, hrow, ⟨secret, csrf, purpose, expected, approved, -, -, now⟩, k, hk, recorded, live⟩, -⟩ :=
    authorized
  obtain ⟨challenge, issued, csrf', expires', purpose', expects⟩ := traced.approvals row hrow
  obtain ⟨approval, by', before, named, k', hk', recorded', held, print⟩ :=
    traced.approvers row hrow s.accountId approved
  have username : challenge.expectedUsername = some a.username := by
    cases shown : challenge.expectedUsername with
    | none =>
        rw [shown] at expects
        have absent : row.expectedAccountId = none := expects
        rw [expected] at absent
        cases absent
    | some username =>
        rw [shown] at expects
        obtain ⟨id, same, named'⟩ := expects
        rw [expected, Option.some.injEq] at same
        rw [named'.username ha (owner.trans same)]
  have sameKey : k' = k :=
    Table.eq_of_key hk' hk (Option.some.inj (recorded'.symm.trans recorded))
  rw [secret] at issued by'
  refine ⟨⟨s, hs, pinned, a, ha, ⟨owner, called, active⟩, only, challenge, approval, issued,
    purpose'.trans purpose, username, csrf'.trans csrf, expires' ▸ now, by',
    (named.username ha owner).symm, k, hk, ?_, ?_, live⟩, challenge.expiresAt, ?_, expires' ▸ now⟩
  · rw [← sameKey, held, owner]
  · rw [← sameKey, print]
  · rw [expiry, issued]
    rfl

theorem sound_keyChange {request : Request} (traced : Traced w.db w.history)
    {authorization : AccountKeyAuthorization} {accountId : Nat}
    (consumed : operation.consumed =
      some (.approval authorization.secretHash, authorization.changedAt))
    (asked : operation.authorization = some authorization)
    (authorized : Authorized w.db db' authorization accountId)
    (only : KeysOf accountId w.db db') : Sound server w request operation db' := by
  obtain ⟨change, unexpired⟩ := keyChange_of_authorized traced authorized only
  obtain ⟨-, -, approvals, -, -, quiet⟩ := authorized
  refine ⟨?_, old_sessions quiet.sessions, ?_⟩
  · intro credential at' named
    rw [consumed] at named
    cases named
    exact Or.inr unexpired
  · intro authorization' named
    rw [asked] at named
    cases named
    exact change

theorem sound_createAccountWithInvitation {request : Request} (traced : Traced w.db w.history)
    {account : InvitedAccount} (ok : w.db.createAccountWithInvitation account = .ok db') :
    Sound server w request (.createAccountWithInvitation account) db' := by
  obtain ⟨invitations, db₁, accountId, credentials, -, one, before, -, after⟩ :=
    createAccountWithInvitation_effect ok
  refine ⟨?_, old_sessions ?_, nofun⟩
  · intro credential at' named
    cases named
    obtain ⟨i, hi, chosen⟩ : ∃ i ∈ w.db.signupInvitations, invited account i = true :=
      Table.exists_of_count (by omega)
    obtain ⟨hash, -, now⟩ := of_decide_eq_true chosen
    refine Or.inr ⟨i.expiresAt, ?_, now⟩
    rw [expiry, ← hash]
    exact traced.invitations i hi
  · intro s hs
    obtain ⟨s₁, hs₁, same⟩ := after.sessions s hs
    obtain ⟨t, ht, same'⟩ := before.sessions s₁ hs₁
    exact ⟨t, ht, same'.trans same⟩

theorem sound_recoverAccount {request : Request} {recovery : AccountRecovery}
    (ok : w.db.recoverAccount recovery = .ok db') :
    Sound server w request (.recoverAccount recovery) db' := by
  obtain ⟨db₁, accountId, credentials, -, before, -, after⟩ := recoverAccount_effect ok
  refine ⟨?_, old_sessions ?_, nofun⟩
  · intro credential at' named
    cases named
    exact Or.inl ⟨_, rfl⟩
  · intro s hs
    obtain ⟨s₁, hs₁, same⟩ := after.sessions s hs
    obtain ⟨t, ht, same'⟩ := before.sessions s₁ hs₁
    exact ⟨t, ht, same'.trans same⟩

theorem sound_consumeLoginNonce (traced : Traced w.db w.history) {login : SignedLogin}
    {session : NewWebSession}
    (verified : login.verify server.library server.digest server.origin = .ok session)
    (ok : w.db.consumeLoginNonce session = .ok db') :
    Sound server w (.verify login) (.consumeLoginNonce session) db' := by
  obtain ⟨n, hn, ⟨hash, -, now, csrf⟩, a, ha, ⟨owner, called, active⟩, k, hk, ⟨held, print, live⟩,
    nonces, sessions, -, -, -, made⟩ := consumeLoginNonce_effect ok
  obtain ⟨nonce, issued, csrf', expires', named⟩ := traced.nonces n hn
  rw [hash] at issued
  refine ⟨?_, ?_, nofun⟩
  · intro credential at' consumed
    cases consumed
    refine Or.inr ⟨nonce.expiresAt, ?_, expires' ▸ now⟩
    rw [expiry, issued]
    rfl
  · intro s hs new
    rcases made s hs with old | ⟨account, key⟩
    · exact absurd rfl (new s old)
    · refine ⟨a, ha, account.symm, active, k, hk, key, held, live, Or.inl ?_⟩
      simp only [SignedLogin.verify, bind_eq_ok, ensure_eq_ok, pure_eq_ok, Except.ok.injEq]
        at verified
      obtain ⟨_, -, _, -, proof, checked, rfl⟩ := verified
      obtain ⟨fields, read, -, mine, -, mine', nonceHash, signs⟩ :=
        verifyKeylessLoginChallenge_eq_ok checked
      rw [nonceHash] at issued
      refine ⟨login, fields, nonce, rfl, read, print ▸ signs, issued, ?_, ?_, csrf'.trans csrf,
        expires' ▸ now⟩
      · exact mine.trans (mine'.symm.trans called.symm)
      · exact (named.username ha owner).symm

theorem sound_consumeLoginApproval {request : Request} (traced : Traced w.db w.history)
    {login : NewApprovedWebSession} {username : String}
    (ok : w.db.consumeLoginApproval login = .ok (db', username)) :
    Sound server w request (.consumeLoginApproval login) db' := by
  obtain ⟨row, hrow, usable, a, ha, owner, keyId, recorded, approvals, sessions, -, -, -, made⟩ :=
    consumeLoginApproval_effect ok
  obtain ⟨approval, by', before, named, k, hk, recorded', held, print⟩ :=
    traced.approvers row hrow a.id owner
  obtain ⟨challenge, issued, csrf', expires', purpose', expects⟩ := traced.approvals row hrow
  simp only [Database.approvalUsable, Bool.and_eq_true, decide_eq_true_eq, owner, reduceCtorEq,
    decide_false, Bool.false_or, Table.any_iff, Option.some.injEq, Bool.not_eq_true',
    Bool.eq_false_iff, ne_eq, not_exists, not_and, not_not] at usable
  obtain ⟨⟨secret, csrf, purpose, unexpected, -, now⟩, ⟨a', ha', same, active⟩, unrevoked⟩ := usable
  have account : a = a' := Table.eq_of_key ha ha' same
  have sameKey : k.id = keyId := Option.some.inj (recorded'.symm.trans recorded)
  rw [secret] at issued by'
  refine ⟨?_, ?_, nofun⟩
  · intro credential at' consumed
    cases consumed
    refine Or.inr ⟨challenge.expiresAt, ?_, expires' ▸ now⟩
    rw [expiry, issued]
    rfl
  · intro s hs new
    rcases made s hs with old | ⟨owned, key⟩
    · exact absurd rfl (new s old)
    · refine ⟨a, ha, owned.symm, account ▸ active, k, hk, sameKey ▸ key, held,
        unrevoked k hk recorded', Or.inr ⟨login, challenge, approval, rfl, issued,
        purpose'.trans purpose, ?_, csrf'.trans csrf, expires' ▸ now, by',
        (named.username ha rfl).symm, print.symm, expires'.symm ▸ before⟩⟩
      cases shown : challenge.expectedUsername with
      | none => rfl
      | some username =>
          rw [shown] at expects
          obtain ⟨id, expected, -⟩ := expects
          rw [unexpected] at expected
          cases expected

/-- **The transaction that comes next is sound**, one case for each. -/
theorem sound_next (traced : Traced w.db w.history) {request : Request}
    (asked : request.transaction server = some operation)
    (ok : operation.transact w.db = .ok db') : Sound server w request operation db' := by
  cases operation with
  | createInitialAdministrator administrator =>
      obtain ⟨db₁, accountId, credentials, quiet, -, rfl⟩ := createInitialAdministrator_effect ok
      exact ⟨fun spent at' same => (by cases same), old_sessions quiet.sessions,
        fun authorization same => by cases same⟩
  | createSignupInvitation codeHash createdAt expiresAt =>
      simp only [Operation.transact, Database.createSignupInvitation, bind_eq_ok, pure_eq_ok,
        Except.ok.injEq] at ok
      obtain ⟨invitations, -, rfl⟩ := ok
      exact sound_unchanged rfl rfl rfl
  | createAccountWithInvitation account => exact sound_createAccountWithInvitation traced ok
  | recoverAccount recovery => exact sound_recoverAccount ok
  | addAccountKey username key createdAt actor correlationId =>
      exact sound_quiet (addAccountKey_quiet ok) rfl rfl
  | revokeAccountKey username fingerprint revokedAt actor correlationId =>
      exact sound_quiet (revokeAccountKey_quiet ok) rfl rfl
  | completeAccountKeyAdd authorization key =>
      obtain ⟨accountId, authorized, only⟩ := completeAccountKeyAdd_effect ok
      exact sound_keyChange traced rfl rfl authorized only
  | completeAccountKeyRevoke authorization fingerprint =>
      obtain ⟨accountId, authorized, only⟩ := completeAccountKeyRevoke_effect ok
      exact sound_keyChange traced rfl rfl authorized only
  | suspendAccount username suspended changedAt actor correlationId =>
      exact sound_quiet (suspendAccount_quiet ok) rfl rfl
  | endAccountSessions username endedAt =>
      exact sound_quiet (endAccountSessions_quiet ok) rfl rfl
  | createLoginNonce nonce =>
      obtain ⟨account, -, -, outdated, id, nonces, -, rfl⟩ := createLoginNonce_effect ok
      exact sound_unchanged rfl rfl rfl
  | consumeLoginNonce session =>
      cases request with
      | verify login =>
          simp only [Request.transaction] at asked
          split at asked
          · rename_i session' verified
            cases asked
            exact sound_consumeLoginNonce traced verified ok
          · cases asked
      | operation other =>
          cases other with
          | _ => cases asked
  | createLoginApproval challenge =>
      obtain ⟨expected, -, outdated, id, approvals, -, rfl⟩ := createLoginApproval_effect ok
      exact sound_unchanged rfl rfl rfl
  | approveLogin approval =>
      obtain ⟨account, -, -, k, -, -, approvals, -, -, rfl⟩ := approveLogin_effect ok
      exact sound_unchanged rfl rfl rfl
  | consumeLoginApproval login =>
      obtain ⟨⟨db₁, username⟩, consumed, rfl⟩ := map_eq_ok.mp ok
      exact sound_consumeLoginApproval traced consumed
  | maintain cutoff =>
      cases ok
      exact ⟨fun spent at' same => (by cases same),
        old_sessions fun s hs => ⟨s, (Table.mem_delete.mp hs).1, rfl⟩,
        fun authorization same => by cases same⟩

/-! ## Every run -/

/-- What has been consumed and what is live has been issued. -/
def Counted (w : World) : Prop := ∀ credential,
  w.history.countP (Operation.consumes credential) + live w.db credential ≤
    w.history.countP (Operation.issues credential)

theorem counted_step (counted : Counted w) (ok : operation.transact w.db = .ok db') :
    Counted ⟨db', operation :: w.history⟩ := by
  intro credential
  have before := counted credential
  have step := live_step ok credential
  rw [List.countP_cons, List.countP_cons]
  simp only [tally] at step
  simp only [Operation.consumes, Operation.issues, decide_eq_true_eq] at before ⊢
  omega

end Sound

/-- **Credentials are used once, in time, and for what they were issued for**, in every state of every
run of the server. -/
theorem credentials_sound {PublicKey Signature : Type} (server : Server PublicKey Signature)
    (requests : List Request) :
    Always (serve server) (Good server) ⟨.initial, []⟩ requests := by
  let inv (w : World) : Prop := Counted w ∧ Traced w.db w.history
  have keeps (w : World) (request : Request) (w' : World) (holds : inv w)
      (next : serve server w request = some w') : inv w' := by
    obtain ⟨counted, traced⟩ := holds
    rw [serve] at next
    split at next
    · cases next
      exact ⟨counted, traced⟩
    · split at next
      · rename_i ok
        cases next
        exact ⟨counted_step counted ok, traced.step ok⟩
      · cases next
        exact ⟨counted, traced⟩
  have start : inv ⟨.initial, []⟩ := by
    refine ⟨fun credential => ?_, Traced.empty⟩
    cases credential <;> exact Nat.le_refl _
  refine (always_of_steps keeps start requests).mono ?_
  rintro w ⟨counted, traced⟩
  refine ⟨fun credential => ?_, fun request operation db' asked ok => sound_next traced asked ok⟩
  exact (Nat.le_add_right _ _).trans (counted credential)

end Tit.Sessions
