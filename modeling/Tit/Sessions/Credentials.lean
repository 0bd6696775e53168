/-
# Sessions.Credentials -- every credential is used once

Invitations, nonces, approvals and recovery credentials are issued by one transaction and consumed by
another.  `live` counts the rows of a credential that may still be consumed; no transaction adds to
it without issuing the credential, and consuming one takes a row away (`live_step`).  `Traced` says
which transaction every row comes from: the one that issued it last, and for an approval the one that
approved it since.

`credentials_sound` puts both together for every run of the server: what it has consumed was issued
before, had not expired, and what it gave in return went to the account and the key that asked.
-/
import Tit.Sessions.Effects
import Tit.Ssh.LoginChallenge

namespace Tit.Sessions

open Tit.Theory Tit.Store Tit.Ssh

set_option autoImplicit false

/-! ## What transactions issue and consume -/

inductive Credential where
  | invitation (codeHash : Hash)
  | nonce (nonceHash : Hash)
  | approval (secretHash : Hash)
  | recovery (credentialHash : Hash)
  deriving DecidableEq, Repr

def Operation.issued : Operation → Option Credential
  | .createInitialAdministrator administrator => some (.recovery administrator.recoveryHash)
  | .createSignupInvitation codeHash _ _ => some (.invitation codeHash)
  | .createAccountWithInvitation account => some (.recovery account.recoveryHash)
  | .recoverAccount recovery => some (.recovery recovery.newRecoveryHash)
  | .createLoginNonce nonce => some (.nonce nonce.nonceHash)
  | .createLoginApproval approval => some (.approval approval.secretHash)
  | _ => none

/-- What a transaction consumes, and its reading of the clock. -/
def Operation.consumed : Operation → Option (Credential × Int)
  | .createAccountWithInvitation account =>
      some (.invitation account.invitationHash, account.createdAt)
  | .recoverAccount recovery => some (.recovery recovery.oldRecoveryHash, recovery.createdAt)
  | .completeAccountKeyAdd authorization _ =>
      some (.approval authorization.secretHash, authorization.changedAt)
  | .completeAccountKeyRevoke authorization _ =>
      some (.approval authorization.secretHash, authorization.changedAt)
  | .consumeLoginNonce login => some (.nonce login.nonceHash, login.createdAt)
  | .consumeLoginApproval login => some (.approval login.secretHash, login.createdAt)
  | _ => none

/-- The change of keys that a session asks for. -/
def Operation.authorization : Operation → Option AccountKeyAuthorization
  | .completeAccountKeyAdd authorization _ => some authorization
  | .completeAccountKeyRevoke authorization _ => some authorization
  | _ => none

def Operation.issues (credential : Credential) (operation : Operation) : Bool :=
  decide (operation.issued = some credential)

def Operation.consumes (credential : Credential) (operation : Operation) : Bool :=
  decide (operation.consumed.map (·.1) = some credential)

/-! ## Rows that may still be consumed -/

def unconsumedInvitation (codeHash : Hash) (i : SignupInvitation) : Bool :=
  decide (i.codeHash = codeHash ∧ i.consumedAt = none)

def live (db : Database) : Credential → Nat
  | .invitation codeHash => db.signupInvitations.count (unconsumedInvitation codeHash)
  | .nonce nonceHash => db.loginNonces.count (unconsumedNonce nonceHash)
  | .approval secretHash => db.sshLoginApprovals.count (unconsumedApproval secretHash)
  | .recovery credentialHash =>
      db.recoveryCredentials.count fun c => decide (c.credentialHash = credentialHash)

variable {db db' : Database}

theorem Quiet.live (quiet : Quiet db db') (credential : Credential) :
    live db' credential = live db credential := by
  cases credential with
  | invitation codeHash => rw [Sessions.live, Sessions.live, quiet.invitations]
  | nonce nonceHash => rw [Sessions.live, Sessions.live, quiet.nonces]
  | approval secretHash => rw [Sessions.live, Sessions.live, quiet.approvals]
  | recovery credentialHash => rw [Sessions.live, Sessions.live, quiet.credentials]

section Rows

variable {R : Type} [Schema R Nat] {t t' : Table R} {p q : R → Bool} {f : R → R}

/-- An update that closes rows opens none. -/
theorem count_closed (updated : t.update p f = .ok t') (closes : ∀ r, q (f r) = false) :
    t'.count q + t.count (fun r => p r && q r) = t.count q := by
  have counted := Table.count_update updated q
  have none : t.count (fun r => p r && q (f r)) = 0 := by
    refine List.countP_eq_zero.mpr fun r _ => ?_
    rw [closes r, Bool.and_false]
    exact Bool.false_ne_true
  omega

/-- Consuming the one open row. -/
theorem count_consumed (updated : t.update p f = .ok t') (closes : ∀ r, q (f r) = false)
    (one : t.count p = 1) (opened : ∀ r, p r = true → q r = true) :
    t'.count q + 1 = t.count q := by
  have counted := count_closed updated closes
  have same : t.count (fun r => p r && q r) = t.count p := by
    refine List.countP_congr fun r _ => ?_
    rw [Bool.and_eq_true]
    exact ⟨fun both => both.1, fun chosen => ⟨chosen, opened r chosen⟩⟩
  omega

/-- A hash is consumed when it is the one that was asked for. -/
theorem count_asked {asked hash : Hash} (updated : t.update p f = .ok t')
    (closes : ∀ r, q (f r) = false) (one : t.count p = 1)
    (opened : asked = hash → ∀ r, p r = true → q r = true) :
    t'.count q + (if asked = hash then 1 else 0) ≤ t.count q := by
  by_cases same : asked = hash
  · have exact' := count_consumed updated closes one (opened same)
    rw [if_pos same]
    omega
  · have fewer := count_closed updated closes
    rw [if_neg same]
    omega

end Rows

/-- The account of a recovery gives up one hash for another. -/
theorem count_recovered {credentials credentials' : Table RecoveryCredential} {accountId : Nat}
    {old new : Hash} {createdAt : Int}
    (presented : ∃ c ∈ credentials, c.accountId = accountId ∧ c.credentialHash = old)
    (updated : credentials.update (fun c => decide (c.accountId = accountId))
      (fun c => { c with credentialHash := new, createdAt }) = .ok credentials') (hash : Hash) :
    credentials'.count (fun c => decide (c.credentialHash = hash)) + (if old = hash then 1 else 0) ≤
      credentials.count (fun c => decide (c.credentialHash = hash)) +
        if new = hash then 1 else 0 := by
  obtain ⟨c, hc, owner, held⟩ := presented
  have counted : credentials'.count (fun c => decide (c.credentialHash = hash)) +
      credentials.count (fun c => decide (c.accountId = accountId) &&
        decide (c.credentialHash = hash)) =
      credentials.count (fun c => decide (c.credentialHash = hash)) +
      credentials.count (fun c => decide (c.accountId = accountId) && decide (new = hash)) :=
    Table.count_update updated _
  have one : credentials.count (fun c => decide (c.accountId = accountId)) = 1 :=
    Table.count_eq_one hc (decide_eq_true owner) fun s _ chosen =>
      (of_decide_eq_true chosen).trans owner.symm
  have added : credentials.count (fun c => decide (c.accountId = accountId) &&
      decide (new = hash)) = if new = hash then 1 else 0 := by
    by_cases same : new = hash
    · simp only [same, decide_true, Bool.and_true, if_true, one]
    · simp only [same, decide_false, Bool.and_false, if_false]
      exact List.countP_eq_zero.mpr fun _ _ => Bool.false_ne_true
  have removed : (if old = hash then 1 else 0) ≤ credentials.count (fun c =>
      decide (c.accountId = accountId) && decide (c.credentialHash = hash)) := by
    split
    · rename_i same
      refine List.countP_pos_iff.mpr ⟨c, hc, ?_⟩
      rw [Bool.and_eq_true]
      exact ⟨decide_eq_true owner, decide_eq_true (held.trans same)⟩
    · exact Nat.zero_le _
  omega

/-- One where a credential is the one that was named. -/
def tally (named : Option Credential) (credential : Credential) : Nat :=
  if named = some credential then 1 else 0

theorem Quiet.step (quiet : Quiet db db') (credential : Credential) :
    Sessions.live db' credential + tally none credential ≤
      Sessions.live db credential + tally none credential := by
  rw [quiet.live]

/-- A transaction that consumes an approval. -/
theorem live_consumedApproval {secretHash : Hash} {at' : Int} {approvals : Table SshLoginApproval}
    {sessions : Table WebSession}
    (consumed : db.sshLoginApprovals.update (unconsumedApproval secretHash)
      (fun a => { a with consumedAt := some at' }) = .ok approvals)
    (one : db.sshLoginApprovals.count (unconsumedApproval secretHash) = 1)
    (quiet : Quiet { db with sshLoginApprovals := approvals, webSessions := sessions } db')
    (credential : Credential) :
    live db' credential + tally (some (.approval secretHash)) credential ≤
      live db credential := by
  rw [quiet.live]
  cases credential with
  | approval hash =>
      have counted := @count_asked _ _ _ _ _ (unconsumedApproval hash) _ secretHash hash consumed
        (fun a => decide_eq_false fun both => by cases both.2) one
        (fun same a chosen => same ▸ chosen)
      simpa only [live, tally, Option.some.injEq, Credential.approval.injEq] using counted
  | _ => simp [live, tally]

/-- **A credential is consumed at the cost of a live row, and issued at the gain of one.** -/
theorem live_step {operation : Operation} (ok : operation.transact db = .ok db')
    (credential : Credential) :
    live db' credential + tally (operation.consumed.map (·.1)) credential ≤
      live db credential + tally operation.issued credential := by
  cases operation with
  | createInitialAdministrator administrator =>
      obtain ⟨db₁, accountId, credentials, quiet, issued, rfl⟩ :=
        createInitialAdministrator_effect ok
      have before := quiet.live credential
      cases credential with
      | recovery hash =>
          have counted := Table.count_insert issued fun c => decide (c.credentialHash = hash)
          simp only [live, tally, Operation.issued, Operation.consumed, Option.map_none,
            Option.some.injEq, Credential.recovery.injEq, reduceCtorEq, if_false,
            decide_eq_true_eq] at before counted ⊢
          omega
      | _ => exact Nat.add_le_add_right before.le _
  | createSignupInvitation codeHash createdAt expiresAt =>
      simp only [Operation.transact, Database.createSignupInvitation, bind_eq_ok, sqlite_eq_ok,
        pure_eq_ok, Except.ok.injEq] at ok
      obtain ⟨invitations, inserted, rfl⟩ := ok
      cases credential with
      | invitation hash =>
          have counted := Table.count_insert inserted (unconsumedInvitation hash)
          simp only [unconsumedInvitation, and_true, decide_eq_true_eq] at counted
          simp only [live, tally, Operation.issued, Operation.consumed, Option.map_none,
            Option.some.injEq, Credential.invitation.injEq, reduceCtorEq, if_false]
          omega
      | _ => exact Nat.le_refl _
  | createAccountWithInvitation account =>
      obtain ⟨invitations, db₁, accountId, credentials, taken, one, quiet, issued, rest⟩ :=
        createAccountWithInvitation_effect ok
      have before := quiet.live credential
      have after := rest.live credential
      cases credential with
      | invitation hash =>
          have counted := @count_asked _ _ _ _ _ (unconsumedInvitation hash) _
            account.invitationHash hash taken
            (fun i => decide_eq_false fun both => by cases both.2) one
            (fun same i chosen =>
              have facts := of_decide_eq_true chosen
              decide_eq_true ⟨facts.1.trans same, facts.2.1⟩)
          simp only [live, tally, Operation.issued, Operation.consumed, Option.map_some,
            Option.some.injEq, Credential.invitation.injEq, reduceCtorEq, if_false] at *
          omega
      | recovery hash =>
          have counted := Table.count_insert issued fun c => decide (c.credentialHash = hash)
          simp only [live, tally, Operation.issued, Operation.consumed, Option.map_some,
            Option.some.injEq, Credential.recovery.injEq, reduceCtorEq, if_false,
            decide_eq_true_eq] at before after counted ⊢
          omega
      | _ => exact Nat.add_le_add_right (after.trans before).le _
  | recoverAccount recovery =>
      obtain ⟨db₁, accountId, credentials, presented, quiet, changed, rest⟩ :=
        recoverAccount_effect ok
      have before := quiet.live credential
      have after := rest.live credential
      cases credential with
      | recovery hash =>
          rw [← quiet.credentials] at presented
          have counted := count_recovered presented changed hash
          simp only [live, tally, Operation.issued, Operation.consumed, Option.map_some,
            Option.some.injEq, Credential.recovery.injEq] at before after ⊢
          omega
      | _ => exact Nat.add_le_add_right (after.trans before).le _
  | addAccountKey username key createdAt actor correlationId =>
      exact (addAccountKey_quiet ok).step credential
  | revokeAccountKey username fingerprint revokedAt actor correlationId =>
      exact (revokeAccountKey_quiet ok).step credential
  | completeAccountKeyAdd authorization key =>
      obtain ⟨accountId, ⟨-, -, approvals, consumed, one, quiet⟩, -⟩ :=
        completeAccountKeyAdd_effect ok
      exact live_consumedApproval consumed one quiet credential
  | completeAccountKeyRevoke authorization fingerprint =>
      obtain ⟨accountId, ⟨-, -, approvals, consumed, one, quiet⟩, -⟩ :=
        completeAccountKeyRevoke_effect ok
      exact live_consumedApproval consumed one quiet credential
  | suspendAccount username suspended changedAt actor correlationId =>
      exact (suspendAccount_quiet ok).step credential
  | endAccountSessions username endedAt => exact (endAccountSessions_quiet ok).step credential
  | createLoginNonce nonce =>
      obtain ⟨account, -, -, outdated, id, nonces, inserted, rfl⟩ := createLoginNonce_effect ok
      cases credential with
      | nonce hash =>
          have counted := Table.count_insert inserted (unconsumedNonce hash)
          have fewer := db.loginNonces.count_delete_le outdated (unconsumedNonce hash)
          simp only [unconsumedNonce, and_true, decide_eq_true_eq] at counted fewer
          simp only [live, tally, Operation.issued, Operation.consumed, Option.map_none,
            Option.some.injEq, Credential.nonce.injEq, reduceCtorEq, if_false]
          omega
      | _ => exact Nat.le_refl _
  | consumeLoginNonce login =>
      obtain ⟨n, -, -, a, -, -, k, -, -, nonces, sessions, consumed, one, quiet, -⟩ :=
        consumeLoginNonce_effect ok
      rw [quiet.live]
      cases credential with
      | nonce hash =>
          have counted := @count_asked _ _ _ _ _ (unconsumedNonce hash) _ login.nonceHash hash
            consumed (fun n => decide_eq_false fun both => by cases both.2) one
            (fun same n chosen => same ▸ chosen)
          simpa only [live, tally, Operation.issued, Operation.consumed, Option.map_some,
            Option.some.injEq, Credential.nonce.injEq, reduceCtorEq, if_false, Nat.add_zero]
            using counted
      | _ => exact Nat.le_refl _
  | createLoginApproval approval =>
      obtain ⟨expected, -, outdated, id, approvals, inserted, rfl⟩ := createLoginApproval_effect ok
      cases credential with
      | approval hash =>
          have counted := Table.count_insert inserted (unconsumedApproval hash)
          have fewer := db.sshLoginApprovals.count_delete_le outdated (unconsumedApproval hash)
          simp only [unconsumedApproval, and_true, decide_eq_true_eq] at counted fewer
          simp only [live, tally, Operation.issued, Operation.consumed, Option.map_none,
            Option.some.injEq, Credential.approval.injEq, reduceCtorEq, if_false]
          omega
      | _ => exact Nat.le_refl _
  | approveLogin approval =>
      obtain ⟨account, -, -, k, -, -, approvals, updated, -, rfl⟩ := approveLogin_effect ok
      cases credential with
      | approval hash =>
          have counted := Table.count_update updated (unconsumedApproval hash)
          simp only [unconsumedApproval] at counted
          simp only [live, tally, Operation.issued, Operation.consumed, Option.map_none,
            reduceCtorEq, if_false]
          omega
      | _ => exact Nat.le_refl _
  | consumeLoginApproval login =>
      obtain ⟨⟨db₁, username⟩, consumed, rfl⟩ := map_eq_ok.mp ok
      obtain ⟨a, -, -, account, -, -, keyId, -, approvals, sessions, updated, one, quiet, -⟩ :=
        consumeLoginApproval_effect consumed
      exact live_consumedApproval updated one quiet credential
  | maintain cutoff =>
      cases ok
      cases credential with
      | recovery hash => exact Nat.le_refl _
      | _ => exact Table.count_delete_le _ _ _

/-! ## Where the rows come from -/

/-- The end of an invitation, as it was last issued; the history has the newest first. -/
def invitationOf (codeHash : Hash) (history : List Operation) : Option Int :=
  history.findSome? fun
    | .createSignupInvitation hash _ expiresAt => if hash = codeHash then some expiresAt else none
    | _ => none

def nonceOf (nonceHash : Hash) (history : List Operation) : Option NewLoginNonce :=
  history.findSome? fun
    | .createLoginNonce nonce => if nonce.nonceHash = nonceHash then some nonce else none
    | _ => none

def approvalOf (secretHash : Hash) (history : List Operation) : Option NewLoginApproval :=
  history.findSome? fun
    | .createLoginApproval approval =>
        if approval.secretHash = secretHash then some approval else none
    | _ => none

/-- Who has approved a secret since it was last issued. -/
def approverOf (secretHash : Hash) (history : List Operation) : Option ApproveLogin :=
  (history.findSome? fun
    | .createLoginApproval approval =>
        if approval.secretHash = secretHash then some none else none
    | .approveLogin approval =>
        if approval.secretHash = secretHash then some (some approval) else none
    | _ => none).join

def expiry (history : List Operation) : Credential → Option Int
  | .invitation codeHash => invitationOf codeHash history
  | .nonce nonceHash => (nonceOf nonceHash history).map (·.expiresAt)
  | .approval secretHash => (approvalOf secretHash history).map (·.expiresAt)
  -- a recovery credential does not expire
  | .recovery _ => none

section Newest

variable {hash : Hash} {history : List Operation}

theorem invitationOf_issued (codeHash : Hash) (createdAt expiresAt : Int) :
    invitationOf hash (.createSignupInvitation codeHash createdAt expiresAt :: history) =
      if codeHash = hash then some expiresAt else invitationOf hash history := by
  by_cases same : codeHash = hash <;> simp [invitationOf, same]

theorem nonceOf_issued (nonce : NewLoginNonce) :
    nonceOf hash (.createLoginNonce nonce :: history) =
      if nonce.nonceHash = hash then some nonce else nonceOf hash history := by
  by_cases same : nonce.nonceHash = hash <;> simp [nonceOf, same]

theorem approvalOf_issued (challenge : NewLoginApproval) :
    approvalOf hash (.createLoginApproval challenge :: history) =
      if challenge.secretHash = hash then some challenge else approvalOf hash history := by
  by_cases same : challenge.secretHash = hash <;> simp [approvalOf, same]

theorem approverOf_issued (challenge : NewLoginApproval) :
    approverOf hash (.createLoginApproval challenge :: history) =
      if challenge.secretHash = hash then none else approverOf hash history := by
  by_cases same : challenge.secretHash = hash <;> simp [approverOf, same]

theorem approverOf_approved (approval : ApproveLogin) :
    approverOf hash (.approveLogin approval :: history) =
      if approval.secretHash = hash then some approval else approverOf hash history := by
  by_cases same : approval.secretHash = hash <;> simp [approverOf, same]

end Newest

/-- The account of this number has this name. -/
def Named (db : Database) (id : Nat) (username : String) : Prop :=
  ∃ a ∈ db.accounts, a.id = id ∧ a.username = username

theorem Named.username {id : Nat} {username : String} (named : Named db id username) {a : Account}
    (member : a ∈ db.accounts) (same : a.id = id) : a.username = username := by
  obtain ⟨a', member', same', rfl⟩ := named
  rw [Table.eq_of_key member member' (same.trans same'.symm)]

/-- The account that an approval is for. -/
def Expects (db : Database) (expectedAccountId : Option Nat) : Option String → Prop
  | none => expectedAccountId = none
  | some username => ∃ id, expectedAccountId = some id ∧ Named db id username

/-- Every row is as it was last issued, and an approved one as it was approved since. -/
structure Traced (db : Database) (history : List Operation) : Prop where
  invitations : ∀ i ∈ db.signupInvitations, invitationOf i.codeHash history = some i.expiresAt
  nonces : ∀ n ∈ db.loginNonces, ∃ nonce, nonceOf n.nonceHash history = some nonce ∧
    nonce.csrfHash = n.csrfHash ∧ nonce.expiresAt = n.expiresAt ∧
    Named db n.accountId nonce.username
  approvals : ∀ a ∈ db.sshLoginApprovals, ∃ challenge,
    approvalOf a.secretHash history = some challenge ∧ challenge.csrfHash = a.csrfHash ∧
    challenge.expiresAt = a.expiresAt ∧ challenge.purpose = a.purpose ∧
    Expects db a.expectedAccountId challenge.expectedUsername
  approvers : ∀ a ∈ db.sshLoginApprovals, ∀ id, a.accountId = some id → ∃ approval,
    approverOf a.secretHash history = some approval ∧ approval.approvedAt ≤ a.expiresAt ∧
    Named db id approval.username ∧ ∃ k ∈ db.sshPublicKeys, a.sshPublicKeyId = some k.id ∧
      k.accountId = id ∧ k.fingerprint = approval.fingerprint

namespace Traced

variable {history : List Operation}

theorem empty : Traced .initial [] where
  invitations _ member := absurd member (Table.not_mem_empty _)
  nonces _ member := absurd member (Table.not_mem_empty _)
  approvals _ member := absurd member (Table.not_mem_empty _)
  approvers _ member := absurd member (Table.not_mem_empty _)

/-- Rows that were there before, under the names of before. -/
theorem carried {db₁ : Database} (traced : Traced db history)
    (invitations : ∀ i ∈ db₁.signupInvitations, ∃ i₀ ∈ db.signupInvitations,
      i₀.codeHash = i.codeHash ∧ i₀.expiresAt = i.expiresAt)
    (nonces : ∀ n ∈ db₁.loginNonces, ∃ n₀ ∈ db.loginNonces, n₀.nonceHash = n.nonceHash ∧
      n₀.csrfHash = n.csrfHash ∧ n₀.expiresAt = n.expiresAt ∧ n₀.accountId = n.accountId)
    (approvals : ∀ a ∈ db₁.sshLoginApprovals, ∃ a₀ ∈ db.sshLoginApprovals,
      a₀.secretHash = a.secretHash ∧ a₀.csrfHash = a.csrfHash ∧ a₀.expiresAt = a.expiresAt ∧
      a₀.purpose = a.purpose ∧ a₀.expectedAccountId = a.expectedAccountId ∧
      a₀.accountId = a.accountId ∧ a₀.sshPublicKeyId = a.sshPublicKeyId)
    (quiet : Quiet { db with
      signupInvitations := db₁.signupInvitations, loginNonces := db₁.loginNonces,
      sshLoginApprovals := db₁.sshLoginApprovals, recoveryCredentials := db₁.recoveryCredentials,
      webSessions := db₁.webSessions } db') : Traced db' history := by
  have named {id : Nat} {username : String} (before : Named db id username) :
      Named db' id username := by
    obtain ⟨a, ha, same, called⟩ := before
    obtain ⟨a', ha', same', called'⟩ := quiet.named a ha
    exact ⟨a', ha', same'.trans same, called'.trans called⟩
  refine ⟨?_, ?_, ?_, ?_⟩
  · intro i hi
    rw [quiet.invitations] at hi
    obtain ⟨i₀, hi₀, hash, expires⟩ := invitations i hi
    rw [← hash, ← expires]
    exact traced.invitations i₀ hi₀
  · intro n hn
    rw [quiet.nonces] at hn
    obtain ⟨n₀, hn₀, hash, csrf, expires, account⟩ := nonces n hn
    obtain ⟨nonce, issued, csrf', expires', owner⟩ := traced.nonces n₀ hn₀
    exact ⟨nonce, hash ▸ issued, csrf'.trans csrf, expires'.trans expires, named (account ▸ owner)⟩
  · intro a ha
    rw [quiet.approvals] at ha
    obtain ⟨a₀, ha₀, hash, csrf, expires, purpose, expected, -, -⟩ := approvals a ha
    obtain ⟨challenge, issued, csrf', expires', purpose', expects⟩ := traced.approvals a₀ ha₀
    refine ⟨challenge, hash ▸ issued, csrf'.trans csrf, expires'.trans expires,
      purpose'.trans purpose, ?_⟩
    rw [← expected]
    cases username : challenge.expectedUsername with
    | none =>
        rw [username] at expects
        exact expects
    | some username' =>
        rw [username] at expects
        obtain ⟨id, same, before⟩ := expects
        exact ⟨id, same, named before⟩
  · intro a ha id approved
    rw [quiet.approvals] at ha
    obtain ⟨a₀, ha₀, hash, -, expires, -, -, account, key⟩ := approvals a ha
    obtain ⟨approval, by', before, owner, k, hk, recorded, held, print⟩ :=
      traced.approvers a₀ ha₀ id (account.trans approved)
    obtain ⟨k', hk', sameId, sameOwner, samePrint⟩ := quiet.owned k hk
    refine ⟨approval, hash ▸ by', expires ▸ before, named owner, k', hk', ?_,
      sameOwner.trans held, samePrint.trans print⟩
    rw [← key, recorded, sameId]

theorem quiet (traced : Traced db history) (quiet : Quiet db db') : Traced db' history := by
  refine @carried _ _ _ db traced ?_ ?_ ?_ quiet
  · exact fun i hi => ⟨i, hi, rfl, rfl⟩
  · exact fun n hn => ⟨n, hn, rfl, rfl, rfl, rfl⟩
  · exact fun a ha => ⟨a, ha, rfl, rfl, rfl, rfl, rfl, rfl, rfl⟩

theorem consumedApprovals (traced : Traced db history) {secretHash : Hash} {at' : Int}
    {approvals : Table SshLoginApproval} {sessions : Table WebSession}
    (consumed : db.sshLoginApprovals.update (unconsumedApproval secretHash)
      (fun a => { a with consumedAt := some at' }) = .ok approvals)
    (quiet : Quiet { db with sshLoginApprovals := approvals, webSessions := sessions } db') :
    Traced db' history := by
  refine @carried _ _ _ { db with sshLoginApprovals := approvals, webSessions := sessions } traced
    ?_ ?_ ?_ quiet
  · exact fun i hi => ⟨i, hi, rfl, rfl⟩
  · exact fun n hn => ⟨n, hn, rfl, rfl, rfl, rfl⟩
  · intro a ha
    obtain ⟨a₀, ha₀, rfl⟩ := (Table.mem_update consumed).mp ha
    refine ⟨a₀, ha₀, ?_⟩
    split <;> exact ⟨rfl, rfl, rfl, rfl, rfl, rfl, rfl⟩

/-! ## One transaction -/

theorem createSignupInvitation (traced : Traced db history) {codeHash : Hash}
    {createdAt expiresAt : Int}
    (ok : db.createSignupInvitation codeHash createdAt expiresAt = .ok db') :
    Traced db' (.createSignupInvitation codeHash createdAt expiresAt :: history) := by
  simp only [Database.createSignupInvitation, bind_eq_ok, sqlite_eq_ok, pure_eq_ok,
    Except.ok.injEq] at ok
  obtain ⟨invitations, inserted, rfl⟩ := ok
  refine ⟨?_, traced.nonces, traced.approvals, traced.approvers⟩
  intro i hi
  rw [invitationOf_issued]
  rcases (Table.mem_insert inserted).mp hi with old | rfl
  · have other : codeHash ≠ i.codeHash := fun same =>
      Table.insert_fresh inserted i old (decide_eq_true (Or.inr same.symm))
    rw [if_neg other]
    exact traced.invitations i old
  · rw [if_pos rfl]

theorem createLoginNonce (traced : Traced db history) {nonce : NewLoginNonce}
    (ok : db.createLoginNonce nonce = .ok db') :
    Traced db' (.createLoginNonce nonce :: history) := by
  obtain ⟨account, member, called, outdated, id, nonces, inserted, rfl⟩ :=
    createLoginNonce_effect ok
  refine ⟨traced.invitations, ?_, traced.approvals, traced.approvers⟩
  intro n hn
  rw [nonceOf_issued]
  rcases (Table.mem_insert inserted).mp hn with old | rfl
  · have other : nonce.nonceHash ≠ n.nonceHash := fun same =>
      Table.insert_fresh inserted n old (decide_eq_true (Or.inr same.symm))
    rw [if_neg other]
    exact traced.nonces n (Table.mem_delete.mp old).1
  · rw [if_pos rfl]
    exact ⟨nonce, rfl, rfl, rfl, account, member, rfl, called⟩

theorem createLoginApproval (traced : Traced db history) {challenge : NewLoginApproval}
    (ok : db.createLoginApproval challenge = .ok db') :
    Traced db' (.createLoginApproval challenge :: history) := by
  obtain ⟨expected, named, outdated, id, approvals, inserted, rfl⟩ := createLoginApproval_effect ok
  have other (a : SshLoginApproval) (old : a ∈ db.sshLoginApprovals.delete outdated) :
      challenge.secretHash ≠ a.secretHash := fun same =>
    Table.insert_fresh inserted a old (decide_eq_true (Or.inr same.symm))
  refine ⟨traced.invitations, traced.nonces, ?_, ?_⟩
  · intro a ha
    rw [approvalOf_issued]
    rcases (Table.mem_insert inserted).mp ha with old | rfl
    · rw [if_neg (other a old)]
      exact traced.approvals a (Table.mem_delete.mp old).1
    · rw [if_pos rfl]
      refine ⟨challenge, rfl, rfl, rfl, rfl, ?_⟩
      cases username : challenge.expectedUsername with
      | none =>
          rw [username] at named
          exact named
      | some username' =>
          rw [username] at named
          obtain ⟨account, member, called, same⟩ := named
          exact ⟨account.id, same, account, member, rfl, called⟩
  · intro a ha id approved
    rw [approverOf_issued]
    rcases (Table.mem_insert inserted).mp ha with old | rfl
    · rw [if_neg (other a old)]
      exact traced.approvers a (Table.mem_delete.mp old).1 id approved
    · cases approved

theorem approveLogin (traced : Traced db history) {approval : ApproveLogin}
    (ok : db.approveLogin approval = .ok db') :
    Traced db' (.approveLogin approval :: history) := by
  obtain ⟨account, member, called, k, hk, owned, approvals, updated, one, rfl⟩ :=
    approveLogin_effect ok
  obtain ⟨asked, hasked, approvable'⟩ : ∃ a ∈ db.sshLoginApprovals,
      approvable approval account.id a = true := Table.exists_of_count (by omega)
  refine ⟨traced.invitations, traced.nonces, ?_, ?_⟩
  · intro a ha
    obtain ⟨a₀, ha₀, rfl⟩ := (Table.mem_update updated).mp ha
    split
    · exact traced.approvals a₀ ha₀
    · exact traced.approvals a₀ ha₀
  · intro a ha id approved
    obtain ⟨a₀, ha₀, made⟩ := (Table.mem_update updated).mp ha
    rw [approverOf_approved]
    by_cases chosen : approvable approval account.id a₀ = true
    · rw [if_pos chosen] at made
      subst made
      have facts := of_decide_eq_true chosen
      cases approved
      rw [if_pos facts.1.symm]
      exact ⟨approval, rfl, facts.2.2.2.2.1, ⟨account, member, rfl, called⟩, k, hk, rfl, owned.1,
        owned.2.1⟩
    · rw [if_neg chosen] at made
      subst made
      -- the secret that is approved is in one row, the one that is chosen
      have other : approval.secretHash ≠ a.secretHash := by
        intro same
        have secret : asked.secretHash = a.secretHash :=
          (of_decide_eq_true approvable').1.trans same
        have row : asked = a :=
          Table.eq_of_clash hasked ha₀ (decide_eq_true (Or.inr secret))
        exact chosen (row ▸ approvable')
      rw [if_neg other]
      exact traced.approvers a ha₀ id approved

theorem createAccountWithInvitation (traced : Traced db history) {account : InvitedAccount}
    (ok : db.createAccountWithInvitation account = .ok db') : Traced db' history := by
  obtain ⟨invitations, db₁, accountId, credentials, taken, -, before, -, after⟩ :=
    createAccountWithInvitation_effect ok
  have first : Traced db₁ history := by
    refine @carried _ _ _ { db with signupInvitations := invitations } traced ?_ ?_ ?_ before
    · intro i hi
      obtain ⟨i₀, hi₀, rfl⟩ := (Table.mem_update taken).mp hi
      refine ⟨i₀, hi₀, ?_⟩
      split <;> exact ⟨rfl, rfl⟩
    · exact fun n hn => ⟨n, hn, rfl, rfl, rfl, rfl⟩
    · exact fun a ha => ⟨a, ha, rfl, rfl, rfl, rfl, rfl, rfl, rfl⟩
  have second : Traced { db₁ with recoveryCredentials := credentials } history :=
    ⟨first.invitations, first.nonces, first.approvals, first.approvers⟩
  exact second.quiet after

theorem recoverAccount (traced : Traced db history) {recovery : AccountRecovery}
    (ok : db.recoverAccount recovery = .ok db') : Traced db' history := by
  obtain ⟨db₁, accountId, credentials, -, before, -, after⟩ := recoverAccount_effect ok
  have first := traced.quiet before
  have second : Traced { db₁ with recoveryCredentials := credentials } history :=
    ⟨first.invitations, first.nonces, first.approvals, first.approvers⟩
  exact second.quiet after

theorem createInitialAdministrator (traced : Traced db history)
    {administrator : InitialAdministrator}
    (ok : db.createInitialAdministrator administrator = .ok db') : Traced db' history := by
  obtain ⟨db₁, accountId, credentials, before, -, rfl⟩ := createInitialAdministrator_effect ok
  have first := traced.quiet before
  exact ⟨first.invitations, first.nonces, first.approvals, first.approvers⟩

theorem consumeLoginNonce (traced : Traced db history) {login : NewWebSession}
    (ok : db.consumeLoginNonce login = .ok db') : Traced db' history := by
  obtain ⟨n, -, -, a, -, -, k, -, -, nonces, sessions, consumed, -, quiet, -⟩ :=
    consumeLoginNonce_effect ok
  refine @carried _ _ _ { db with loginNonces := nonces, webSessions := sessions } traced
    ?_ ?_ ?_ quiet
  · exact fun i hi => ⟨i, hi, rfl, rfl⟩
  · intro n hn
    obtain ⟨n₀, hn₀, rfl⟩ := (Table.mem_update consumed).mp hn
    refine ⟨n₀, hn₀, ?_⟩
    split <;> exact ⟨rfl, rfl, rfl, rfl⟩
  · exact fun a ha => ⟨a, ha, rfl, rfl, rfl, rfl, rfl, rfl, rfl⟩

theorem maintain (traced : Traced db history) (cutoff : Int) :
    Traced (db.maintain cutoff) history where
  invitations i hi := traced.invitations i (Table.mem_delete.mp hi).1
  nonces n hn := traced.nonces n (Table.mem_delete.mp hn).1
  approvals a ha := traced.approvals a (Table.mem_delete.mp ha).1
  approvers a ha := traced.approvers a (Table.mem_delete.mp ha).1

/-- A transaction that neither issues an invitation, a nonce or an approval nor approves. -/
theorem remembered (traced : Traced db history) {operation : Operation}
    (invitations : ∀ hash, invitationOf hash (operation :: history) = invitationOf hash history)
    (nonces : ∀ hash, nonceOf hash (operation :: history) = nonceOf hash history)
    (approvals : ∀ hash, approvalOf hash (operation :: history) = approvalOf hash history)
    (approvers : ∀ hash, approverOf hash (operation :: history) = approverOf hash history) :
    Traced db (operation :: history) where
  invitations i hi := (invitations _).trans (traced.invitations i hi)
  nonces n hn := by
    rw [nonces]
    exact traced.nonces n hn
  approvals a ha := by
    rw [approvals]
    exact traced.approvals a ha
  approvers a ha id approved := by
    rw [approvers]
    exact traced.approvers a ha id approved

/-- **Every transaction keeps the rows traced.** -/
theorem step (traced : Traced db history) {operation : Operation}
    (ok : operation.transact db = .ok db') : Traced db' (operation :: history) := by
  cases operation with
  | createInitialAdministrator administrator =>
      exact (traced.createInitialAdministrator ok).remembered
        (fun _ => rfl) (fun _ => rfl) (fun _ => rfl) (fun _ => rfl)
  | createSignupInvitation codeHash createdAt expiresAt => exact traced.createSignupInvitation ok
  | createAccountWithInvitation account =>
      exact (traced.createAccountWithInvitation ok).remembered
        (fun _ => rfl) (fun _ => rfl) (fun _ => rfl) (fun _ => rfl)
  | recoverAccount recovery =>
      exact (traced.recoverAccount ok).remembered
        (fun _ => rfl) (fun _ => rfl) (fun _ => rfl) (fun _ => rfl)
  | addAccountKey username key createdAt actor correlationId =>
      exact (traced.quiet (addAccountKey_quiet ok)).remembered
        (fun _ => rfl) (fun _ => rfl) (fun _ => rfl) (fun _ => rfl)
  | revokeAccountKey username fingerprint revokedAt actor correlationId =>
      exact (traced.quiet (revokeAccountKey_quiet ok)).remembered
        (fun _ => rfl) (fun _ => rfl) (fun _ => rfl) (fun _ => rfl)
  | completeAccountKeyAdd authorization key =>
      obtain ⟨accountId, ⟨-, -, approvals, consumed, -, quiet⟩, -⟩ :=
        completeAccountKeyAdd_effect ok
      exact (traced.consumedApprovals consumed quiet).remembered
        (fun _ => rfl) (fun _ => rfl) (fun _ => rfl) (fun _ => rfl)
  | completeAccountKeyRevoke authorization fingerprint =>
      obtain ⟨accountId, ⟨-, -, approvals, consumed, -, quiet⟩, -⟩ :=
        completeAccountKeyRevoke_effect ok
      exact (traced.consumedApprovals consumed quiet).remembered
        (fun _ => rfl) (fun _ => rfl) (fun _ => rfl) (fun _ => rfl)
  | suspendAccount username suspended changedAt actor correlationId =>
      exact (traced.quiet (suspendAccount_quiet ok)).remembered
        (fun _ => rfl) (fun _ => rfl) (fun _ => rfl) (fun _ => rfl)
  | endAccountSessions username endedAt =>
      exact (traced.quiet (endAccountSessions_quiet ok)).remembered
        (fun _ => rfl) (fun _ => rfl) (fun _ => rfl) (fun _ => rfl)
  | createLoginNonce nonce => exact traced.createLoginNonce ok
  | consumeLoginNonce login =>
      exact (traced.consumeLoginNonce ok).remembered
        (fun _ => rfl) (fun _ => rfl) (fun _ => rfl) (fun _ => rfl)
  | createLoginApproval challenge => exact traced.createLoginApproval ok
  | approveLogin approval => exact traced.approveLogin ok
  | consumeLoginApproval login =>
      obtain ⟨⟨db₁, username⟩, consumed, rfl⟩ := map_eq_ok.mp ok
      obtain ⟨a, -, -, account, -, -, keyId, -, approvals, sessions, updated, -, quiet, -⟩ :=
        consumeLoginApproval_effect consumed
      exact (traced.consumedApprovals updated quiet).remembered
        (fun _ => rfl) (fun _ => rfl) (fun _ => rfl) (fun _ => rfl)
  | maintain cutoff =>
      cases ok
      exact (traced.maintain cutoff).remembered
        (fun _ => rfl) (fun _ => rfl) (fun _ => rfl) (fun _ => rfl)

end Traced

end Tit.Sessions
