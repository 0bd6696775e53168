/-
# Feeds.Tokens -- the tokens of the watched-activity feed

An account has at most one token that works.  It is issued, rotated and revoked by its owner, and
taken away by a recovery and by a suspension of the account; the periodic deletion removes the
tokens that no longer work.

The ledger below says what that is for: who holds which token now.  The table of tokens follows it
in every run, and a token is served exactly to its holder (`feed_served`).  A token that is taken
away stays powerless, also after the account is active again (`taken_away_powerless`).
-/
import Tit.Feeds.Reply
import Tit.Sessions.Effects

namespace Tit.FeedTokens

open Tit.Theory Tit.Store Tit.Feeds

set_option autoImplicit false

/-- The errors of the service, and those of the store that only tokens have. -/
inductive FeedTokenError where
  | auth
  | store (error : StoreError)
  | feedTokenLimit
  | feedTokenNotFound

structure FeedTokenRecord where
  id : Identifier
  createdAt : Int
  revokedAt : Option Int

structure IssuedFeedToken where
  record : FeedTokenRecord
  token : String

def maxActiveFeedTokens : Nat := 1

def ofAccount (accountId : Nat) (t : FeedToken) : Bool :=
  decide (t.accountId = accountId ∧ t.revokedAt = none)

/-- `INSERT INTO feed_token`, with the scope `watched`. -/
def insertFeedToken (db : Database) (accountId : Nat) (id : Identifier) (tokenHash : Hash)
    (createdAt : Int) : Except FeedTokenError (Database × FeedTokenRecord) := do
  let feedTokens ← (sqlite (db.feedTokens.insert
    { id, tokenHash, accountId, createdAt, revokedAt := none })).mapError .store
  pure ({ db with feedTokens }, { id, createdAt, revokedAt := none })

def createFeedToken (db : Database) (actor : String) (id : Identifier) (tokenHash : Hash)
    (createdAt : Int) : Except FeedTokenError (Database × FeedTokenRecord) := do
  let accountId ← (db.activeAccountId actor).mapError .store
  ensure (db.feedTokens.count (ofAccount accountId) < maxActiveFeedTokens) .feedTokenLimit
  insertFeedToken db accountId id tokenHash createdAt

/-- The `WHERE` of a rotation and of a revocation. -/
def held (accountId : Nat) (id : Identifier) (t : FeedToken) : Bool :=
  decide (t.id = id) && ofAccount accountId t

def rotateFeedToken (db : Database) (actor : String) (id fresh : Identifier) (tokenHash : Hash)
    (changedAt : Int) : Except FeedTokenError (Database × FeedTokenRecord) := do
  let accountId ← (db.activeAccountId actor).mapError .store
  ensure (db.feedTokens.any (held accountId id)) .feedTokenNotFound
  let feedTokens ← (sqlite (db.feedTokens.update (held accountId id)
    fun t => { t with revokedAt := some changedAt })).mapError .store
  insertFeedToken { db with feedTokens } accountId fresh tokenHash changedAt

def revokeFeedToken (db : Database) (actor : String) (id : Identifier) (revokedAt : Int) :
    Except FeedTokenError Database := do
  let accountId ← (db.activeAccountId actor).mapError .store
  let feedTokens ← (sqlite (db.feedTokens.update (held accountId id)
    fun t => { t with revokedAt := some revokedAt })).mapError .store
  ensure (db.feedTokens.count (held accountId id) ≠ 0) .feedTokenNotFound
  pure { db with feedTokens }

/-! ## The service -/

section Service

variable (service : Service)

/-- `random_token`, of 32 random bytes. -/
def tokenText (random : Hash) : String := String.ofList (hexText random)

def hash (token : String) : Hash := service.sha256 (bytesOf token)

/-- `FeedTokenService::issue`; the store draws the identifier. -/
def issue (db : Database) (actor : String) (random : Hash) (id : Identifier) (now : Int) :
    Except FeedTokenError (Database × IssuedFeedToken) := do
  ensure (validateUsername actor = true) .auth
  let (db, record) ← createFeedToken db actor id (hash service (tokenText random)) now
  pure (db, { record, token := tokenText random })

def rotate (db : Database) (actor : String) (id : Identifier) (random : Hash)
    (fresh : Identifier) (now : Int) : Except FeedTokenError (Database × IssuedFeedToken) := do
  ensure (validateUsername actor = true) .auth
  let (db, record) ← rotateFeedToken db actor id fresh (hash service (tokenText random)) now
  pure (db, { record, token := tokenText random })

def revoke (db : Database) (actor : String) (id : Identifier) (now : Int) :
    Except FeedTokenError Database := do
  ensure (validateUsername actor = true) .auth
  revokeFeedToken db actor id now

end Service

/-! ## Runs, and the ledger -/

inductive Operation where
  | issue (actor : String) (random : Hash) (id : Identifier) (now : Int)
  | rotate (actor : String) (id : Identifier) (random : Hash) (fresh : Identifier) (now : Int)
  | revoke (actor : String) (id : Identifier) (now : Int)
  | account (operation : Sessions.Operation)
  /-- A transaction on other tables. -/
  | elsewhere (db : Database)

def Operation.transact (service : Service) (db : Database) :
    Operation → Except FeedTokenError Database
  | .issue actor random id now => (FeedTokens.issue service db actor random id now).map (·.1)
  | .rotate actor id random fresh now =>
      (FeedTokens.rotate service db actor id random fresh now).map (·.1)
  | .revoke actor id now => FeedTokens.revoke db actor id now
  | .account operation => (operation.transact db).mapError .store
  | .elsewhere other =>
      .ok { other with accounts := db.accounts, feedTokens := db.feedTokens }

/-- Who holds which token. -/
abbrev Ledger := String → Option (Identifier × Hash)

def Ledger.put (ledger : Ledger) (username : String) (token : Option (Identifier × Hash)) :
    Ledger :=
  Function.update ledger username token

/-- The account whose token the operation takes away. -/
def takesFrom : Sessions.Operation → Option String
  | .recoverAccount recovery => some recovery.username
  | .suspendAccount username true _ _ _ => some username
  | _ => none

/-- The entry for an operation that has succeeded; `none` if it should not have. -/
def Operation.enter (service : Service) (ledger : Ledger) : Operation → Option Ledger
  | .issue actor random id _ =>
      if ledger actor = none then
        some (ledger.put actor (some (id, hash service (tokenText random))))
      else none
  | .rotate actor id random fresh _ =>
      if (ledger actor).map (·.1) = some id then
        some (ledger.put actor (some (fresh, hash service (tokenText random))))
      else none
  | .revoke actor id _ =>
      if (ledger actor).map (·.1) = some id then some (ledger.put actor none) else none
  | .account operation => some ((takesFrom operation).elim ledger fun name => ledger.put name none)
  | .elsewhere _ => some ledger

structure World where
  db : Database
  ledger : Ledger

/-- One transaction and its entry; a failed one leaves both. -/
def step (service : Service) (w : World) (operation : Operation) : Option World :=
  match operation.transact service w.db with
  | .ok db => (operation.enter service w.ledger).map fun ledger => ⟨db, ledger⟩
  | .error _ => some w

/-- The token in the table. -/
def Holds (db : Database) (username : String) (token : Identifier × Hash) : Prop :=
  ∃ a ∈ db.accounts, a.username = username ∧
    ∃ t ∈ db.feedTokens, t.accountId = a.id ∧ t.revokedAt = none ∧ (t.id, t.tokenHash) = token

/-- Every token is that of an account: `REFERENCES account`. -/
def Owned (db : Database) : Prop :=
  ∀ t ∈ db.feedTokens, ∃ a ∈ db.accounts, a.id = t.accountId

/-- The table follows the ledger. -/
structure Follows (w : World) : Prop where
  owned : Owned w.db
  agrees : ∀ username token, w.ledger username = some token ↔ Holds w.db username token

/-! ## What the account transactions leave -/

/-- Accounts keep their names, and the tokens that work are the same but for those of one
account. -/
structure Kept (but : Option Nat) (db db' : Database) : Prop where
  named : ∀ a ∈ db.accounts, ∃ a' ∈ db'.accounts, a'.id = a.id ∧ a'.username = a.username
  owners : ∀ t ∈ db'.feedTokens, ∃ s ∈ db.feedTokens, s.accountId = t.accountId
  live : ∀ t, t.revokedAt = none →
    (t ∈ db'.feedTokens ↔ t ∈ db.feedTokens ∧ some t.accountId ≠ but)

section Account

variable {db db₁ db' : Database} {but : Option Nat}

namespace Kept

theorem compose {but' all : Option Nat} (first : Kept but db db₁) (second : Kept but' db₁ db')
    (both : ∀ id : Nat, some id ≠ all ↔ some id ≠ but ∧ some id ≠ but') : Kept all db db' where
  named a member := by
    obtain ⟨a₁, member₁, sameId, sameName⟩ := first.named a member
    obtain ⟨a', member', sameId', sameName'⟩ := second.named a₁ member₁
    exact ⟨a', member', sameId'.trans sameId, sameName'.trans sameName⟩
  owners t member := by
    obtain ⟨s, member₁, same⟩ := second.owners t member
    obtain ⟨r, member₀, same'⟩ := first.owners s member₁
    exact ⟨r, member₀, same'.trans same⟩
  live t works := by rw [second.live t works, first.live t works, both, and_assoc]

theorem trans (first : Kept none db db₁) (second : Kept but db₁ db') : Kept but db db' :=
  first.compose second fun id => by simp

theorem quiet (first : Kept but db db₁) (second : Kept none db₁ db') : Kept but db db' :=
  first.compose second fun id => by simp

theorem of_eq (accounts : db'.accounts = db.accounts) (tokens : db'.feedTokens = db.feedTokens) :
    Kept none db db' where
  named a member := ⟨a, accounts ▸ member, rfl, rfl⟩
  owners t member := ⟨t, tokens ▸ member, rfl⟩
  live t _ := by simp [tokens]

theorem of_accounts {accounts : Table Account}
    (named : ∀ a ∈ db.accounts, ∃ a' ∈ accounts, a'.id = a.id ∧ a'.username = a.username) :
    Kept none db { db with accounts } where
  named := named
  owners t member := ⟨t, member, rfl⟩
  live t _ := by simp

/-! ### Statements -/

theorem insertAuditEvent {event : Database.NewAuditEvent}
    (ok : db.insertAuditEvent event = .ok db') : Kept none db db' := by
  obtain ⟨audits, -, rfl⟩ := Database.insertAuditEvent_eq_ok.mp ok
  exact of_eq rfl rfl

theorem insertAccount {username : String} {isAdministrator : Bool} {createdAt : Int} {id : Nat}
    (ok : db.insertAccount username isAdministrator createdAt = .ok (db', id)) :
    Kept none db db' := by
  have named := (Sessions.Quiet.insertAccount ok).named
  obtain ⟨accounts, namespaces, -, rfl, -⟩ := Database.insertAccount_eq_ok ok
  exact (of_accounts named).trans (of_eq rfl rfl)

theorem insertSshKey {accountId : Nat} {key : NewSshKey} {createdAt : Int}
    (ok : db.insertSshKey accountId key createdAt = .ok db') : Kept none db db' := by
  obtain ⟨keys, -, rfl⟩ := Database.insertSshKey_eq_ok.mp ok
  exact of_eq rfl rfl

theorem endSessions {accountId : Nat} {endedAt : Int}
    (ok : db.endSessions accountId endedAt = .ok db') : Kept none db db' := by
  obtain ⟨sessions, -, rfl⟩ := Database.endSessions_eq_ok.mp ok
  exact of_eq rfl rfl

theorem insertWebSession {sessionHash csrfHash : Hash} {accountId keyId : Nat}
    {createdAt expiresAt : Int}
    (ok : db.insertWebSession sessionHash csrfHash accountId keyId createdAt expiresAt = .ok db') :
    Kept none db db' := by
  obtain ⟨sessions, rfl, -⟩ := Sessions.insertWebSession_eq_ok ok
  exact of_eq rfl rfl

theorem reviveOrInsertKey {accountId : Nat} {key : NewSshKey} {createdAt : Int}
    (ok : db.reviveOrInsertKey accountId key createdAt = .ok db') : Kept none db db' := by
  simp only [Database.reviveOrInsertKey] at ok
  split at ok
  · exact insertSshKey ok
  · split at ok
    · obtain ⟨keys, -, ok⟩ := bind_eq_ok.mp ok
      cases ok
      exact of_eq rfl rfl
    · cases ok

theorem consumeAccountKeyAuthorization {authorization : AccountKeyAuthorization} {id : Nat}
    {keyId : Option Nat}
    (ok : db.consumeAccountKeyAuthorization authorization = .ok (db', id, keyId)) :
    Kept none db db' := by
  simp only [Database.consumeAccountKeyAuthorization, bind_eq_ok, pure_eq_ok, Except.ok.injEq,
    Prod.mk.injEq] at ok
  obtain ⟨session, -, approval, -, _, -, approvals, -, _, -, rfl, -, -⟩ := ok
  exact of_eq rfl rfl

/-- The one statement that takes tokens away. -/
theorem revokeFeedTokens {accountId : Nat} {revokedAt : Int}
    (ok : db.revokeFeedTokens accountId revokedAt = .ok db') :
    Kept (some accountId) db db' := by
  simp only [Database.revokeFeedTokens, bind_eq_ok, sqlite_eq_ok, pure_eq_ok,
    Except.ok.injEq] at ok
  obtain ⟨feedTokens, updated, rfl⟩ := ok
  refine ⟨fun a member => ⟨a, member, rfl, rfl⟩, ?_, ?_⟩
  · intro t member
    obtain ⟨s, old, rfl⟩ := (Table.mem_update updated).mp member
    refine ⟨s, old, ?_⟩
    split <;> rfl
  · intro t works
    rw [Table.mem_update updated]
    constructor
    · rintro ⟨s, old, rfl⟩
      split at works
      · cases works
      · rename_i spared
        simp only [decide_eq_true_eq, not_and] at spared
        rw [if_neg (by simpa using spared)]
        refine ⟨old, fun same => spared (Option.some.inj same) works⟩
    · rintro ⟨old, other⟩
      refine ⟨t, old, (if_neg ?_).symm⟩
      simp only [decide_eq_true_eq, not_and]
      exact fun same => absurd (congrArg some same) other

theorem maintain (cutoff : Int) : Kept none db (db.maintain cutoff) where
  named a member := ⟨a, member, rfl, rfl⟩
  owners t member := ⟨t, (Table.mem_delete.mp member).1, rfl⟩
  live t works := by simp [Database.maintain, works]

end Kept

/-! ### Transactions -/

/-- The account by its number is the account by its name. -/
def Names (db : Database) (but : Option Nat) (name : Option String) : Prop :=
  ∀ a ∈ db.accounts, some a.id = but ↔ some a.username = name

theorem names_none : Names db none none := fun a _ => by simp

theorem names_of_mem {account : Account} (member : account ∈ db.accounts) :
    Names db (some account.id) (some account.username) := by
  intro a member'
  rw [Option.some.injEq, Option.some.injEq]
  constructor
  · intro same
    rw [Table.eq_of_key member' member same]
  · intro same
    have one : a = account := Table.eq_of_clash member' member (decide_eq_true (.inr same))
    rw [one]

theorem recoverAccount_kept {recovery : AccountRecovery}
    (ok : db.recoverAccount recovery = .ok db') :
    ∃ but, Kept but db db' ∧ Names db but (some recovery.username) := by
  simp only [Database.recoverAccount, bind_eq_ok, required_eq_ok] at ok
  obtain ⟨account, found, keys, -, db₁, revived, credentials, -, db₂, ended, db₃, tokens, audit⟩ :=
    ok
  obtain ⟨member, good⟩ := Table.mem_of_find found
  rw [Bool.and_eq_true, decide_eq_true_eq] at good
  have keysOnly : Kept none db { db with sshPublicKeys := keys } := .of_eq rfl rfl
  have credentialsOnly : Kept none db₁ { db₁ with recoveryCredentials := credentials } :=
    .of_eq rfl rfl
  have before : Kept none db db₂ :=
    (keysOnly.trans (.reviveOrInsertKey revived)).trans (credentialsOnly.trans (.endSessions ended))
  have taken : Kept (some account.id) db db₃ := before.trans (.revokeFeedTokens tokens)
  refine ⟨_, taken.quiet (.insertAuditEvent audit), ?_⟩
  rw [← good.1.1]
  exact names_of_mem member

theorem suspendAccount_kept {username : String} {suspended : Bool} {changedAt : Int}
    {actor correlationId : String}
    (ok : db.suspendAccount username suspended changedAt actor correlationId = .ok db') :
    ∃ but, Kept but db db' ∧ Names db but (if suspended then some username else none) := by
  simp only [Database.suspendAccount, bind_eq_ok, sqlite_eq_ok, required_eq_ok] at ok
  obtain ⟨accounts, updated, _, -, account, found, db₁, ended, ok⟩ := ok
  have named : ∀ a ∈ db.accounts, ∃ a' ∈ accounts, a'.id = a.id ∧ a'.username = a.username :=
    (Sessions.Quiet.updateAccounts updated fun a => ⟨rfl, rfl⟩).named
  have before : Kept none db db₁ := (Kept.of_accounts named).trans (.endSessions ended)
  cases suspended with
  | true =>
      obtain ⟨db₂, tokens, audit⟩ := bind_eq_ok.mp ok
      refine ⟨_, (before.trans (.revokeFeedTokens tokens)).quiet (.insertAuditEvent audit), ?_⟩
      obtain ⟨member, same⟩ := Table.mem_of_find found
      obtain ⟨old, member', rfl⟩ := (Table.mem_update updated).mp member
      by_cases chosen : decide (old.username = username) = true
      · have names : Names db (some old.id) (some old.username) := names_of_mem member'
        rw [if_pos chosen, if_pos rfl, ← of_decide_eq_true chosen]
        exact names
      · rw [if_neg chosen] at same
        exact absurd same chosen
  | false =>
      obtain ⟨db₂, same, audit⟩ := bind_eq_ok.mp ok
      cases same
      exact ⟨none, before.trans (.insertAuditEvent audit), names_none⟩

theorem account_kept (operation : Sessions.Operation) (ok : operation.transact db = .ok db') :
    ∃ but, Kept but db db' ∧ Names db but (takesFrom operation) := by
  cases operation with
  | recoverAccount recovery => exact recoverAccount_kept ok
  | suspendAccount username suspended changedAt actor correlationId =>
      obtain ⟨but, kept, names⟩ := suspendAccount_kept ok
      refine ⟨but, kept, ?_⟩
      cases suspended with
      | true => exact names
      | false => exact names
  | createInitialAdministrator administrator =>
      simp only [Sessions.Operation.transact, Database.createInitialAdministrator, bind_eq_ok,
        sqlite_eq_ok, pure_eq_ok, Except.ok.injEq] at ok
      obtain ⟨_, -, ⟨db₁, id⟩, created, keys, -, credentials, -, rfl⟩ := ok
      exact ⟨none, (Kept.insertAccount created).trans (.of_eq rfl rfl), names_none⟩
  | createSignupInvitation codeHash createdAt expiresAt =>
      simp only [Sessions.Operation.transact, Database.createSignupInvitation, bind_eq_ok,
        pure_eq_ok, Except.ok.injEq] at ok
      obtain ⟨invitations, -, rfl⟩ := ok
      exact ⟨none, .of_eq rfl rfl, names_none⟩
  | createAccountWithInvitation account =>
      simp only [Sessions.Operation.transact, Database.createAccountWithInvitation, bind_eq_ok,
        uniqueAs_eq_ok] at ok
      obtain ⟨invitations, -, _, -, ⟨db₁, id⟩, created, db₂, key, credentials, -, audit⟩ := ok
      have first : Kept none db { db with signupInvitations := invitations } := .of_eq rfl rfl
      have second : Kept none db₂ { db₂ with recoveryCredentials := credentials } := .of_eq rfl rfl
      exact ⟨none, (first.trans (.insertAccount created)).trans
        ((Kept.insertSshKey key).trans (second.trans (.insertAuditEvent audit))), names_none⟩
  | addAccountKey username key createdAt actor correlationId =>
      simp only [Sessions.Operation.transact, Database.addAccountKey, bind_eq_ok] at ok
      obtain ⟨id, -, db₁, inserted, db₂, ended, audit⟩ := ok
      exact ⟨none, ((Kept.insertSshKey inserted).trans (.endSessions ended)).trans
        (.insertAuditEvent audit), names_none⟩
  | revokeAccountKey username fingerprint revokedAt actor correlationId =>
      simp only [Sessions.Operation.transact, Database.revokeAccountKey, bind_eq_ok] at ok
      obtain ⟨id, -, _, -, keys, -, _, -, db₁, ended, audit⟩ := ok
      have first : Kept none db { db with sshPublicKeys := keys } := .of_eq rfl rfl
      exact ⟨none, (first.trans (.endSessions ended)).trans (.insertAuditEvent audit), names_none⟩
  | completeAccountKeyAdd authorization key =>
      simp only [Sessions.Operation.transact, Database.completeAccountKeyAdd, bind_eq_ok] at ok
      obtain ⟨⟨db₁, id, keyId⟩, consumed, _, -, db₂, inserted, audit⟩ := ok
      exact ⟨none, (Kept.consumeAccountKeyAuthorization consumed).trans
        ((Kept.insertSshKey inserted).trans (.insertAuditEvent audit)), names_none⟩
  | completeAccountKeyRevoke authorization fingerprint =>
      simp only [Sessions.Operation.transact, Database.completeAccountKeyRevoke, bind_eq_ok] at ok
      obtain ⟨⟨db₁, accountId, keyId⟩, consumed, _, -, key, -, keys, -, _, -, ok⟩ := ok
      have first := Kept.consumeAccountKeyAuthorization consumed
      have second : Kept none db₁ { db₁ with sshPublicKeys := keys } := .of_eq rfl rfl
      refine ⟨none, ?_, names_none⟩
      split at ok
      · obtain ⟨db₂, ended, audit⟩ := bind_eq_ok.mp ok
        exact (first.trans second).trans ((Kept.endSessions ended).trans (.insertAuditEvent audit))
      · obtain ⟨db₂, same, audit⟩ := bind_eq_ok.mp ok
        cases same
        exact (first.trans second).trans (.insertAuditEvent audit)
  | endAccountSessions username endedAt =>
      simp only [Sessions.Operation.transact, Database.endAccountSessions, bind_eq_ok] at ok
      obtain ⟨account, -, ended⟩ := ok
      exact ⟨none, .endSessions ended, names_none⟩
  | createLoginNonce nonce =>
      simp only [Sessions.Operation.transact, Database.createLoginNonce, bind_eq_ok, pure_eq_ok,
        Except.ok.injEq] at ok
      obtain ⟨_, -, account, -, nonces, -, rfl⟩ := ok
      exact ⟨none, .of_eq rfl rfl, names_none⟩
  | consumeLoginNonce login =>
      simp only [Sessions.Operation.transact, Database.consumeLoginNonce, bind_eq_ok] at ok
      obtain ⟨⟨id, keyId⟩, -, nonces, -, _, -, db₁, session, audit⟩ := ok
      have first : Kept none db { db with loginNonces := nonces } := .of_eq rfl rfl
      exact ⟨none, (first.trans (.insertWebSession session)).trans (.insertAuditEvent audit),
        names_none⟩
  | createLoginApproval approval =>
      simp only [Sessions.Operation.transact, Database.createLoginApproval, bind_eq_ok, pure_eq_ok,
        Except.ok.injEq] at ok
      obtain ⟨_, -, expected, -, approvals, -, rfl⟩ := ok
      exact ⟨none, .of_eq rfl rfl, names_none⟩
  | approveLogin approval =>
      simp only [Sessions.Operation.transact, Database.approveLogin, bind_eq_ok, pure_eq_ok,
        Except.ok.injEq] at ok
      obtain ⟨⟨id, keyId⟩, -, approvals, -, _, -, rfl⟩ := ok
      exact ⟨none, .of_eq rfl rfl, names_none⟩
  | consumeLoginApproval login =>
      obtain ⟨⟨db₁, username⟩, consumed, rfl⟩ := map_eq_ok.mp ok
      simp only [Database.consumeLoginApproval, bind_eq_ok, pure_eq_ok, Except.ok.injEq,
        Prod.mk.injEq] at consumed
      obtain ⟨approval, -, account, -, keyId, -, _, -, approvals, -, _, -, db₂, session, db₃,
        audit, rfl, rfl⟩ := consumed
      have first : Kept none db { db with sshLoginApprovals := approvals } := .of_eq rfl rfl
      exact ⟨none, (first.trans (.insertWebSession session)).trans (.insertAuditEvent audit),
        names_none⟩
  | maintain cutoff =>
      cases ok
      exact ⟨none, .maintain cutoff, names_none⟩

/-! ## Tokens in the table -/

theorem Kept.keepsOwned (kept : Kept but db db') (owned : Owned db) : Owned db' := by
  intro t member
  obtain ⟨s, old, same⟩ := kept.owners t member
  obtain ⟨a, member', owner⟩ := owned s old
  obtain ⟨a', now, sameId, -⟩ := kept.named a member'
  exact ⟨a', now, sameId.trans (owner.trans same)⟩

variable {username name : String} {token : Identifier × Hash} {a : Account}

theorem Kept.holds {lost : Option String} (kept : Kept but db db') (owned : Owned db)
    (names : Names db but lost) :
    Holds db' username token ↔ Holds db username token ∧ some username ≠ lost := by
  constructor
  · rintro ⟨a', now, rfl, t, member, owner, works, rfl⟩
    obtain ⟨old, other⟩ := (kept.live t works).mp member
    obtain ⟨a, before, same⟩ := owned t old
    obtain ⟨a'', now'', sameId, sameName⟩ := kept.named a before
    have one : a'' = a' := Table.eq_of_key now'' now (sameId.trans (same.trans owner))
    rw [← one, sameName]
    refine ⟨⟨a, before, rfl, t, old, same.symm, works, rfl⟩, fun gone => other ?_⟩
    rw [← same]
    exact (names a before).mpr gone
  · rintro ⟨⟨a, before, rfl, t, old, owner, works, rfl⟩, other⟩
    obtain ⟨a', now, sameId, sameName⟩ := kept.named a before
    refine ⟨a', now, sameName, t, (kept.live t works).mpr ⟨old, fun gone => other ?_⟩,
      owner.trans sameId.symm, works, rfl⟩
    exact (names a before).mp (owner ▸ gone)

/-- The token of an account that has one. -/
theorem Holds.of_mem (member : a ∈ db.accounts) {t : FeedToken} (token : t ∈ db.feedTokens)
    (live : ofAccount a.id t = true) : Holds db a.username (t.id, t.tokenHash) := by
  obtain ⟨owner, works⟩ := of_decide_eq_true live
  exact ⟨a, member, rfl, t, token, owner, works, rfl⟩

theorem Holds.mem (holds : Holds db a.username token) (member : a ∈ db.accounts) :
    ∃ t ∈ db.feedTokens, ofAccount a.id t = true ∧ (t.id, t.tokenHash) = token := by
  obtain ⟨a', member', same, t, row, owner, works, rfl⟩ := holds
  have one : a' = a := Table.eq_of_clash member' member (decide_eq_true (.inr same))
  exact ⟨t, row, decide_eq_true ⟨one ▸ owner, works⟩, rfl⟩

theorem holds_insert (member : a ∈ db.accounts) (vacant : ∀ token, ¬ Holds db a.username token)
    {feedTokens : Table FeedToken} {id : Identifier} {tokenHash : Hash} {createdAt : Int}
    (inserted : db.feedTokens.insert ⟨id, tokenHash, a.id, createdAt, none⟩ = .ok feedTokens) :
    Holds { db with feedTokens } username token ↔
      if username = a.username then token = (id, tokenHash) else Holds db username token := by
  constructor
  · rintro ⟨a', member', rfl, t, row, owner, works, rfl⟩
    rcases (Table.mem_insert inserted).mp row with old | rfl
    · have holds : Holds db a'.username (t.id, t.tokenHash) :=
        ⟨a', member', rfl, t, old, owner, works, rfl⟩
      rw [if_neg]
      · exact holds
      · intro same
        exact vacant _ (same ▸ holds)
    · have one : a = a' := Table.eq_of_key member member' owner
      rw [if_pos (congrArg Account.username one.symm)]
  · intro holds
    split at holds
    · rename_i same
      subst same holds
      exact ⟨a, member, rfl, _, (Table.mem_insert inserted).mpr (.inr rfl), rfl, rfl, rfl⟩
    · obtain ⟨a', member', named, t, row, rest⟩ := holds
      exact ⟨a', member', named, t, (Table.mem_insert inserted).mpr (.inl row), rest⟩

/-- A revocation takes the token of the account away. -/
theorem kept_revoked {accountId : Nat} {id : Identifier} {revokedAt : Int}
    {feedTokens : Table FeedToken} (there : ∃ t ∈ db.feedTokens, held accountId id t = true)
    (updated : db.feedTokens.update (held accountId id)
      (fun t => { t with revokedAt := some revokedAt }) = .ok feedTokens) :
    Kept (some accountId) db { db with feedTokens } := by
  obtain ⟨t₀, row₀, chosen₀⟩ := there
  obtain ⟨-, live₀⟩ := (Bool.and_eq_true _ _).mp chosen₀
  refine ⟨fun a member => ⟨a, member, rfl, rfl⟩, ?_, ?_⟩
  · intro t member
    obtain ⟨s, old, rfl⟩ := (Table.mem_update updated).mp member
    refine ⟨s, old, ?_⟩
    split <;> rfl
  · intro t works
    rw [Table.mem_update updated]
    constructor
    · rintro ⟨s, old, rfl⟩
      split at works
      · cases works
      · rename_i spared
        rw [if_neg spared]
        refine ⟨old, fun same => spared ?_⟩
        -- an account has one token that works: it is the one revoked
        have live : ofAccount accountId s = true := decide_eq_true ⟨Option.some.inj same, works⟩
        obtain ⟨owner, working⟩ := of_decide_eq_true live
        obtain ⟨owner₀, working₀⟩ := of_decide_eq_true live₀
        have one : s = t₀ := Table.eq_of_clash old row₀
          (decide_eq_true (.inr (.inr ⟨owner.trans owner₀.symm, working, working₀⟩)))
        rw [one]
        exact chosen₀
    · rintro ⟨old, other⟩
      refine ⟨t, old, (if_neg ?_).symm⟩
      intro chosen
      obtain ⟨-, live⟩ := (Bool.and_eq_true _ _).mp chosen
      exact other (congrArg some (of_decide_eq_true live).1)

end Account

/-! ## The table follows the ledger -/

section Ledger

variable {service : Service} {w w' : World} {db' : Database} {operation : Operation}

theorem Ledger.put_eq_some {ledger : Ledger} {name username : String}
    {entry : Option (Identifier × Hash)} {token : Identifier × Hash} :
    ledger.put name entry username = some token ↔
      if username = name then entry = some token else ledger username = some token := by
  rw [Ledger.put, Function.update_apply]
  split <;> rfl

/-- The account of an operation on tokens, and what the ledger says of it. -/
theorem Follows.entry (follows : Follows w) {a : Account} (member : a ∈ w.db.accounts)
    {id : Identifier} (there : ∃ t ∈ w.db.feedTokens, held a.id id t = true) :
    (w.ledger a.username).map (·.1) = some id := by
  obtain ⟨t, row, chosen⟩ := there
  obtain ⟨named, live⟩ := (Bool.and_eq_true _ _).mp chosen
  rw [(follows.agrees _ _).mpr (Holds.of_mem member row live)]
  exact congrArg some (of_decide_eq_true named)

theorem insertFeedToken_eq_ok {db : Database} {accountId : Nat} {id : Identifier}
    {tokenHash : Hash} {createdAt : Int} {record : FeedTokenRecord}
    (ok : insertFeedToken db accountId id tokenHash createdAt = .ok (db', record)) :
    ∃ feedTokens, db.feedTokens.insert ⟨id, tokenHash, accountId, createdAt, none⟩ =
      .ok feedTokens ∧ db' = { db with feedTokens } := by
  simp only [insertFeedToken, bind_eq_ok, mapError_eq_ok, sqlite_eq_ok, pure_eq_ok,
    Except.ok.injEq, Prod.mk.injEq] at ok
  obtain ⟨feedTokens, inserted, rfl, -⟩ := ok
  exact ⟨feedTokens, inserted, rfl⟩

/-- A new token for an account without one. -/
theorem Follows.insert {db : Database} {ledger : Ledger} (follows : Follows ⟨db, ledger⟩)
    {a : Account} (member : a ∈ db.accounts) (vacant : ledger a.username = none)
    {id : Identifier} {tokenHash : Hash} {createdAt : Int} {record : FeedTokenRecord}
    (ok : insertFeedToken db a.id id tokenHash createdAt = .ok (db', record)) :
    Follows ⟨db', ledger.put a.username (some (id, tokenHash))⟩ := by
  obtain ⟨feedTokens, inserted, rfl⟩ := insertFeedToken_eq_ok ok
  constructor
  · intro t row
    rcases (Table.mem_insert inserted).mp row with old | rfl
    · exact follows.owned t old
    · exact ⟨a, member, rfl⟩
  · intro username token
    have none : ∀ token, ¬ Holds db a.username token := by
      intro token holds
      have entry := (follows.agrees _ _).mpr holds
      cases entry.symm.trans vacant
    rw [Ledger.put_eq_some, holds_insert member none inserted]
    split
    · rw [Option.some.injEq]
      exact eq_comm
    · exact follows.agrees username token

/-- Tokens that are taken away, and the ledger without them. -/
theorem Follows.kept {but : Option Nat} {lost : Option String} (follows : Follows w)
    (kept : Kept but w.db db') (names : Names w.db but lost) :
    Follows ⟨db', lost.elim w.ledger fun name => w.ledger.put name none⟩ where
  owned := kept.keepsOwned follows.owned
  agrees username token := by
    rw [kept.holds follows.owned names, ← follows.agrees]
    cases lost with
    | none => simp
    | some name =>
        simp only [Option.elim_some, Ledger.put_eq_some, reduceCtorEq, ne_eq, Option.some.injEq]
        split
        · simp [*]
        · simp [*]

theorem issue_follows (follows : Follows w) {actor : String} {random : Hash} {id : Identifier}
    {now : Int} (ok : (Operation.issue actor random id now).transact service w.db = .ok db') :
    ∃ ledger, (Operation.issue actor random id now).enter service w.ledger = some ledger ∧
      Follows ⟨db', ledger⟩ := by
  simp only [Operation.transact, map_eq_ok] at ok
  obtain ⟨⟨_, issued⟩, ok, rfl⟩ := ok
  simp only [issue, createFeedToken, bind_eq_ok, mapError_eq_ok, ensure_eq_ok, pure_eq_ok,
    Except.ok.injEq, Prod.mk.injEq, exists_const] at ok
  obtain ⟨-, ⟨_, record⟩, ⟨accountId, active, few, inserted⟩, rfl, -⟩ := ok
  obtain ⟨a, member, rfl, -, rfl⟩ := Database.activeAccountId_eq_ok active
  have vacant : w.ledger a.username = none := by
    cases entry : w.ledger a.username with
    | none => rfl
    | some token =>
        obtain ⟨t, row, live, -⟩ := ((follows.agrees _ _).mp entry).mem member
        have one : 0 < w.db.feedTokens.count (ofAccount a.id) :=
          List.countP_pos_iff.mpr ⟨t, row, live⟩
        simp only [maxActiveFeedTokens] at few
        omega
  exact ⟨_, if_pos vacant, follows.insert member vacant inserted⟩

theorem rotate_follows (follows : Follows w) {actor : String} {id fresh : Identifier}
    {random : Hash} {now : Int}
    (ok : (Operation.rotate actor id random fresh now).transact service w.db = .ok db') :
    ∃ ledger, (Operation.rotate actor id random fresh now).enter service w.ledger = some ledger ∧
      Follows ⟨db', ledger⟩ := by
  simp only [Operation.transact, map_eq_ok] at ok
  obtain ⟨⟨_, issued⟩, ok, rfl⟩ := ok
  simp only [rotate, rotateFeedToken, bind_eq_ok, mapError_eq_ok, ensure_eq_ok, sqlite_eq_ok,
    pure_eq_ok, Except.ok.injEq, Prod.mk.injEq, exists_const] at ok
  obtain ⟨-, ⟨_, record⟩, ⟨accountId, active, there, feedTokens, updated, inserted⟩, rfl, -⟩ := ok
  obtain ⟨a, member, rfl, -, rfl⟩ := Database.activeAccountId_eq_ok active
  rw [Table.any_iff] at there
  have revoked : Follows ⟨{ w.db with feedTokens }, w.ledger.put a.username none⟩ :=
    follows.kept (kept_revoked there updated) (names_of_mem member)
  have vacant : w.ledger.put a.username none a.username = none := Function.update_self ..
  refine ⟨_, if_pos (follows.entry member there), ?_⟩
  have followed := revoked.insert member vacant inserted
  rwa [Ledger.put, Ledger.put, Function.update_idem] at followed

theorem revoke_follows (follows : Follows w) {actor : String} {id : Identifier} {now : Int}
    (ok : (Operation.revoke actor id now).transact service w.db = .ok db') :
    ∃ ledger, (Operation.revoke actor id now).enter service w.ledger = some ledger ∧
      Follows ⟨db', ledger⟩ := by
  simp only [Operation.transact, revoke, revokeFeedToken, bind_eq_ok, mapError_eq_ok,
    ensure_eq_ok, sqlite_eq_ok, pure_eq_ok, Except.ok.injEq, exists_const] at ok
  obtain ⟨-, accountId, active, feedTokens, updated, changed, rfl⟩ := ok
  obtain ⟨a, member, rfl, -, rfl⟩ := Database.activeAccountId_eq_ok active
  have there := Table.exists_of_count changed
  exact ⟨_, if_pos (follows.entry member there),
    follows.kept (kept_revoked there updated) (names_of_mem member)⟩

/-- No transaction does what the ledger does not allow, and the table follows it. -/
theorem transact_follows (follows : Follows w)
    (ok : operation.transact service w.db = .ok db') :
    ∃ ledger, operation.enter service w.ledger = some ledger ∧ Follows ⟨db', ledger⟩ := by
  cases operation with
  | issue actor random id now => exact issue_follows follows ok
  | rotate actor id random fresh now => exact rotate_follows follows ok
  | revoke actor id now => exact revoke_follows follows ok
  | account operation =>
      obtain ⟨but, kept, names⟩ := account_kept operation (mapError_eq_ok.mp ok)
      exact ⟨_, rfl, follows.kept kept names⟩
  | elsewhere db =>
      cases ok
      have kept : Kept none w.db
          { db with accounts := w.db.accounts, feedTokens := w.db.feedTokens } := .of_eq rfl rfl
      exact ⟨_, rfl, follows.kept kept names_none⟩

theorem step_follows (follows : Follows w) :
    ∃ w', step service w operation = some w' ∧ Follows w' := by
  simp only [step]
  split
  · rename_i db' ok
    obtain ⟨ledger, entered, followed⟩ := transact_follows follows ok
    exact ⟨_, by rw [entered]; rfl, followed⟩
  · exact ⟨w, rfl, follows⟩

/-- A token of the table has one holder. -/
theorem Holds.unique {db : Database} {username username' : String} {id id' : Identifier}
    {tokenHash : Hash} (holds : Holds db username (id, tokenHash))
    (holds' : Holds db username' (id', tokenHash)) : username = username' := by
  obtain ⟨a, member, rfl, t, row, owner, -, named⟩ := holds
  obtain ⟨a', member', rfl, t', row', owner', -, named'⟩ := holds'
  have same : t.tokenHash = t'.tokenHash :=
    (congrArg Prod.snd named).trans (congrArg Prod.snd named').symm
  have one : t = t' := Table.eq_of_clash row row' (decide_eq_true (.inr (.inl same)))
  have both : a = a' := Table.eq_of_key member member' (owner.symm.trans (one ▸ owner'))
  rw [both]

/-- A token is served to its holder, who is active, and to nobody else. -/
def Served (service : Service) (w : World) : Prop :=
  ∀ (token username : String) (events : List ActivityEventRecord),
    readToken service w.db token = some (username, events) ↔
      validateToken token = true ∧ (∃ id, w.ledger username = some (id, hash service token)) ∧
      ∃ a ∈ w.db.accounts, a.username = username ∧ a.state = .active ∧
        events = w.db.watchedActivityEvents a.id none pageSize

theorem tokenFeedEvents_eq_some {db : Database} {tokenHash : Hash} {limit : Nat}
    {username : String} {events : List ActivityEventRecord} :
    tokenFeedEvents db tokenHash limit = some (username, events) ↔
      ∃ a ∈ db.accounts, a.username = username ∧ a.state = .active ∧
        (∃ t ∈ db.feedTokens, ofAccount a.id t = true ∧ t.tokenHash = tokenHash) ∧
        events = db.watchedActivityEvents a.id none limit := by
  simp only [tokenFeedEvents, Option.bind_eq_bind, Option.bind_eq_some_iff,
    Option.filter_eq_some_iff, decide_eq_true_eq, Option.pure_def, Option.some.injEq,
    Prod.mk.injEq]
  constructor
  · rintro ⟨t, found, a, ⟨owner, active⟩, rfl, rfl⟩
    obtain ⟨row, chosen⟩ := Table.mem_of_find found
    obtain ⟨rfl, works⟩ := of_decide_eq_true chosen
    obtain ⟨member, same⟩ := Table.get_eq_some.mp owner
    exact ⟨a, member, rfl, active, ⟨t, row, decide_eq_true ⟨same.symm, works⟩, rfl⟩, rfl⟩
  · rintro ⟨a, member, rfl, active, ⟨t, row, live, rfl⟩, rfl⟩
    obtain ⟨owner, works⟩ := of_decide_eq_true live
    refine ⟨t, ?_, a, ⟨Table.get_eq_some.mpr ⟨member, owner.symm⟩, active⟩, rfl, rfl⟩
    apply Table.find_eq_some row (decide_eq_true ⟨rfl, works⟩)
    intro t' row' chosen
    exact Table.eq_of_clash row' row (decide_eq_true (.inr (.inl (of_decide_eq_true chosen).1)))

theorem Follows.served (follows : Follows w) : Served service w := by
  intro token username events
  simp only [readToken, Option.ite_none_right_eq_some, tokenFeedEvents_eq_some]
  constructor
  · rintro ⟨valid, a, member, rfl, active, ⟨t, row, live, same⟩, rfl⟩
    refine ⟨valid, ⟨t.id, (follows.agrees _ _).mpr ?_⟩, a, member, rfl, active, rfl⟩
    rw [hash, ← same]
    exact Holds.of_mem member row live
  · rintro ⟨valid, ⟨id, entry⟩, a, member, rfl, active, rfl⟩
    obtain ⟨t, row, live, same⟩ := ((follows.agrees _ _).mp entry).mem member
    exact ⟨valid, a, member, rfl, active, ⟨t, row, live, congrArg Prod.snd same⟩, rfl⟩

/-- The ledger of a database. -/
def ledgerOf (db : Database) : Ledger := fun username => do
  let a ← db.accounts.find fun a => decide (a.username = username)
  let t ← db.feedTokens.find (ofAccount a.id)
  pure (t.id, t.tokenHash)

theorem ledgerOf_follows {db : Database} (owned : Owned db) : Follows ⟨db, ledgerOf db⟩ where
  owned := owned
  agrees username token := by
    simp only [ledgerOf, Option.bind_eq_bind, Option.bind_eq_some_iff, Option.pure_def,
      Option.some.injEq]
    constructor
    · rintro ⟨a, found, t, first, rfl⟩
      obtain ⟨member, same⟩ := Table.mem_of_find found
      obtain ⟨row, live⟩ := Table.mem_of_find first
      rw [← of_decide_eq_true same]
      exact Holds.of_mem member row live
    · rintro ⟨a, member, rfl, t, row, owner, works, rfl⟩
      refine ⟨a, Table.find_eq_some member (decide_eq_true rfl) ?_, t,
        Table.find_eq_some row (decide_eq_true ⟨owner, works⟩) ?_, rfl⟩
      · intro a' member' same
        exact Table.eq_of_clash member' member (decide_eq_true (.inr (of_decide_eq_true same)))
      · intro t' row' live
        obtain ⟨owner', works'⟩ := of_decide_eq_true live
        exact Table.eq_of_clash row' row
          (decide_eq_true (.inr (.inr ⟨owner'.trans owner.symm, works', works⟩)))

theorem run_follows (follows : Follows w) (operations : List Operation) :
    ∃ w', run (step service) w operations = some w' := by
  induction operations generalizing w with
  | nil => exact ⟨w, rfl⟩
  | cons operation operations ih =>
      obtain ⟨w', next, followed⟩ :
          ∃ w', step service w operation = some w' ∧ Follows w' := step_follows follows
      obtain ⟨final, ran⟩ := ih followed
      refine ⟨final, ?_⟩
      rw [run, next]
      exact ran

theorem follows_always (follows : Follows w) (operations : List Operation) :
    Always (step service) Follows w operations := by
  apply always_of_steps _ follows
  intro w operation w' follows next
  obtain ⟨w'', next', followed⟩ :
      ∃ w', step service w operation = some w' ∧ Follows w' := step_follows follows
  cases next.symm.trans next'
  exact followed

end Ledger

/-- Along every run the ledger allows what the transactions do, and the feed of watched activity is
served for the tokens in it, each to its holder, and for no other. -/
theorem feed_served (service : Service) {db : Database} (owned : Owned db)
    (operations : List Operation) :
    (∃ w, run (step service) ⟨db, ledgerOf db⟩ operations = some w) ∧
    Always (step service) (Served service) ⟨db, ledgerOf db⟩ operations :=
  ⟨run_follows (ledgerOf_follows owned) operations,
    Always.mono (fun _ follows => follows.served)
      (follows_always (ledgerOf_follows owned) operations)⟩

/-! ## Tokens that are taken away -/

/-- The hash of the token that the operation issues. -/
def Operation.grants (service : Service) : Operation → Option Hash
  | .issue _ random _ _ => some (hash service (tokenText random))
  | .rotate _ _ random _ _ => some (hash service (tokenText random))
  | _ => none

/-- The holder whose token no longer works once the operation has succeeded. -/
def Operation.takes : Operation → Option String
  | .rotate actor _ _ _ _ => some actor
  | .revoke actor _ _ => some actor
  | .account operation => takesFrom operation
  | _ => none

/-- No entry of the ledger has the hash. -/
def Lacks (tokenHash : Hash) (ledger : Ledger) : Prop :=
  ∀ username id, ledger username ≠ some (id, tokenHash)

section Taken

variable {service : Service} {ledger ledger' : Ledger} {operation : Operation} {tokenHash : Hash}

theorem Lacks.put_none (lacks : Lacks tokenHash ledger) (name : String) :
    Lacks tokenHash (ledger.put name none) := by
  intro username id entry
  rw [Ledger.put_eq_some] at entry
  split at entry
  · cases entry
  · exact lacks username id entry

theorem Lacks.put_some {name : String} (lacks : Lacks tokenHash (ledger.put name none))
    {id : Identifier} {other : Hash} (different : some other ≠ some tokenHash) :
    Lacks tokenHash (ledger.put name (some (id, other))) := by
  intro username id' entry
  rw [Ledger.put_eq_some] at entry
  split at entry
  · exact different (congrArg (fun entry => entry.map Prod.snd) entry)
  · rename_i away
    exact lacks username id' (Ledger.put_eq_some.mpr (by rwa [if_neg away]))

theorem enter_lacks (lacks : Lacks tokenHash ledger)
    (other : operation.grants service ≠ some tokenHash)
    (entered : operation.enter service ledger = some ledger') : Lacks tokenHash ledger' := by
  cases operation with
  | issue actor random id now =>
      obtain ⟨-, same⟩ := Option.ite_none_right_eq_some.mp entered
      cases same
      exact (lacks.put_none actor).put_some other
  | rotate actor id random fresh now =>
      obtain ⟨-, same⟩ := Option.ite_none_right_eq_some.mp entered
      cases same
      exact (lacks.put_none actor).put_some other
  | revoke actor id now =>
      obtain ⟨-, same⟩ := Option.ite_none_right_eq_some.mp entered
      cases same
      exact lacks.put_none actor
  | account operation =>
      cases entered
      cases takesFrom operation with
      | none => exact lacks
      | some name => exact lacks.put_none name
  | elsewhere db =>
      cases entered
      exact lacks

/-- The one token with the hash is its holder's, and it is taken. -/
theorem enter_takes {username : String} (only : Lacks tokenHash (ledger.put username none))
    (takes : operation.takes = some username)
    (other : operation.grants service ≠ some tokenHash)
    (entered : operation.enter service ledger = some ledger') : Lacks tokenHash ledger' := by
  cases operation with
  | issue actor random id now => cases takes
  | rotate actor id random fresh now =>
      obtain ⟨-, same⟩ := Option.ite_none_right_eq_some.mp entered
      cases same
      cases takes
      exact only.put_some other
  | revoke actor id now =>
      obtain ⟨-, same⟩ := Option.ite_none_right_eq_some.mp entered
      cases same
      cases takes
      exact only
  | account operation =>
      change takesFrom operation = some username at takes
      cases entered
      rw [takes]
      exact only
  | elsewhere db => cases takes

theorem Served.powerless {w : World} (served : Served service w)
    (lacks : Lacks tokenHash w.ledger) {token : String} (same : hash service token = tokenHash) :
    readToken service w.db token = none := by
  cases read : readToken service w.db token with
  | none => rfl
  | some page =>
      obtain ⟨-, ⟨id, entry⟩, -⟩ := (served token page.1 page.2).mp read
      rw [same] at entry
      exact absurd entry (lacks _ id)

/-- A token that is rotated away, revoked, or taken by a recovery or a suspension of the account
is not served again in any run that issues no token of the same hash, whatever becomes of the
account. -/
theorem taken_away_powerless {db db' : Database} (owned : Owned db) {username : String}
    {id : Identifier} (holds : Holds db username (id, tokenHash))
    (takes : operation.takes = some username)
    (ok : operation.transact service db = .ok db') {operations : List Operation}
    (others : ∀ later ∈ operation :: operations, later.grants service ≠ some tokenHash) :
    Always (step service)
      (fun w => ∀ token, hash service token = tokenHash → readToken service w.db token = none)
      ⟨db', ledgerOf db'⟩ operations := by
  have follows := ledgerOf_follows owned
  have only : Lacks tokenHash ((ledgerOf db).put username none) := by
    intro username' id' entry
    rw [Ledger.put_eq_some] at entry
    split at entry
    · cases entry
    · rename_i away
      exact away (((follows.agrees _ _).mp entry).unique holds)
  obtain ⟨ledger, entered, followed⟩ := transact_follows follows ok
  have lacks : Lacks tokenHash (ledgerOf db') := by
    have taken := enter_takes only takes (others _ List.mem_cons_self) entered
    intro username' id' entry
    have holds' := ((ledgerOf_follows followed.owned).agrees _ _).mp entry
    exact taken username' id' ((followed.agrees _ _).mpr holds')
  have meets : Meets (step service) (fun _ later => later.grants service ≠ some tokenHash)
      ⟨db', ledgerOf db'⟩ operations :=
    meets_of_forall (fun later member _ => others later (List.mem_cons_of_mem _ member)) _
  have both : Always (step service) (fun w => Follows w ∧ Lacks tokenHash w.ledger)
      ⟨db', ledgerOf db'⟩ operations := by
    apply always_of_meets _ ⟨ledgerOf_follows followed.owned, lacks⟩ meets
    intro w later w' inv other next
    simp only [step] at next
    split at next
    · rename_i after done
      obtain ⟨ledger', entered', followed'⟩ := transact_follows inv.1 done
      rw [entered'] at next
      cases next
      exact ⟨followed', enter_lacks inv.2 other entered'⟩
    · cases next
      exact inv
  apply Always.mono _ both
  intro w inv token same
  have served : Served service w := inv.1.served
  exact served.powerless inv.2 same

end Taken

/-! ### A token of alice -/

/-- A server whose digests are the number that the bytes write. -/
def plain : Service where
  httpCloneBase := "https://tit.example"
  sha256 := fun bytes => bytes.foldl (fun digest b => 256 * digest + BitVec.ofNat 256 b.toNat) 0
  fmtHttpDate := fun _ => none
  parseHttpDate := fun _ => none
  eventId := fun event => toString event.id
  payloadNumber := fun event => some event.sequence

def aliceFeed : Database :=
  { Database.oneRepository with
    feedTokens := ⟨[
      { id := 1, tokenHash := hash plain (tokenText 5), accountId := 1, createdAt := 10,
        revokedAt := none }], by decide, by decide⟩ }

theorem aliceFeed_owned : Owned aliceFeed := by
  intro t row
  cases List.mem_singleton.mp row
  exact ⟨_, List.mem_singleton.mpr rfl, rfl⟩

def suspendAlice : Operation :=
  .account (.suspendAccount "alice" true 12 "admin" "c")

def rotatedThenResumed : List Operation :=
  [.rotate "alice" 1 6 2 11, suspendAlice, .account (.suspendAccount "alice" false 13 "admin" "c"),
    .issue "alice" 7 3 14]

theorem feed_served_aliceFeed :
    (∃ w, run (step plain) ⟨aliceFeed, ledgerOf aliceFeed⟩ rotatedThenResumed = some w) ∧
    Always (step plain) (Served plain) ⟨aliceFeed, ledgerOf aliceFeed⟩ rotatedThenResumed :=
  feed_served plain aliceFeed_owned rotatedThenResumed

/-- `alice` without her token, after a suspension. -/
def suspended : Database := committed aliceFeed (suspendAlice.transact plain aliceFeed)

def resumedThenIssued : List Operation :=
  [.account (.suspendAccount "alice" false 13 "admin" "c"), .issue "alice" 7 3 14]

theorem taken_away_powerless_alice :
    (readToken plain aliceFeed (tokenText 5)).isSome = true ∧
    Always (step plain)
      (fun w => ∀ token, hash plain token = hash plain (tokenText 5) →
        readToken plain w.db token = none)
      ⟨suspended, ledgerOf suspended⟩ resumedThenIssued := by
  refine ⟨by decide +kernel, ?_⟩
  have holds : Holds aliceFeed "alice" (1, hash plain (tokenText 5)) :=
    ⟨_, List.mem_singleton.mpr rfl, rfl, _, List.mem_singleton.mpr rfl, rfl, rfl, rfl⟩
  have ok : suspendAlice.transact plain aliceFeed = .ok suspended := by rfl
  have takes : suspendAlice.takes = some "alice" := rfl
  apply taken_away_powerless aliceFeed_owned holds takes ok
  decide +kernel

end Tit.FeedTokens
