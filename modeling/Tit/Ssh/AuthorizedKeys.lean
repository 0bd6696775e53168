/-
# Ssh.AuthorizedKeys -- the key map of the SSH server and its reloads

The SSH server decides from a map of public keys that it holds in memory.  A web
request that changes keys commits its transaction and then reloads the map in two
steps of its own: it reads the active keys (`active_ssh_identities`) and replaces the
whole map with what it read.  Nothing orders the reloads of different requests.

`Server` is the database, the map and the reloads on their way.  `settled_iff` says
when the map mirrors the database each time no reload is on its way: exactly when the
reload that is the last to finish replaces the map with keys that are still the
active ones.
-/
import Tit.Sessions.Operations
import Mathlib.Data.List.Sort

namespace Tit.Ssh

open Tit.Theory Tit.Store

set_option autoImplicit false

/-! ## Public keys -/

/-- The key data that `validate_key_algorithm` tells apart. -/
inductive KeyData where
  | ed25519
  | ecdsa (nistP256 : Bool)
  | rsa (bits : Nat)
  | other
  deriving DecidableEq, Repr

/-- What the `ssh_key` library does with a public key. -/
structure KeyLibrary (PublicKey : Type) where
  fromOpenssh : String → Option PublicKey
  toOpenssh : PublicKey → Option String
  keyData : PublicKey → KeyData
  withoutComment : PublicKey → PublicKey
  fingerprint : PublicKey → String

/-- `auth::SshPublicKey`. -/
structure ParsedKey (PublicKey : Type) where
  key : PublicKey
  canonical : String
  fingerprint : String
  deriving DecidableEq

section Library

variable {PublicKey : Type} (library : KeyLibrary PublicKey)

def validateKeyAlgorithm (key : PublicKey) : Bool :=
  match library.keyData key with
  | .ed25519 => true
  | .ecdsa nistP256 => nistP256
  -- an RSA key is refused for its size or for its kind
  | .rsa _ => false
  | .other => false

def fromPublicKey (key : PublicKey) : Option (ParsedKey PublicKey) :=
  if validateKeyAlgorithm library key then
    let key := library.withoutComment key
    (library.toOpenssh key).map fun canonical =>
      { key, canonical, fingerprint := library.fingerprint key }
  else none

/-- `MAX_KEY_BYTES`. -/
def maxKeyBytes : Nat := 16 * 1024

def parse (input : String) : Option (ParsedKey PublicKey) :=
  if maxKeyBytes < input.utf8ByteSize then none
  else (library.fromOpenssh input).bind (fromPublicKey library)

/-- The text of a key without a comment reads back as that key, and is ASCII. -/
structure KeyLibrary.ReadsBack : Prop where
  reads : ∀ key text, library.toOpenssh (library.withoutComment key) = some text →
    library.fromOpenssh text = some (library.withoutComment key)
  plain : ∀ key, library.withoutComment (library.withoutComment key) = library.withoutComment key
  data : ∀ key, library.keyData (library.withoutComment key) = library.keyData key
  ascii : ∀ key text, library.toOpenssh key = some text → text.utf8ByteSize = text.length

variable {library}

theorem fromPublicKey_eq_some {key : PublicKey} {parsed : ParsedKey PublicKey} :
    fromPublicKey library key = some parsed ↔
      validateKeyAlgorithm library key = true ∧ parsed.key = library.withoutComment key ∧
        library.toOpenssh parsed.key = some parsed.canonical ∧
        parsed.fingerprint = library.fingerprint parsed.key := by
  obtain ⟨key', canonical, fingerprint⟩ := parsed
  unfold fromPublicKey
  split
  · rename_i allowed
    simp only [Option.map_eq_some_iff, ParsedKey.mk.injEq, allowed, true_and]
    constructor
    · rintro ⟨text, written, rfl, rfl, rfl⟩
      exact ⟨rfl, written, rfl⟩
    · rintro ⟨rfl, written, rfl⟩
      exact ⟨canonical, written, rfl, rfl, rfl⟩
  · rename_i refused
    simp [refused]

theorem parse_eq_some {input : String} {parsed : ParsedKey PublicKey} :
    parse library input = some parsed ↔
      input.utf8ByteSize ≤ maxKeyBytes ∧
        ∃ key, library.fromOpenssh input = some key ∧ fromPublicKey library key = some parsed := by
  unfold parse
  split
  · rename_i long
    simp [Nat.not_le.mpr long]
  · rename_i short
    simp [Nat.not_lt.mp short, Option.bind_eq_some_iff]

/-- A parsed key is determined by the key alone. -/
theorem parse_injective {input input' : String} {parsed parsed' : ParsedKey PublicKey}
    (first : parse library input = some parsed) (second : parse library input' = some parsed')
    (same : parsed.key = parsed'.key) : parsed = parsed' := by
  obtain ⟨-, k, -, made⟩ := parse_eq_some.mp first
  obtain ⟨-, k', -, made'⟩ := parse_eq_some.mp second
  obtain ⟨-, -, written, print⟩ := fromPublicKey_eq_some.mp made
  obtain ⟨-, -, written', print'⟩ := fromPublicKey_eq_some.mp made'
  obtain ⟨key, canonical, fingerprint⟩ := parsed
  obtain ⟨key', canonical', fingerprint'⟩ := parsed'
  obtain rfl : key = key' := same
  obtain rfl : canonical = canonical' := Option.some.inj (written.symm.trans written')
  obtain rfl : fingerprint = fingerprint' := print.trans print'.symm
  rfl

theorem parse_fingerprint {input : String} {parsed : ParsedKey PublicKey}
    (read : parse library input = some parsed) :
    parsed.fingerprint = library.fingerprint parsed.key := by
  obtain ⟨-, k, -, made⟩ := parse_eq_some.mp read
  exact (fromPublicKey_eq_some.mp made).2.2.2

/-- The canonical text of a parsed key parses to the same key, when it fits. -/
theorem parse_canonical (readsBack : library.ReadsBack) {input : String}
    {parsed : ParsedKey PublicKey} (read : parse library input = some parsed)
    (fits : parsed.canonical.length ≤ maxKeyBytes) :
    parse library parsed.canonical = some parsed := by
  obtain ⟨-, key, -, made⟩ := parse_eq_some.mp read
  obtain ⟨allowed, plain, written, print⟩ := fromPublicKey_eq_some.mp made
  refine parse_eq_some.mpr ⟨?_, parsed.key, ?_, fromPublicKey_eq_some.mpr ⟨?_, ?_, written, print⟩⟩
  · rw [readsBack.ascii _ _ written]
    exact fits
  · rw [plain] at written ⊢
    exact readsBack.reads key _ written
  · rw [plain]
    simpa only [validateKeyAlgorithm, readsBack.data] using allowed
  · rw [plain, readsBack.plain]

end Library

/-! ## The active keys of the database -/

/-- `store::ActiveSshIdentity`. -/
structure ActiveSshIdentity where
  username : String
  canonicalKey : String
  fingerprint : String

/-- One row of the join of a key with its account. -/
def activeIdentity (db : Database) (row : SshPublicKey) : Option ActiveSshIdentity :=
  if row.revokedAt = none then
    (db.accounts.find fun a => decide (a.id = row.accountId ∧ a.state = .active)).map fun account =>
      { username := account.username, canonicalKey := row.canonicalKey,
        fingerprint := row.fingerprint }
  else none

/-- `Store::active_ssh_identities`. -/
def storedIdentities (db : Database) : List ActiveSshIdentity :=
  (db.sshPublicKeys.rows.insertionSort fun r s => r.id ≤ s.id).filterMap (activeIdentity db)

section Server

variable {PublicKey : Type} (library : KeyLibrary PublicKey)

def readIdentity (identity : ActiveSshIdentity) : Option (String × ParsedKey PublicKey) :=
  match parse library identity.canonicalKey with
  | none => none
  | some key =>
      if key.fingerprint = identity.fingerprint then some (identity.username, key) else none

/-- `serve::active_ssh_identities`: `none` is an integrity error. -/
def activeSshIdentities (db : Database) : Option (List (String × ParsedKey PublicKey)) :=
  (storedIdentities db).mapM (readIdentity library)

structure SshIdentity where
  username : String
  fingerprint : String
  deriving DecidableEq, Repr

/-- `account_key_map`: of two entries for one key the later one stays. -/
def accountKeyMap [DecidableEq PublicKey] (keys : List (String × ParsedKey PublicKey))
    (key : PublicKey) : Option SshIdentity :=
  (keys.reverse.find? fun entry => decide (entry.2.key = key)).map fun entry =>
    { username := entry.1, fingerprint := entry.2.fingerprint }

/-! ## The requests -/

/-- A request of the account pages.  A page that is only shown reloads the keys too. -/
inductive Change where
  | signup (invitationHash : Hash) (username publicKey : String) (recoveryHash : Hash)
      (createdAt : Int) (correlationId : String)
  | recover (username : String) (oldRecoveryHash : Hash) (publicKey : String)
      (newRecoveryHash : Hash) (createdAt : Int) (correlationId : String)
  | completeKeyAdd (authorization : AccountKeyAuthorization) (label publicKey : String)
  | completeKeyRevoke (authorization : AccountKeyAuthorization) (fingerprint : String)
  | profile

def newKey (key : ParsedKey PublicKey) (label : String) : NewSshKey :=
  { canonicalKey := key.canonical, fingerprint := key.fingerprint, label }

/-- The transaction of the request; `none` when it fails and is rolled back. -/
def Change.transact (db : Database) : Change → Option Database
  | .signup invitationHash username publicKey recoveryHash createdAt correlationId =>
      (parse library publicKey).bind fun key =>
        (db.createAccountWithInvitation
          { invitationHash, username, key := newKey key "initial", recoveryHash, createdAt,
            correlationId }).toOption
  | .recover username oldRecoveryHash publicKey newRecoveryHash createdAt correlationId =>
      (parse library publicKey).bind fun key =>
        (db.recoverAccount
          { username, oldRecoveryHash, newRecoveryHash, key := newKey key "recovery", createdAt,
            correlationId }).toOption
  | .completeKeyAdd authorization label publicKey =>
      (parse library publicKey).bind fun key =>
        (db.completeAccountKeyAdd authorization (newKey key label)).toOption
  | .completeKeyRevoke authorization fingerprint =>
      (db.completeAccountKeyRevoke authorization fingerprint).toOption
  | .profile => some db

/-- How far the reload of a request is. -/
inductive Reload (PublicKey : Type) where
  | committed
  | read (keys : List (String × ParsedKey PublicKey))
  | finished

structure Server (PublicKey : Type) where
  db : Database
  authorized : PublicKey → Option SshIdentity
  reloads : List (Reload PublicKey)

inductive Action where
  /-- A request commits; one that fails does not reload. -/
  | commit (change : Change)
  /-- A reload reads the active keys; it ends here when one of them does not parse. -/
  | read (request : Nat)
  | replace (request : Nat)

def step [DecidableEq PublicKey] (server : Server PublicKey) :
    Action → Option (Server PublicKey)
  | .commit change =>
      match change.transact library server.db with
      | some db => some { server with db, reloads := server.reloads ++ [.committed] }
      | none => some server
  | .read request =>
      match server.reloads[request]? with
      | some .committed =>
          match activeSshIdentities library server.db with
          | some keys => some { server with reloads := server.reloads.set request (.read keys) }
          | none => some { server with reloads := server.reloads.set request .finished }
      | _ => none
  | .replace request =>
      match server.reloads[request]? with
      | some (.read keys) =>
          some { server with
            authorized := accountKeyMap keys
            reloads := server.reloads.set request .finished }
      | _ => none

/-! ## What the map should be -/

/-- The key belongs to an unrevoked row of an active account, which the identity names. -/
def ActiveKey (db : Database) (key : PublicKey) (identity : SshIdentity) : Prop :=
  ∃ row ∈ db.sshPublicKeys, ∃ account ∈ db.accounts,
    row.revokedAt = none ∧ account.id = row.accountId ∧ account.state = .active ∧
      identity = { username := account.username, fingerprint := row.fingerprint } ∧
      ∃ parsed, parse library row.canonicalKey = some parsed ∧ parsed.key = key

/-- The map has the active keys, and no key that is revoked. -/
structure Mirrors (db : Database) (authorized : PublicKey → Option SshIdentity) : Prop where
  active : ∀ key identity, authorized key = some identity ↔ ActiveKey library db key identity
  revoked : ∀ row ∈ db.sshPublicKeys, row.revokedAt ≠ none →
    ∀ key, library.fingerprint key = row.fingerprint → authorized key = none

/-- No reload is on its way. -/
def Quiet (server : Server PublicKey) : Prop :=
  ∀ (i : Nat) reload, server.reloads[i]? = some reload → reload = .finished

/-- Once every request has finished, the map mirrors the database. -/
def Settled (server : Server PublicKey) : Prop :=
  Quiet server → Mirrors library server.db server.authorized

/-- The reload that is the last one on its way replaces the map with keys that are
still the active ones: what other requests committed since it read changed nothing. -/
def LastReadsCurrent (server : Server PublicKey) : Action → Prop
  | .replace request =>
      (∀ (i : Nat) reload, i ≠ request → server.reloads[i]? = some reload → reload = .finished) →
        ∀ keys, server.reloads[request]? = some (.read keys) →
          ∃ current, activeSshIdentities library server.db = some current ∧
            ∀ entry, entry ∈ keys ↔ entry ∈ current
  | _ => True

/-- Every stored key parses to a key with the stored fingerprint. -/
def Readable (db : Database) : Prop :=
  ∀ row ∈ db.sshPublicKeys, ∃ parsed,
    parse library row.canonicalKey = some parsed ∧ parsed.fingerprint = row.fingerprint

/-- The server as it starts: every stored key was written from a parsed one, the map is
the one that was read from the database, and no request has come. -/
structure Loaded [DecidableEq PublicKey] (server : Server PublicKey) : Prop where
  readable : Readable library server.db
  loaded : ∃ keys, activeSshIdentities library server.db = some keys ∧
    server.authorized = accountKeyMap keys
  idle : server.reloads = []

variable {library}

/-! ## Reading the keys -/

theorem mem_storedIdentities {db : Database} {identity : ActiveSshIdentity} :
    identity ∈ storedIdentities db ↔
      ∃ row ∈ db.sshPublicKeys, activeIdentity db row = some identity := by
  simp only [storedIdentities, List.mem_filterMap, List.mem_insertionSort, Table.mem_rows]

theorem activeIdentity_eq_some {db : Database} {row : SshPublicKey}
    {identity : ActiveSshIdentity} :
    activeIdentity db row = some identity ↔
      row.revokedAt = none ∧ ∃ account ∈ db.accounts, account.id = row.accountId ∧
        account.state = .active ∧
        identity = { username := account.username, canonicalKey := row.canonicalKey,
                     fingerprint := row.fingerprint } := by
  unfold activeIdentity
  split
  · rename_i unrevoked
    simp only [Option.map_eq_some_iff, unrevoked, true_and]
    constructor
    · rintro ⟨account, found, rfl⟩
      obtain ⟨member, chosen⟩ := Table.mem_of_find found
      simp only [decide_eq_true_eq] at chosen
      exact ⟨account, member, chosen.1, chosen.2, rfl⟩
    · rintro ⟨account, member, owner, active, rfl⟩
      refine ⟨account, Table.find_eq_some member (by simp [owner, active]) ?_, rfl⟩
      intro other hother chosen
      simp only [decide_eq_true_eq] at chosen
      exact Table.eq_of_key hother member (chosen.1.trans owner.symm)
  · rename_i revoked
    simp [revoked]

theorem readIdentity_eq_some {identity : ActiveSshIdentity} {entry : String × ParsedKey PublicKey} :
    readIdentity library identity = some entry ↔
      entry.1 = identity.username ∧ parse library identity.canonicalKey = some entry.2 ∧
        entry.2.fingerprint = identity.fingerprint := by
  obtain ⟨username, key⟩ := entry
  unfold readIdentity
  cases parse library identity.canonicalKey with
  | none => simp
  | some parsed =>
      simp only [Option.ite_none_right_eq_some, Option.some.injEq, Prod.mk.injEq]
      constructor
      · rintro ⟨print, rfl, rfl⟩
        exact ⟨rfl, rfl, print⟩
      · rintro ⟨rfl, rfl, print⟩
        exact ⟨print, rfl, rfl⟩

/-- The keys that were read are those of the active rows. -/
theorem mem_activeSshIdentities {db : Database} {keys : List (String × ParsedKey PublicKey)}
    (read : activeSshIdentities library db = some keys) {entry : String × ParsedKey PublicKey} :
    entry ∈ keys ↔
      ∃ row ∈ db.sshPublicKeys, ∃ account ∈ db.accounts,
        row.revokedAt = none ∧ account.id = row.accountId ∧ account.state = .active ∧
          entry.1 = account.username ∧ parse library row.canonicalKey = some entry.2 ∧
          entry.2.fingerprint = row.fingerprint := by
  rw [mem_of_mapM read]
  constructor
  · rintro ⟨identity, stored, made⟩
    obtain ⟨row, hrow, joined⟩ := mem_storedIdentities.mp stored
    obtain ⟨unrevoked, account, haccount, owner, active, rfl⟩ := activeIdentity_eq_some.mp joined
    obtain ⟨named, parsed, print⟩ := readIdentity_eq_some.mp made
    exact ⟨row, hrow, account, haccount, unrevoked, owner, active, named, parsed, print⟩
  · rintro ⟨row, hrow, account, haccount, unrevoked, owner, active, named, parsed, print⟩
    refine ⟨_, mem_storedIdentities.mpr ⟨row, hrow, activeIdentity_eq_some.mpr
      ⟨unrevoked, account, haccount, owner, active, rfl⟩⟩, ?_⟩
    exact readIdentity_eq_some.mpr ⟨named, parsed, print⟩

/-- What a read leaves for the map: parsed keys, each of them once. -/
structure Distinct (library : KeyLibrary PublicKey) (keys : List (String × ParsedKey PublicKey)) :
    Prop where
  parsed : ∀ entry ∈ keys, ∃ text, parse library text = some entry.2
  once : ∀ entry ∈ keys, ∀ entry' ∈ keys, entry.2.key = entry'.2.key → entry = entry'

theorem activeSshIdentities_distinct {db : Database} {keys : List (String × ParsedKey PublicKey)}
    (read : activeSshIdentities library db = some keys) : Distinct library keys := by
  refine ⟨?_, ?_⟩
  · intro entry member
    obtain ⟨row, -, account, -, -, -, -, -, parsed, -⟩ := (mem_activeSshIdentities read).mp member
    exact ⟨_, parsed⟩
  · intro entry member entry' member' same
    obtain ⟨row, hrow, account, haccount, -, owner, -, named, parsed, print⟩ :=
      (mem_activeSshIdentities read).mp member
    obtain ⟨row', hrow', account', haccount', -, owner', -, named', parsed', print'⟩ :=
      (mem_activeSshIdentities read).mp member'
    have sameKey : entry.2 = entry'.2 := parse_injective parsed parsed' same
    -- the fingerprints of two rows differ
    have sameRow : row = row' := by
      refine Table.eq_of_clash hrow hrow' ?_
      have prints : row.fingerprint = row'.fingerprint := by rw [← print, ← print', sameKey]
      simp [Schema.clash, prints]
    subst sameRow
    obtain rfl := Table.eq_of_key haccount haccount' (owner.trans owner'.symm)
    exact Prod.ext (named.trans named'.symm) sameKey

theorem accountKeyMap_eq_some [DecidableEq PublicKey]
    {keys : List (String × ParsedKey PublicKey)} (distinct : Distinct library keys)
    {key : PublicKey} {identity : SshIdentity} :
    accountKeyMap keys key = some identity ↔
      ∃ entry ∈ keys, entry.2.key = key ∧
        identity = { username := entry.1, fingerprint := entry.2.fingerprint } := by
  simp only [accountKeyMap, Option.map_eq_some_iff]
  constructor
  · rintro ⟨entry, found, rfl⟩
    have chosen := List.find?_some found
    exact ⟨entry, List.mem_reverse.mp (List.mem_of_find?_eq_some found), of_decide_eq_true chosen,
      rfl⟩
  · rintro ⟨entry, member, named, rfl⟩
    have some_found :
        (keys.reverse.find? fun entry => decide (entry.2.key = key)).isSome = true := by
      rw [List.find?_isSome]
      exact ⟨entry, List.mem_reverse.mpr member, decide_eq_true named⟩
    obtain ⟨found, isFound⟩ := Option.isSome_iff_exists.mp some_found
    have hfound := List.mem_reverse.mp (List.mem_of_find?_eq_some isFound)
    have chosen : found.2.key = key := by simpa using List.find?_some isFound
    obtain rfl := distinct.once found hfound entry member (chosen.trans named.symm)
    exact ⟨_, isFound, rfl⟩

/-- Two lists of distinct keys with one map have the same entries. -/
theorem covered [DecidableEq PublicKey] {keys others : List (String × ParsedKey PublicKey)}
    (distinct : Distinct library keys) (distinct' : Distinct library others)
    (covers : ∀ key identity, accountKeyMap keys key = some identity →
      accountKeyMap others key = some identity) :
    ∀ entry ∈ keys, entry ∈ others := by
  intro entry member
  obtain ⟨other, hother, named, identity⟩ := (accountKeyMap_eq_some distinct').mp
    (covers _ _ ((accountKeyMap_eq_some distinct).mpr ⟨entry, member, rfl, rfl⟩))
  obtain ⟨text, parsed⟩ := distinct.parsed entry member
  obtain ⟨text', parsed'⟩ := distinct'.parsed other hother
  simp only [SshIdentity.mk.injEq] at identity
  have same : entry = other := Prod.ext identity.1 (parse_injective parsed parsed' named.symm)
  rw [same]
  exact hother

/-! ## When the map mirrors the database -/

theorem activeKey_iff {db : Database} {current : List (String × ParsedKey PublicKey)}
    (readable : Readable library db) (read : activeSshIdentities library db = some current)
    {key : PublicKey} {identity : SshIdentity} :
    ActiveKey library db key identity ↔
      ∃ entry ∈ current, entry.2.key = key ∧
        identity = { username := entry.1, fingerprint := entry.2.fingerprint } := by
  constructor
  · rintro ⟨row, hrow, account, haccount, unrevoked, owner, active, rfl, parsed, text, named⟩
    obtain ⟨parsed', text', print⟩ := readable row hrow
    obtain rfl : parsed' = parsed := Option.some.inj (text'.symm.trans text)
    refine ⟨(account.username, parsed'), (mem_activeSshIdentities read).mpr
      ⟨row, hrow, account, haccount, unrevoked, owner, active, rfl, text, print⟩, named, ?_⟩
    rw [print]
  · rintro ⟨entry, member, named, rfl⟩
    obtain ⟨row, hrow, account, haccount, unrevoked, owner, active, username, text, print⟩ :=
      (mem_activeSshIdentities read).mp member
    exact ⟨row, hrow, account, haccount, unrevoked, owner, active, by rw [username, print],
      entry.2, text, named⟩

/-- **A map of keys mirrors the database exactly when the keys are those a read would
give now.** -/
theorem mirrors_iff [DecidableEq PublicKey] {db : Database} {keys current : List (String × ParsedKey PublicKey)}
    (readable : Readable library db) (distinct : Distinct library keys)
    (read : activeSshIdentities library db = some current) :
    Mirrors library db (accountKeyMap keys) ↔ ∀ entry, entry ∈ keys ↔ entry ∈ current := by
  have distinct' := activeSshIdentities_distinct read
  constructor
  · intro mirrors entry
    have agree : ∀ key identity,
        accountKeyMap keys key = some identity ↔ accountKeyMap current key = some identity := by
      intro key identity
      rw [mirrors.active, activeKey_iff readable read, accountKeyMap_eq_some distinct']
    exact ⟨covered distinct distinct' (fun key identity => (agree key identity).mp) entry,
      covered distinct' distinct (fun key identity => (agree key identity).mpr) entry⟩
  · intro same
    have active : ∀ key identity,
        accountKeyMap keys key = some identity ↔ ActiveKey library db key identity := by
      intro key identity
      rw [accountKeyMap_eq_some distinct, activeKey_iff readable read]
      exact exists_congr fun entry => and_congr_left fun _ => same entry
    refine ⟨active, ?_⟩
    intro row hrow revoked key print
    cases mapped : accountKeyMap keys key with
    | none => rfl
    | some identity =>
        -- the active row of the key has the fingerprint of the revoked one
        obtain ⟨row', hrow', account, -, unrevoked, -, -, -, parsed, text, rfl⟩ :=
          (active key identity).mp mapped
        obtain ⟨parsed', text', print'⟩ := readable row' hrow'
        obtain rfl : parsed' = parsed := Option.some.inj (text'.symm.trans text)
        have prints : row.fingerprint = row'.fingerprint := by
          rw [← print, ← print', parse_fingerprint text]
        have sameRow : row = row' := Table.eq_of_clash hrow hrow' (by simp [Schema.clash, prints])
        rw [sameRow] at revoked
        exact absurd unrevoked revoked

/-! ## Every stored key is readable -/

section Readable

variable {db db' : Database}

theorem Readable.frame (readable : Readable library db)
    (keys : db'.sshPublicKeys = db.sshPublicKeys) : Readable library db' := by
  unfold Readable
  rw [keys]
  exact readable

/-- A key of a request, on its way into the database. -/
structure Offered (library : KeyLibrary PublicKey) (key : NewSshKey) : Prop where
  readsBack : library.ReadsBack
  parsed : ∃ text parsed, parse library text = some parsed ∧
    parsed.canonical = key.canonicalKey ∧ parsed.fingerprint = key.fingerprint

/-- A row of an offered key is readable, since its text fits the column. -/
theorem Offered.readable {key : NewSshKey} (offered : Offered library key) {row : SshPublicKey}
    (checked : Schema.check row = true) (text : row.canonicalKey = key.canonicalKey)
    (print : row.fingerprint = key.fingerprint) :
    ∃ parsed, parse library row.canonicalKey = some parsed ∧
      parsed.fingerprint = row.fingerprint := by
  obtain ⟨input, parsed, read, canonical, fingerprint⟩ := offered.parsed
  have fits : row.canonicalKey.length ≤ maxKeyBytes := by
    simp only [Schema.check, Bool.and_eq_true, lengthBetween_iff] at checked
    exact checked.1.1.1.1.2
  refine ⟨parsed, ?_, fingerprint.trans print.symm⟩
  rw [text, ← canonical] at fits ⊢
  exact parse_canonical offered.readsBack read fits

theorem Readable.insertSshKey (readable : Readable library db) {key : NewSshKey}
    (offered : Offered library key) {accountId : Nat} {createdAt : Int}
    (ok : db.insertSshKey accountId key createdAt = .ok db') : Readable library db' := by
  obtain ⟨keys, inserted, rfl⟩ := Database.insertSshKey_eq_ok.mp ok
  intro row hrow
  rcases (Table.mem_insert inserted).mp hrow with old | rfl
  · exact readable row old
  · exact offered.readable (keys.checked _ hrow) rfl rfl

/-- An update that keeps the texts, or writes those of an offered key. -/
theorem Readable.updateKeys (readable : Readable library db) {p : SshPublicKey → Bool}
    {f : SshPublicKey → SshPublicKey} {keys : Table SshPublicKey}
    (updated : db.sshPublicKeys.update p f = .ok keys)
    (texts : ∀ row ∈ db.sshPublicKeys, p row = true →
      (∃ parsed, parse library (f row).canonicalKey = some parsed ∧
        parsed.fingerprint = (f row).fingerprint)) :
    Readable library { db with sshPublicKeys := keys } := by
  intro row hrow
  obtain ⟨before, member, rfl⟩ := (Table.mem_update updated).mp hrow
  split
  · exact texts before member ‹_›
  · exact readable before member

theorem Readable.revokeKeys (readable : Readable library db) {p : SshPublicKey → Bool}
    {revokedAt : Int} {keys : Table SshPublicKey}
    (updated : db.sshPublicKeys.update p (fun k => { k with revokedAt := some revokedAt })
      = .ok keys) : Readable library { db with sshPublicKeys := keys } :=
  readable.updateKeys updated fun row member _ => readable row member

theorem newKey_offered (readsBack : library.ReadsBack) {text : String}
    {parsed : ParsedKey PublicKey} (read : parse library text = some parsed) (label : String) :
    Offered library (newKey parsed label) :=
  ⟨readsBack, text, parsed, read, rfl, rfl⟩

theorem Readable.signup (readable : Readable library db) {account : InvitedAccount}
    (offered : Offered library account.key)
    (ok : db.createAccountWithInvitation account = .ok db') : Readable library db' := by
  unfold Database.createAccountWithInvitation at ok
  simp only [bind_eq_ok, sqlite_eq_ok, uniqueAs_eq_ok] at ok
  obtain ⟨invitations, -, _, -, ⟨db₁, accountId⟩, created, db₂, key, credentials, -, audit⟩ := ok
  obtain ⟨accounts, namespaces, -, rfl, -⟩ := Database.insertAccount_eq_ok created
  obtain ⟨auditEvents, -, rfl⟩ := Database.insertAuditEvent_eq_ok.mp audit
  have start : Readable library
      { db with signupInvitations := invitations, accounts, namespaces } := readable.frame rfl
  exact (start.insertSshKey offered key).frame rfl

/-- A recovery revokes the keys of the account and revives or adds the offered one. -/
theorem Readable.recover (readable : Readable library db) {recovery : AccountRecovery}
    (offered : Offered library recovery.key) (ok : db.recoverAccount recovery = .ok db') :
    Readable library db' := by
  unfold Database.recoverAccount at ok
  simp only [bind_eq_ok, sqlite_eq_ok] at ok
  obtain ⟨account, -, keys, revoked, db₁, revived, credentials, -, db₂, ended, db₃, tokens,
    audit⟩ := ok
  have afterRevocation := readable.revokeKeys revoked
  have afterKey : Readable library db₁ := by
    unfold Database.reviveOrInsertKey at revived
    split at revived
    · exact afterRevocation.insertSshKey offered revived
    · split at revived
      · simp only [bind_eq_ok, sqlite_eq_ok, pure_eq_ok, Except.ok.injEq] at revived
        obtain ⟨keys', updated, rfl⟩ := revived
        refine afterRevocation.updateKeys updated fun row member chosen => ?_
        have print := (of_decide_eq_true chosen).2
        have written := keys'.checked _ ((Table.mem_update updated).mpr ⟨row, member, rfl⟩)
        rw [if_pos chosen] at written
        exact offered.readable written rfl print
      · cases revived
  obtain ⟨sessions, -, rfl⟩ := Database.endSessions_eq_ok.mp ended
  obtain ⟨feedTokens, rfl⟩ := Database.revokeFeedTokens_eq_ok tokens
  obtain ⟨auditEvents, -, rfl⟩ := Database.insertAuditEvent_eq_ok.mp audit
  exact afterKey.frame rfl

theorem consumeAccountKeyAuthorization_keys {authorization : AccountKeyAuthorization}
    {accountId : Nat} {keyId : Option Nat}
    (ok : db.consumeAccountKeyAuthorization authorization = .ok (db', accountId, keyId)) :
    db'.sshPublicKeys = db.sshPublicKeys := by
  unfold Database.consumeAccountKeyAuthorization at ok
  simp only [bind_eq_ok, pure_eq_ok, Except.ok.injEq, Prod.mk.injEq] at ok
  obtain ⟨session, -, approval, -, _, -, approvals, -, _, -, rfl, -⟩ := ok
  rfl

theorem Readable.addKey (readable : Readable library db) {authorization : AccountKeyAuthorization}
    {key : NewSshKey} (offered : Offered library key)
    (ok : db.completeAccountKeyAdd authorization key = .ok db') : Readable library db' := by
  unfold Database.completeAccountKeyAdd at ok
  simp only [bind_eq_ok] at ok
  obtain ⟨⟨db₁, accountId, keyId⟩, consumed, _, -, db₂, inserted, audit⟩ := ok
  have start := readable.frame (consumeAccountKeyAuthorization_keys consumed)
  obtain ⟨auditEvents, -, rfl⟩ := Database.insertAuditEvent_eq_ok.mp audit
  exact (start.insertSshKey offered inserted).frame rfl

theorem Readable.revokeKey (readable : Readable library db)
    {authorization : AccountKeyAuthorization} {fingerprint : String}
    (ok : db.completeAccountKeyRevoke authorization fingerprint = .ok db') :
    Readable library db' := by
  unfold Database.completeAccountKeyRevoke at ok
  simp only [bind_eq_ok, sqlite_eq_ok] at ok
  obtain ⟨⟨db₁, accountId, keyId⟩, consumed, _, -, key, -, keys, updated, _, -, rest⟩ := ok
  have revoked :=
    (readable.frame (consumeAccountKeyAuthorization_keys consumed)).revokeKeys updated
  split at rest
  · simp only [bind_eq_ok] at rest
    obtain ⟨db₂, ended, audit⟩ := rest
    obtain ⟨sessions, -, rfl⟩ := Database.endSessions_eq_ok.mp ended
    obtain ⟨auditEvents, -, rfl⟩ := Database.insertAuditEvent_eq_ok.mp audit
    exact revoked.frame rfl
  · obtain ⟨auditEvents, -, rfl⟩ := Database.insertAuditEvent_eq_ok.mp rest
    exact revoked.frame rfl

/-- Every request leaves the stored keys readable. -/
theorem Change.readable (readsBack : library.ReadsBack) (before : Readable library db)
    (change : Change) (ok : change.transact library db = some db') : Readable library db' := by
  cases change with
  | signup invitationHash username publicKey recoveryHash createdAt correlationId =>
      obtain ⟨parsed, read, ok⟩ := Option.bind_eq_some_iff.mp ok
      exact before.signup (newKey_offered readsBack read _) (ok_of_toOption ok)
  | recover username oldRecoveryHash publicKey newRecoveryHash createdAt correlationId =>
      obtain ⟨parsed, read, ok⟩ := Option.bind_eq_some_iff.mp ok
      exact before.recover (newKey_offered readsBack read _) (ok_of_toOption ok)
  | completeKeyAdd authorization label publicKey =>
      obtain ⟨parsed, read, ok⟩ := Option.bind_eq_some_iff.mp ok
      exact before.addKey (newKey_offered readsBack read _) (ok_of_toOption ok)
  | completeKeyRevoke authorization fingerprint => exact before.revokeKey (ok_of_toOption ok)
  | profile =>
      cases ok
      exact before

/-- A reload can read the keys of a readable database. -/
theorem Readable.read (readable : Readable library db) :
    ∃ keys, activeSshIdentities library db = some keys := by
  refine mapM_of fun identity stored => ?_
  obtain ⟨row, hrow, joined⟩ := mem_storedIdentities.mp stored
  obtain ⟨-, account, -, -, -, rfl⟩ := activeIdentity_eq_some.mp joined
  obtain ⟨parsed, text, print⟩ := readable row hrow
  exact ⟨(account.username, parsed), readIdentity_eq_some.mpr ⟨rfl, text, print⟩⟩

end Readable

/-! ## Runs of the server -/

/-- Once a reload finishes, the server is quiet exactly when the others had finished. -/
theorem quiet_set {server : Server PublicKey} {request : Nat} {reload : Reload PublicKey}
    {authorized : PublicKey → Option SshIdentity}
    (here : server.reloads[request]? = some reload) :
    Quiet { server with authorized, reloads := server.reloads.set request .finished } ↔
      ∀ (i : Nat) reload, i ≠ request → server.reloads[i]? = some reload → reload = .finished := by
  constructor
  · intro quiet i reload other found
    exact quiet i reload (by rw [List.getElem?_set_ne other.symm]; exact found)
  · intro others i reload found
    by_cases same : i = request
    · subst same
      have inside : i < server.reloads.length := (List.getElem?_eq_some_iff.mp here).1
      simp only [List.getElem?_set_self inside, Option.some.injEq] at found
      exact found.symm
    · simp only [List.getElem?_set_ne (Ne.symm same)] at found
      exact others i reload same found

/-- Whatever is on its way can be read, and a quiet server has a current map. -/
structure Steady [DecidableEq PublicKey] (library : KeyLibrary PublicKey)
    (server : Server PublicKey) : Prop where
  readable : Readable library server.db
  snapshots : ∀ (i : Nat) keys, server.reloads[i]? = some (.read keys) → Distinct library keys
  settled : Settled library server

variable [DecidableEq PublicKey]

theorem Loaded.steady {server : Server PublicKey} (loaded : Loaded library server) :
    Steady library server := by
  obtain ⟨keys, read, map⟩ := loaded.loaded
  refine ⟨loaded.readable, ?_, fun _ => ?_⟩
  · intro i keys pending
    rw [loaded.idle] at pending
    cases pending
  · rw [map, mirrors_iff loaded.readable (activeSshIdentities_distinct read) read]
    exact fun entry => Iff.rfl

theorem step_steady (readsBack : library.ReadsBack) (server : Server PublicKey) (action : Action)
    (after : Server PublicKey) (steady : Steady library server)
    (current : LastReadsCurrent library server action)
    (ok : step library server action = some after) : Steady library after := by
  cases action with
  | commit change =>
      simp only [step] at ok
      split at ok
      · rename_i db committed
        cases ok
        refine ⟨change.readable readsBack steady.readable committed, ?_, ?_⟩
        · intro i keys pending
          rw [List.getElem?_append] at pending
          split at pending
          · exact steady.snapshots i keys pending
          · simp [List.getElem?_singleton] at pending
        · -- the new reload is on its way
          intro quiet
          have finished := quiet server.reloads.length .committed (by simp)
          cases finished
      · cases ok
        exact steady
  | read request =>
      simp only [step] at ok
      split at ok
      · rename_i here
        obtain ⟨keys, read⟩ := steady.readable.read
        simp only [read, Option.some.injEq] at ok
        subst ok
        have inside : request < server.reloads.length := (List.getElem?_eq_some_iff.mp here).1
        refine ⟨steady.readable, ?_, ?_⟩
        · intro i keys' pending
          by_cases same : i = request
          · subst same
            simp only [List.getElem?_set_self inside, Option.some.injEq, Reload.read.injEq]
              at pending
            rw [← pending]
            exact activeSshIdentities_distinct read
          · rw [List.getElem?_set_ne (Ne.symm same)] at pending
            exact steady.snapshots i keys' pending
        · intro quiet
          have finished := quiet request (.read keys) (by simp [List.getElem?_set_self inside])
          cases finished
      · cases ok
  | replace request =>
      simp only [step] at ok
      split at ok
      · rename_i keys here
        cases ok
        refine ⟨steady.readable, ?_, ?_⟩
        · intro i keys' pending
          by_cases same : i = request
          · subst same
            have inside : i < server.reloads.length := (List.getElem?_eq_some_iff.mp here).1
            simp [List.getElem?_set_self inside] at pending
          · rw [List.getElem?_set_ne (Ne.symm same)] at pending
            exact steady.snapshots i keys' pending
        · intro quiet
          obtain ⟨now, read, same⟩ := current ((quiet_set here).mp quiet) keys here
          exact (mirrors_iff steady.readable (steady.snapshots _ _ here) read).mpr same
      · cases ok

/-- A stale last replacement shows: the server is quiet and the map is wrong. -/
theorem step_exposes (server : Server PublicKey) (action : Action) (after : Server PublicKey)
    (steady : Steady library server) (ok : step library server action = some after)
    (settled : Settled library after) : LastReadsCurrent library server action := by
  cases action with
  | commit change => trivial
  | read request => trivial
  | replace request =>
      intro others keys here
      simp only [step, here, Option.some.injEq] at ok
      subst ok
      obtain ⟨now, read⟩ := steady.readable.read
      have mirrors := settled ((quiet_set here).mpr others)
      exact ⟨now, read,
        (mirrors_iff steady.readable (steady.snapshots _ _ here) read).mp mirrors⟩

/-- **The map mirrors the database whenever no reload is on its way, exactly in the runs
in which the last reload on its way always replaces the map with the keys that are
still active.** -/
theorem settled_iff (readsBack : library.ReadsBack) {server : Server PublicKey}
    (loaded : Loaded library server) (actions : List Action) :
    Always (step library) (Settled library) server actions ↔
      Meets (step library) (LastReadsCurrent library) server actions :=
  always_iff_meets (step_steady readsBack) (fun _ steady => steady.settled) step_exposes
    loaded.steady

end Server

/-! Pole: Alice adds a key and revokes it again; the reload of the addition has read the
keys before the revocation and replaces the map last. -/

def twoKeys : KeyLibrary Bool where
  fromOpenssh text :=
    if text = "ssh-ed25519 A" then some false
    else if text = "ssh-ed25519 B" then some true
    else none
  toOpenssh key := some (if key then "ssh-ed25519 B" else "ssh-ed25519 A")
  keyData _ := .ed25519
  withoutComment key := key
  fingerprint key := if key then "SHA256:B" else "SHA256:A"

theorem twoKeys_readsBack : twoKeys.ReadsBack where
  reads := by
    intro key text written
    cases key <;> cases written <;> decide
  plain _ := rfl
  data _ := rfl
  ascii := by
    intro key text written
    cases key <;> cases written <;> decide

/-- Alice has the key A, a session and two approvals of a key change. -/
def aliceDatabase : Database :=
  (run Sessions.step .initial
    [.createInitialAdministrator
      { username := "alice", canonicalKey := "ssh-ed25519 A", fingerprint := "SHA256:A",
        recoveryHash := 0, createdAt := 0 },
     .createLoginApproval
      { secretHash := 1, csrfHash := 1, createdAt := 1, expiresAt := 100, purpose := .login,
        expectedUsername := none },
     .approveLogin
      { secretHash := 1, username := "alice", fingerprint := "SHA256:A", approvedAt := 2 },
     .consumeLoginApproval
      { secretHash := 1, loginCsrfHash := 1, sessionHash := 11, csrfHash := 11, createdAt := 3,
        expiresAt := 100, correlationId := "c" },
     .createLoginApproval
      { secretHash := 2, csrfHash := 11, createdAt := 4, expiresAt := 100,
        purpose := .accountKey, expectedUsername := some "alice" },
     .approveLogin
      { secretHash := 2, username := "alice", fingerprint := "SHA256:A", approvedAt := 5 },
     .createLoginApproval
      { secretHash := 3, csrfHash := 11, createdAt := 6, expiresAt := 100,
        purpose := .accountKey, expectedUsername := some "alice" },
     .approveLogin
      { secretHash := 3, username := "alice", fingerprint := "SHA256:A", approvedAt := 7 }]).getD
    .initial

def aliceServer : Server Bool where
  db := aliceDatabase
  authorized := accountKeyMap ((activeSshIdentities twoKeys aliceDatabase).getD [])
  reloads := []

def crossedReloads : List Action :=
  [.commit (.completeKeyAdd
    { sessionHash := 11, csrfHash := 11, secretHash := 2, username := "alice", changedAt := 8,
      correlationId := "c" } "laptop" "ssh-ed25519 B"),
   .read 0,
   .commit (.completeKeyRevoke
    { sessionHash := 11, csrfHash := 11, secretHash := 3, username := "alice", changedAt := 9,
      correlationId := "c" } "SHA256:B"),
   .read 1, .replace 1, .replace 0]

theorem aliceServer_loaded : Loaded twoKeys aliceServer where
  readable := by
    have checked : (aliceDatabase.sshPublicKeys.rows.all fun row =>
        (parse twoKeys row.canonicalKey).any fun key => decide (key.fingerprint = row.fingerprint))
          = true := by decide
    intro row hrow
    have here := List.all_eq_true.mp checked row hrow
    obtain ⟨key, read, print⟩ := (Option.any_eq_true _ _).mp here
    exact ⟨key, read, of_decide_eq_true print⟩
  loaded := by
    have readable : (activeSshIdentities twoKeys aliceDatabase).isSome = true := by decide
    obtain ⟨keys, read⟩ := Option.isSome_iff_exists.mp readable
    exact ⟨keys, read, by simp only [aliceServer, read, Option.getD_some]⟩
  idle := rfl

theorem crossedReloads_settled_iff :
    Always (step twoKeys) (Settled twoKeys) aliceServer crossedReloads ↔
      Meets (step twoKeys) (LastReadsCurrent twoKeys) aliceServer crossedReloads :=
  settled_iff twoKeys_readsBack aliceServer_loaded crossedReloads

/-- All reloads have finished, B is revoked, and the map has B. -/
def revokedKeyMapped (server : Server Bool) : Bool :=
  server.reloads.all (fun reload => match reload with | .finished => true | _ => false) &&
    server.db.sshPublicKeys.any
      (fun row => decide (row.revokedAt ≠ none ∧ row.fingerprint = "SHA256:B")) &&
    (server.authorized true).isSome

theorem revoked_key_authorized :
    Loaded twoKeys aliceServer ∧
      ¬Always (step twoKeys) (Settled twoKeys) aliceServer crossedReloads := by
  refine ⟨aliceServer_loaded, fun always => ?_⟩
  have reached : ((run (step twoKeys) aliceServer crossedReloads).any revokedKeyMapped) = true := by
    decide
  obtain ⟨server, ran, mapped⟩ := (Option.any_eq_true _ _).mp reached
  simp only [revokedKeyMapped, Bool.and_eq_true, List.all_eq_true, Table.any_iff,
    decide_eq_true_eq] at mapped
  obtain ⟨⟨finished, row, hrow, revoked, print⟩, authorized⟩ := mapped
  have quiet : Quiet server := by
    intro i reload found
    have finished := finished reload (List.mem_of_getElem? found)
    cases reload with
    | finished => rfl
    | committed => cases finished
    | read keys => cases finished
  rw [(always.final ran quiet).revoked row hrow revoked true print.symm] at authorized
  cases authorized

end Tit.Ssh
