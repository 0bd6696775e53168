/-
# Store.Rows.Identity -- accounts, keys, credentials and sessions

The rows of `account`, `ssh_public_key`, `recovery_credential`,
`signup_invitation`, `login_nonce`, `ssh_login_approval`, `web_session`,
`feed_token` and `audit_event`, as the migrations leave them, with their `CHECK`
and `UNIQUE` constraints.  Times are `i64` seconds since the epoch and may be any
integer before a `CHECK` has looked at them; a secret is stored as its SHA-256
digest.
-/
import Tit.Theory.Table

namespace Tit.Store

open Tit.Theory

set_option autoImplicit false

/-- The 32 bytes of a digest. -/
abbrev Hash := BitVec 256

/-- 16 random bytes, stored as 32 lowercase hexadecimal digits.  The order of the
texts is the order of the numbers. -/
abbrev Identifier := BitVec 128

/-- The 32 digits. -/
def identifierText (id : Identifier) : String :=
  String.ofList ((List.range 32).map fun i => Nat.digitChar (id.toNat / 16 ^ (31 - i) % 16))

@[simp] theorem identifierText_length (id : Identifier) : (identifierText id).length = 32 := by
  simp [identifierText]

/-- `length(text) BETWEEN low AND high`, in characters. -/
def lengthBetween (low high : Nat) (text : String) : Bool :=
  decide (low ≤ text.length ∧ text.length ≤ high)

theorem lengthBetween_iff {low high : Nat} {text : String} :
    lengthBetween low high text = true ↔ low ≤ text.length ∧ text.length ≤ high := by
  simp [lengthBetween]

/-- `column IS NULL OR column >= start`. -/
def absentOrSince (start : Int) : Option Int → Bool
  | none => true
  | some time => decide (start ≤ time)

@[simp] theorem absentOrSince_none (start : Int) : absentOrSince start none = true := rfl

@[simp] theorem absentOrSince_some (start time : Int) :
    absentOrSince start (some time) = true ↔ start ≤ time := by simp [absentOrSince]

/-- The name pattern of `account.username` and `namespace.slug`. -/
def nameCheck (name : String) : Bool :=
  lengthBetween 1 40 name &&
    name.toList.all (fun c => c.isLower || c.isDigit || c == '-') &&
    name.toList.head? != some '-' && name.toList.getLast? != some '-'

/-! ## Accounts and their keys -/

inductive AccountState where
  | active
  | suspended
  deriving DecidableEq, Repr

structure Account where
  id : Nat
  username : String
  isAdministrator : Bool
  state : AccountState
  createdAt : Int
  deriving DecidableEq, Repr

instance : Schema Account Nat where
  key r := r.id
  check r := nameCheck r.username && decide (0 ≤ r.createdAt)
  clash r s := decide (r.id = s.id ∨ r.username = s.username)
  clash_symm r s := by grind
  clash_of_key r s same := by simp [same]

structure SshPublicKey where
  id : Nat
  accountId : Nat
  canonicalKey : String
  fingerprint : String
  createdAt : Int
  label : String
  revokedAt : Option Int
  deriving DecidableEq, Repr

instance : Schema SshPublicKey Nat where
  key r := r.id
  check r :=
    lengthBetween 1 16384 r.canonicalKey && lengthBetween 1 256 r.fingerprint &&
      decide (0 ≤ r.createdAt) && lengthBetween 1 80 r.label &&
      absentOrSince r.createdAt r.revokedAt
  clash r s :=
    decide (r.id = s.id ∨ r.fingerprint = s.fingerprint ∨
      (r.accountId = s.accountId ∧ r.canonicalKey = s.canonicalKey))
  clash_symm r s := by grind
  clash_of_key r s same := by simp [same]

structure RecoveryCredential where
  accountId : Nat
  credentialHash : Hash
  createdAt : Int
  deriving DecidableEq, Repr

instance : Schema RecoveryCredential Nat where
  key r := r.accountId
  check r := decide (0 ≤ r.createdAt)
  clash r s := decide (r.accountId = s.accountId ∨ r.credentialHash = s.credentialHash)
  clash_symm r s := by grind
  clash_of_key r s same := by simp [same]

structure SignupInvitation where
  id : Nat
  codeHash : Hash
  createdAt : Int
  expiresAt : Int
  consumedAt : Option Int
  deriving DecidableEq, Repr

instance : Schema SignupInvitation Nat where
  key r := r.id
  check r :=
    decide (0 ≤ r.createdAt) && decide (r.createdAt < r.expiresAt) &&
      absentOrSince r.createdAt r.consumedAt
  clash r s := decide (r.id = s.id ∨ r.codeHash = s.codeHash)
  clash_symm r s := by grind
  clash_of_key r s same := by simp [same]

/-! ## Logins and sessions -/

structure LoginNonce where
  id : Nat
  nonceHash : Hash
  csrfHash : Hash
  accountId : Nat
  sshPublicKeyId : Option Nat
  createdAt : Int
  expiresAt : Int
  consumedAt : Option Int
  deriving DecidableEq, Repr

instance : Schema LoginNonce Nat where
  key r := r.id
  check r :=
    decide (0 ≤ r.createdAt) && decide (r.createdAt < r.expiresAt) &&
      absentOrSince r.createdAt r.consumedAt
  clash r s := decide (r.id = s.id ∨ r.nonceHash = s.nonceHash)
  clash_symm r s := by grind
  clash_of_key r s same := by simp [same]

/-- What an SSH approval was asked for. -/
inductive ApprovalPurpose where
  | login
  | accountKey
  deriving DecidableEq, Repr

structure SshLoginApproval where
  id : Nat
  secretHash : Hash
  csrfHash : Hash
  accountId : Option Nat
  sshPublicKeyId : Option Nat
  createdAt : Int
  expiresAt : Int
  approvedAt : Option Int
  consumedAt : Option Int
  purpose : ApprovalPurpose
  expectedAccountId : Option Nat
  deriving DecidableEq, Repr

instance : Schema SshLoginApproval Nat where
  key r := r.id
  check r :=
    decide (0 ≤ r.createdAt) && decide (r.createdAt < r.expiresAt) &&
      absentOrSince r.createdAt r.approvedAt && absentOrSince r.createdAt r.consumedAt &&
      (r.accountId.isSome == r.sshPublicKeyId.isSome &&
        r.accountId.isSome == r.approvedAt.isSome)
  clash r s := decide (r.id = s.id ∨ r.secretHash = s.secretHash)
  clash_symm r s := by grind
  clash_of_key r s same := by simp [same]

structure WebSession where
  id : Nat
  sessionHash : Hash
  csrfHash : Hash
  accountId : Nat
  createdAt : Int
  expiresAt : Int
  endedAt : Option Int
  sshPublicKeyId : Option Nat
  deriving DecidableEq, Repr

instance : Schema WebSession Nat where
  key r := r.id
  check r :=
    decide (0 ≤ r.createdAt) && decide (r.createdAt < r.expiresAt) &&
      absentOrSince r.createdAt r.endedAt
  clash r s := decide (r.id = s.id ∨ r.sessionHash = s.sessionHash)
  clash_symm r s := by grind
  clash_of_key r s same := by simp [same]

/-! ## Feed tokens and the audit history -/

/-- A token of the watched-activity feed, the one scope the migrations keep.  An
account has at most one that is not revoked. -/
structure FeedToken where
  id : Identifier
  tokenHash : Hash
  accountId : Nat
  createdAt : Int
  revokedAt : Option Int
  deriving DecidableEq, Repr

instance : Schema FeedToken Identifier where
  key r := r.id
  check r := decide (0 ≤ r.createdAt) && absentOrSince r.createdAt r.revokedAt
  clash r s :=
    decide (r.id = s.id ∨ r.tokenHash = s.tokenHash ∨
      (r.accountId = s.accountId ∧ r.revokedAt = none ∧ s.revokedAt = none))
  clash_symm r s := by grind
  clash_of_key r s same := by simp [same]

inductive AuditOutcome where
  | success
  | failure
  deriving DecidableEq, Repr

structure AuditEvent where
  id : Nat
  action : String
  actor : String
  target : String
  outcome : AuditOutcome
  correlationId : String
  createdAt : Int
  deriving DecidableEq, Repr

instance : Schema AuditEvent Nat where
  key r := r.id
  check r :=
    lengthBetween 1 80 r.action && lengthBetween 1 256 r.actor &&
      lengthBetween 1 512 r.target && lengthBetween 1 128 r.correlationId &&
      decide (0 ≤ r.createdAt)
  clash r s := decide (r.id = s.id)
  clash_symm r s := by grind
  clash_of_key r s same := by simp [same]

/-- The texts fit their columns. -/
theorem AuditEvent.check_iff {r : AuditEvent} :
    Schema.check r = true ↔
      (1 ≤ r.action.length ∧ r.action.length ≤ 80) ∧ (1 ≤ r.actor.length ∧ r.actor.length ≤ 256) ∧
        (1 ≤ r.target.length ∧ r.target.length ≤ 512) ∧
        (1 ≤ r.correlationId.length ∧ r.correlationId.length ≤ 128) ∧ 0 ≤ r.createdAt := by
  simp only [Schema.check, Bool.and_eq_true, lengthBetween_iff, decide_eq_true_eq, and_assoc]

theorem AuditEvent.clash_iff {r s : AuditEvent} : Schema.clash r s = true ↔ r.id = s.id :=
  decide_eq_true_iff

end Tit.Store
