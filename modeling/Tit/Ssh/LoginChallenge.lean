/-
# Ssh.LoginChallenge -- the text that a key signs to log in

A login challenge names the origin of the server, the account, a nonce and two times, one on each
line.  `verifyKeylessLoginChallenge` reads it back, checks every field and asks the library of SSH
keys for the signature over the whole text; what is left is the name, the fingerprint of the key
that signed and the digest of the nonce.
-/
import Tit.Ssh.AuthorizedKeys
import Tit.Store.Directory
import Tit.Backup.Archive

namespace Tit.Ssh

open Tit.Theory Tit.Store Tit.Backup

set_option autoImplicit false

inductive AuthError where
  | inputTooLarge (input : String)
  /-- The key is not read, not of a supported algorithm, or too small. -/
  | publicKey
  | invalidUsername
  | invalidLifetime
  | malformedChallenge
  | wrongOrigin
  | wrongUsername
  | expiredChallenge
  | signatureEnvelope
  | unsupportedSignatureAlgorithm
  | signatureVerification
  | invalidToken
  | clock
  deriving DecidableEq, Repr

/-! ## The text -/

def keylessChallengeHeader : String := "tit-auth-v2"

def signatureNamespace : String := "tit-auth"

def maxChallengeBytes : Nat := 4 * 1024

def maxSignatureBytes : Nat := 16 * 1024

def maxChallengeLifetimeSeconds : Nat := 5 * 60

def nonceBytes : Nat := 32

structure KeylessChallengeFields where
  origin : String
  username : String
  nonce : List UInt8
  issuedAt : Nat
  expiresAt : Nat
  deriving DecidableEq, Repr

def formatKeylessLoginChallenge (origin username : String) (nonce : List UInt8)
    (issuedAt expiresAt : Nat) : String :=
  keylessChallengeHeader ++ "\npurpose=web-login\norigin=" ++ origin ++ "\nusername=" ++ username ++
    "\nnonce=" ++ String.ofList ((encodeLowerHex nonce).map fun b => Char.ofNat b.toNat) ++
    "\nissued-at=" ++ toString issuedAt ++ "\nexpires-at=" ++ toString expiresAt ++ "\n"

/-- What is behind the name of a field. -/
def field (line : Option (List Char)) (name : String) : Except AuthError (List Char) :=
  required (line.bind (name.toList.isPrefixOf? ·)) .malformedChallenge

def parseTime (value : List Char) : Except AuthError Nat := do
  ensure (value ≠ [] ∧ value.all Char.isDigit = true ∧ ¬(1 < value.length ∧ value.head? = some '0'))
    .malformedChallenge
  let time := value.foldl (fun time c => 10 * time + (c.toNat - '0'.toNat)) 0
  ensure (time < 2 ^ 64) .malformedChallenge
  pure time

def decodeHex (value : List Char) : Except AuthError (List UInt8) := do
  let decoded ← required (decodeLowerHex (String.ofList value).toUTF8.data.toList)
    .malformedChallenge
  ensure (decoded.length = nonceBytes) .malformedChallenge
  pure decoded

def KeylessChallengeFields.parse (challenge : String) :
    Except AuthError KeylessChallengeFields := do
  ensure (challenge.toList.getLast? = some '\n') .malformedChallenge
  let lines := challenge.toList.dropLast.splitOn '\n'
  ensure (lines[0]? = some keylessChallengeHeader.toList ∧
    lines[1]? = some "purpose=web-login".toList) .malformedChallenge
  let origin ← field lines[2]? "origin="
  let username ← field lines[3]? "username="
  ensure (validateUsername (String.ofList username) = true) .invalidUsername
  let nonce ← field lines[4]? "nonce=" >>= decodeHex
  let issuedAt ← field lines[5]? "issued-at=" >>= parseTime
  let expiresAt ← field lines[6]? "expires-at=" >>= parseTime
  ensure (lines[7]? = none ∧ origin ≠ [] ∧ '\r' ∉ origin ∧ '\n' ∉ origin) .malformedChallenge
  pure { origin := String.ofList origin, username := String.ofList username, nonce, issuedAt,
         expiresAt }

/-! ## The signature -/

/-- The algorithms that `validate_signature_algorithm` tells apart. -/
inductive SignatureAlgorithm where
  | ed25519
  | ecdsa (nistP256 : Bool)
  | other
  deriving DecidableEq, Repr

/-- What the `ssh_key` library does with a signature. -/
structure SignatureLibrary (PublicKey Signature : Type) extends KeyLibrary PublicKey where
  fromPem : String → Option Signature
  /-- The key in the envelope, under an empty comment. -/
  publicKey : Signature → PublicKey
  algorithm : Signature → SignatureAlgorithm
  verify : PublicKey → String → List UInt8 → Signature → Bool

/-- `PersistentVerifiedLogin`. -/
structure VerifiedLogin where
  username : String
  fingerprint : String
  nonceHash : Hash

section Library

variable {PublicKey Signature : Type} (library : SignatureLibrary PublicKey Signature)

def validateSignatureAlgorithm (key : PublicKey) (signature : Signature) : Bool :=
  match library.keyData key, library.algorithm signature with
  | .ed25519, .ed25519 => true
  | .ecdsa key, .ecdsa curve => key && curve
  | _, _ => false

def verifyKeylessLoginChallenge (digest : List UInt8 → Hash)
    (origin challenge signature expectedUsername : String) (now : Nat) :
    Except AuthError VerifiedLogin := do
  ensure (challenge.utf8ByteSize ≤ maxChallengeBytes) (.inputTooLarge "login challenge")
  ensure (signature.utf8ByteSize ≤ maxSignatureBytes) (.inputTooLarge "SSHSIG envelope")
  ensure (validateUsername expectedUsername = true) .invalidUsername
  let fields ← KeylessChallengeFields.parse challenge
  ensure (fields.origin = origin) .wrongOrigin
  ensure (fields.username = expectedUsername) .wrongUsername
  ensure (fields.issuedAt < fields.expiresAt ∧
    fields.expiresAt - fields.issuedAt ≤ maxChallengeLifetimeSeconds) .invalidLifetime
  ensure (fields.issuedAt ≤ now ∧ now ≤ fields.expiresAt) .expiredChallenge
  let sshsig ← required (library.fromPem signature) .signatureEnvelope
  let key ← required (fromPublicKey library.toKeyLibrary (library.publicKey sshsig)) .publicKey
  ensure (validateSignatureAlgorithm library key.key sshsig = true) .unsupportedSignatureAlgorithm
  ensure (library.verify key.key signatureNamespace challenge.toUTF8.data.toList sshsig = true)
    .signatureVerification
  pure { username := fields.username, fingerprint := key.fingerprint,
         nonceHash := digest fields.nonce }

/-- The key with this fingerprint has signed the text. -/
def Signs (fingerprint challenge signature : String) : Prop :=
  ∃ sshsig key, library.fromPem signature = some sshsig ∧
    fromPublicKey library.toKeyLibrary (library.publicKey sshsig) = some key ∧
    key.fingerprint = fingerprint ∧
    library.verify key.key signatureNamespace challenge.toUTF8.data.toList sshsig = true

variable {library}

/-- What a login that was let in has signed. -/
theorem verifyKeylessLoginChallenge_eq_ok {digest : List UInt8 → Hash}
    {origin challenge signature expectedUsername : String} {now : Nat} {login : VerifiedLogin}
    (ok : verifyKeylessLoginChallenge library digest origin challenge signature expectedUsername now
      = .ok login) :
    ∃ fields, KeylessChallengeFields.parse challenge = .ok fields ∧ fields.origin = origin ∧
      fields.username = expectedUsername ∧ now ≤ fields.expiresAt ∧
      login.username = expectedUsername ∧ login.nonceHash = digest fields.nonce ∧
      Signs library login.fingerprint challenge signature := by
  simp only [verifyKeylessLoginChallenge, bind_eq_ok, ensure_eq_ok, required_eq_ok] at ok
  obtain ⟨-, -, -, -, -, -, fields, read, -, here, -, named, -, -, -, now, sshsig, envelope, key,
    made, -, -, -, verified, done⟩ := ok
  cases done
  exact ⟨fields, read, here, named, now.2, named, rfl, sshsig, key, envelope, made, rfl, verified⟩

end Library

/-! ## The request -/

/-- `validate_token`. -/
def validateToken (token : String) : Bool :=
  decide (token.toList.length = 64) &&
    token.toList.all fun c => c.isDigit || ('a' ≤ c && c ≤ 'f') || ('A' ≤ c && c ≤ 'F')

def sessionLifetimeSeconds : Int := 7 * 24 * 60 * 60

/-- A signed login as the server gets it, with the digests of the tokens that it draws. -/
structure SignedLogin where
  username : String
  challenge : String
  signature : String
  loginCsrf : String
  sessionHash : Hash
  csrfHash : Hash
  createdAt : Int
  correlationId : String

/-- `WebLoginService::verify`, up to its transaction. -/
def SignedLogin.verify {PublicKey Signature : Type} (library : SignatureLibrary PublicKey Signature)
    (digest : List UInt8 → Hash) (origin : String) (request : SignedLogin) :
    Except AuthError NewWebSession := do
  ensure (validateToken request.loginCsrf = true) .invalidToken
  ensure (0 ≤ request.createdAt) .clock
  let verified ← verifyKeylessLoginChallenge library digest origin request.challenge
    request.signature request.username request.createdAt.toNat
  pure
    { nonceHash := verified.nonceHash
      loginCsrfHash := digest request.loginCsrf.toUTF8.data.toList
      username := verified.username, fingerprint := verified.fingerprint
      sessionHash := request.sessionHash, csrfHash := request.csrfHash
      createdAt := request.createdAt
      expiresAt := request.createdAt + sessionLifetimeSeconds
      correlationId := request.correlationId }

end Tit.Ssh
