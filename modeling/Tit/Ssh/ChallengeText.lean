/-
# Ssh.ChallengeText -- one reading of every login challenge

A key signs the text of a challenge, the server decides by the fields that it reads from it.  The
text is the canonical form of its fields: `parse` accepts exactly the texts that
`format_keyless_login_challenge` writes for valid fields, and reads back what was written
(`parse_eq_ok`).  So there are no two readings of a text that was signed.
-/
import Tit.Backup.RoundTrip
import Tit.Ssh.LoginChallenge

namespace Tit.Ssh

open Tit.Theory Tit.Store Tit.Backup

set_option autoImplicit false

/-- What the fields of a challenge are. -/
structure KeylessChallengeFields.Valid (fields : KeylessChallengeFields) : Prop where
  origin : fields.origin.toList ≠ []
  oneLine : '\r' ∉ fields.origin.toList ∧ '\n' ∉ fields.origin.toList
  username : validateUsername fields.username = true
  nonce : fields.nonce.length = nonceBytes
  issuedAt : fields.issuedAt < 2 ^ 64
  expiresAt : fields.expiresAt < 2 ^ 64

def KeylessChallengeFields.format (fields : KeylessChallengeFields) : String :=
  formatKeylessLoginChallenge fields.origin fields.username fields.nonce fields.issuedAt
    fields.expiresAt

/-! ## Times -/

section Times

variable {digits : List Char} {time : Nat}

theorem digitChar_of_isDigit {c : Char} (digit : c.isDigit = true) :
    c.toNat - '0'.toNat < 10 ∧ Nat.digitChar (c.toNat - '0'.toNat) = c := by
  have zero : '0'.toNat = 48 := rfl
  have nine : '9'.toNat = 57 := rfl
  obtain ⟨low, high⟩ := Char.isDigit_iff_toNat.mp digit
  refine ⟨by omega, Char.toNat_inj.mp ?_⟩
  rw [Nat.toNat_digitChar_of_lt_ten (by omega)]
  omega

/-- Digits without a leading zero are those of their number. -/
theorem toDigits_ofDigitChars (nonempty : digits ≠ []) (all : ∀ c ∈ digits, c.isDigit = true)
    (first : 1 < digits.length → digits.head? ≠ some '0') :
    Nat.toDigits 10 (Nat.ofDigitChars 10 digits 0) = digits := by
  induction digits using List.reverseRecOn with
  | nil => exact absurd rfl nonempty
  | append_singleton digits c ih =>
      obtain ⟨small, same⟩ := digitChar_of_isDigit (all c (List.mem_append_right _
        (List.mem_singleton.mpr rfl)))
      rw [Nat.ofDigitChars_append, Nat.ofDigitChars_cons, Nat.ofDigitChars_nil]
      cases digits with
      | nil =>
          rw [Nat.ofDigitChars_nil, Nat.mul_zero, Nat.zero_add, Nat.toDigits_of_lt_base small, same]
          rfl
      | cons d digits =>
          have head : (d :: digits).head? ≠ some '0' :=
            first (by rw [List.length_append, List.length_cons, List.length_singleton]; omega)
          have before := ih (List.cons_ne_nil _ _) (fun e member =>
            all e (List.mem_append_left _ member)) fun _ => head
          have positive : Nat.ofDigitChars 10 (d :: digits) 0 ≠ 0 := by
            intro zero
            rw [zero] at before
            rw [← before] at head
            exact head rfl
          rw [Nat.toDigits_of_base_le (by omega) (by omega)]
          generalize Nat.ofDigitChars 10 (d :: digits) 0 = value at before positive ⊢
          have quotient : (10 * value + (c.toNat - '0'.toNat)) / 10 = value := by omega
          have rest : (10 * value + (c.toNat - '0'.toNat)) % 10 = c.toNat - '0'.toNat := by omega
          rw [quotient, rest, before, same]

theorem isDigit_of_toDigits (n : Nat) : ∀ c ∈ Nat.toDigits 10 n, c.isDigit = true := by
  induction n using Nat.strongRecOn with
  | _ n ih =>
      intro c inside
      rw [Nat.toDigits_eq_if (by omega)] at inside
      split at inside
      · rename_i small
        rw [List.mem_singleton.mp inside, Nat.isDigit_digitChar]
        exact decide_eq_true small
      · rcases List.mem_append.mp inside with here | last
        · exact ih (n / 10) (Nat.div_lt_self (by omega) (by omega)) c here
        · rw [List.mem_singleton.mp last, Nat.isDigit_digitChar]
          exact decide_eq_true (Nat.mod_lt _ (by omega))

theorem head_toDigits (n : Nat) (long : 1 < (Nat.toDigits 10 n).length) :
    (Nat.toDigits 10 n).head? ≠ some '0' := by
  induction n using Nat.strongRecOn with
  | _ n ih =>
      rw [Nat.toDigits_eq_if (by omega)] at long ⊢
      split at long
      · exact absurd long (Nat.lt_irrefl 1)
      · rename_i large
        rw [if_neg large, List.head?_append_of_ne_nil _ Nat.toDigits_ne_nil]
        by_cases more : 1 < (Nat.toDigits 10 (n / 10)).length
        · exact ih (n / 10) (Nat.div_lt_self (by omega) (by omega)) more
        · have one : n / 10 < 10 := by
            have := (Nat.length_toDigits_le_iff (b := 10) (n := n / 10) (k := 1) (by omega)
              (by omega)).mp (by omega)
            omega
          rw [Nat.toDigits_of_lt_base one, List.head?_cons, ne_eq, Option.some.injEq,
            Nat.digitChar_eq_zero]
          omega

/-- **A time is read from its decimal digits alone.** -/
theorem parseTime_eq_ok : parseTime digits = .ok time ↔
    time < 2 ^ 64 ∧ digits = (toString time).toList := by
  rw [Nat.toString_eq_repr, Nat.toList_repr]
  unfold parseTime
  simp only [bind_eq_ok, ensure_eq_ok, pure_eq_ok, Except.ok.injEq]
  constructor
  · rintro ⟨-, ⟨nonempty, all, first⟩, -, small, rfl⟩
    refine ⟨small, (toDigits_ofDigitChars nonempty (List.all_eq_true.mp all) fun long zero =>
      first ⟨long, zero⟩).symm⟩
  · rintro ⟨small, rfl⟩
    have value : Nat.ofDigitChars 10 (Nat.toDigits 10 time) 0 = time := Nat.ofDigitChars_ten_toDigits
    refine ⟨(), ⟨Nat.toDigits_ne_nil, List.all_eq_true.mpr (isDigit_of_toDigits time), fun leading =>
      head_toDigits time leading.1 leading.2⟩, (), ?_, value⟩
    exact lt_of_eq_of_lt value small

end Times

/-! ## Nonces -/

section Nonces

variable {text nonce : Bytes}

theorem hexDigit_of_decodeNibble {b value : UInt8} (read : decodeNibble b = some value) :
    value < 16 ∧ hexDigit value = b := by
  have all : ∀ n < 256, (decodeNibble (UInt8.ofNat n)).all fun value =>
      decide (value < 16 ∧ hexDigit value = UInt8.ofNat n) := by decide +kernel
  have here := all b.toNat b.toNat_lt
  rw [UInt8.ofNat_toNat, read] at here
  exact of_decide_eq_true here

theorem halves {high low : UInt8} (high16 : high < 16) (low16 : low < 16) :
    (high <<< 4 ||| low) >>> 4 = high ∧ (high <<< 4 ||| low) &&& 15 = low := by
  have all : ∀ h < 16, ∀ l < 16,
      (UInt8.ofNat h <<< 4 ||| UInt8.ofNat l) >>> 4 = UInt8.ofNat h ∧
        (UInt8.ofNat h <<< 4 ||| UInt8.ofNat l) &&& 15 = UInt8.ofNat l := by decide
  have here := all high.toNat (UInt8.lt_iff_toNat_lt.mp high16) low.toNat
    (UInt8.lt_iff_toNat_lt.mp low16)
  rwa [UInt8.ofNat_toNat, UInt8.ofNat_toNat] at here

/-- The text of a nonce is the one that is written for it. -/
theorem encodeLowerHex_of_decode (read : decodeLowerHex text = some nonce) :
    encodeLowerHex nonce = text := by
  fun_induction decodeLowerHex text generalizing nonce with
  | case1 =>
      cases read
      rfl
  | case2 => cases read
  | case3 high low rest ih =>
      simp only [Option.bind_eq_bind, Option.bind_eq_some_iff, Option.pure_def, Option.some.injEq]
        at read
      obtain ⟨h, readHigh, l, readLow, later, readRest, rfl⟩ := read
      obtain ⟨high16, sameHigh⟩ := hexDigit_of_decodeNibble readHigh
      obtain ⟨low16, sameLow⟩ := hexDigit_of_decodeNibble readLow
      obtain ⟨front, back⟩ := halves high16 low16
      have rest := ih readRest
      unfold encodeLowerHex at rest ⊢
      rw [List.flatMap_cons, rest, front, back, sameHigh, sameLow]
      rfl

/-- The characters of the digits. -/
def hexChars (nonce : Bytes) : List Char := (encodeLowerHex nonce).map fun b => Char.ofNat b.toNat

theorem toNat_ascii {b : UInt8} (ascii : b < 128) : UInt8.ofNat (Char.ofNat b.toNat).toNat = b := by
  have small : b.toNat < 128 := UInt8.lt_iff_toNat_lt.mp ascii
  have valid : b.toNat.isValidChar := .inl (by omega)
  have value : (Char.ofNat b.toNat).toNat = b.toNat := by
    rw [Char.ofNat, dif_pos valid]
    rfl
  rw [value, UInt8.ofNat_toNat]

theorem utf8_ascii {bytes : Bytes} (ascii : ∀ b ∈ bytes, b < 128) :
    (String.ofList (bytes.map fun b => Char.ofNat b.toNat)).toUTF8.data.toList = bytes := by
  rw [String.toUTF8_eq_toByteArray, String.toByteArray_ofList, List.utf8Encode,
    List.toList_data_toByteArray, List.flatMap_map]
  induction bytes with
  | nil => rfl
  | cons b bytes ih =>
      have small : b.toNat < 128 := UInt8.lt_iff_toNat_lt.mp (ascii b List.mem_cons_self)
      have value : (Char.ofNat b.toNat).val.toNat = b.toNat := by
        have valid : b.toNat.isValidChar := .inl (by omega)
        rw [Char.ofNat, dif_pos valid]
        rfl
      have single : String.utf8EncodeChar (Char.ofNat b.toNat) = [b] := by
        rw [String.utf8EncodeChar, value, if_pos (by omega), UInt8.ofNat_toNat]
      rw [List.flatMap_cons, single, ih fun c member => ascii c (List.mem_cons_of_mem _ member)]
      rfl

theorem encodeLowerHex_ascii (nonce : Bytes) : ∀ b ∈ encodeLowerHex nonce, b < 128 ∧ b ≠ 10 := by
  have all : ∀ n < 256,
      (hexDigit (UInt8.ofNat n >>> 4) < 128 ∧ hexDigit (UInt8.ofNat n >>> 4) ≠ 10) ∧
        hexDigit (UInt8.ofNat n &&& 15) < 128 ∧ hexDigit (UInt8.ofNat n &&& 15) ≠ 10 := by
    decide +kernel
  intro b inside
  obtain ⟨c, -, here⟩ := List.mem_flatMap.mp inside
  have digits := all c.toNat c.toNat_lt
  rw [UInt8.ofNat_toNat] at digits
  rw [List.mem_cons, List.mem_singleton] at here
  rcases here with rfl | rfl
  · exact digits.1
  · exact digits.2

theorem decodeHex_eq_ok {value : List Char} : decodeHex value = .ok nonce ↔
    nonce.length = nonceBytes ∧ value = hexChars nonce := by
  have ascii := utf8_ascii fun b inside => (encodeLowerHex_ascii nonce b inside).1
  unfold decodeHex
  simp only [bind_eq_ok, required_eq_ok, ensure_eq_ok, pure_eq_ok, Except.ok.injEq]
  constructor
  · rintro ⟨_, read, -, length, rfl⟩
    refine ⟨length, ?_⟩
    have same := ascii.trans (encodeLowerHex_of_decode read)
    have bytes := ByteArray.ext (Array.toList_inj.mp same)
    exact (String.ofList_injective (String.toByteArray_inj.mp bytes)).symm
  · rintro ⟨length, rfl⟩
    refine ⟨nonce, ?_, (), length, rfl⟩
    rw [hexChars, ascii, decodeLowerHex_encodeLowerHex]

end Nonces

/-! ## The text -/

section Text

variable {fields other : KeylessChallengeFields} {text : String}

def KeylessChallengeFields.lines (fields : KeylessChallengeFields) : List (List Char) :=
  [keylessChallengeHeader.toList, "purpose=web-login".toList,
    "origin=".toList ++ fields.origin.toList, "username=".toList ++ fields.username.toList,
    "nonce=".toList ++ hexChars fields.nonce, "issued-at=".toList ++ (toString fields.issuedAt).toList,
    "expires-at=".toList ++ (toString fields.expiresAt).toList]

theorem toList_format (fields : KeylessChallengeFields) :
    fields.format.toList = ['\n'].intercalate fields.lines ++ ['\n'] := by
  simp [KeylessChallengeFields.format, formatKeylessLoginChallenge, KeylessChallengeFields.lines,
    hexChars, List.intercalate]

theorem field_eq_ok {line : Option (List Char)} {name : String} {value : List Char} :
    field line name = .ok value ↔ line = some (name.toList ++ value) := by
  unfold field
  rw [required_eq_ok, Option.bind_eq_some_iff]
  simp only [List.isPrefixOf?_eq_some_iff_append_eq]
  constructor
  · rintro ⟨_, rfl, rfl⟩
    rfl
  · rintro rfl
    exact ⟨_, rfl, rfl⟩

theorem newline_notMem_lines (valid : fields.Valid) : ∀ line ∈ fields.lines, '\n' ∉ line := by
  have named : '\n' ∉ fields.username.toList := by
    have characters := valid.username
    simp only [validateUsername, Bool.and_eq_true, List.all_eq_true] at characters
    exact fun inside => nomatch characters.1.2 _ inside
  have hex : '\n' ∉ hexChars fields.nonce := by
    intro inside
    obtain ⟨b, digit, same⟩ := List.mem_map.mp inside
    obtain ⟨ascii, other⟩ := encodeLowerHex_ascii fields.nonce b digit
    rw [← toNat_ascii ascii, same] at other
    exact other rfl
  have times (time : Nat) : '\n' ∉ (toString time).toList := by
    rw [Nat.toString_eq_repr, Nat.toList_repr]
    exact fun inside => nomatch isDigit_of_toDigits time _ inside
  intro line member
  simp only [KeylessChallengeFields.lines, List.mem_cons, List.not_mem_nil, or_false] at member
  rcases member with rfl | rfl | rfl | rfl | rfl | rfl | rfl
  · decide
  · decide
  all_goals
    rw [List.mem_append, not_or]
    refine ⟨by decide, ?_⟩
  · exact valid.oneLine.2
  · exact named
  · exact hex
  · exact times _
  · exact times _

/-- **A text is accepted exactly when it is the canonical form of the fields read from it.** -/
theorem parse_eq_ok : KeylessChallengeFields.parse text = .ok fields ↔
    fields.Valid ∧ fields.format = text := by
  unfold KeylessChallengeFields.parse
  simp only [bind_eq_ok, ensure_eq_ok, pure_eq_ok, Except.ok.injEq, field_eq_ok, decodeHex_eq_ok,
    parseTime_eq_ok]
  constructor
  · rintro ⟨-, ends, -, ⟨header, purpose⟩, origin, hasOrigin, username, hasUsername, -, named, nonce,
      ⟨_, hasNonce, length, rfl⟩, issuedAt, ⟨_, hasIssued, issued, rfl⟩, expiresAt,
      ⟨_, hasExpires, expires, rfl⟩, -, ⟨last, nonempty, noReturn, noLine⟩, rfl⟩
    have seven : text.toList.dropLast.splitOn '\n' =
        (KeylessChallengeFields.lines ⟨String.ofList origin, String.ofList username, nonce, issuedAt,
          expiresAt⟩) := by
      refine List.ext_getElem? fun i => ?_
      rcases i with _ | _ | _ | _ | _ | _ | _ | i
      · exact header
      · exact purpose
      · rw [hasOrigin]
        exact congrArg (fun value => some ("origin=".toList ++ value)) String.toList_ofList.symm
      · rw [hasUsername]
        exact congrArg (fun value => some ("username=".toList ++ value)) String.toList_ofList.symm
      · exact hasNonce
      · exact hasIssued
      · exact hasExpires
      · have length := List.getElem?_eq_none_iff.mp last
        rw [List.getElem?_eq_none (by omega), List.getElem?_eq_none]
        exact Nat.le_add_left 7 i
    refine ⟨⟨?_, ?_, named, length, issued, expires⟩, ?_⟩
    · rwa [String.toList_ofList]
    · rw [String.toList_ofList]
      exact ⟨noReturn, noLine⟩
    · refine String.toList_inj.mp ?_
      rw [toList_format, ← seven, List.intercalate_splitOn]
      exact List.dropLast_append_getLast? _ ends
  · rintro ⟨valid, rfl⟩
    have split : fields.format.toList.dropLast.splitOn '\n' = fields.lines := by
      rw [toList_format, List.dropLast_concat,
        List.splitOn_intercalate _ (newline_notMem_lines valid) (List.cons_ne_nil _ _)]
    rw [split, toList_format]
    refine ⟨(), List.getLast?_concat, (), ⟨rfl, rfl⟩, fields.origin.toList, rfl, fields.username.toList,
      rfl, (), ?_, fields.nonce, ⟨_, rfl, valid.nonce, rfl⟩, fields.issuedAt,
      ⟨_, rfl, valid.issuedAt, rfl⟩, fields.expiresAt, ⟨_, rfl, valid.expiresAt, rfl⟩, (),
      ⟨rfl, valid.origin, valid.oneLine⟩, ?_⟩
    · rw [String.ofList_toList]
      exact valid.username
    · rw [String.ofList_toList, String.ofList_toList]

/-- There is one reading of a text. -/
theorem KeylessChallengeFields.Valid.unique (valid : fields.Valid) (again : other.Valid)
    (same : other.format = fields.format) : other = fields :=
  Except.ok.inj ((parse_eq_ok.mpr ⟨again, rfl⟩).symm.trans (same ▸ parse_eq_ok.mpr ⟨valid, rfl⟩))

end Text

/-- **A login challenge is canonical, and a signature that lets in commits to one reading of it.** -/
theorem challenge_canonical {PublicKey Signature : Type}
    (library : SignatureLibrary PublicKey Signature) (digest : Bytes → Hash) :
    (∀ text fields, KeylessChallengeFields.parse text = .ok fields →
      formatKeylessLoginChallenge fields.origin fields.username fields.nonce fields.issuedAt
        fields.expiresAt = text) ∧
    (∀ fields : KeylessChallengeFields, fields.Valid →
      KeylessChallengeFields.parse (formatKeylessLoginChallenge fields.origin fields.username
        fields.nonce fields.issuedAt fields.expiresAt) = .ok fields) ∧
    ∀ origin challenge signature username now login,
      verifyKeylessLoginChallenge library digest origin challenge signature username now =
        .ok login →
      ∃ fields : KeylessChallengeFields, fields.Valid ∧ fields.format = challenge ∧
        fields.origin = origin ∧ fields.username = username ∧
        fields.issuedAt < fields.expiresAt ∧ fields.expiresAt - fields.issuedAt ≤ 5 * 60 ∧
        fields.issuedAt ≤ now ∧ now ≤ fields.expiresAt ∧
        login.username = username ∧ login.nonceHash = digest fields.nonce ∧
        Signs library login.fingerprint challenge signature ∧
        ∀ other : KeylessChallengeFields, other.Valid → other.format = challenge →
          other = fields := by
  refine ⟨fun text fields read => (parse_eq_ok.mp read).2,
    fun fields valid => parse_eq_ok.mpr ⟨valid, rfl⟩, ?_⟩
  intro origin challenge signature username now login ok
  simp only [verifyKeylessLoginChallenge, bind_eq_ok, ensure_eq_ok, required_eq_ok] at ok
  obtain ⟨-, -, -, -, -, -, fields, read, -, here, -, named, -, lifetime, -, within, sshsig, envelope,
    key, made, -, -, -, verified, done⟩ := ok
  cases done
  obtain ⟨valid, same⟩ := parse_eq_ok.mp read
  exact ⟨fields, valid, same, here, named, lifetime.1, lifetime.2, within.1, within.2, named, rfl,
    ⟨sshsig, key, envelope, made, rfl, verified⟩,
    fun other again written => valid.unique again (written.trans same.symm)⟩

/-- A library that knows one key and takes every signature for one of it. -/
def oneKey : SignatureLibrary Unit Unit where
  fromOpenssh _ := some ()
  toOpenssh _ := some "ssh-ed25519 AAAA"
  keyData _ := .ed25519
  withoutComment := id
  fingerprint _ := "SHA256:AAAA"
  fromPem _ := some ()
  publicKey := id
  algorithm _ := .ed25519
  verify _ _ _ _ := true

def someFields : KeylessChallengeFields where
  origin := "https://tit"
  username := "ada"
  nonce := List.replicate 32 171
  issuedAt := 1000
  expiresAt := 1300

theorem challenge_read :
    KeylessChallengeFields.parse someFields.format = .ok someFields ∧
      ∃ fields : KeylessChallengeFields, fields.Valid ∧ fields.format = someFields.format ∧
        fields.username = "ada" := by
  have canonical := challenge_canonical oneKey fun nonce => .ofNat 256 nonce.length
  have valid : someFields.Valid := by constructor <;> decide
  have read := canonical.2.1 someFields valid
  have ok : ∃ login, verifyKeylessLoginChallenge oneKey (fun nonce => .ofNat 256 nonce.length) "https://tit"
      someFields.format "-----BEGIN SSH SIGNATURE-----" "ada" 1100 = .ok login := by
    simp only [verifyKeylessLoginChallenge, bind_eq_ok, ensure_eq_ok, required_eq_ok]
    exact ⟨_, (), by decide +kernel, (), by decide, (), rfl, someFields, read, (), rfl, (), rfl, (),
      by decide, (), by decide, (), rfl, _, rfl, (), rfl, (), rfl, rfl⟩
  obtain ⟨login, ok⟩ := ok
  obtain ⟨fields, valid, same, -, named, -⟩ := canonical.2.2 _ _ _ _ _ _ ok
  exact ⟨read, fields, valid, same, named⟩

end Tit.Ssh
