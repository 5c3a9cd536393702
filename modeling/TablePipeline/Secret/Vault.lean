import TablePipeline.Secret.Base64
import TablePipeline.Secret.Gcm
import TablePipeline.Secret.Sha256
import TablePipeline.Text.Class
import TablePipeline.Text.Utf8

/-!
# Sealed passwords

A vault seals texts under one key, or has no key. A sealed text is `v1:` and base64 of a nonce, the
sealed bytes and their tag. A key is 32 bytes in base64, or else a phrase that is stretched.
-/

set_option autoImplicit false

namespace TablePipeline

/-- A text that is never shown. -/
structure Secret where
  expose : String
  deriving DecidableEq

namespace Secret

def isEmpty (s : Secret) : Bool := s.expose.isEmpty

/-- What stands in a text in place of the secret. -/
def shown (_ : Secret) : String := "[redacted]"

/-- What stands in a log in place of the secret. -/
def inspected (_ : Secret) : String := "Secret([redacted])"

end Secret

inductive OpenFault
  | noVersion
  | encoding (fault : Base64.Fault)
  | tooShort (bytes : Nat)
  | notAuthentic
  | notText
  | stated (text : String)
  deriving DecidableEq, Repr

inductive SecretError
  | keyMissing
  | decryption (fault : OpenFault)
  | encryption (text : String)
  deriving DecidableEq, Repr

namespace Vault

def version : String := "v1:"

def nonceLength : Nat := 12

end Vault

def OpenFault.message : OpenFault → String
  | noVersion => "missing '" ++ Vault.version ++ "' version prefix"
  | encoding fault => "invalid base64 payload (" ++ fault.message ++ ")"
  | tooShort n => "blob is too short (" ++ Digits.text n ++ " bytes)"
  | notAuthentic => "authentication failed (wrong key or tampered blob)"
  | notText => "plaintext is not valid UTF-8"
  | stated text => text

def SecretError.message : SecretError → String
  | keyMissing => "encryption key is not configured (set VANTAGE_ENCRYPTION_KEY)"
  | decryption fault => "stored secret could not be decrypted: " ++ fault.message
  | encryption text => "secret could not be encrypted: " ++ text

/-- Seals and opens texts under a key, if it has one. -/
structure Vault where
  cipher : Option Cipher

namespace Vault

def salt : String := "vantage/connection-secrets/v1"

def stretchRounds : Nat := 100000

/-- The bytes of a key: 32 bytes in base64, or a stretched phrase. -/
def keyBytes (text : String) : List UInt8 :=
  let phrase := Sha256.stretch (Utf8.encode text) (Utf8.encode salt)
  match Base64.decode (Utf8.encode text) with
  | .ok bytes => if bytes.length = 32 then bytes else phrase stretchRounds
  | .error _ => phrase stretchRounds

/-- The vault of a key between blanks; without a key that is not blank it can do nothing. -/
def ofKeyBy (make : String → Cipher) (key : Option String) : Vault :=
  ⟨((key.map Text.trim).filter (!·.isEmpty)).map make⟩

def ofKey : Option String → Vault := ofKeyBy fun text => Cipher.ofKey (keyBytes text)

def isConfigured (v : Vault) : Bool := v.cipher.isSome

def sealText (v : Vault) (nonce : List UInt8) (plain : String) : Except SecretError String :=
  match v.cipher with
  | none => .error .keyMissing
  | some c => .ok (version ++ Base64.encode (nonce ++ c.sealBytes nonce (Utf8.encode plain)))

def openEncoded (c : Cipher) (encoded : String) : Except OpenFault Secret := do
  let bytes ← (Base64.decode (Utf8.encode encoded)).mapError .encoding
  if bytes.length < nonceLength + Gcm.tagLength then throw (.tooShort bytes.length)
  match c.openBytes? (bytes.take nonceLength) (bytes.drop nonceLength) with
  | none => throw .notAuthentic
  | some plain =>
    match Utf8.decode? plain with
    | some s => return ⟨s⟩
    | none => throw .notText

/-- Opens a sealed text between blanks. -/
def openText (v : Vault) (blob : String) : Except SecretError Secret :=
  match v.cipher with
  | none => .error .keyMissing
  | some c =>
    let blob := Text.trim blob
    if Text.startsWith blob version then
      (openEncoded c (String.ofList (blob.toList.drop version.length))).mapError .decryption
    else .error (.decryption .noVersion)

def inspected (v : Vault) : String :=
  "SecretCodec \x7b configured: " ++ (if v.isConfigured then "true" else "false") ++ " \x7d"

def inspectedKey (key : Option String) : String :=
  "SecretConfig \x7b key: " ++ (match key with
    | some _ => "Some(\"[redacted]\")"
    | none => "None") ++ " \x7d"

end Vault

end TablePipeline
