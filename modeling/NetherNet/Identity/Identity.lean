import NetherNet.Library.Base64
import NetherNet.Library.Bytes
import NetherNet.Library.Json
import NetherNet.Library.Lines

/-! The server identity assertion of a session description: the envelope in its
`a=identity` line, the self-signed token in it, and the detached signature over the
fingerprint lines. -/
namespace NetherNet.Identity
open Library

/-- The exceptions of these functions. -/
inductive Raised where
  | invalidIdentity (message : Str)
  | valueError | unicodeEncodeError | overflowError | keyError | typeError
  deriving DecidableEq

namespace Raised

/-- `ValueError` and its subclasses. -/
def isValueError : Raised → Bool
  | valueError | unicodeEncodeError => true
  | _ => false

def isInvalidIdentity : Raised → Bool
  | invalidIdentity _ => true
  | _ => false

end Raised

/-- `try … except …: raise InvalidIdentity(message)`. -/
def guarded {α : Type} (caught : Raised → Bool) (message : String) : Except Raised α → Except Raised α
  | .error e => .error (if caught e then .invalidIdentity (str message) else e)
  | .ok a => .ok a

def refuse {α : Type} (message : String) : Except Raised α := .error (.invalidIdentity (str message))

def orElse {α : Type} (e : Raised) : Option α → Except Raised α
  | some a => .ok a
  | none => .error e

/-- The class of `key.curve`, and its name where it is none of the supported three. -/
inductive Curve where
  | secp256r1 | secp384r1 | secp521r1
  | other (name : Str)
  deriving DecidableEq

inductive Hash where
  | sha256 | sha384 | sha512
  deriving DecidableEq

/-- The elliptic curve keys and the digest of the cryptography library and hashlib. A signature is
its pair of integers; loading fails (`ValueError`, `TypeError`), or gives a key that may not be an
elliptic curve key. -/
class Cryptography where
  PrivateKey : Type
  PublicKey : Type
  curve : PublicKey → Curve
  privateCurve : PrivateKey → Curve
  publicKey : PrivateKey → PublicKey
  sign : PrivateKey → Hash → (data : List UInt8) → (nonce : Nat) → Nat × Nat
  verify : PublicKey → Hash → (data : List UInt8) → Nat × Nat → Bool
  publicBytes : PublicKey → List UInt8
  loadDerPublicKey : List UInt8 → Option (Option PublicKey)
  sha256 : List UInt8 → List UInt8

export Cryptography (PrivateKey PublicKey)

structure Algorithm where
  curve : Curve
  hash : Hash
  size : Nat
  deriving DecidableEq

/-- `_ALGORITHMS`. -/
def algorithms : List (Str × Algorithm) :=
  [(str "ES256", ⟨.secp256r1, .sha256, 32⟩), (str "ES384", ⟨.secp384r1, .sha384, 48⟩), (str "ES512", ⟨.secp521r1, .sha512, 66⟩)]

/-- The members of a decoded JSON object. -/
abbrev Members (F : Type) := List (Str × Json F)

section Assertion
variable [Cryptography] {F : Type} [Runtime F]

/-- `_alg_for_key`, of the key's curve. -/
def algForKey (F : Type) [Runtime F] (curve : Curve) : Except Raised Str :=
  match algorithms.find? fun e => e.2.curve = curve with
  | some e => .ok e.1
  | none =>
    match curve with
    | .other name => .error (.invalidIdentity (str "unsupported curve " ++ Json.textRepr F name))
    | _ => refuse "unsupported curve"

def b64url (data : List UInt8) : Str := Base64.unpad (Base64.urlsafeEncode data)

def unb64url (text : Str) : Except Raised (List UInt8) :=
  guarded Raised.isValueError "invalid base64url" (orElse .valueError (Base64.urlsafeDecode (Base64.repad text)))

/-- `text.encode()`. -/
def encode (text : Str) : Except Raised (List UInt8) := orElse .unicodeEncodeError (encodeUtf8 text)

def canonicalJson (obj : Json F) : Except Raised (List UInt8) := encode (Json.dumps false (Json.sortKeys obj))

/-! ### The fingerprint payload -/

/-- The algorithm and the digest of a stripped `a=fingerprint` line. -/
def fingerprint? (line : Str) : Option (Str × Str) :=
  if (str "a=fingerprint:").isPrefixOf line then
    let rest := line.drop (str "a=fingerprint:").length
    some (rest.takeWhile (· ≠ 0x20), (rest.dropWhile (· ≠ 0x20)).tail)
  else none

def fingerprints (sdp : Str) : List (Str × Str) := (bareLines sdp).filterMap fun line => fingerprint? (strip line)

def fingerprintObject (entries : List (Str × Str)) : Json F :=
  .object [(str "fingerprint",
    .array (entries.map fun e => .object [(str "algorithm", .text e.1), (str "digest", .text e.2)]))]

def fingerprintPayload (F : Type) [Runtime F] (sdp : Str) : Except Raised (List UInt8) :=
  canonicalJson (fingerprintObject (F := F) (fingerprints sdp))

/-! ### Signatures -/

/-- `int.to_bytes(size, "big")`. -/
def toBytes (size n : Nat) : Except Raised (List UInt8) :=
  if n < 256 ^ size then .ok (packLE size n).reverse else .error .overflowError

/-- `int.from_bytes(data, "big")`. -/
def fromBytes (data : List UInt8) : Nat := unpackLE data.reverse

def signRaw (privateKey : PrivateKey) (alg : Str) (data : List UInt8) (nonce : Nat) : Except Raised (List UInt8) := do
  let row ← orElse .keyError (lookup alg algorithms)
  let signature := Cryptography.sign privateKey row.hash data nonce
  let r ← toBytes row.size signature.1
  let s ← toBytes row.size signature.2
  .ok (r ++ s)

/-- `_verify_raw`; of the row it uses the hash and the size. -/
def verifyRaw (publicKey : PublicKey) (alg : Str) (data signature : List UInt8) : Except Raised Bool := do
  let row ← orElse .keyError (lookup alg algorithms)
  if signature.length ≠ 2 * row.size then .ok false
  else
    let r := fromBytes (signature.take row.size)
    let s := fromBytes (signature.drop row.size)
    .ok (Cryptography.verify publicKey row.hash data (r, s))

/-- `alg in _ALGORITHMS`, and the name where it is: looking up an unhashable value raises. -/
def knownAlg : Json F → Except Raised (Option Str)
  | .array _ | .object _ => .error .typeError
  | .text alg => .ok (if (lookup alg algorithms).isSome then some alg else none)
  | _ => .ok none

/-- `if alg not in _ALGORITHMS: raise InvalidIdentity(f"… {alg!r}")`. -/
def supportedAlg (message : String) (alg : Json F) : Except Raised Str := do
  match ← knownAlg alg with
  | some alg => .ok alg
  | none => .error (.invalidIdentity (str message ++ Json.repr alg))

/-- `json.loads` of `bytes` and of any other value. -/
def loadsBytes (data : List UInt8) : Except Raised (Json F) := orElse .valueError (Json.loadsBytes data)

def loads : Json F → Except Raised (Json F)
  | .text s => orElse .valueError (Json.loads s)
  | _ => .error .typeError

def members? : Json F → Option (Members F)
  | .object members => some members
  | _ => none

/-- `header.get("alg")`, `None` where there is none. -/
def algOf (header : Members F) : Json F := (Json.get? (str "alg") header).getD .null

/-! ### The detached fingerprints signature -/

def signFingerprints (F : Type) [Runtime F] (sdp : Str) (privateKey : PrivateKey) (nonce : Nat) : Except Raised Str := do
  let alg ← algForKey F (Cryptography.privateCurve privateKey)
  let header := b64url (← canonicalJson (F := F) (.object [(str "alg", .text alg)]))
  let payload := b64url (← fingerprintPayload F sdp)
  let signature ← signRaw privateKey alg (← encode (header ++ str "." ++ payload)) nonce
  .ok (header ++ str ".." ++ b64url signature)

/-- The header of a fingerprints signature; what is no object has no `alg`. -/
def decodeJws (headerB64 : Str) : Except Raised (Json F) :=
  guarded Raised.isValueError "malformed JWS header" do
    loadsBytes (← unb64url headerB64)

def verifyFingerprints (F : Type) [Runtime F] (sdp jws : Str) (publicKey : PublicKey) : Except Raised Unit :=
  match jws.splitOn Json.point with
  | [headerB64, [], signatureB64] => do
    let header ← decodeJws (F := F) headerB64
    let alg ← supportedAlg "unsupported JWS alg " (((members? header).map algOf).getD .null)
    let payload := b64url (← fingerprintPayload F sdp)
    let signingInput ← encode (headerB64 ++ str "." ++ payload)
    if ← verifyRaw publicKey alg signingInput (← unb64url signatureB64) then .ok ()
    else refuse "fingerprint signature verification failed"
  | _ => refuse "fingerprints JWS must be a detached compact serialization"

/-! ### The `cpk` claim -/

def encodeCpk (publicKey : PublicKey) : Str := Base64.encode (Cryptography.publicBytes publicKey)

def decodeCpk (text : Str) : Except Raised PublicKey :=
  match (Base64.decode true text).bind Cryptography.loadDerPublicKey with
  | none => refuse "malformed cpk claim"
  | some none => refuse "cpk is not an EC public key"
  | some (some key) => .ok key

def cpkDigest (publicKey : PublicKey) : Str :=
  (Cryptography.sha256 (Cryptography.publicBytes publicKey)).flatMap fun b =>
    [Json.hexDigit (b.toNat / 0x10), Json.hexDigit (b.toNat % 0x10)]

/-! ### The token -/

/-- `json.dumps(obj, separators=(",", ":"))`, which refuses ints that are too long to print. -/
def dumps (obj : Json F) : Except Raised Str := if Json.printable obj then .ok (Json.dumps true obj) else .error .valueError

def signJwt (claims : Members F) (privateKey : PrivateKey) (nonce : Nat) : Except Raised Str := do
  let alg ← algForKey F (Cryptography.privateCurve privateKey)
  let header := b64url (← canonicalJson (F := F) (.object [(str "alg", .text alg), (str "typ", .text (str "JWT"))]))
  let payload := b64url (← encode (← dumps (.object claims)))
  let signature ← signRaw privateKey alg (← encode (header ++ str "." ++ payload)) nonce
  .ok (header ++ str "." ++ payload ++ str "." ++ b64url signature)

/-- A token taken apart, unverified. -/
structure Jwt (F : Type) where
  header : Members F
  claims : Members F
  signingInput : List UInt8
  signature : List UInt8

/-- The two objects of a token. -/
def decodeParts (headerB64 payloadB64 : Str) : Except Raised (Json F × Json F) :=
  guarded Raised.isValueError "malformed JWT header/payload" do
    let header ← loadsBytes (← unb64url headerB64)
    let claims ← loadsBytes (← unb64url payloadB64)
    .ok (header, claims)

def decodeJwt (token : Str) : Except Raised (Jwt F) :=
  match token.splitOn Json.point with
  | [headerB64, payloadB64, signatureB64] => do
    let parts ← decodeParts headerB64 payloadB64
    match members? parts.1, members? parts.2 with
    | some header, some claims => do
      let signingInput ← encode (headerB64 ++ str "." ++ payloadB64)
      .ok ⟨header, claims, signingInput, ← unb64url signatureB64⟩
    | _, _ => refuse "malformed JWT header/payload"
  | _ => refuse "malformed JWT"

/-! ### The envelope -/

structure IdentityEnvelope where
  domain : Str
  protocol : Str
  token : Str
  fingerprints : Str
  deriving DecidableEq

def buildEnvelope (F : Type) [Runtime F] (domain token fingerprints : Str) : Except Raised Str := do
  let assertion ← dumps (F := F) (.object [(str "token", .text token), (str "fingerprints", .text fingerprints)])
  let outer ← dumps (F := F) (.object
    [(str "idp", .object [(str "domain", .text domain), (str "protocol", .text (str "default"))]), (str "assertion", .text assertion)])
  .ok (Base64.encode (← encode outer))

/-- `value[key]`. -/
def item (key : String) : Json F → Except Raised (Json F)
  | .object members => orElse .keyError (Json.get? (str key) members)
  | _ => .error .typeError

/-- The errors that `_parse_envelope` catches. -/
def isEnvelopeError (e : Raised) : Bool := e.isValueError || e = .keyError || e = .typeError

def parseEnvelope (F : Type) [Runtime F] (value : Str) : Except Raised IdentityEnvelope :=
  guarded isEnvelopeError "malformed a=identity envelope" do
    let outer ← loadsBytes (F := F) (← orElse .valueError (Base64.decode true value))
    let idp ← item "idp" outer
    let inner ← loads (← item "assertion" outer)
    let domain ← item "domain" idp
    let protocol ← item "protocol" idp
    let token ← item "token" inner
    let fingerprints ← item "fingerprints" inner
    .ok ⟨domain.toStr, protocol.toStr, token.toStr, fingerprints.toStr⟩

/-- The value of a stripped `a=identity` line. -/
def identity? (line : Str) : Option Str :=
  if (str "a=identity:").isPrefixOf line then some (line.drop (str "a=identity:").length) else none

/-- The values of the `a=identity` lines of a text. -/
def identities (sdp : Str) : List Str := (lines sdp).filterMap fun line => identity? (strip line)

def stripIdentity (sdp : Str) : Str := ((lines sdp).filter fun line => (identity? (strip line)).isNone).flatten

/-- Of several `a=identity` lines the last one counts. -/
def extractIdentity (F : Type) [Runtime F] (sdp : Str) : Except Raised (Str × Option IdentityEnvelope) :=
  match (identities sdp).getLast? with
  | none => .ok (sdp, none)
  | some value => do
    let envelope ← parseEnvelope F value
    .ok (stripIdentity sdp, some envelope)

def newline (sdp : Str) : Str :=
  if [carriageReturn, lineFeed] <:+: sdp then [carriageReturn, lineFeed] else [lineFeed]

/-- A line put before the first `m=` line, or at the end. -/
def insertLine (identity : Str) : List Str → List Str
  | [] => [identity]
  | line :: rest => if (str "m=").isPrefixOf line then identity :: line :: rest else line :: insertLine identity rest

def insertIdentity (sdp envelope : Str) : Str :=
  (insertLine (str "a=identity:" ++ envelope ++ newline sdp) (lines sdp)).flatten

/-! ### Producing and verifying an assertion -/

/-- A lifetime in seconds. -/
inductive Lifetime (F : Type) where
  | int (n : Int)
  | float (x : Double F)

/-- `int(lifetime)`. -/
def Lifetime.toInt : Lifetime F → Except Raised Int
  | .int n => .ok n
  | .float (.finite x) => .ok (Runtime.trunc x)
  | .float .nan => .error .valueError
  | .float (.infinity _) => .error .overflowError

/-- A signer; its constructor has refused every other curve. -/
structure IdentitySigner (F : Type) [Runtime F] where
  privateKey : PrivateKey
  domain : Str
  claims : Dict Str (Json F)
  tokenLifetime : Option (Lifetime F)
  supported : ∃ alg, algForKey F (Cryptography.privateCurve privateKey) = .ok alg

namespace IdentitySigner

/-- The claims of a token: the extra claims override `cpk` and `iat`, the lifetime overrides `exp`. -/
def tokenClaims (signer : IdentitySigner F) (now : Int) : Except Raised (Dict Str (Json F)) :=
  let own : Dict Str (Json F) := (Dict.empty.set (str "cpk") (.text (encodeCpk (Cryptography.publicKey signer.privateKey)))).set
    (str "iat") (.int now)
  let claims := signer.claims.entries.foldl (fun d e => d.set e.1 e.2) own
  match signer.tokenLifetime with
  | none => .ok claims
  | some lifetime => do
    let seconds ← lifetime.toInt
    .ok (claims.set (str "exp") (.int (now + seconds)))

def token (signer : IdentitySigner F) (clock : F) (nonce : Nat) : Except Raised Str := do
  let claims ← signer.tokenClaims (Runtime.trunc clock)
  signJwt claims.entries signer.privateKey nonce

/-- `sign`, at a reading of the clock and with the randomness of its two signatures. -/
def sign (signer : IdentitySigner F) (clock : F) (nonces : Nat × Nat) (sdp : Str) : Except Raised Str := do
  let token ← signer.token clock nonces.1
  let fingerprints ← signFingerprints F sdp signer.privateKey nonces.2
  let envelope ← buildEnvelope F signer.domain token fingerprints
  .ok (insertIdentity sdp envelope)

end IdentitySigner

structure ServerIdentity (F : Type) where
  domain : Str
  claims : Members F
  publicKey : PublicKey
  keyDigest : Str

/-- `isinstance(exp, int | float) and exp < time.time()`. -/
def expired (clock : F) : Option (Json F) → Bool
  | some (.int n) => Runtime.ltInt n clock
  | some (.bool b) => Runtime.ltInt (if b then 1 else 0) clock
  | some (.float (.finite x)) => Runtime.lt x clock
  | some (.float (.infinity negative)) => negative
  | _ => false

def cpkOf (claims : Members F) : Except Raised Str :=
  match Json.get? (str "cpk") claims with
  | some (.text cpk) => .ok cpk
  | _ => refuse "JWT has no cpk claim"

/-- `verify_server_identity`, at a reading of the clock. -/
def verifyServerIdentity (clock : F) (sdp : Str) : Except Raised (Str × ServerIdentity F) := do
  match ← extractIdentity F sdp with
  | (_, none) => refuse "answer has no a=identity attribute"
  | (stripped, some envelope) =>
    let jwt ← decodeJwt (F := F) envelope.token
    let alg ← supportedAlg "unsupported JWT alg " (algOf jwt.header)
    let cpk ← cpkOf jwt.claims
    let publicKey ← decodeCpk cpk
    if !(← verifyRaw publicKey alg jwt.signingInput jwt.signature) then refuse "JWT self-signature verification failed"
    else if expired clock (Json.get? (str "exp") jwt.claims) then refuse "server identity token expired"
    else
      verifyFingerprints F stripped envelope.fingerprints publicKey
      .ok (stripped, ⟨envelope.domain, jwt.claims, publicKey, cpkDigest publicKey⟩)

end Assertion
end NetherNet.Identity
