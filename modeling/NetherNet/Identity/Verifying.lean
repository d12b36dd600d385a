import NetherNet.Identity.Identity
import NetherNet.Library.JsonRoundTrip

/-! What an accepted assertion consists of: every part that was decoded and every
check that was passed on the way. -/
namespace NetherNet.Identity
open Library

theorem bind_eq_ok {α β : Type} {x : Except Raised α} {f : α → Except Raised β} {b : β} :
    (x >>= f) = .ok b ↔ ∃ a, x = .ok a ∧ f a = .ok b := by
  cases x with
  | error e => exact ⟨fun h => (nomatch h), fun ⟨_, h, _⟩ => (nomatch h)⟩
  | ok a => exact ⟨fun h => ⟨a, rfl, h⟩, fun ⟨_, h, hf⟩ => Except.ok.inj h ▸ hf⟩

@[simp] theorem guarded_eq_ok {α : Type} {caught : Raised → Bool} {message : String} {x : Except Raised α} {a : α} :
    guarded caught message x = .ok a ↔ x = .ok a := by
  cases x <;> simp [guarded]

@[simp] theorem orElse_eq_ok {α : Type} {e : Raised} {x : Option α} {a : α} : orElse e x = .ok a ↔ x = some a := by
  cases x <;> simp [orElse]

@[simp] theorem refuse_ne_ok {α : Type} {message : String} {a : α} : refuse message ≠ .ok a := by
  simp [refuse]

section Assertion
variable [Cryptography] {F : Type} [Runtime F]

/-- The parts of an assertion. -/
structure Assertion (F : Type) where
  value : Str
  envelope : IdentityEnvelope
  headerB64 : Str
  payloadB64 : Str
  signatureB64 : Str
  header : Members F
  claims : Members F
  alg : Str
  cpk : Str
  jwsHeaderB64 : Str
  jwsSignatureB64 : Str
  jwsHeader : Json F
  jwsAlg : Str

/-- `header.get("alg")` of a decoded JWS header, `None` where it is no object. -/
def jwsAlgOf (header : Json F) : Json F := ((members? header).map algOf).getD .null

/-- A signature that was verified: over which bytes, under which key and algorithm. -/
def Signed (publicKey : PublicKey) (alg : Str) (data : List UInt8) (signatureB64 : Str) : Prop :=
  ∃ signature, unb64url signatureB64 = .ok signature ∧ verifyRaw publicKey alg data signature = .ok true

/-- How an accepted text decodes to the parts of its assertion, and what was checked of them. -/
structure Checked (clock : F) (sdp stripped : Str) (identity : ServerIdentity F) (a : Assertion F) : Prop where
  value : (identities sdp).getLast? = some a.value
  envelope : parseEnvelope F a.value = .ok a.envelope
  token : a.envelope.token.splitOn Json.point = [a.headerB64, a.payloadB64, a.signatureB64]
  header : unb64url a.headerB64 >>= loadsBytes = .ok (.object a.header)
  claims : unb64url a.payloadB64 >>= loadsBytes = .ok (.object a.claims)
  alg : supportedAlg "unsupported JWT alg " (algOf a.header) = .ok a.alg
  cpk : Json.get? (str "cpk") a.claims = some (.text a.cpk)
  key : decodeCpk a.cpk = .ok identity.publicKey
  signed : ∃ input, encode (a.headerB64 ++ str "." ++ a.payloadB64) = .ok input ∧ Signed identity.publicKey a.alg input a.signatureB64
  fresh : expired clock (Json.get? (str "exp") a.claims) = false
  jws : a.envelope.fingerprints.splitOn Json.point = [a.jwsHeaderB64, [], a.jwsSignatureB64]
  jwsHeader : unb64url a.jwsHeaderB64 >>= loadsBytes = .ok a.jwsHeader
  jwsAlg : supportedAlg "unsupported JWS alg " (jwsAlgOf a.jwsHeader) = .ok a.jwsAlg
  jwsSigned : ∃ payload input, fingerprintPayload F stripped = .ok payload ∧ encode (a.jwsHeaderB64 ++ str "." ++ b64url payload) = .ok input ∧
    Signed identity.publicKey a.jwsAlg input a.jwsSignatureB64
  stripped : stripped = stripIdentity sdp
  identity : identity = ⟨a.envelope.domain, a.claims, identity.publicKey, cpkDigest identity.publicKey⟩

omit [Cryptography] in
theorem extractIdentity_eq_ok {sdp stripped : Str} {envelope : IdentityEnvelope}
    (h : extractIdentity F sdp = .ok (stripped, some envelope)) :
    ∃ value, (identities sdp).getLast? = some value ∧ parseEnvelope F value = .ok envelope ∧ stripped = stripIdentity sdp := by
  unfold extractIdentity at h
  split at h
  · exact absurd h (by simp)
  · next value hvalue =>
    obtain ⟨env, henv, h⟩ := bind_eq_ok.mp h
    simp only [Except.ok.injEq, Prod.mk.injEq, Option.some.injEq] at h
    obtain ⟨rfl, rfl⟩ := h
    exact ⟨value, hvalue, henv, rfl⟩

omit [Cryptography] in
theorem decodeJwt_eq_ok {token : Str} {jwt : Jwt F} (h : decodeJwt token = .ok jwt) :
    ∃ headerB64 payloadB64 signatureB64, token.splitOn Json.point = [headerB64, payloadB64, signatureB64] ∧
      unb64url headerB64 >>= loadsBytes = .ok (.object jwt.header) ∧ unb64url payloadB64 >>= loadsBytes = .ok (.object jwt.claims) ∧
      encode (headerB64 ++ str "." ++ payloadB64) = .ok jwt.signingInput ∧ unb64url signatureB64 = .ok jwt.signature := by
  unfold decodeJwt at h
  split at h
  · next headerB64 payloadB64 signatureB64 htoken =>
    obtain ⟨parts, hparts, h⟩ := bind_eq_ok.mp h
    rw [decodeParts, guarded_eq_ok] at hparts
    obtain ⟨headerBytes, hheaderBytes, hparts⟩ := bind_eq_ok.mp hparts
    obtain ⟨header, hheader, hparts⟩ := bind_eq_ok.mp hparts
    obtain ⟨payloadBytes, hpayloadBytes, hparts⟩ := bind_eq_ok.mp hparts
    obtain ⟨claims, hclaims, hparts⟩ := bind_eq_ok.mp hparts
    obtain rfl := Except.ok.inj hparts
    split at h
    · next header' claims' hheader' hclaims' =>
      obtain ⟨input, hinput, h⟩ := bind_eq_ok.mp h
      obtain ⟨signature, hsignature, h⟩ := bind_eq_ok.mp h
      obtain rfl := Except.ok.inj h
      have hobject : ∀ {v : Json F} {members}, members? v = some members → v = .object members := by
        intro v members hv
        cases v <;> simp [members?] at hv
        rw [hv]
      obtain rfl := hobject hheader'
      obtain rfl := hobject hclaims'
      exact ⟨headerB64, payloadB64, signatureB64, htoken, bind_eq_ok.mpr ⟨headerBytes, hheaderBytes, hheader⟩,
        bind_eq_ok.mpr ⟨payloadBytes, hpayloadBytes, hclaims⟩, hinput, hsignature⟩
    · exact absurd h (by simp)
  · exact absurd h (by simp)

theorem verifyFingerprints_eq_ok {sdp jws : Str} {publicKey : PublicKey} (h : verifyFingerprints F sdp jws publicKey = .ok ()) :
    ∃ headerB64 signatureB64, jws.splitOn Json.point = [headerB64, [], signatureB64] ∧ ∃ (header : Json F) (alg : Str),
      unb64url headerB64 >>= loadsBytes = .ok header ∧ supportedAlg "unsupported JWS alg " (jwsAlgOf header) = .ok alg ∧
      ∃ payload input, fingerprintPayload F sdp = .ok payload ∧ encode (headerB64 ++ str "." ++ b64url payload) = .ok input ∧
        Signed publicKey alg input signatureB64 := by
  unfold verifyFingerprints at h
  split at h
  · next headerB64 signatureB64 hjws =>
    obtain ⟨header, hheader, h⟩ := bind_eq_ok.mp h
    obtain ⟨alg, halg, h⟩ := bind_eq_ok.mp h
    obtain ⟨payload, hpayload, h⟩ := bind_eq_ok.mp h
    obtain ⟨input, hinput, h⟩ := bind_eq_ok.mp h
    obtain ⟨signature, hsignature, h⟩ := bind_eq_ok.mp h
    obtain ⟨verified, hverified, h⟩ := bind_eq_ok.mp h
    rw [decodeJws, guarded_eq_ok] at hheader
    split at h
    · next htrue =>
      subst htrue
      exact ⟨headerB64, signatureB64, hjws, header, alg, hheader, halg, payload, input, hpayload, hinput, signature, hsignature, hverified⟩
    · exact absurd h (by simp)
  · exact absurd h (by simp)

/-- An accepted text carries an assertion that was checked. -/
theorem verifyServerIdentity_eq_ok {clock : F} {sdp stripped : Str} {identity : ServerIdentity F}
    (h : verifyServerIdentity clock sdp = .ok (stripped, identity)) : ∃ a, Checked clock sdp stripped identity a := by
  unfold verifyServerIdentity at h
  obtain ⟨extracted, hextracted, h⟩ := bind_eq_ok.mp h
  split at h
  · exact absurd h (by simp)
  · next kept envelope =>
    obtain ⟨value, hvalue, henvelope, hkept⟩ := extractIdentity_eq_ok hextracted
    obtain ⟨jwt, hjwt, h⟩ := bind_eq_ok.mp h
    obtain ⟨headerB64, payloadB64, signatureB64, htoken, hheader, hclaims, hinput, hsignature⟩ := decodeJwt_eq_ok hjwt
    obtain ⟨alg, halg, h⟩ := bind_eq_ok.mp h
    obtain ⟨cpk, hcpk, h⟩ := bind_eq_ok.mp h
    obtain ⟨publicKey, hkey, h⟩ := bind_eq_ok.mp h
    obtain ⟨verified, hverified, h⟩ := bind_eq_ok.mp h
    have hclaim : Json.get? (str "cpk") jwt.claims = some (.text cpk) := by
      unfold cpkOf at hcpk
      split at hcpk
      · next text htext => rw [htext, Except.ok.inj hcpk]
      · exact absurd hcpk (by simp)
    split at h
    · exact absurd h (by simp)
    · next htrue =>
      split at h
      · exact absurd h (by simp)
      · next hfresh =>
        obtain ⟨_, hfingerprints, h⟩ := bind_eq_ok.mp h
        obtain ⟨jwsHeaderB64, jwsSignatureB64, hjws, jwsHeader, jwsAlg, hjwsHeader, hjwsAlg, hjwsSigned⟩ := verifyFingerprints_eq_ok hfingerprints
        simp only [Except.ok.injEq, Prod.mk.injEq] at h
        obtain ⟨rfl, rfl⟩ := h
        have hok : verified = true := by simpa using htrue
        subst hok
        exact ⟨⟨value, envelope, headerB64, payloadB64, signatureB64, jwt.header, jwt.claims, alg, cpk, jwsHeaderB64, jwsSignatureB64,
          jwsHeader, jwsAlg⟩, hvalue, henvelope, htoken, hheader, hclaims, halg, hclaim, hkey, ⟨jwt.signingInput, hinput, jwt.signature, hsignature, hverified⟩,
          by simpa using hfresh, hjws, hjwsHeader, hjwsAlg, hjwsSigned, hkept, rfl⟩

end Assertion
end NetherNet.Identity
