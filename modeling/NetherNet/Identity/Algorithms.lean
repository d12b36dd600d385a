import NetherNet.Identity.Escaping

/-! The algorithms that the two headers of an assertion name, against the curve of its key. -/
namespace NetherNet.Identity
open Library

section Assertion
variable [Cryptography] {F : Type} [Runtime F]

/-- The algorithm that a token's header names, and the length of its signature. -/
def tokenAnnounces (F : Type) (token : Str) [Runtime F] : Except Raised (Json F × Nat) := do
  let jwt ← decodeJwt (F := F) token
  .ok (algOf jwt.header, jwt.signature.length)

/-- The algorithm that a detached signature's header names, and the length of the signature. -/
def jwsAnnounces (F : Type) (jws : Str) [Runtime F] : Except Raised (Json F × Nat) :=
  match jws.splitOn Json.point with
  | [headerB64, _, signatureB64] => do
    let header ← decodeJws (F := F) headerB64
    let signature ← unb64url signatureB64
    .ok (jwsAlgOf header, signature.length)
  | _ => refuse "fingerprints JWS must be a detached compact serialization"

/-- What the token and the detached signature of a text announce. -/
def announces (F : Type) (sdp : Str) [Runtime F] : Except Raised ((Json F × Nat) × (Json F × Nat)) := do
  match ← extractIdentity F sdp with
  | (_, none) => refuse "answer has no a=identity attribute"
  | (_, some envelope) =>
    let token ← tokenAnnounces F envelope.token
    let jws ← jwsAnnounces F envelope.fingerprints
    .ok (token, jws)

/-- The coordinate size of a curve, where it is supported. -/
def curveSize (curve : Curve) : Option Nat := (algorithms.find? fun e => e.2.curve = curve).map fun e => e.2.size

omit [Cryptography] in
/-- Every row has its own size, so the size of a curve tells its algorithm. -/
private theorem algForKey_iff_size {alg : Str} {row : Algorithm} (h : lookup alg algorithms = some row) (curve : Curve) :
    algForKey F curve = .ok alg ↔ curveSize curve = some row.size := by
  have hrows := mem_of_lookup h
  have hnames : str "ES256" ≠ str "ES384" ∧ str "ES256" ≠ str "ES512" ∧ str "ES384" ≠ str "ES512" := by decide
  simp only [algorithms, List.mem_cons, Prod.mk.injEq, List.not_mem_nil, or_false] at hrows
  obtain ⟨rfl, rfl⟩ | ⟨rfl, rfl⟩ | ⟨rfl, rfl⟩ := hrows
  all_goals cases curve <;>
    simp [algForKey, curveSize, algorithms, hnames.1, hnames.2.1, hnames.2.2, Ne.symm hnames.1, Ne.symm hnames.2.1, Ne.symm hnames.2.2]

/-- A verified signature has the length of its algorithm. -/
private theorem length_of_signed {publicKey : PublicKey} {alg : Str} {data : List UInt8} {signatureB64 : Str}
    (h : Signed publicKey alg data signatureB64) :
    ∃ row signature, lookup alg algorithms = some row ∧ unb64url signatureB64 = .ok signature ∧ signature.length = 2 * row.size := by
  obtain ⟨signature, hdecoded, hverified⟩ := h
  obtain ⟨row, hrow, hverified⟩ := bind_eq_ok.mp hverified
  rw [orElse_eq_ok] at hrow
  split at hverified
  · exact absurd hverified (by simp)
  · next hsize => exact ⟨row, signature, hrow, hdecoded, by simpa using hsize⟩

/-- What an accepted text announces. -/
private theorem announces_of_checked {clock : F} {sdp stripped : Str} {identity : ServerIdentity F} {a : Assertion F}
    (h : Checked clock sdp stripped identity a) : ∃ row row', lookup a.alg algorithms = some row ∧ lookup a.jwsAlg algorithms = some row' ∧
      announces F sdp = .ok ((.text a.alg, 2 * row.size), (.text a.jwsAlg, 2 * row'.size)) := by
  obtain ⟨input, hinput, hsigned⟩ := h.signed
  obtain ⟨_, _, _, _, hjwsSigned⟩ := h.jwsSigned
  obtain ⟨row, signature, hrow, hdecoded, hlength⟩ := length_of_signed hsigned
  obtain ⟨row', jwsSignature, hrow', hjwsDecoded, hjwsLength⟩ := length_of_signed hjwsSigned
  refine ⟨row, row', hrow, hrow', ?_⟩
  have hextracted : extractIdentity F sdp = .ok (stripIdentity sdp, some a.envelope) := by
    unfold extractIdentity
    rw [h.value]
    exact bind_eq_ok.mpr ⟨a.envelope, h.envelope, rfl⟩
  have hparts : decodeParts a.headerB64 a.payloadB64 = .ok (Json.object a.header, Json.object a.claims) := by
    obtain ⟨headerBytes, hheaderBytes, hheader⟩ := bind_eq_ok.mp h.header
    obtain ⟨payloadBytes, hpayloadBytes, hclaims⟩ := bind_eq_ok.mp h.claims
    rw [decodeParts, guarded_eq_ok]
    exact bind_eq_ok.mpr ⟨_, hheaderBytes, bind_eq_ok.mpr ⟨_, hheader, bind_eq_ok.mpr ⟨_, hpayloadBytes, bind_eq_ok.mpr ⟨_, hclaims, rfl⟩⟩⟩⟩
  have hjwt : decodeJwt a.envelope.token = .ok (⟨a.header, a.claims, input, signature⟩ : Jwt F) := by
    unfold decodeJwt
    rw [h.token]
    exact bind_eq_ok.mpr ⟨_, hparts, bind_eq_ok.mpr ⟨input, hinput, bind_eq_ok.mpr ⟨signature, hdecoded, rfl⟩⟩⟩
  have htoken : tokenAnnounces F a.envelope.token = .ok (.text a.alg, 2 * row.size) := by
    refine bind_eq_ok.mpr ⟨_, hjwt, ?_⟩
    rw [(lookup_of_supportedAlg h.alg).1, hlength]
  have hjws : jwsAnnounces F a.envelope.fingerprints = .ok (.text a.jwsAlg, 2 * row'.size) := by
    unfold jwsAnnounces
    rw [h.jws]
    refine bind_eq_ok.mpr ⟨a.jwsHeader, by rw [decodeJws, guarded_eq_ok]; exact h.jwsHeader, ?_⟩
    refine bind_eq_ok.mpr ⟨jwsSignature, hjwsDecoded, ?_⟩
    rw [(lookup_of_supportedAlg h.jwsAlg).1, hjwsLength]
  exact bind_eq_ok.mpr ⟨_, hextracted, bind_eq_ok.mpr ⟨_, htoken, bind_eq_ok.mpr ⟨_, hjws, rfl⟩⟩⟩

/-- An accepted text names the algorithm of its key in both headers exactly if its key is on a supported
curve and both signatures have the length that belongs to that curve. -/
theorem algs_match_key_iff {clock : F} {sdp stripped : Str} {identity : ServerIdentity F}
    (h : verifyServerIdentity clock sdp = .ok (stripped, identity)) :
    (∃ (alg : Str) (n m : Nat), announces F sdp = .ok ((.text alg, n), (.text alg, m)) ∧
        algForKey F (Cryptography.curve identity.publicKey) = .ok alg) ↔
      ∃ (size : Nat) (named named' : Json F), curveSize (Cryptography.curve identity.publicKey) = some size ∧
        announces F sdp = .ok ((named, 2 * size), (named', 2 * size)) := by
  obtain ⟨a, ha⟩ := verifyServerIdentity_eq_ok h
  obtain ⟨row, row', hrow, hrow', hannounces⟩ := announces_of_checked ha
  rw [hannounces]
  constructor
  · rintro ⟨alg, n, m, hsame, hkey⟩
    simp only [Except.ok.injEq, Prod.mk.injEq, Json.text.injEq] at hsame
    obtain ⟨⟨halg, _⟩, halg', _⟩ := hsame
    have hsize := (algForKey_iff_size (F := F) hrow _).mp (halg ▸ hkey)
    have hsize' := (algForKey_iff_size (F := F) hrow' _).mp (halg' ▸ hkey)
    have hrows : row.size = row'.size := Option.some.inj (hsize.symm.trans hsize')
    exact ⟨row.size, .text a.alg, .text a.jwsAlg, hsize, by rw [hrows]⟩
  · rintro ⟨size, named, named', hcurve, hsame⟩
    simp only [Except.ok.injEq, Prod.mk.injEq] at hsame
    obtain ⟨⟨_, hsize⟩, _, hsize'⟩ := hsame
    have hkey := (algForKey_iff_size (F := F) hrow (Cryptography.curve identity.publicKey)).mpr (by rw [hcurve]; congr 1; omega)
    have hkey' := (algForKey_iff_size (F := F) hrow' (Cryptography.curve identity.publicKey)).mpr (by rw [hcurve]; congr 1; omega)
    have halg : a.alg = a.jwsAlg := Except.ok.inj (hkey.symm.trans hkey')
    exact ⟨a.alg, 2 * row.size, 2 * row'.size, by rw [halg], hkey⟩

end Assertion

/-- The names and lengths that a text announces, where both names are strings. -/
def announced? {F : Type} : Except Raised ((Json F × Nat) × (Json F × Nat)) → Option ((Str × Nat) × (Str × Nat))
  | .ok ((.text a, n), (.text b, m)) => some ((a, n), (b, m))
  | _ => none

private theorem announced?_eq_some {F : Type} {x : Except Raised ((Json F × Nat) × (Json F × Nat))} {a b : Str} {n m : Nat}
    (h : announced? x = some ((a, n), (b, m))) : x = .ok ((.text a, n), (.text b, m)) := by
  unfold announced? at h
  split at h
  · simp only [Option.some.injEq, Prod.mk.injEq] at h
    obtain ⟨⟨rfl, rfl⟩, rfl, rfl⟩ := h
    rfl
  · exact absurd h (by simp)

/-- A P-256 key under ES256. -/
theorem algs_match_key_iff_es256 :
    letI := Sample.runtime
    letI := Sample.cryptography
    ∃ (alg : Str) (n m : Nat), announces Int (Sample.sdp "ES256" 32 "") = .ok ((.text alg, n), (.text alg, m)) ∧
      algForKey Int .secp256r1 = .ok alg := by
  let _ := Sample.runtime
  let _ := Sample.cryptography
  have hok : (verifyServerIdentity (1700000001 : Int) (Sample.sdp "ES256" 32 "")).isOk = true := Sample.sdp_accepted
  obtain ⟨⟨stripped, identity⟩, h⟩ := exists_of_isOk hok
  have hannounced : announced? (announces Int (Sample.sdp "ES256" 32 "")) = some ((str "ES256", 64), (str "ES256", 64)) := by decide +kernel
  exact (algs_match_key_iff h).mpr ⟨32, _, _, rfl, announced?_eq_some hannounced⟩

/-- The same key under ES512, its signatures padded to the width of another curve. -/
theorem es512_accepted_on_p256 :
    letI := Sample.runtime
    letI := Sample.cryptography
    (verifyServerIdentity (1700000001 : Int) (Sample.sdp "ES512" 66 "")).isOk = true ∧
      announced? (announces Int (Sample.sdp "ES512" 66 "")) = some ((str "ES512", 132), (str "ES512", 132)) ∧
      ¬ ∀ (stripped : Str) (identity : ServerIdentity Int),
        verifyServerIdentity (1700000001 : Int) (Sample.sdp "ES512" 66 "") = .ok (stripped, identity) →
          ∃ (alg : Str) (n m : Nat), announces Int (Sample.sdp "ES512" 66 "") = .ok ((.text alg, n), (.text alg, m)) ∧
            algForKey Int (Cryptography.curve identity.publicKey) = .ok alg := by
  let _ := Sample.runtime
  let _ := Sample.cryptography
  have hok : (verifyServerIdentity (1700000001 : Int) (Sample.sdp "ES512" 66 "")).isOk = true := by decide +kernel
  have hannounced : announced? (announces Int (Sample.sdp "ES512" 66 "")) = some ((str "ES512", 132), (str "ES512", 132)) := by decide +kernel
  refine ⟨hok, hannounced, fun hall => ?_⟩
  obtain ⟨⟨stripped, identity⟩, h⟩ := exists_of_isOk hok
  obtain ⟨alg, n, m, hvalue, hkey⟩ := hall stripped identity h
  rw [hvalue] at hannounced
  simp only [announced?, Option.some.injEq, Prod.mk.injEq] at hannounced
  rw [hannounced.1.1] at hkey
  exact absurd (Except.ok.inj hkey) (by decide)

end NetherNet.Identity
