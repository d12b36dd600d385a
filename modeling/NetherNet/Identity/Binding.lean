import NetherNet.Identity.Verifying

/-! What an accepted assertion binds: the key of its token, and through the detached
signature the fingerprint lines of the text that carries it. -/
namespace NetherNet.Identity
open Library

/-! ### Lines that are neither taken out nor changed -/

private theorem filterMap_content {α : Type} {f : Str → Option α} (hf : f [] = none) (s : Str) :
    ((lines s).filterMap fun line => f (strip line)) = (content s).filterMap f := by
  rw [content, List.filterMap_filter, List.filterMap_map]
  apply List.filterMap_congr
  intro line _
  cases hs : strip line with
  | nil => simp [Function.comp, hs, hf]
  | cons c t => simp [Function.comp, hs]

theorem identities_eq_content (sdp : Str) : identities sdp = (content sdp).filterMap identity? := filterMap_content rfl sdp

theorem fingerprints_eq_content (sdp : Str) : fingerprints sdp = (content sdp).filterMap fingerprint? := by
  rw [← filterMap_content rfl, fingerprints, bareLines, List.filterMap_map]
  simp only [Function.comp_def, strip_bare]

/-- Stripping a text takes its identity lines away and leaves what the others hold. -/
theorem content_stripIdentity (sdp : Str) : content (stripIdentity sdp) = (content sdp).filter fun line => (identity? line).isNone := by
  have hmap : ((lines sdp).filter fun line => (identity? (strip line)).isNone).map strip =
      ((lines sdp).map strip).filter fun line => (identity? line).isNone := by
    rw [List.filter_map]
    rfl
  rw [stripIdentity, content_filter, hmap, content, List.filter_filter, List.filter_filter]
  congr 1
  funext line
  rw [Bool.and_comm]

theorem identities_stripIdentity (sdp : Str) : identities (stripIdentity sdp) = [] := by
  rw [identities_eq_content, content_stripIdentity, List.filterMap_eq_nil_iff]
  intro line hline
  exact Option.isNone_iff_eq_none.mp (List.mem_filter.mp hline).2

/-- No line is an identity line and a fingerprint line. -/
private theorem identity?_of_fingerprint? {line : Str} (h : fingerprint? line ≠ none) : identity? line = none := by
  unfold fingerprint? at h
  unfold identity?
  split at h
  · next hfp =>
    rw [if_neg]
    intro hid
    have hlen : (str "a=identity:").length ≤ (str "a=fingerprint:").length := by decide
    have hfront := List.prefix_of_prefix_length_le (List.isPrefixOf_iff_prefix.mp hid) (List.isPrefixOf_iff_prefix.mp hfp) hlen
    exact absurd hfront (by decide)
  · exact absurd rfl h

theorem fingerprints_stripIdentity (sdp : Str) : fingerprints (stripIdentity sdp) = fingerprints sdp := by
  rw [fingerprints_eq_content, fingerprints_eq_content, content_stripIdentity, List.filterMap_filter]
  apply List.filterMap_congr
  intro line _
  by_cases hfp : fingerprint? line = none
  · rw [hfp]
    split <;> rfl
  · rw [identity?_of_fingerprint? hfp]
    rfl

/-! ### The fingerprint payload -/

section Payload
variable {F : Type} [Runtime F]

omit [Runtime F] in
/-- The keys of the payload are in order as they stand. -/
theorem sortKeys_fingerprintObject (entries : List (Str × Str)) :
    Json.sortKeys (fingerprintObject (F := F) entries) = fingerprintObject entries := by
  have hitems : Json.sortItems (entries.map fun e => (Json.object [(str "algorithm", .text e.1), (str "digest", .text e.2)] : Json F)) =
      entries.map fun e => .object [(str "algorithm", .text e.1), (str "digest", .text e.2)] := by
    induction entries with
    | nil => rfl
    | cons e entries ih =>
      have hkeys : Json.textLe (str "algorithm") (str "digest") = true := by decide
      rw [List.map_cons, Json.sortItems, ih]
      simp [Json.sortKeys, Json.sortMembers, Json.insertMember, hkeys]
  rw [fingerprintObject, Json.sortKeys, Json.sortMembers, Json.sortMembers, Json.sortKeys, hitems]
  rfl

private theorem sound_fingerprintObject (entries : List (Str × Str)) : Json.Sound false (fingerprintObject (F := F) entries) := by
  have hitems : Json.SoundItems false
      (entries.map fun e => (Json.object [(str "algorithm", .text e.1), (str "digest", .text e.2)] : Json F)) := by
    induction entries with
    | nil => trivial
    | cons e entries ih =>
      rw [List.map_cons, Json.SoundItems]
      refine ⟨?_, ih⟩
      rw [Json.Sound]
      refine ⟨by simp [str, CodePoint.ofChar], ?_⟩
      simp [Json.SoundMembers, Json.Sound]
  rw [fingerprintObject, Json.Sound]
  refine ⟨by simp, ?_⟩
  rw [Json.SoundMembers, Json.Sound, Json.SoundMembers]
  exact ⟨by simp, hitems, trivial⟩

omit [Runtime F] in
private theorem fingerprintObject_inj {entries others : List (Str × Str)}
    (h : fingerprintObject (F := F) entries = fingerprintObject others) : entries = others := by
  simp only [fingerprintObject, Json.object.injEq, List.cons.injEq, Prod.mk.injEq, Json.array.injEq, true_and, and_true] at h
  refine List.map_injective_iff.mpr ?_ h
  intro a b hab
  simp only [Json.object.injEq, List.cons.injEq, Prod.mk.injEq, Json.text.injEq, true_and, and_true] at hab
  exact Prod.ext hab.1 hab.2

/-- The payload has the fingerprint lines in it, in order. -/
theorem fingerprintPayload_inj {sdp other : Str} {payload : List UInt8} (h : fingerprintPayload F sdp = .ok payload)
    (h' : fingerprintPayload F other = .ok payload) : fingerprints sdp = fingerprints other := by
  rw [fingerprintPayload, canonicalJson, encode, orElse_eq_ok, sortKeys_fingerprintObject] at h h'
  have hread := congrArg (Json.loads (F := F)) (encodeUtf8_inj h h')
  rw [Json.loads_dumps false (sound_fingerprintObject _), Json.loads_dumps false (sound_fingerprintObject _)] at hread
  exact fingerprintObject_inj (Option.some.inj hread)

end Payload

section Assertion
variable [Cryptography] {F : Type} [Runtime F]

/-- Under one key and algorithm a signature text is good for one message. -/
private theorem signed_inj (hbind : ∀ (key : PublicKey) (hash : Hash) (data data' : List UInt8) (signature : Nat × Nat),
      Cryptography.verify key hash data signature = true → Cryptography.verify key hash data' signature = true → data = data')
    {key : PublicKey} {alg : Str} {data data' : List UInt8} {signatureB64 : Str} (h : Signed key alg data signatureB64)
    (h' : Signed key alg data' signatureB64) : data = data' := by
  obtain ⟨signature, hdecoded, hverified⟩ := h
  obtain ⟨other, hother, hverified'⟩ := h'
  obtain rfl := Except.ok.inj (hdecoded.symm.trans hother)
  obtain ⟨row, hrow, hverified⟩ := bind_eq_ok.mp hverified
  obtain ⟨row', hrow', hverified'⟩ := bind_eq_ok.mp hverified'
  obtain rfl := Except.ok.inj (hrow.symm.trans hrow')
  split at hverified
  · exact absurd hverified (by simp)
  · next hsize =>
    rw [if_neg hsize] at hverified'
    exact hbind key row.hash data data' _ (Except.ok.inj hverified) (Except.ok.inj hverified')

private theorem fingerprints_of_checked (hbind : ∀ (key : PublicKey) (hash : Hash) (data data' : List UInt8) (signature : Nat × Nat),
      Cryptography.verify key hash data signature = true → Cryptography.verify key hash data' signature = true → data = data')
    {clock clock' : F} {sdp sdp' stripped stripped' : Str} {identity identity' : ServerIdentity F} {a a' : Assertion F}
    (h : Checked clock sdp stripped identity a) (h' : Checked clock' sdp' stripped' identity' a') (hvalue : a.value = a'.value) :
    fingerprints sdp = fingerprints sdp' := by
  have henvelope : a.envelope = a'.envelope := Except.ok.inj (h.envelope.symm.trans (hvalue ▸ h'.envelope))
  have htoken := h.token.symm.trans (henvelope ▸ h'.token)
  have hpayload : a.payloadB64 = a'.payloadB64 := (List.cons.inj (List.cons.inj htoken).2).1
  have hclaims : a.claims = a'.claims := by
    have hobject := Except.ok.inj (h.claims.symm.trans (hpayload ▸ h'.claims))
    exact Json.object.inj hobject
  have hcpk : a.cpk = a'.cpk := by
    have htext := Option.some.inj (h.cpk.symm.trans (hclaims ▸ h'.cpk))
    exact Json.text.inj htext
  have hkey : identity.publicKey = identity'.publicKey := Except.ok.inj (h.key.symm.trans (hcpk ▸ h'.key))
  have hjws := h.jws.symm.trans (henvelope ▸ h'.jws)
  have hheaderB64 : a.jwsHeaderB64 = a'.jwsHeaderB64 := (List.cons.inj hjws).1
  have hsignature : a.jwsSignatureB64 = a'.jwsSignatureB64 := (List.cons.inj (List.cons.inj (List.cons.inj hjws).2).2).1
  have hheader : a.jwsHeader = a'.jwsHeader := Except.ok.inj (h.jwsHeader.symm.trans (hheaderB64 ▸ h'.jwsHeader))
  have halg : a.jwsAlg = a'.jwsAlg := Except.ok.inj (h.jwsAlg.symm.trans (hheader ▸ h'.jwsAlg))
  obtain ⟨payload, input, hp, hinput, hsigned⟩ := h.jwsSigned
  obtain ⟨payload', input', hp', hinput', hsigned'⟩ := h'.jwsSigned
  have hsame : input = input' := by
    rw [← hkey, ← halg, ← hsignature] at hsigned'
    exact signed_inj hbind hsigned hsigned'
  have htext : a.jwsHeaderB64 ++ str "." ++ b64url payload = a'.jwsHeaderB64 ++ str "." ++ b64url payload' := by
    rw [encode, orElse_eq_ok] at hinput hinput'
    exact encodeUtf8_inj hinput (hsame ▸ hinput')
  rw [hheaderB64] at htext
  have hbytes : payload = payload' := Base64.unpad_urlsafeEncode_inj (List.append_cancel_left htext)
  have hfingerprints := fingerprintPayload_inj hp (hbytes ▸ hp')
  rw [h.stripped, h'.stripped, fingerprints_stripIdentity, fingerprints_stripIdentity] at hfingerprints
  exact hfingerprints

/-- An accepted text comes back without its identity line, under the key of a token that verifies
under that key and has not expired, and with a verified signature over its fingerprint payload. Where
a signature is good for one message only, one identity line fits one list of fingerprints. -/
theorem assertion_binds_fingerprints :
    (∀ (clock : F) (sdp stripped : Str) (identity : ServerIdentity F), verifyServerIdentity clock sdp = .ok (stripped, identity) →
      (∀ line ∈ lines stripped, identity? (strip line) = none) ∧ ∃ a, Checked clock sdp stripped identity a) ∧
    (∀ (sdp sdp' : Str) (payload : List UInt8), fingerprintPayload F sdp = .ok payload → fingerprintPayload F sdp' = .ok payload →
      fingerprints sdp = fingerprints sdp') ∧
    ((∀ (key : PublicKey) (hash : Hash) (data data' : List UInt8) (signature : Nat × Nat),
        Cryptography.verify key hash data signature = true → Cryptography.verify key hash data' signature = true → data = data') →
      ∀ (clock clock' : F) (sdp sdp' stripped stripped' value : Str) (identity identity' : ServerIdentity F),
        verifyServerIdentity clock sdp = .ok (stripped, identity) → verifyServerIdentity clock' sdp' = .ok (stripped', identity') →
        identities sdp = [value] → identities sdp' = [value] → fingerprints sdp = fingerprints sdp') := by
  refine ⟨?_, fun _ _ _ h h' => fingerprintPayload_inj h h', ?_⟩
  · intro clock sdp stripped identity h
    obtain ⟨a, ha⟩ := verifyServerIdentity_eq_ok h
    refine ⟨?_, a, ha⟩
    have hnone := identities_stripIdentity sdp
    rw [← ha.stripped, identities, List.filterMap_eq_nil_iff] at hnone
    exact hnone
  · intro hbind clock clock' sdp sdp' stripped stripped' value identity identity' h h' hone hone'
    obtain ⟨a, ha⟩ := verifyServerIdentity_eq_ok h
    obtain ⟨a', ha'⟩ := verifyServerIdentity_eq_ok h'
    have hvalue : a.value = value := by
      have hlast := ha.value
      rw [hone] at hlast
      exact (Option.some.inj hlast).symm
    have hvalue' : a'.value = value := by
      have hlast := ha'.value
      rw [hone'] at hlast
      exact (Option.some.inj hlast).symm
    exact fingerprints_of_checked hbind ha ha' (hvalue.trans hvalue'.symm)

end Assertion
/-! A P-256 key, and the signatures it made for a token and for one fingerprint line. -/
namespace Sample

@[reducible] def runtime : Runtime Int where
  ofText _ := .nan
  repr _ := []
  lt a b := a < b
  ltInt a b := a < b
  trunc a := a
  isPrintable c := 0x20 ≤ c.val ∧ c.val < 0x7F

def spki : List UInt8 :=
  (packLE 27 0x3059301306072a8648ce3d020106082a8648ce3d03010703420004).reverse ++ (packLE 32 0x008e9555d966e8255985c77da8029f08428bd6facb0cc34c968f45d8a2e3a279).reverse ++
    (packLE 32 0x8ed8ce15e7b5d8690dab4a101594d15a1fc498e016e54b386fb209439364571b).reverse

def claims : Members Int :=
  [(str "cpk", .text (Base64.encode spki)), (str "iat", .int 1700000000), (str "iss", .text (str "unit-test")),
    (str "exp", .int 1702592000)]

def part (v : Json Int) : Str :=
  let := runtime
  b64url ((encodeUtf8 (Json.dumps true v)).getD [])

def tokenInput (alg : String) : Str :=
  part (.object [(str "alg", .text (str alg)), (str "typ", .text (str "JWT"))]) ++ str "." ++ part (.object claims)

def jwsHeader (alg : String) : Str := part (.object [(str "alg", .text (str alg))])

def jwsInput (alg : String) : Str := jwsHeader alg ++ str "." ++ part (fingerprintObject [(str "sha-256", str "4A:AD")])

/-- The two signatures, under ES256 and under ES512. -/
def signatures (alg : String) : (Nat × Nat) × (Nat × Nat) :=
  if alg = "ES256" then
    ((0x78cdedf82be2bc1c91705a4e4260c175d3e41de0324d537625d5233d1485c2fa, 0x6fbbca22e8b9d8247937aa35d84c896ce705834f4ec90cb369578d032f4c6263),
      (0xcd91bbf25839cfe0fb58aa234f0f09f5e707ed23fb16f0fa182c92a3af866e8d, 0x44fcde33dc647e79a862bb730a90c9d0ed20c0a0a14752808442589bacc85c83))
  else
    ((0xd267e95c69ec84b508069dff1f2d1cd78279a1f4bb1443452188dc9ff2cd1584, 0x5ee1471e3bb73093a67e5e4490c7c9c5b1b6fc4b28447aab4cbea7d36b45c818),
      (0xa2820223f353832e5840a5b26e40a09459f4812d7d976283f22301389a4b302a, 0x4bbe82c9e432b4cca8e691a04dcf75bb28dbd04e594603e6ee59f522147f172f))

/-- The text that a signature was made for. -/
def signedText (hash : Hash) (signature : Nat × Nat) : Option Str :=
  let alg := if hash = .sha256 then "ES256" else "ES512"
  if signature = (signatures alg).1 then some (tokenInput alg)
  else if signature = (signatures alg).2 then some (jwsInput alg)
  else none

@[reducible] def cryptography : Cryptography where
  PrivateKey := Unit
  PublicKey := Unit
  curve _ := .secp256r1
  privateCurve _ := .secp256r1
  publicKey _ := ()
  sign _ hash data _ :=
    let alg := if hash = .sha256 then "ES256" else "ES512"
    if encodeUtf8 (tokenInput alg) = some data then (signatures alg).1 else (signatures alg).2
  verify _ hash data signature := decide ((signedText hash signature).bind encodeUtf8 = some data)
  publicBytes _ := spki
  loadDerPublicKey data := if data = spki then some (some ()) else none
  sha256 data := if data = spki then (packLE 32 0x596e57bb96c601c131bf4815e8056e53ca9e53af84497d08467e215d19287007).reverse else []

/-- A signature is one of a single text. -/
theorem verify_inj (hash : Hash) (data data' : List UInt8) (signature : Nat × Nat) (h : cryptography.verify () hash data signature = true)
    (h' : cryptography.verify () hash data' signature = true) : data = data' :=
  Option.some.inj ((of_decide_eq_true h).symm.trans (of_decide_eq_true h'))

def concat (size : Nat) (signature : Nat × Nat) : List UInt8 := (packLE size signature.1).reverse ++ (packLE size signature.2).reverse

/-- The identity line of the assertion with these signatures. -/
def identityLine (alg : String) (size : Nat) : Str :=
  let := runtime
  let token := tokenInput alg ++ str "." ++ b64url (concat size (signatures alg).1)
  let jws := jwsHeader alg ++ str ".." ++ b64url (concat size (signatures alg).2)
  str "a=identity:" ++ (buildEnvelope Int (str "d") token jws).toOption.getD [] ++ str "\n"

/-- Text around a fingerprint line and the identity line. -/
def sdp (alg : String) (size : Nat) (front : String) : Str :=
  str front ++ str "a=fingerprint:sha-256 4A:AD\n" ++ identityLine alg size ++ str "m=x\n"

end Sample

theorem exists_of_isOk {α : Type} {x : Except Raised α} (h : x.isOk = true) : ∃ a, x = .ok a := by
  cases x with
  | error e => exact absurd h (by simp [Except.isOk, Except.toBool])
  | ok a => exact ⟨a, rfl⟩

theorem Sample.sdp_accepted :
    letI := Sample.runtime
    letI := Sample.cryptography
    (verifyServerIdentity (1700000001 : Int) (Sample.sdp "ES256" 32 "")).isOk = true := by
  decide +kernel

/-- One identity line, accepted in two texts. -/
theorem assertion_binds_fingerprints_reused :
    letI := Sample.runtime
    letI := Sample.cryptography
    (verifyServerIdentity (1700000001 : Int) (Sample.sdp "ES256" 32 "")).isOk = true ∧
      (verifyServerIdentity (1700000001 : Int) (Sample.sdp "ES256" 32 "v=0\r\n")).isOk = true ∧
      fingerprints (Sample.sdp "ES256" 32 "") = fingerprints (Sample.sdp "ES256" 32 "v=0\r\n") := by
  let _ := Sample.runtime
  let _ := Sample.cryptography
  have hfirst : (verifyServerIdentity (1700000001 : Int) (Sample.sdp "ES256" 32 "")).isOk = true := Sample.sdp_accepted
  have hsecond : (verifyServerIdentity (1700000001 : Int) (Sample.sdp "ES256" 32 "v=0\r\n")).isOk = true := by decide +kernel
  have hlines : identities (Sample.sdp "ES256" 32 "") = [(identities (Sample.sdp "ES256" 32 "")).headD []] ∧
      identities (Sample.sdp "ES256" 32 "v=0\r\n") = [(identities (Sample.sdp "ES256" 32 "")).headD []] := by decide +kernel
  obtain ⟨⟨stripped, identity⟩, h⟩ := exists_of_isOk hfirst
  obtain ⟨⟨stripped', identity'⟩, h'⟩ := exists_of_isOk hsecond
  exact ⟨hfirst, hsecond, (assertion_binds_fingerprints (F := Int)).2.2 (fun _ => Sample.verify_inj) _ _ _ _ _ _ _ _ _ h h' hlines.1 hlines.2⟩

end NetherNet.Identity
