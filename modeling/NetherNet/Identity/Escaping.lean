import NetherNet.Identity.Binding

/-! Which exceptions leave the functions that read an assertion. -/
namespace NetherNet.Identity
open Library

/-- Whatever is raised is one of these. -/
def OnlyRaises {α : Type} (allowed : Raised → Bool) (x : Except Raised α) : Prop := ∀ e, x = .error e → allowed e = true

/-- Returns, or raises `InvalidIdentity`. -/
abbrev Orderly {α : Type} (x : Except Raised α) : Prop := OnlyRaises Raised.isInvalidIdentity x

section Raising
variable {α β : Type} {allowed : Raised → Bool}

theorem onlyRaises_ok (a : α) : OnlyRaises allowed (.ok a : Except Raised α) := fun _ h => nomatch h

theorem onlyRaises_error {e : Raised} : OnlyRaises allowed (.error e : Except Raised α) ↔ allowed e = true :=
  ⟨fun h => h e rfl, fun h _ he => Except.error.inj he ▸ h⟩

/-- A sequence raises what its first part raises, and what the second raises after a result of the first. -/
theorem onlyRaises_bind {x : Except Raised α} {f : α → Except Raised β} :
    OnlyRaises allowed (x >>= f) ↔ OnlyRaises allowed x ∧ ∀ a, x = .ok a → OnlyRaises allowed (f a) := by
  cases x with
  | error e =>
    rw [onlyRaises_error]
    exact ⟨fun h => ⟨h e rfl, fun _ ha => (nomatch ha)⟩, fun h => onlyRaises_error.mpr h.1⟩
  | ok a => exact ⟨fun h => ⟨onlyRaises_ok a, fun b hb => Except.ok.inj hb ▸ h⟩, fun h => h.2 a rfl⟩

theorem OnlyRaises.mono {more : Raised → Bool} {x : Except Raised α} (h : OnlyRaises allowed x)
    (hm : ∀ e, allowed e = true → more e = true) : OnlyRaises more x := fun e he => hm e (h e he)

theorem onlyRaises_orElse {e : Raised} (he : allowed e = true) (x : Option α) : OnlyRaises allowed (orElse e x) := by
  cases x with
  | none => exact onlyRaises_error.mpr he
  | some a => exact onlyRaises_ok a

theorem orderly_bind {x : Except Raised α} {f : α → Except Raised β} :
    Orderly (x >>= f) ↔ Orderly x ∧ ∀ a, x = .ok a → Orderly (f a) := onlyRaises_bind

theorem orderly_refuse (message : String) : Orderly (refuse (α := α) message) := onlyRaises_error.mpr rfl

/-- What is caught, or is `InvalidIdentity` already, comes out as `InvalidIdentity`. -/
theorem orderly_guarded {caught : Raised → Bool} {message : String} {x : Except Raised α}
    (h : OnlyRaises (fun e => caught e || e.isInvalidIdentity) x) : Orderly (guarded caught message x) := by
  cases x with
  | ok a => exact onlyRaises_ok a
  | error raised =>
    apply onlyRaises_error.mpr
    split
    · rfl
    · next hno => simpa [hno] using h raised rfl

end Raising

theorem orderly_unb64url (text : Str) : Orderly (unb64url text) := orderly_guarded (onlyRaises_orElse rfl _)

/-- A text that decodes as base64 can be encoded again, together with another one. -/
private theorem ascii_of_unb64url {text : Str} {data : List UInt8} (h : unb64url text = .ok data) : ∀ c ∈ text, c.isAscii = true := by
  rw [unb64url, guarded_eq_ok, orElse_eq_ok] at h
  exact List.all_eq_true.mp (Base64.ascii_of_urlsafeDecode h)

/-- A text of which every character is ASCII is encoded. -/
theorem encode_ascii {text : Str} (h : ∀ c ∈ text, c.isAscii = true) : ∃ data, encode text = .ok data :=
  ⟨_, by rw [encode, encodeUtf8_ascii h]; rfl⟩

private theorem encode_signingInput {headerB64 payloadB64 : Str} (hh : ∀ c ∈ headerB64, c.isAscii = true)
    (hp : ∀ c ∈ payloadB64, c.isAscii = true) : ∃ data, encode (headerB64 ++ str "." ++ payloadB64) = .ok data := by
  apply encode_ascii
  have hdot : ∀ c ∈ str ".", c.isAscii = true := List.all_eq_true.mp (by decide)
  exact List.forall_mem_append.mpr ⟨List.forall_mem_append.mpr ⟨hh, hdot⟩, hp⟩

section Reading
variable {F : Type} [Runtime F]

private theorem onlyRaises_loadsBytes (data : List UInt8) : OnlyRaises Raised.isValueError (loadsBytes (F := F) data) := onlyRaises_orElse rfl _

private theorem onlyRaises_decoded (text : Str) :
    OnlyRaises (fun e => e.isValueError || e.isInvalidIdentity) (unb64url text >>= loadsBytes (F := F)) :=
  onlyRaises_bind.mpr ⟨(orderly_unb64url text).mono fun e he => by rw [he, Bool.or_true],
    fun data _ => (onlyRaises_loadsBytes data).mono fun e he => by rw [he, Bool.true_or]⟩

theorem orderly_decodeJws (headerB64 : Str) : Orderly (decodeJws (F := F) headerB64) := orderly_guarded (onlyRaises_decoded headerB64)

theorem orderly_decodeParts (headerB64 payloadB64 : Str) : Orderly (decodeParts (F := F) headerB64 payloadB64) := by
  apply orderly_guarded
  have hheader := onlyRaises_bind.mp (onlyRaises_decoded (F := F) headerB64)
  have hpayload := onlyRaises_bind.mp (onlyRaises_decoded (F := F) payloadB64)
  refine onlyRaises_bind.mpr ⟨hheader.1, fun data hdata => onlyRaises_bind.mpr ⟨hheader.2 data hdata, fun header _ => ?_⟩⟩
  exact onlyRaises_bind.mpr ⟨hpayload.1, fun data hdata => onlyRaises_bind.mpr ⟨hpayload.2 data hdata, fun claims _ => onlyRaises_ok _⟩⟩

omit [Runtime F] in
private theorem onlyRaises_item (key : String) (v : Json F) : OnlyRaises (fun e => isEnvelopeError e || e.isInvalidIdentity) (item key v) := by
  cases v with
  | object members => exact onlyRaises_orElse rfl _
  | _ => exact onlyRaises_error.mpr rfl

private theorem onlyRaises_loads (v : Json F) : OnlyRaises (fun e => isEnvelopeError e || e.isInvalidIdentity) (loads v) := by
  cases v with
  | text s => exact onlyRaises_orElse rfl _
  | _ => exact onlyRaises_error.mpr rfl

/-- Whatever is wrong with an envelope is caught. -/
theorem orderly_parseEnvelope (value : Str) : Orderly (parseEnvelope F value) := by
  apply orderly_guarded
  refine onlyRaises_bind.mpr ⟨onlyRaises_orElse rfl _, fun data _ => onlyRaises_bind.mpr ⟨onlyRaises_orElse rfl _, fun outer _ => ?_⟩⟩
  refine onlyRaises_bind.mpr ⟨onlyRaises_item _ _, fun idp _ => onlyRaises_bind.mpr ⟨onlyRaises_item _ _, fun assertion _ => ?_⟩⟩
  refine onlyRaises_bind.mpr ⟨onlyRaises_loads _, fun inner _ => onlyRaises_bind.mpr ⟨onlyRaises_item _ _, fun domain _ => ?_⟩⟩
  refine onlyRaises_bind.mpr ⟨onlyRaises_item _ _, fun protocol _ => onlyRaises_bind.mpr ⟨onlyRaises_item _ _, fun token _ => ?_⟩⟩
  exact onlyRaises_bind.mpr ⟨onlyRaises_item _ _, fun fingerprints _ => onlyRaises_ok _⟩

theorem orderly_extractIdentity (sdp : Str) : Orderly (extractIdentity F sdp) := by
  unfold extractIdentity
  split
  · exact onlyRaises_ok _
  · exact onlyRaises_bind.mpr ⟨orderly_parseEnvelope _, fun envelope _ => onlyRaises_ok _⟩

theorem orderly_decodeJwt (token : Str) : Orderly (decodeJwt (F := F) token) := by
  unfold decodeJwt
  split
  · next headerB64 payloadB64 signatureB64 _ =>
    refine onlyRaises_bind.mpr ⟨orderly_decodeParts _ _, fun parts hparts => ?_⟩
    split
    · have hascii : (∀ c ∈ headerB64, c.isAscii = true) ∧ ∀ c ∈ payloadB64, c.isAscii = true := by
        rw [decodeParts, guarded_eq_ok] at hparts
        obtain ⟨headerBytes, hheader, hparts⟩ := bind_eq_ok.mp hparts
        obtain ⟨_, _, hparts⟩ := bind_eq_ok.mp hparts
        obtain ⟨payloadBytes, hpayload, _⟩ := bind_eq_ok.mp hparts
        exact ⟨ascii_of_unb64url hheader, ascii_of_unb64url hpayload⟩
      obtain ⟨data, hdata⟩ := encode_signingInput hascii.1 hascii.2
      refine onlyRaises_bind.mpr ⟨by rw [hdata]; exact onlyRaises_ok _, fun input _ => ?_⟩
      exact onlyRaises_bind.mpr ⟨orderly_unb64url _, fun signature _ => onlyRaises_ok _⟩
    · exact orderly_refuse _
  · exact orderly_refuse _

/-- A value that can be looked up in a dictionary. -/
def hashable : Json F → Bool
  | .array _ | .object _ => false
  | _ => true

theorem orderly_supportedAlg (message : String) (alg : Json F) : Orderly (supportedAlg message alg) ↔ hashable alg = true := by
  have herror : ∀ text : Str, Orderly (.error (.invalidIdentity text) : Except Raised Str) := fun text => onlyRaises_error.mpr rfl
  cases alg with
  | array items => exact ⟨fun h => absurd (h _ rfl) (by decide), fun h => absurd h (by simp [hashable])⟩
  | object members => exact ⟨fun h => absurd (h _ rfl) (by decide), fun h => absurd h (by simp [hashable])⟩
  | text name =>
    refine ⟨fun _ => rfl, fun _ => ?_⟩
    refine onlyRaises_bind.mpr ⟨onlyRaises_ok _, fun known _ => ?_⟩
    cases known with
    | none => exact herror _
    | some alg => exact onlyRaises_ok _
  | null => exact ⟨fun _ => rfl, fun _ => herror _⟩
  | bool b => exact ⟨fun _ => rfl, fun _ => herror _⟩
  | int n => exact ⟨fun _ => rfl, fun _ => herror _⟩
  | float x => exact ⟨fun _ => rfl, fun _ => herror _⟩

theorem lookup_of_supportedAlg {message : String} {v : Json F} {alg : Str} (h : supportedAlg message v = .ok alg) :
    v = .text alg ∧ ∃ row, lookup alg algorithms = some row := by
  obtain ⟨known, hknown, h⟩ := bind_eq_ok.mp h
  cases known with
  | none => exact absurd h (by simp)
  | some name =>
    obtain rfl := Except.ok.inj h
    cases v with
    | text s =>
      have hs := Except.ok.inj hknown
      split at hs
      · next hsome =>
        obtain rfl := Option.some.inj hs
        exact ⟨rfl, Option.isSome_iff_exists.mp hsome⟩
      · exact absurd hs (by simp)
    | array items => exact absurd hknown (by simp [knownAlg])
    | object members => exact absurd hknown (by simp [knownAlg])
    | null => exact absurd hknown (by simp [knownAlg])
    | bool b => exact absurd hknown (by simp [knownAlg])
    | int n => exact absurd hknown (by simp [knownAlg])
    | float x => exact absurd hknown (by simp [knownAlg])

theorem supportedAlg_text {message : String} {v : Json F} {alg : Str} (hv : v = .text alg) (h : (lookup alg algorithms).isSome) :
    supportedAlg message v = .ok alg := by
  rw [hv, supportedAlg, knownAlg, if_pos h]
  rfl

/-! ### The fingerprint payload -/

def hasSurrogate (s : Str) : Bool := s.any CodePoint.isSurrogate

private theorem hasSurrogate_append (s t : Str) : hasSurrogate (s ++ t) = (hasSurrogate s || hasSurrogate t) := List.any_append

private theorem hasSurrogate_cons (c : CodePoint) (s : Str) : hasSurrogate (c :: s) = (c.isSurrogate || hasSurrogate s) := rfl

private theorem hasSurrogate_escape (c : CodePoint) : hasSurrogate (Json.escape false c) = c.isSurrogate := by
  unfold Json.escape
  cases hs : Json.shortEscape? c with
  | some e =>
    have hboth : e.isSurrogate = false ∧ c.isSurrogate = false := by
      unfold Json.shortEscape? at hs
      repeat'
        split at hs
        · next heq =>
          rw [← Option.some.inj hs, heq]
          decide
      exact absurd hs (by simp)
    simp [hasSurrogate, hboth.1, hboth.2]
    decide
  | none =>
    simp only
    split
    · next hcontrol =>
      have hlow : c.val < 0x20 := by simpa using hcontrol
      have hall : ∀ n : Fin 0x20, hasSurrogate (Json.unicodeEscape n.val) = false := by decide
      rw [if_pos (by omega), hall ⟨c.val, hlow⟩]
      simp only [CodePoint.isSurrogate, Bool.false_eq, decide_eq_false_iff_not]
      omega
    · simp [hasSurrogate]

private theorem hasSurrogate_literal (s : Str) : hasSurrogate (Json.literal false s) = hasSurrogate s := by
  have hbody : hasSurrogate (s.flatMap (Json.escape false)) = hasSurrogate s := by
    induction s with
    | nil => rfl
    | cons c s ih => rw [List.flatMap_cons, hasSurrogate_append, hasSurrogate_escape, ih, hasSurrogate_cons]
  have hquote : Json.quote.isSurrogate = false := by decide
  rw [Json.literal, hasSurrogate_cons, hasSurrogate_append, hbody, hasSurrogate_cons, hquote]
  simp [hasSurrogate]

private theorem punctuation : Json.openBrace.isSurrogate = false ∧ Json.closeBrace.isSurrogate = false ∧ Json.openBracket.isSurrogate = false ∧
    Json.closeBracket.isSurrogate = false ∧ Json.colon.isSurrogate = false ∧ Json.comma.isSurrogate = false := by decide

private theorem hasSurrogate_entry (e : Str × Str) :
    hasSurrogate (Json.dumps false (.object [(str "algorithm", .text e.1), (str "digest", .text e.2)] : Json F)) =
      (hasSurrogate e.1 || hasSurrogate e.2) := by
  obtain ⟨hbrace, hclose, _, _, hcolon, hcomma⟩ := punctuation
  have hkeys : hasSurrogate (str "algorithm") = false ∧ hasSurrogate (str "digest") = false := by decide
  have hnil : hasSurrogate [] = false := rfl
  simp only [Json.dumps, Json.dumpsMembers, Json.dumpsMoreMembers, hasSurrogate_cons, hasSurrogate_append, hasSurrogate_literal, hbrace, hclose,
    hcolon, hcomma, hkeys, hnil, Bool.false_or, Bool.or_false]

private theorem hasSurrogate_moreEntries (entries : List (Str × Str)) :
    hasSurrogate (Json.dumpsMoreItems false
      (entries.map fun e => (Json.object [(str "algorithm", .text e.1), (str "digest", .text e.2)] : Json F))) =
      entries.any fun e => hasSurrogate e.1 || hasSurrogate e.2 := by
  obtain ⟨_, _, _, hbracket, _, hcomma⟩ := punctuation
  induction entries with
  | nil => rw [List.map_nil, Json.dumpsMoreItems, hasSurrogate_cons, hbracket]; rfl
  | cons e entries ih =>
    rw [List.map_cons, Json.dumpsMoreItems, hasSurrogate_cons, hasSurrogate_append, hasSurrogate_entry, ih, hcomma, Bool.false_or, List.any_cons]

/-- The surrogates of the payload are those of the fingerprint lines. -/
private theorem hasSurrogate_payload (entries : List (Str × Str)) :
    hasSurrogate (Json.dumps false (fingerprintObject (F := F) entries)) = entries.any fun e => hasSurrogate e.1 || hasSurrogate e.2 := by
  obtain ⟨hbrace, hclose, hopen, hbracket, hcolon, _⟩ := punctuation
  have hkey : hasSurrogate (str "fingerprint") = false := by decide
  have hnil : hasSurrogate [] = false := rfl
  have hitems : hasSurrogate (Json.dumpsItems false
      (entries.map fun e => (Json.object [(str "algorithm", .text e.1), (str "digest", .text e.2)] : Json F))) =
      entries.any fun e => hasSurrogate e.1 || hasSurrogate e.2 := by
    cases entries with
    | nil => rw [List.map_nil, Json.dumpsItems, hasSurrogate_cons, hbracket]; rfl
    | cons e entries =>
      rw [List.map_cons, Json.dumpsItems, hasSurrogate_append, hasSurrogate_entry, hasSurrogate_moreEntries, List.any_cons]
  rw [fingerprintObject]
  simp only [Json.dumps, Json.dumpsMembers, Json.dumpsMoreMembers, hasSurrogate_cons, hasSurrogate_append, hasSurrogate_literal, hitems, hbrace,
    hclose, hopen, hcolon, hkey, hnil, Bool.false_or, Bool.or_false]

/-- Fingerprint lines without a lone surrogate. -/
def Encodable (sdp : Str) : Prop := ∀ e ∈ fingerprints sdp, hasSurrogate e.1 = false ∧ hasSurrogate e.2 = false

instance (sdp : Str) : Decidable (Encodable sdp) := inferInstanceAs (Decidable (∀ e ∈ fingerprints sdp, _))

theorem fingerprintPayload_eq (sdp : Str) : fingerprintPayload F sdp = encode (Json.dumps false (fingerprintObject (F := F) (fingerprints sdp))) := by
  rw [fingerprintPayload, canonicalJson, sortKeys_fingerprintObject]

theorem orderly_fingerprintPayload (sdp : Str) : Orderly (fingerprintPayload F sdp) ↔ Encodable sdp := by
  have hany : hasSurrogate (Json.dumps false (fingerprintObject (F := F) (fingerprints sdp))) = false ↔ Encodable sdp := by
    rw [hasSurrogate_payload, List.any_eq_false]
    simp [Encodable]
  rw [← hany, fingerprintPayload_eq, encode, encodeUtf8]
  cases hs : hasSurrogate (Json.dumps false (fingerprintObject (F := F) (fingerprints sdp))) with
  | true =>
    rw [hasSurrogate] at hs
    rw [if_pos hs]
    exact ⟨fun h => absurd (h _ rfl) (by decide), fun h => absurd h (by decide)⟩
  | false =>
    rw [hasSurrogate] at hs
    rw [if_neg (by simp [hs])]
    exact ⟨fun _ => rfl, fun _ => onlyRaises_ok _⟩

end Reading

section Verifying
variable [Cryptography] {F : Type} [Runtime F]

private theorem orderly_verifyRaw {publicKey : PublicKey} {alg : Str} {row : Algorithm} (h : lookup alg algorithms = some row)
    (data signature : List UInt8) : Orderly (verifyRaw publicKey alg data signature) := by
  refine onlyRaises_bind.mpr ⟨by rw [h]; exact onlyRaises_ok _, fun row _ => ?_⟩
  split <;> exact onlyRaises_ok _

omit [Cryptography] [Runtime F] in
private theorem orderly_cpkOf (claims : Members F) : Orderly (cpkOf claims) := by
  unfold cpkOf
  split
  · exact onlyRaises_ok _
  · exact orderly_refuse _

private theorem orderly_decodeCpk (text : Str) : Orderly (decodeCpk text) := by
  unfold decodeCpk
  split
  · exact orderly_refuse _
  · exact orderly_refuse _
  · exact onlyRaises_ok _

/-- The detached signature has a header that decodes. -/
def JwsHeader (jws : Str) (header : Json F) : Prop :=
  ∃ headerB64 signatureB64, jws.splitOn Json.point = [headerB64, [], signatureB64] ∧ decodeJws headerB64 = .ok header

/-- The header of a detached signature and the fingerprint lines raise nothing else: a name that can be
looked up, and where it is supported, lines that can be encoded. -/
def JwsReadable (sdp jws : Str) (F : Type) [Runtime F] : Prop :=
  ∀ header : Json F, JwsHeader jws header →
    hashable (jwsAlgOf header) = true ∧ ((∃ name, jwsAlgOf header = .text name ∧ (lookup name algorithms).isSome) → Encodable sdp)

/-- Behind a known algorithm only the fingerprint lines can raise something else. -/
private theorem orderly_verifyPayload {sdp headerB64 signatureB64 alg : Str} {publicKey : PublicKey} {row : Algorithm}
    (hh : ∀ c ∈ headerB64, c.isAscii = true) (hrow : lookup alg algorithms = some row) :
    Orderly (do
      let payload := b64url (← fingerprintPayload F sdp)
      let signingInput ← encode (headerB64 ++ str "." ++ payload)
      if ← verifyRaw publicKey alg signingInput (← unb64url signatureB64) then Except.ok ()
      else refuse "fingerprint signature verification failed") ↔ Encodable sdp := by
  rw [orderly_bind, orderly_fingerprintPayload]
  refine and_iff_left fun payload _ => ?_
  have hpayload : ∀ c ∈ b64url payload, c.isAscii = true := fun c hc => (Base64.unpad_plain hc).1
  obtain ⟨data, hdata⟩ := encode_signingInput hh hpayload
  refine orderly_bind.mpr ⟨by rw [hdata]; exact onlyRaises_ok _, fun input _ => ?_⟩
  refine orderly_bind.mpr ⟨orderly_unb64url _, fun signature _ => ?_⟩
  refine orderly_bind.mpr ⟨orderly_verifyRaw hrow _ _, fun verified _ => ?_⟩
  split
  · exact onlyRaises_ok _
  · exact orderly_refuse _

theorem orderly_verifyFingerprints (sdp jws : Str) (publicKey : PublicKey) :
    Orderly (verifyFingerprints F sdp jws publicKey) ↔ JwsReadable sdp jws F := by
  unfold verifyFingerprints
  split
  · next headerB64 signatureB64 hjws =>
    have hone : ∀ header : Json F, JwsHeader jws header ↔ decodeJws headerB64 = .ok header := by
      intro header
      constructor
      · rintro ⟨h, s, hsplit, hheader⟩
        rw [hjws] at hsplit
        rw [(List.cons.inj hsplit).1]
        exact hheader
      · exact fun hheader => ⟨headerB64, signatureB64, hjws, hheader⟩
    rw [orderly_bind, and_iff_right (orderly_decodeJws headerB64)]
    refine forall_congr' fun header => ?_
    rw [hone header]
    refine imp_congr_right fun hheader => ?_
    have hascii : ∀ c ∈ headerB64, c.isAscii = true := by
      rw [decodeJws, guarded_eq_ok] at hheader
      obtain ⟨data, hdata, _⟩ := bind_eq_ok.mp hheader
      exact ascii_of_unb64url hdata
    rw [orderly_bind, orderly_supportedAlg]
    refine and_congr_right fun _ => ?_
    constructor
    · rintro hall ⟨name, hname, hknown⟩
      obtain ⟨row, hrow⟩ := Option.isSome_iff_exists.mp hknown
      exact (orderly_verifyPayload hascii hrow).mp (hall name (supportedAlg_text hname hknown))
    · intro hencodable alg halg
      obtain ⟨hname, row, hrow⟩ := lookup_of_supportedAlg halg
      exact (orderly_verifyPayload hascii hrow).mpr (hencodable ⟨alg, hname, by rw [hrow]; rfl⟩)
  · next hno =>
    refine ⟨fun _ header hheader => ?_, fun _ => orderly_refuse _⟩
    obtain ⟨h, s, hsplit, _⟩ := hheader
    exact absurd hsplit (hno h s)

/-- The token verifies under its own key and has not expired. -/
def TokenStands (clock : F) (jwt : Jwt F) : Prop :=
  ∃ alg cpk publicKey, (algOf jwt.header = .text alg ∧ (lookup alg algorithms).isSome) ∧ cpkOf jwt.claims = .ok cpk ∧
    decodeCpk cpk = .ok publicKey ∧ verifyRaw publicKey alg jwt.signingInput jwt.signature = .ok true ∧
    expired clock (Json.get? (str "exp") jwt.claims) = false

private theorem orderly_verifyToken {clock : F} {sdp : Str} {envelope : IdentityEnvelope} (jwt : Jwt F) :
    Orderly (do
      let alg ← supportedAlg "unsupported JWT alg " (algOf jwt.header)
      let cpk ← cpkOf jwt.claims
      let publicKey ← decodeCpk cpk
      if !(← verifyRaw publicKey alg jwt.signingInput jwt.signature) then refuse "JWT self-signature verification failed"
      else if expired clock (Json.get? (str "exp") jwt.claims) then refuse "server identity token expired"
      else
        verifyFingerprints F (stripIdentity sdp) envelope.fingerprints publicKey
        Except.ok (stripIdentity sdp, (⟨envelope.domain, jwt.claims, publicKey, cpkDigest publicKey⟩ : ServerIdentity F))) ↔
      hashable (algOf jwt.header) = true ∧ (TokenStands clock jwt → JwsReadable sdp envelope.fingerprints F) := by
  have hjws : ∀ publicKey, Orderly (verifyFingerprints F (stripIdentity sdp) envelope.fingerprints publicKey) ↔
      JwsReadable sdp envelope.fingerprints F := by
    intro publicKey
    rw [orderly_verifyFingerprints]
    simp only [JwsReadable, Encodable, fingerprints_stripIdentity]
  rw [orderly_bind, orderly_supportedAlg]
  refine and_congr_right fun _ => ?_
  constructor
  · rintro hall ⟨alg, cpk, publicKey, ⟨hname, hknown⟩, hcpk, hkey, hverified, hfresh⟩
    have hrest := hall alg (supportedAlg_text hname hknown)
    have hchecks := (orderly_bind.mp ((orderly_bind.mp hrest).2 cpk hcpk)).2 publicKey hkey
    have hlast := (orderly_bind.mp hchecks).2 true hverified
    simp only [Bool.not_true, Bool.false_eq_true, if_false, hfresh] at hlast
    exact (hjws publicKey).mp (orderly_bind.mp hlast).1
  · intro hreadable alg halg
    obtain ⟨hname, row, hrow⟩ := lookup_of_supportedAlg halg
    refine orderly_bind.mpr ⟨orderly_cpkOf _, fun cpk hcpk => orderly_bind.mpr ⟨orderly_decodeCpk _, fun publicKey hkey => ?_⟩⟩
    refine orderly_bind.mpr ⟨orderly_verifyRaw hrow _ _, fun verified hverified => ?_⟩
    split
    · exact orderly_refuse _
    · next hok =>
      split
      · exact orderly_refuse _
      · next hfresh =>
        have htrue : verified = true := by simpa using hok
        have hstands : TokenStands clock jwt :=
          ⟨alg, cpk, publicKey, ⟨hname, by rw [hrow]; rfl⟩, hcpk, hkey, htrue ▸ hverified, by simpa using hfresh⟩
        exact orderly_bind.mpr ⟨(hjws publicKey).mpr (hreadable hstands), fun _ _ => onlyRaises_ok _⟩

/-- Reading a text raises nothing but `InvalidIdentity` exactly where the token's `alg` can be looked
up and, behind a token that stands, so can that of the detached signature, and no fingerprint
line that is then written out holds a lone surrogate. -/
theorem only_invalid_identity_escapes (clock : F) (sdp : Str) :
    (Orderly (extractIdentity F sdp) ∧ Orderly (verifyServerIdentity clock sdp)) ↔
      ∀ (value : Str) (envelope : IdentityEnvelope) (jwt : Jwt F), (identities sdp).getLast? = some value →
        parseEnvelope F value = .ok envelope → decodeJwt envelope.token = .ok jwt →
          hashable (algOf jwt.header) = true ∧ (TokenStands clock jwt → JwsReadable sdp envelope.fingerprints F) := by
  rw [and_iff_right (orderly_extractIdentity sdp), verifyServerIdentity, orderly_bind, and_iff_right (orderly_extractIdentity sdp)]
  constructor
  · intro hall value envelope jwt hvalue henvelope hjwt
    have hextracted : extractIdentity F sdp = .ok (stripIdentity sdp, some envelope) := by
      unfold extractIdentity
      rw [hvalue]
      exact bind_eq_ok.mpr ⟨envelope, henvelope, rfl⟩
    exact (orderly_verifyToken jwt).mp ((orderly_bind.mp (hall _ hextracted)).2 jwt hjwt)
  · intro hall extracted hextracted
    split
    · exact orderly_refuse _
    · next stripped envelope =>
      obtain ⟨value, hvalue, henvelope, rfl⟩ := extractIdentity_eq_ok hextracted
      exact orderly_bind.mpr ⟨orderly_decodeJwt _, fun jwt hjwt => (orderly_verifyToken jwt).mpr (hall value envelope jwt hvalue henvelope hjwt)⟩

end Verifying

/-- The exception that a call raises. -/
def raised? {α : Type} : Except Raised α → Option Raised
  | .ok _ => none
  | .error e => some e

/-- An envelope whose token has the header `{"alg":[]}`. -/
def Sample.listAlg : Str :=
  str "a=identity:" ++
    str "eyJpZHAiOnsiZG9tYWluIjoiZCIsInByb3RvY29sIjoiZGVmYXVsdCJ9LCJhc3NlcnRpb24iOiJ7XCJ0b2tlblwiOlwiZXlK" ++
    str "aGJHY2lPbHRkZlEuZTMwLlwiLFwiZmluZ2VycHJpbnRzXCI6XCJcIn0ifQ=="

/-- A list cannot be looked up. -/
theorem list_alg_escapes :
    letI := Sample.runtime
    letI := Sample.cryptography
    ¬ Orderly (verifyServerIdentity (1700000001 : Int) Sample.listAlg) := by
  let _ := Sample.runtime
  let _ := Sample.cryptography
  intro horderly
  have hraised : raised? (verifyServerIdentity (1700000001 : Int) Sample.listAlg) = some .typeError := by decide +kernel
  cases h : verifyServerIdentity (1700000001 : Int) Sample.listAlg with
  | ok r =>
    rw [h] at hraised
    exact absurd hraised (by simp [raised?])
  | error e =>
    rw [h] at hraised
    obtain rfl := Option.some.inj hraised
    exact absurd (horderly _ h) (by decide)

end NetherNet.Identity
