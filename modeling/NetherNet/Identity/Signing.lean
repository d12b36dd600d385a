import NetherNet.Identity.Escaping

/-! An assertion that a signer produced, and what verifying it gives back. -/
namespace NetherNet.Identity
open Library

/-! ### The identity line -/

/-- Visible ASCII is neither space nor a line break. -/
private theorem visible {c : CodePoint} (ha : c.isAscii = true) (hc : 0x20 < c.val) : isSpace c = false := by
  simp only [CodePoint.isAscii, decide_eq_true_eq] at ha
  simp only [isSpace, decide_eq_false_iff_not]
  omega

/-- Where a line is put in: before the first `m=` line, or at the end where there is none. -/
private theorem insertLine_split (identity : Str) (ls : List Str) :
    ∃ before after, ls = before ++ after ∧ insertLine identity ls = before ++ identity :: after ∧
      (∀ line ∈ before, (str "m=").isPrefixOf line = false) ∧ ∀ line ∈ after.head?, (str "m=").isPrefixOf line = true := by
  induction ls with
  | nil => exact ⟨[], [], rfl, rfl, by simp, by simp⟩
  | cons line rest ih =>
    by_cases hm : (str "m=").isPrefixOf line = true
    · refine ⟨[], line :: rest, rfl, by rw [insertLine, if_pos hm]; rfl, by simp, ?_⟩
      rintro first hfirst
      obtain rfl := Option.some.inj hfirst
      exact hm
    · obtain ⟨before, after, rfl, hins, hbefore, hafter⟩ := ih
      refine ⟨line :: before, after, rfl, by rw [insertLine, if_neg hm, hins]; rfl, ?_, hafter⟩
      exact List.forall_mem_cons.mpr ⟨Bool.eq_false_iff.mpr hm, hbefore⟩

/-- A text in which an identity line can stand: it ends in a line break or has an `m=` line. -/
def Insertable (sdp : Str) : Prop := Closed sdp ∨ ∃ line ∈ lines sdp, (str "m=").isPrefixOf line = true

private theorem closed_flatten {ls : List Str} (h : ∀ line ∈ ls, Closed line) : ls = [] ∨ Closed ls.flatten := by
  induction ls using List.reverseRecOn with
  | nil => exact .inl rfl
  | append_singleton ls line _ =>
    have hline : Closed line := h line (by simp)
    have hne : line ≠ [] := by
      rintro rfl
      obtain ⟨c, hc, _⟩ := hline
      exact absurd hc (by simp)
    rw [List.flatten_append, List.flatten_singleton]
    exact .inr ((closed_append hne).mpr hline)

private theorem lines_front {before : List Str} {t : Str} (h : before = [] ∨ Closed before.flatten) (ht : t.head? ≠ some lineFeed) :
    lines (before.flatten ++ t) = lines before.flatten ++ lines t := by
  obtain rfl | h := h
  · rfl
  · exact lines_append h fun hm => ht hm.2

/-- The inserted line is one more line of the text, before the first `m=` line, and the others stay as they are. -/
theorem lines_insertIdentity {sdp envelope : Str} (hsdp : sdp = [] ∨ Insertable sdp)
    (he : ∀ c ∈ envelope, c.isAscii = true ∧ 0x20 < c.val) :
    ∃ before after, lines sdp = before ++ after ∧
      lines (insertIdentity sdp envelope) = before ++ (str "a=identity:" ++ envelope ++ newline sdp) :: after ∧
      (∀ line ∈ before, (str "m=").isPrefixOf line = false) ∧ ∀ line ∈ after.head?, (str "m=").isPrefixOf line = true := by
  have hnewline : newline sdp = [lineFeed] ∨ newline sdp = [carriageReturn, lineFeed] := by
    unfold newline
    split
    · exact .inr rfl
    · exact .inl rfl
  have hbody : ∀ c ∈ str "a=identity:" ++ envelope, isLineBreak c = false := by
    have hname : ∀ c ∈ str "a=identity:", isLineBreak c = false := fun c hc =>
      (Bool.not_eq_true' _).mp (List.all_eq_true.mp (show (str "a=identity:").all (fun c => !isLineBreak c) = true by decide) c hc)
    refine List.forall_mem_append.mpr ⟨hname, fun c hc => ?_⟩
    by_contra hbreak
    have hspace := isSpace_of_isLineBreak (Bool.not_eq_false _ ▸ hbreak)
    rw [visible (he c hc).1 (he c hc).2] at hspace
    exact absurd hspace (by decide)
  obtain ⟨before, after, hlines, hins, hnone, hfirst⟩ := insertLine_split (str "a=identity:" ++ envelope ++ newline sdp) (lines sdp)
  refine ⟨before, after, hlines, ?_, hnone, hfirst⟩
  have hafter : lines after.flatten = after := lines_drop hlines
  have hbreak : IsLine (newline sdp) := by
    obtain h | h := hnewline <;> rw [h] <;> rfl
  have hline : lines (str "a=identity:" ++ envelope ++ newline sdp) = [str "a=identity:" ++ envelope ++ newline sdp] :=
    (isLine_append hbody (List.append_ne_nil_of_left_ne_nil (by decide) envelope)).mpr (.inr hbreak)
  have hlineClosed : Closed (str "a=identity:" ++ envelope ++ newline sdp) := by
    rw [closed_append (by obtain h | h := hnewline <;> simp [h])]
    obtain h | h := hnewline <;> rw [h] <;> exact ⟨lineFeed, rfl, by decide⟩
  have hmedia : after.flatten.head? ≠ some lineFeed := by
    cases after with
    | nil => simp
    | cons line rest =>
      have hm := hfirst line rfl
      cases line with
      | nil => exact absurd hm (by decide)
      | cons c line =>
        intro h
        obtain rfl : c = lineFeed := Option.some.inj h
        simp [str, List.isPrefixOf, CodePoint.ofChar] at hm
        exact absurd hm.1 (by decide)
  have hfront : before = [] ∨ Closed before.flatten := by
    cases after with
    | nil =>
      rw [List.append_nil] at hlines
      rw [← hlines, flatten_lines]
      obtain rfl | hclosed | ⟨line, hline, hm⟩ := hsdp
      · exact .inl rfl
      · exact .inr hclosed
      · rw [hlines] at hline
        exact absurd hm (by simp [hnone line hline])
    | cons line rest =>
      have hall := lines_closed sdp
      rw [hlines, List.pairwise_append] at hall
      exact closed_flatten fun b hb => hall.2.2 b hb line List.mem_cons_self
  have hbefore : lines before.flatten = before := by
    have hwhole : lines (before.flatten ++ after.flatten) = lines before.flatten ++ lines after.flatten := lines_front hfront hmedia
    rw [← List.flatten_append, ← hlines, flatten_lines, hafter] at hwhole
    exact (List.append_cancel_right (hlines.symm.trans hwhole)).symm
  have hins' : insertIdentity sdp envelope =
      before.flatten ++ ((str "a=identity:" ++ envelope ++ newline sdp) ++ after.flatten) := by
    rw [insertIdentity, hins, List.flatten_append, List.flatten_cons]
  have hstart : ((str "a=identity:" ++ envelope ++ newline sdp) ++ after.flatten).head? ≠ some lineFeed := by
    intro h
    exact absurd (Option.some.inj h) (by decide)
  rw [hins', lines_front hfront hstart, hbefore, lines_append hlineClosed fun hm => hmedia hm.2, hline, hafter]
  rfl

/-- What is inserted is found again, and taking it out restores the text. -/
theorem insertIdentity_extracted {sdp envelope : Str} (hsdp : sdp = [] ∨ Insertable sdp) (hnone : identities sdp = [])
    (he : ∀ c ∈ envelope, c.isAscii = true ∧ 0x20 < c.val) :
    identities (insertIdentity sdp envelope) = [envelope] ∧ stripIdentity (insertIdentity sdp envelope) = sdp := by
  obtain ⟨before, after, hlines, hins, _, _⟩ := lines_insertIdentity hsdp he
  have hstrip : strip (str "a=identity:" ++ envelope ++ newline sdp) = str "a=identity:" ++ envelope := by
    have htail : ∀ c ∈ newline sdp, isSpace c = true := by
      unfold newline
      split <;> simp [carriageReturn, lineFeed, isSpace]
    have hname : ∀ c ∈ str "a=identity:", isSpace c = false := fun c hc =>
      (Bool.not_eq_true' _).mp (List.all_eq_true.mp (show (str "a=identity:").all (fun c => !isSpace c) = true by decide) c hc)
    rw [strip_append htail, strip_of_no_space (List.forall_mem_append.mpr ⟨hname, fun c hc => visible (he c hc).1 (he c hc).2⟩)]
  have hvalue : identity? (strip (str "a=identity:" ++ envelope ++ newline sdp)) = some envelope := by
    rw [hstrip, identity?, if_pos (List.isPrefixOf_iff_prefix.mpr (List.prefix_append _ _)), List.drop_left]
  rw [identities, hlines, List.filterMap_append, List.append_eq_nil_iff] at hnone
  refine ⟨?_, ?_⟩
  · rw [identities, hins, List.filterMap_append, List.filterMap_cons, hvalue, hnone.1, hnone.2]
    rfl
  · have hkeep : ∀ {ls : List Str}, ls.filterMap (fun line => identity? (strip line)) = [] →
        ls.filter (fun line => (identity? (strip line)).isNone) = ls := by
      intro ls h
      rw [List.filter_eq_self]
      intro line hl
      rw [List.filterMap_eq_nil_iff.mp h line hl]
      rfl
    rw [stripIdentity, hins, List.filter_append, List.filter_cons, hvalue, hkeep hnone.1, hkeep hnone.2]
    simp only [Option.isNone_some, Bool.false_eq_true, if_false]
    rw [← hlines, flatten_lines]

/-! ### Codecs -/

theorem b64url_plain {data : List UInt8} {c : CodePoint} (h : c ∈ b64url data) : c.isAscii = true ∧ c ≠ Json.point := Base64.unpad_plain h

theorem unb64url_b64url (data : List UInt8) : unb64url (b64url data) = .ok data := by
  rw [unb64url, guarded_eq_ok, orElse_eq_ok]
  exact Base64.urlsafeDecode_repad data

theorem unpaired_of_ascii {s : Str} (h : ∀ c ∈ s, c.isAscii = true) : Json.Unpaired s := by
  induction s with
  | nil => exact List.isChain_nil
  | cons c s ih =>
    have hrest := ih fun d hd => h d (List.mem_cons_of_mem _ hd)
    have hc : c.isHigh = false := by
      have := h c List.mem_cons_self
      simp only [CodePoint.isAscii, CodePoint.isHigh, decide_eq_true_eq, decide_eq_false_iff_not] at this ⊢
      omega
    cases s with
    | nil => exact List.isChain_singleton _
    | cons d s => exact List.isChain_cons_cons.mpr ⟨by simp [hc], hrest⟩

theorem toBytes_eq_ok {size n : Nat} {data : List UInt8} (h : toBytes size n = .ok data) : data.length = size ∧ fromBytes data = n := by
  unfold toBytes at h
  split at h
  · next hlt =>
    rw [← Except.ok.inj h, fromBytes, List.reverse_reverse, List.length_reverse, length_packLE]
    exact ⟨rfl, unpackLE_packLE hlt⟩
  · exact absurd h (by simp)

section Assertion
variable [Cryptography] {F : Type} [Runtime F]

/-- A raw signature is verified as the pair of integers that it was made of. -/
theorem verifyRaw_signRaw {privateKey : PrivateKey} {publicKey : PublicKey} {alg : Str} {data signature : List UInt8} {nonce : Nat}
    {row : Algorithm} (hrow : lookup alg algorithms = some row) (h : signRaw privateKey alg data nonce = .ok signature) :
    verifyRaw publicKey alg data signature = .ok (Cryptography.verify publicKey row.hash data (Cryptography.sign privateKey row.hash data nonce)) := by
  obtain ⟨row', hrow', h⟩ := bind_eq_ok.mp h
  obtain rfl : row = row' := Option.some.inj (hrow.symm.trans (orElse_eq_ok.mp hrow'))
  obtain ⟨r, hr, h⟩ := bind_eq_ok.mp h
  obtain ⟨s, hs, h⟩ := bind_eq_ok.mp h
  obtain rfl := Except.ok.inj h
  obtain ⟨hrlen, hrval⟩ := toBytes_eq_ok hr
  obtain ⟨hslen, hsval⟩ := toBytes_eq_ok hs
  refine bind_eq_ok.mpr ⟨row, hrow', ?_⟩
  rw [if_neg (by rw [List.length_append, hrlen, hslen]; omega), List.take_left' hrlen, List.drop_left' hrlen]
  simp only [hrval, hsval]

omit [Cryptography] in
/-- With or without `ensure_ascii`, ASCII strings are written alike. -/
private theorem escape_ascii {c : CodePoint} (h : c.val < 0x7F) : Json.escape false c = Json.escape true c := by
  unfold Json.escape
  cases Json.shortEscape? c with
  | some e => rfl
  | none => simp [Nat.not_le.mpr h]

omit [Cryptography] in
private theorem literal_ascii {s : Str} (h : s.all (fun c => c.val < 0x7F) = true) : Json.literal false s = Json.literal true s := by
  have hbody : s.flatMap (Json.escape false) = s.flatMap (Json.escape true) := by
    rw [List.flatMap_def, List.flatMap_def, List.map_congr_left]
    intro c hc
    exact escape_ascii (by simpa using List.all_eq_true.mp h c hc)
  rw [Json.literal, Json.literal, hbody]

omit [Cryptography] in
/-- The header of a token or a detached signature is read back. -/
private theorem loadsBytes_canonicalJson {v : Json F} (hsorted : Json.sortKeys v = v) (hsame : Json.dumps false v = Json.dumps true v)
    (hv : Json.Sound true v) : ∃ data, canonicalJson v = .ok data ∧ loadsBytes data = .ok v := by
  obtain ⟨data, hdata, hloads⟩ := Json.loadsBytes_dumps hv
  exact ⟨data, by rw [canonicalJson, hsorted, hsame, encode, orElse_eq_ok, hdata], by rw [loadsBytes, orElse_eq_ok, hloads]⟩

omit [Cryptography] in
private theorem soundText {s : Str} (h : ∀ c ∈ s, c.isAscii = true) : Json.Sound true (.text s : Json F) := by
  rw [Json.Sound]
  exact fun _ => unpaired_of_ascii h

omit [Cryptography] in
/-- The algorithm of a supported curve has a row and a name in ASCII. -/
theorem row_of_algForKey {curve : Curve} {alg : Str} (h : algForKey F curve = .ok alg) :
    ∃ row, lookup alg algorithms = some row ∧ row.curve = curve ∧ alg.all (fun c => c.val < 0x7F) = true := by
  unfold algForKey at h
  cases he : algorithms.find? (fun e => e.2.curve = curve) with
  | some e =>
    rw [he] at h
    obtain rfl := Except.ok.inj h
    have hcurve : e.2.curve = curve := by simpa using List.find?_some he
    have hmem := List.mem_of_find?_eq_some he
    simp only [algorithms, List.mem_cons, List.not_mem_nil, or_false] at hmem
    obtain rfl | rfl | rfl := hmem
    all_goals exact ⟨_, by decide, hcurve, by decide⟩
  | none =>
    rw [he] at h
    cases curve <;> exact absurd h (by simp)

omit [Cryptography] in
private theorem ascii_of_plain {s : Str} (h : s.all (fun c => c.val < 0x7F) = true) : ∀ c ∈ s, c.isAscii = true := by
  intro c hc
  have := List.all_eq_true.mp h c hc
  simp only [decide_eq_true_eq] at this
  simp only [CodePoint.isAscii, decide_eq_true_eq]
  omega

omit [Cryptography] in
private theorem jwtHeader_read {alg : Str} (h : alg.all (fun c => c.val < 0x7F) = true) :
    ∃ data, canonicalJson (F := F) (.object [(str "alg", .text alg), (str "typ", .text (str "JWT"))]) = .ok data ∧
      loadsBytes data = .ok (.object [(str "alg", .text alg), (str "typ", .text (str "JWT"))] : Json F) := by
  apply loadsBytes_canonicalJson
  · have hkeys : Json.textLe (str "alg") (str "typ") = true := by decide
    simp [Json.sortKeys, Json.sortMembers, Json.insertMember, hkeys]
  · simp only [Json.dumps, Json.dumpsMembers, Json.dumpsMoreMembers, literal_ascii h, literal_ascii (show (str "alg").all _ = true by decide),
      literal_ascii (show (str "typ").all _ = true by decide), literal_ascii (show (str "JWT").all _ = true by decide)]
  · rw [Json.Sound, Json.soundMembers_iff]
    refine ⟨show [str "alg", str "typ"].Nodup by decide, ?_⟩
    simp only [List.forall_mem_cons]
    exact ⟨⟨fun _ => by decide, soundText (ascii_of_plain h)⟩, ⟨fun _ => by decide, soundText (ascii_of_plain (by decide))⟩, by simp⟩

omit [Cryptography] in
private theorem jwsHeader_read {alg : Str} (h : alg.all (fun c => c.val < 0x7F) = true) :
    ∃ data, canonicalJson (F := F) (.object [(str "alg", .text alg)]) = .ok data ∧
      loadsBytes data = .ok (.object [(str "alg", .text alg)] : Json F) := by
  apply loadsBytes_canonicalJson
  · simp [Json.sortKeys, Json.sortMembers, Json.insertMember]
  · simp only [Json.dumps, Json.dumpsMembers, Json.dumpsMoreMembers, literal_ascii h, literal_ascii (show (str "alg").all _ = true by decide)]
  · rw [Json.Sound, Json.soundMembers_iff]
    refine ⟨List.nodup_singleton _, ?_⟩
    simp only [List.forall_mem_cons]
    exact ⟨⟨fun _ => by decide, soundText (ascii_of_plain h)⟩, by simp⟩

omit [Cryptography] in
/-- What `json.dumps` and `encode` write of a sound value is read back. -/
private theorem dumps_read {v : Json F} (h : Json.Sound true v) :
    ∃ text data, dumps v = .ok text ∧ encode text = .ok data ∧ loadsBytes data = .ok v ∧ loads (F := F) (.text text) = .ok v ∧
      ∀ c ∈ text, c.isAscii = true := by
  obtain ⟨data, hdata, hloads⟩ := Json.loadsBytes_dumps h
  refine ⟨Json.dumps true v, data, by rw [dumps, if_pos (Json.printable_of_sound v h)], by rw [encode, hdata]; rfl,
    by rw [loadsBytes, hloads]; rfl, by rw [loads, Json.loads_dumps true h]; rfl, fun c hc => ?_⟩
  exact decide_eq_true (Json.plain_dumps v h c hc).2

/-- What the library promises of a key: its DER is read back, the integers of a signature fit the
coordinates of its curve, and what it signed is verified under its public key. -/
structure KeyLaws (privateKey : PrivateKey) : Prop where
  load : Cryptography.loadDerPublicKey (Cryptography.publicBytes (Cryptography.publicKey privateKey)) =
    some (some (Cryptography.publicKey privateKey))
  fits : ∀ alg row, lookup alg algorithms = some row → row.curve = Cryptography.privateCurve privateKey → ∀ data nonce,
    (Cryptography.sign privateKey row.hash data nonce).1 < 256 ^ row.size ∧ (Cryptography.sign privateKey row.hash data nonce).2 < 256 ^ row.size
  verifies : ∀ hash data nonce, Cryptography.verify (Cryptography.publicKey privateKey) hash data (Cryptography.sign privateKey hash data nonce) = true

theorem decodeCpk_encodeCpk {privateKey : PrivateKey} (h : KeyLaws privateKey) :
    decodeCpk (encodeCpk (Cryptography.publicKey privateKey)) = .ok (Cryptography.publicKey privateKey) := by
  rw [decodeCpk, encodeCpk, Base64.decode_encode, Option.bind_some, h.load]

/-- A key signs any data, and its public key verifies the signature. -/
private theorem signRaw_verified {privateKey : PrivateKey} (h : KeyLaws privateKey) {alg : Str} {row : Algorithm}
    (hrow : lookup alg algorithms = some row) (hcurve : row.curve = Cryptography.privateCurve privateKey) (data : List UInt8) (nonce : Nat) :
    ∃ signature, signRaw privateKey alg data nonce = .ok signature ∧
      verifyRaw (Cryptography.publicKey privateKey) alg data signature = .ok true := by
  obtain ⟨hr, hs⟩ := h.fits alg row hrow hcurve data nonce
  have hsigned : signRaw privateKey alg data nonce =
      .ok ((packLE row.size (Cryptography.sign privateKey row.hash data nonce).1).reverse ++
        (packLE row.size (Cryptography.sign privateKey row.hash data nonce).2).reverse) := by
    refine bind_eq_ok.mpr ⟨row, orElse_eq_ok.mpr hrow, bind_eq_ok.mpr ⟨_, ?_, bind_eq_ok.mpr ⟨_, ?_, rfl⟩⟩⟩
    · rw [toBytes, if_pos hr]
    · rw [toBytes, if_pos hs]
  exact ⟨_, hsigned, by rw [verifyRaw_signRaw hrow hsigned, h.verifies]⟩

omit [Cryptography] in
private theorem splitOn_token {a b c : Str} (ha : ∀ d ∈ a, d ≠ Json.point) (hb : ∀ d ∈ b, d ≠ Json.point) (hc : ∀ d ∈ c, d ≠ Json.point) :
    (a ++ str "." ++ b ++ str "." ++ c).splitOn Json.point = [a, b, c] := by
  have hassoc : a ++ str "." ++ b ++ str "." ++ c = a ++ Json.point :: (b ++ Json.point :: c) := by
    rw [show str "." = [Json.point] from rfl]
    simp
  rw [hassoc, List.splitOn_append_cons_self_of_not_mem fun h => ha _ h rfl, List.splitOn_append_cons_self_of_not_mem fun h => hb _ h rfl,
    List.splitOn_eq_singleton fun h => hc _ h rfl]

omit [Cryptography] in
private theorem forall_ascii {a b : Str} (mark : String) (hm : (str mark).all CodePoint.isAscii = true) (ha : ∀ d ∈ a, d.isAscii = true)
    (hb : ∀ d ∈ b, d.isAscii = true) : ∀ d ∈ a ++ str mark ++ b, d.isAscii = true :=
  List.forall_mem_append.mpr ⟨List.forall_mem_append.mpr ⟨ha, List.all_eq_true.mp hm⟩, hb⟩

/-- A signed token is taken apart into the claims that were signed, and verifies under the public key. -/
theorem signJwt_read {privateKey : PrivateKey} (h : KeyLaws privateKey) {alg : Str} (halg : algForKey F (Cryptography.privateCurve privateKey) = .ok alg)
    {claims : Members F} (hclaims : Json.Sound true (.object claims)) (nonce : Nat) :
    ∃ (token : Str) (jwt : Jwt F), signJwt claims privateKey nonce = .ok token ∧ (∀ c ∈ token, c.isAscii = true) ∧ decodeJwt token = .ok jwt ∧
      jwt.claims = claims ∧ algOf jwt.header = .text alg ∧
      verifyRaw (Cryptography.publicKey privateKey) alg jwt.signingInput jwt.signature = .ok true := by
  obtain ⟨row, hrow, hcurve, hplain⟩ := row_of_algForKey halg
  obtain ⟨header, hheader, hheaderRead⟩ := jwtHeader_read (F := F) hplain
  obtain ⟨text, payload, htext, hpayload, hpayloadRead, _, _⟩ := dumps_read hclaims
  have hheaderPlain : ∀ c ∈ b64url header, c.isAscii = true := fun c hc => (b64url_plain hc).1
  have hpayloadPlain : ∀ c ∈ b64url payload, c.isAscii = true := fun c hc => (b64url_plain hc).1
  obtain ⟨input, hinput⟩ := encode_ascii (forall_ascii "." (by decide) hheaderPlain hpayloadPlain)
  obtain ⟨signature, hsigned, hverified⟩ := signRaw_verified h hrow hcurve input nonce
  refine ⟨b64url header ++ str "." ++ b64url payload ++ str "." ++ b64url signature,
    ⟨[(str "alg", .text alg), (str "typ", .text (str "JWT"))], claims, input, signature⟩, ?_, ?_, ?_, rfl, rfl, hverified⟩
  · exact bind_eq_ok.mpr ⟨alg, halg, bind_eq_ok.mpr ⟨header, hheader, bind_eq_ok.mpr ⟨text, htext, bind_eq_ok.mpr ⟨payload, hpayload,
      bind_eq_ok.mpr ⟨input, hinput, bind_eq_ok.mpr ⟨signature, hsigned, rfl⟩⟩⟩⟩⟩⟩
  · exact forall_ascii "." (by decide) (forall_ascii "." (by decide) hheaderPlain hpayloadPlain) fun c hc => (b64url_plain hc).1
  · have hsplit := splitOn_token (a := b64url header) (b := b64url payload) (c := b64url signature) (fun c hc => (b64url_plain hc).2)
      (fun c hc => (b64url_plain hc).2) fun c hc => (b64url_plain hc).2
    unfold decodeJwt
    rw [hsplit]
    have hparts : decodeParts (b64url header) (b64url payload) =
        .ok ((.object [(str "alg", .text alg), (str "typ", .text (str "JWT"))] : Json F), .object claims) := by
      rw [decodeParts, guarded_eq_ok]
      exact bind_eq_ok.mpr ⟨_, unb64url_b64url header, bind_eq_ok.mpr ⟨_, hheaderRead, bind_eq_ok.mpr ⟨_, unb64url_b64url payload,
        bind_eq_ok.mpr ⟨_, hpayloadRead, rfl⟩⟩⟩⟩
    exact bind_eq_ok.mpr ⟨_, hparts, bind_eq_ok.mpr ⟨input, hinput, bind_eq_ok.mpr ⟨signature, unb64url_b64url signature, rfl⟩⟩⟩

/-- The detached signature of a text verifies against it. -/
theorem signFingerprints_verified {privateKey : PrivateKey} (h : KeyLaws privateKey) {alg : Str}
    (halg : algForKey F (Cryptography.privateCurve privateKey) = .ok alg) {sdp : Str} (hsdp : Encodable sdp) (nonce : Nat) :
    ∃ jws, signFingerprints F sdp privateKey nonce = .ok jws ∧ (∀ c ∈ jws, c.isAscii = true) ∧
      verifyFingerprints F sdp jws (Cryptography.publicKey privateKey) = .ok () := by
  obtain ⟨row, hrow, hcurve, hplain⟩ := row_of_algForKey halg
  obtain ⟨header, hheader, hheaderRead⟩ := jwsHeader_read (F := F) hplain
  obtain ⟨payload, hpayload⟩ : ∃ payload, fingerprintPayload F sdp = .ok payload := by
    cases hp : fingerprintPayload F sdp with
    | ok payload => exact ⟨payload, rfl⟩
    | error e =>
      have hraised := (orderly_fingerprintPayload (F := F) sdp).mpr hsdp e hp
      rw [fingerprintPayload_eq, encode, orElse.eq_def] at hp
      split at hp
      · exact absurd hp (by simp)
      · rw [← Except.error.inj hp] at hraised
        exact absurd hraised (by decide)
  have hheaderPlain : ∀ c ∈ b64url header, c.isAscii = true := fun c hc => (b64url_plain hc).1
  have hpayloadPlain : ∀ c ∈ b64url payload, c.isAscii = true := fun c hc => (b64url_plain hc).1
  obtain ⟨input, hinput⟩ := encode_ascii (forall_ascii "." (by decide) hheaderPlain hpayloadPlain)
  obtain ⟨signature, hsigned, hverified⟩ := signRaw_verified h hrow hcurve input nonce
  refine ⟨b64url header ++ str ".." ++ b64url signature, ?_, ?_, ?_⟩
  · exact bind_eq_ok.mpr ⟨alg, halg, bind_eq_ok.mpr ⟨header, hheader, bind_eq_ok.mpr ⟨payload, hpayload,
      bind_eq_ok.mpr ⟨input, hinput, bind_eq_ok.mpr ⟨signature, hsigned, rfl⟩⟩⟩⟩⟩
  · exact forall_ascii ".." (by decide) hheaderPlain fun c hc => (b64url_plain hc).1
  · have hsplit := splitOn_token (a := b64url header) (b := []) (c := b64url signature) (fun c hc => (b64url_plain hc).2)
      (fun c hc => absurd hc (by simp)) fun c hc => (b64url_plain hc).2
    have hjws : b64url header ++ str ".." ++ b64url signature = b64url header ++ str "." ++ [] ++ str "." ++ b64url signature := by
      rw [show str ".." = str "." ++ str "." from rfl]
      simp
    unfold verifyFingerprints
    rw [hjws, hsplit]
    have hread : decodeJws (b64url header) = .ok (.object [(str "alg", .text alg)] : Json F) := by
      rw [decodeJws, guarded_eq_ok]
      exact bind_eq_ok.mpr ⟨_, unb64url_b64url header, hheaderRead⟩
    have hknown : supportedAlg "unsupported JWS alg " (jwsAlgOf (.object [(str "alg", .text alg)] : Json F)) = .ok alg :=
      supportedAlg_text rfl (by rw [hrow]; rfl)
    exact bind_eq_ok.mpr ⟨_, hread, bind_eq_ok.mpr ⟨alg, hknown, bind_eq_ok.mpr ⟨payload, hpayload, bind_eq_ok.mpr ⟨input, hinput,
      bind_eq_ok.mpr ⟨signature, unb64url_b64url signature, bind_eq_ok.mpr ⟨true, hverified, rfl⟩⟩⟩⟩⟩⟩

omit [Cryptography] in
/-- An envelope is parsed back into what was put in it. -/
theorem buildEnvelope_parsed {domain token jws : Str} (hd : Json.Unpaired domain) (ht : Json.Unpaired token) (hj : Json.Unpaired jws) :
    ∃ envelope, buildEnvelope F domain token jws = .ok envelope ∧ (∀ c ∈ envelope, c.isAscii = true ∧ 0x20 < c.val) ∧
      parseEnvelope F envelope = .ok ⟨domain, str "default", token, jws⟩ := by
  have hinner : Json.Sound true (.object [(str "token", .text token), (str "fingerprints", .text jws)] : Json F) := by
    rw [Json.Sound, Json.soundMembers_iff]
    refine ⟨show [str "token", str "fingerprints"].Nodup by decide, ?_⟩
    simp only [List.forall_mem_cons]
    exact ⟨⟨fun _ => by decide, by rw [Json.Sound]; exact fun _ => ht⟩, ⟨fun _ => by decide, by rw [Json.Sound]; exact fun _ => hj⟩, by simp⟩
  obtain ⟨assertion, _, hassertion, _, _, hassertionRead, hassertionPlain⟩ := dumps_read hinner
  have houter : Json.Sound true (.object
      [(str "idp", .object [(str "domain", .text domain), (str "protocol", .text (str "default"))]),
        (str "assertion", .text assertion)] : Json F) := by
    have hidp : Json.Sound true (.object [(str "domain", .text domain), (str "protocol", .text (str "default"))] : Json F) := by
      rw [Json.Sound, Json.soundMembers_iff]
      refine ⟨show [str "domain", str "protocol"].Nodup by decide, ?_⟩
      simp only [List.forall_mem_cons]
      exact ⟨⟨fun _ => by decide, by rw [Json.Sound]; exact fun _ => hd⟩, ⟨fun _ => by decide, soundText (List.all_eq_true.mp (by decide))⟩, by simp⟩
    rw [Json.Sound, Json.soundMembers_iff]
    refine ⟨show [str "idp", str "assertion"].Nodup by decide, ?_⟩
    simp only [List.forall_mem_cons]
    exact ⟨⟨fun _ => by decide, hidp⟩, ⟨fun _ => by decide, soundText hassertionPlain⟩, by simp⟩
  obtain ⟨outer, data, houterText, hdata, houterRead, _, _⟩ := dumps_read houter
  refine ⟨Base64.encode data, ?_, fun c hc => Base64.encode_visible hc, ?_⟩
  · exact bind_eq_ok.mpr ⟨assertion, hassertion, bind_eq_ok.mpr ⟨outer, houterText, bind_eq_ok.mpr ⟨data, hdata, rfl⟩⟩⟩
  · rw [parseEnvelope, guarded_eq_ok]
    refine bind_eq_ok.mpr ⟨data, by rw [Base64.decode_encode]; rfl, bind_eq_ok.mpr ⟨_, houterRead, bind_eq_ok.mpr ⟨_, rfl, ?_⟩⟩⟩
    exact bind_eq_ok.mpr ⟨_, rfl, bind_eq_ok.mpr ⟨_, hassertionRead, bind_eq_ok.mpr ⟨_, rfl, bind_eq_ok.mpr ⟨_, rfl,
      bind_eq_ok.mpr ⟨_, rfl, bind_eq_ok.mpr ⟨_, rfl, rfl⟩⟩⟩⟩⟩⟩

/-! ### Signing, then verifying -/

/-- An int that can be printed. -/
def Printable (n : Int) : Prop := (Nat.toDigits 10 n.natAbs).length ≤ Json.maxDigits

instance (n : Int) : Decidable (Printable n) := inferInstanceAs (Decidable (_ ≤ _))

/-- A lifetime with which the token has not expired at the second clock reading. -/
def Lasts (signer : IdentitySigner F) (clock clock' : F) : Prop :=
  ∀ lifetime, signer.tokenLifetime = some lifetime → ∃ seconds, lifetime.toInt = .ok seconds ∧
    Printable (Runtime.trunc clock + seconds) ∧ Runtime.ltInt (Runtime.trunc clock + seconds) clock' = false

/-- The claims of a token: every extra claim as it was given, the key under `cpk` where no extra
claim overrides it, and an expiry that is not past. -/
private theorem tokenClaims_eq {signer : IdentitySigner F} {clock clock' : F} (hexp : signer.claims.get? (str "exp") = none)
    (hclaims : Json.Sound true (.object signer.claims.entries)) (hnow : Printable (Runtime.trunc clock)) (hlasts : Lasts signer clock clock') :
    ∃ claims, signer.tokenClaims (Runtime.trunc clock) = .ok claims ∧ (∀ k v, signer.claims.get? k = some v → claims.get? k = some v) ∧
      claims.get? (str "cpk") =
        (signer.claims.get? (str "cpk")).or (some (.text (encodeCpk (Cryptography.publicKey signer.privateKey)))) ∧
      expired clock' (claims.get? (str "exp")) = false ∧ Json.Sound true (.object claims.entries) := by
  have hkeys : str "cpk" ≠ str "iat" ∧ str "exp" ≠ str "iat" ∧ str "exp" ≠ str "cpk" ∧ str "cpk" ≠ str "exp" := by decide
  let own : Dict Str (Json F) := (Dict.empty.set (str "cpk") (.text (encodeCpk (Cryptography.publicKey signer.privateKey)))).set
    (str "iat") (.int (Runtime.trunc clock))
  let merged := signer.claims.entries.foldl (fun d e => d.set e.1 e.2) own
  have hget : ∀ k, merged.get? k = (signer.claims.get? k).or (own.get? k) := Dict.get?_update signer.claims own
  have hown : own.get? (str "cpk") = some (.text (encodeCpk (Cryptography.publicKey signer.privateKey))) ∧ own.get? (str "exp") = none := by
    simp [own, Dict.get?_set, hkeys.1, hkeys.2.1, hkeys.2.2.1]
  have hmember : ∀ e ∈ own.entries, Json.Unpaired e.1 ∧ Json.Sound true e.2 := by
    intro e he
    obtain rfl | he := mem_assign he
    · exact ⟨show Json.Unpaired (str "iat") by decide, by rw [Json.Sound]; exact hnow⟩
    · obtain rfl | he := mem_assign he
      · exact ⟨show Json.Unpaired (str "cpk") by decide, soundText fun c hc => (Base64.encode_visible hc).1⟩
      · exact absurd he (by simp [Dict.empty])
  rw [Json.Sound, Json.soundMembers_iff] at hclaims
  have hmerged : ∀ e ∈ merged.entries, Json.Unpaired e.1 ∧ Json.Sound true e.2 := by
    intro e he
    obtain he | he := Dict.mem_update he
    · exact ⟨(hclaims.2 e he).1 rfl, (hclaims.2 e he).2⟩
    · exact hmember e he
  have hsound : ∀ d : Dict Str (Json F), (∀ e ∈ d.entries, Json.Unpaired e.1 ∧ Json.Sound true e.2) → Json.Sound true (.object d.entries) := by
    intro d hd
    rw [Json.Sound, Json.soundMembers_iff]
    exact ⟨d.nodup, fun e he => ⟨fun _ => (hd e he).1, (hd e he).2⟩⟩
  cases hlife : signer.tokenLifetime with
  | none =>
    refine ⟨merged, by rw [IdentitySigner.tokenClaims, hlife], fun k v hv => by rw [hget, hv]; rfl, by rw [hget, hown.1], ?_, hsound merged hmerged⟩
    rw [hget, hexp, hown.2]
    rfl
  | some lifetime =>
    obtain ⟨seconds, hseconds, hprint, hfresh⟩ := hlasts lifetime hlife
    refine ⟨merged.set (str "exp") (.int (Runtime.trunc clock + seconds)), ?_, fun k v hv => ?_, ?_, ?_, hsound _ fun e he => ?_⟩
    · rw [IdentitySigner.tokenClaims, hlife]
      exact bind_eq_ok.mpr ⟨seconds, hseconds, rfl⟩
    · have hk : k ≠ str "exp" := by
        rintro rfl
        rw [hexp] at hv
        exact absurd hv (by simp)
      rw [Dict.get?_set_ne _ _ hk, hget, hv]
      rfl
    · rw [Dict.get?_set_ne _ _ hkeys.2.2.2, hget, hown.1]
    · rw [Dict.get?_set_self]
      exact hfresh
    · obtain rfl | he := mem_assign he
      · exact ⟨show Json.Unpaired (str "exp") by decide, by rw [Json.Sound]; exact hprint⟩
      · exact hmerged e he

/-- The extra claims leave `cpk` to the signer, or give a text that decodes to its own public key. -/
def KeepsKey (signer : IdentitySigner F) : Prop :=
  signer.claims.get? (str "cpk") = none ∨
    ∃ cpk, signer.claims.get? (str "cpk") = some (.text cpk) ∧ decodeCpk cpk = .ok (Cryptography.publicKey signer.privateKey)

/-- Signing and then verifying gives back the text, the domain, the key and the extra claims. -/
def RoundTrips (signer : IdentitySigner F) (clock clock' : F) (nonces : Nat × Nat) (sdp : Str) : Prop :=
  ∃ signed identity, signer.sign clock nonces sdp = .ok signed ∧ verifyServerIdentity clock' signed = .ok (sdp, identity) ∧
    identity.domain = signer.domain ∧ identity.publicKey = Cryptography.publicKey signer.privateKey ∧
    ∀ k v, signer.claims.get? k = some v → Json.get? k identity.claims = some v

private theorem roundTrips_of_keepsKey {signer : IdentitySigner F} {clock clock' : F} (nonces : Nat × Nat) {sdp : Str}
    (hkey : KeyLaws signer.privateKey) (hexp : signer.claims.get? (str "exp") = none) (hclaims : Json.Sound true (.object signer.claims.entries))
    (hdomain : Json.Unpaired signer.domain) (hnow : Printable (Runtime.trunc clock)) (hlasts : Lasts signer clock clock')
    (hsdp : Insertable sdp) (hnone : identities sdp = []) (hencodable : Encodable sdp) (hkeeps : KeepsKey signer) :
    RoundTrips signer clock clock' nonces sdp := by
  obtain ⟨alg, halg⟩ := signer.supported
  obtain ⟨row, hrow, _, _⟩ := row_of_algForKey halg
  obtain ⟨claims, hclaimsOk, hextra, hcpk, hfresh, hsound⟩ := tokenClaims_eq hexp hclaims hnow hlasts
  obtain ⟨token, jwt, htoken, htokenPlain, hjwt, hjwtClaims, hjwtAlg, hverified⟩ := signJwt_read hkey halg hsound nonces.1
  obtain ⟨jws, hjws, hjwsPlain, hjwsVerified⟩ := signFingerprints_verified hkey halg hencodable nonces.2
  obtain ⟨envelope, henvelope, hvisible, hparsed⟩ := buildEnvelope_parsed (F := F) hdomain (unpaired_of_ascii htokenPlain) (unpaired_of_ascii hjwsPlain)
  obtain ⟨hvalue, hstripped⟩ := insertIdentity_extracted (.inr hsdp) hnone hvisible
  obtain ⟨cpk, hcpkText, hcpkKey⟩ : ∃ cpk, claims.get? (str "cpk") = some (.text cpk) ∧
      decodeCpk cpk = .ok (Cryptography.publicKey signer.privateKey) := by
    obtain hno | ⟨cpk, hgiven, hdecoded⟩ := hkeeps
    · exact ⟨_, by rw [hcpk, hno]; rfl, decodeCpk_encodeCpk hkey⟩
    · exact ⟨cpk, by rw [hcpk, hgiven]; rfl, hdecoded⟩
  have hsigned : signer.sign clock nonces sdp = .ok (insertIdentity sdp envelope) :=
    bind_eq_ok.mpr ⟨token, bind_eq_ok.mpr ⟨claims, hclaimsOk, htoken⟩, bind_eq_ok.mpr ⟨jws, hjws, bind_eq_ok.mpr ⟨envelope, henvelope, rfl⟩⟩⟩
  have hextracted : extractIdentity F (insertIdentity sdp envelope) = .ok (sdp, some ⟨signer.domain, str "default", token, jws⟩) := by
    unfold extractIdentity
    rw [hvalue]
    exact bind_eq_ok.mpr ⟨_, hparsed, by rw [hstripped]⟩
  have hknown : supportedAlg "unsupported JWT alg " (algOf jwt.header) = .ok alg := supportedAlg_text hjwtAlg (by rw [hrow]; rfl)
  have hclaim : cpkOf jwt.claims = .ok cpk := by
    rw [cpkOf, hjwtClaims, show Json.get? (str "cpk") claims.entries = some (.text cpk) from hcpkText]
  have hverifies : verifyServerIdentity clock' (insertIdentity sdp envelope) =
      .ok (sdp, ⟨signer.domain, jwt.claims, Cryptography.publicKey signer.privateKey, cpkDigest (Cryptography.publicKey signer.privateKey)⟩) := by
    refine bind_eq_ok.mpr ⟨_, hextracted, bind_eq_ok.mpr ⟨jwt, hjwt, bind_eq_ok.mpr ⟨alg, hknown, bind_eq_ok.mpr ⟨cpk, hclaim,
      bind_eq_ok.mpr ⟨_, hcpkKey, bind_eq_ok.mpr ⟨true, hverified, ?_⟩⟩⟩⟩⟩⟩
    rw [if_neg (by decide), hjwtClaims, show expired clock' (Json.get? (str "exp") claims.entries) = false from hfresh,
      if_neg (by decide)]
    exact bind_eq_ok.mpr ⟨(), hjwsVerified, rfl⟩
  refine ⟨_, _, hsigned, hverifies, rfl, rfl, fun k v hv => ?_⟩
  rw [hjwtClaims]
  exact hextra k v hv

private theorem encodable_of_signed {signer : IdentitySigner F} {clock : F} {nonces : Nat × Nat} {sdp signed : Str}
    (h : signer.sign clock nonces sdp = .ok signed) : Encodable sdp := by
  obtain ⟨token, _, h⟩ := bind_eq_ok.mp h
  obtain ⟨jws, hjws, _⟩ := bind_eq_ok.mp h
  obtain ⟨alg, _, hjws⟩ := bind_eq_ok.mp hjws
  obtain ⟨header, _, hjws⟩ := bind_eq_ok.mp hjws
  obtain ⟨payload, hpayload, _⟩ := bind_eq_ok.mp hjws
  refine (orderly_fingerprintPayload (F := F) sdp).mp ?_
  rw [hpayload]
  exact onlyRaises_ok payload

/-- Whatever a signer signs is verified, and comes back as it was, exactly if the fingerprint lines can be
written out and no extra claim puts another key in place of the signer's. -/
theorem signed_text_verifies_iff (signer : IdentitySigner F) (clock clock' : F) (nonces : Nat × Nat) (sdp : Str)
    (hkey : KeyLaws signer.privateKey) (hexp : signer.claims.get? (str "exp") = none) (hclaims : Json.Sound true (.object signer.claims.entries))
    (hdomain : Json.Unpaired signer.domain) (hnow : Printable (Runtime.trunc clock)) (hlasts : Lasts signer clock clock')
    (hsdp : Insertable sdp) (hnone : identities sdp = []) :
    RoundTrips signer clock clock' nonces sdp ↔ Encodable sdp ∧ KeepsKey signer := by
  constructor
  · rintro ⟨signed, identity, hsigned, hverified, _, hpublic, hextra⟩
    refine ⟨encodable_of_signed hsigned, ?_⟩
    obtain ⟨a, ha⟩ := verifyServerIdentity_eq_ok hverified
    have hclaims' : identity.claims = a.claims := by rw [ha.identity]
    cases hcpk : signer.claims.get? (str "cpk") with
    | none => exact .inl hcpk
    | some v =>
      have hgiven := hextra _ _ hcpk
      rw [hclaims', ha.cpk] at hgiven
      refine .inr ⟨a.cpk, by rw [hcpk, hgiven], ?_⟩
      rw [ha.key, hpublic]
  · rintro ⟨hencodable, hkeeps⟩
    exact roundTrips_of_keepsKey nonces hkey hexp hclaims hdomain hnow hlasts hsdp hnone hencodable hkeeps

end Assertion

namespace Sample

/-- The key with a signature for any text. -/
@[reducible] def signing : Cryptography :=
  { cryptography with verify := fun _ hash data signature => decide (signature = cryptography.sign () hash data 0) }

/-- A signer with one extra claim. -/
def signer (key : String) (value : String) :
    letI := runtime
    letI := signing
    IdentitySigner Int :=
  letI := runtime
  letI := signing
  { privateKey := ()
    domain := str "d"
    claims := Dict.empty.set (str key) (.text (str value))
    tokenLifetime := some (.int 2592000)
    supported := ⟨_, rfl⟩ }

def plainSdp : Str := str "a=fingerprint:sha-256 4A:AD\r\nm=x\r\n"

private theorem keyLaws : @KeyLaws signing () := by
  let _ := signing
  refine ⟨if_pos rfl, fun alg row hrow hcurve data nonce => ?_, fun hash data nonce => decide_eq_true rfl⟩
  have hrows := mem_of_lookup hrow
  have hsmall : ∀ s : Nat × Nat, s = (signatures "ES256").1 ∨ s = (signatures "ES256").2 → s.1 < 256 ^ 32 ∧ s.2 < 256 ^ 32 := by
    rintro s (rfl | rfl) <;> decide +kernel
  simp only [algorithms, List.mem_cons, Prod.mk.injEq, List.not_mem_nil, or_false] at hrows
  obtain ⟨_, rfl⟩ | ⟨_, rfl⟩ | ⟨_, rfl⟩ := hrows
  · have hsign : Cryptography.sign () Hash.sha256 data nonce =
        if encodeUtf8 (tokenInput "ES256") = some data then (signatures "ES256").1 else (signatures "ES256").2 := rfl
    apply hsmall
    rw [hsign]
    exact (em _).imp (fun h => if_pos h) fun h => if_neg h
  · exact absurd (show Curve.secp384r1 = .secp256r1 from hcurve) (by decide)
  · exact absurd (show Curve.secp521r1 = .secp256r1 from hcurve) (by decide)

end Sample

/-- An `iss` claim beside the signer's own. -/
theorem signed_text_verifies_iff_iss :
    letI := Sample.runtime
    letI := Sample.signing
    RoundTrips (Sample.signer "iss" "unit-test") (1700000000 : Int) 1700000001 (0, 0) Sample.plainSdp := by
  let _ := Sample.runtime
  let _ := Sample.signing
  refine (signed_text_verifies_iff (Sample.signer "iss" "unit-test") (1700000000 : Int) 1700000001 (0, 0) Sample.plainSdp Sample.keyLaws
    (by rfl) ?_ ?_ ?_ ?_ ?_ ?_).mpr ⟨?_, .inl rfl⟩
  · rw [Json.Sound, Json.soundMembers_iff]
    refine ⟨List.nodup_singleton _, fun e he => ?_⟩
    obtain rfl := List.mem_singleton.mp he
    exact ⟨fun _ => by decide, soundText (List.all_eq_true.mp (by decide))⟩
  · decide
  · decide +kernel
  · rintro lifetime hlife
    obtain rfl := Option.some.inj hlife
    exact ⟨2592000, rfl, by decide +kernel, by decide⟩
  · exact .inl ⟨lineFeed, by decide, by decide⟩
  · decide
  · decide

/-- An extra claim that is no key at all: the signer's own assertion is refused. -/
theorem foreign_cpk_claim_refused :
    letI := Sample.runtime
    letI := Sample.signing
    ¬ RoundTrips (Sample.signer "cpk" "x") (1700000000 : Int) 1700000001 (0, 0) Sample.plainSdp := by
  let _ := Sample.runtime
  let _ := Sample.signing
  rintro ⟨signed, identity, hsigned, hverified, _⟩
  have hraised : raised? ((Sample.signer "cpk" "x").sign (1700000000 : Int) (0, 0) Sample.plainSdp >>= verifyServerIdentity (1700000001 : Int)) =
      some (.invalidIdentity (str "malformed cpk claim")) := by decide +kernel
  rw [bind_eq_ok.mpr ⟨signed, hsigned, hverified⟩] at hraised
  exact absurd hraised (by simp [raised?])

end NetherNet.Identity
