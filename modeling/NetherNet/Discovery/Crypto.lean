import Mathlib.Logic.Equiv.Basic
import NetherNet.Library.Bytes
import NetherNet.Protocol.NetworkId

/-! The envelope of a discovery datagram: a MAC of the plaintext, and the padded
plaintext encrypted block by block under the same key. -/
namespace NetherNet
open Library

/-- The primitives of hashlib, hmac and cryptography: SHA-256, HMAC-SHA256 and AES-256 on one block. -/
class Primitives where
  sha256 : Bytes → Bytes
  hmac : (key text : Bytes) → Bytes
  encryptBlock : (key block : Bytes) → Bytes
  decryptBlock : (key block : Bytes) → Bytes

def macSize : Nat := 32
def blockSize : Nat := 16

/-- What the envelope relies on: the length of a MAC, and that AES-256 maps blocks to
blocks and is undone by its inverse. -/
class LawfulPrimitives [Primitives] : Prop where
  length_hmac : ∀ key text, (Primitives.hmac key text).length = macSize
  length_encryptBlock : ∀ key block, block.length = blockSize → (Primitives.encryptBlock key block).length = blockSize
  decrypt_encrypt : ∀ key block, block.length = blockSize →
    Primitives.decryptBlock key (Primitives.encryptBlock key block) = block

section Sealing
variable [Primitives]

def deriveKey (appId : Nat) : Bytes := Primitives.sha256 (packLE 8 appId)

namespace Envelope

/-- `seal`, under the key of the envelope. -/
def sealPlaintext (key plaintext : Bytes) : Bytes :=
  let padded := pad blockSize plaintext
  Primitives.hmac key plaintext ++
    mapBlocks blockSize (Primitives.encryptBlock key) (padded.length / blockSize) padded

/-- `open`, under the key of the envelope. -/
def openEnvelope (key envelope : Bytes) : Option Bytes :=
  if envelope.length < macSize then none
  else
    let receivedMac := envelope.take macSize
    let ciphertext := envelope.drop macSize
    if ciphertext.length % blockSize ≠ 0 then none
    else
      match unpad blockSize
          (mapBlocks blockSize (Primitives.decryptBlock key) (ciphertext.length / blockSize) ciphertext) with
      | none => none
      | some plaintext => if receivedMac = Primitives.hmac key plaintext then some plaintext else none

private theorem openEnvelope_append {key mac ciphertext plaintext : Bytes} {count : Nat} (hmac : mac.length = macSize)
    (hc : ciphertext.length = count * blockSize)
    (hp : unpad blockSize (mapBlocks blockSize (Primitives.decryptBlock key) count ciphertext) = some plaintext)
    (hm : mac = Primitives.hmac key plaintext) : openEnvelope key (mac ++ ciphertext) = some plaintext := by
  have hcount : ciphertext.length / blockSize = count := by rw [hc, Nat.mul_div_cancel _ (by decide)]
  have hmod : ciphertext.length % blockSize = 0 := by rw [hc, Nat.mul_mod_left]
  have hlen : ¬ (mac ++ ciphertext).length < macSize := by rw [List.length_append, hmac]; omega
  unfold openEnvelope
  rw [if_neg hlen]
  simp only [List.take_left' hmac, List.drop_left' hmac, hmod, hcount, hp, ne_eq, not_true_eq_false, if_false]
  rw [if_pos hm]

/-- Whoever has the key opens what was sealed. -/
theorem openEnvelope_sealPlaintext [LawfulPrimitives] (key plaintext : Bytes) :
    openEnvelope key (sealPlaintext key plaintext) = some plaintext := by
  have hblocks : (pad blockSize plaintext).length = (pad blockSize plaintext).length / blockSize * blockSize :=
    (Nat.div_mul_cancel (Nat.dvd_of_mod_eq_zero (length_pad_mod (by decide) plaintext))).symm
  refine openEnvelope_append (LawfulPrimitives.length_hmac key plaintext)
    (length_mapBlocks (LawfulPrimitives.length_encryptBlock key) hblocks) ?_ rfl
  rw [mapBlocks_inverse (LawfulPrimitives.length_encryptBlock key) (LawfulPrimitives.decrypt_encrypt key) hblocks,
    unpad_pad (by decide) (by decide)]

/-- An envelope has whole blocks, the MAC among them. -/
theorem length_sealPlaintext [LawfulPrimitives] (key plaintext : Bytes) :
    macSize ≤ (sealPlaintext key plaintext).length ∧ (sealPlaintext key plaintext).length % blockSize = 0 := by
  have hblocks : (pad blockSize plaintext).length = (pad blockSize plaintext).length / blockSize * blockSize :=
    (Nat.div_mul_cancel (Nat.dvd_of_mod_eq_zero (length_pad_mod (by decide) plaintext))).symm
  rw [sealPlaintext, List.length_append, LawfulPrimitives.length_hmac,
    length_mapBlocks (LawfulPrimitives.length_encryptBlock key) hblocks, Nat.add_mul_mod_self_right]
  exact ⟨Nat.le_add_right _ _, by decide⟩

/-- What is opened is the seal of what it opens to. -/
private theorem eq_sealPlaintext [LawfulPrimitives] {key envelope plaintext : Bytes}
    (h : openEnvelope key envelope = some plaintext) : envelope = sealPlaintext key plaintext := by
  unfold openEnvelope at h
  split at h
  · cases h
  · simp only at h
    split at h
    · cases h
    · next hwhole =>
      split at h
      · cases h
      · next hunpad =>
        split at h
        · next hmac =>
          obtain rfl := Option.some.inj h
          have hblocks : (envelope.drop macSize).length = (envelope.drop macSize).length / blockSize * blockSize :=
            (Nat.div_mul_cancel (Nat.dvd_of_mod_eq_zero (by simpa using hwhole))).symm
          have hinverse : ∀ block : Bytes, block.length = blockSize → (Primitives.decryptBlock key block).length = blockSize ∧
              Primitives.encryptBlock key (Primitives.decryptBlock key block) = block :=
            fun _ => blocks_right_inverse (LawfulPrimitives.length_encryptBlock key) (LawfulPrimitives.decrypt_encrypt key)
          have hlength := length_mapBlocks (fun block hb => (hinverse block hb).1) hblocks
          have hpadded := eq_pad_of_unpad hunpad
          -- the padded plaintext has as many blocks as the ciphertext, and encrypts to it
          rw [sealPlaintext, ← hpadded, hlength, Nat.mul_div_cancel _ (by decide),
            mapBlocks_inverse (fun block hb => (hinverse block hb).1) (fun block hb => (hinverse block hb).2) hblocks,
            ← hmac, List.take_append_drop]
        · cases h

/-- An envelope opens exactly to the plaintext whose seal it is, so it opens to nothing
unless it is a seal, and no two envelopes open to one plaintext. -/
theorem opens_iff_sealed [LawfulPrimitives] (key : Bytes) :
    (∀ plaintext, openEnvelope key (sealPlaintext key plaintext) = some plaintext) ∧
    (∀ envelope plaintext, openEnvelope key envelope = some plaintext ↔ envelope = sealPlaintext key plaintext) ∧
    (∀ envelope, openEnvelope key envelope = none ↔ ∀ plaintext, envelope ≠ sealPlaintext key plaintext) ∧
    ∀ envelope envelope' plaintext, openEnvelope key envelope = some plaintext →
      openEnvelope key envelope' = some plaintext → envelope = envelope' := by
  have hiff : ∀ envelope plaintext, openEnvelope key envelope = some plaintext ↔
      envelope = sealPlaintext key plaintext := fun envelope plaintext =>
    ⟨eq_sealPlaintext, fun h => h ▸ openEnvelope_sealPlaintext key plaintext⟩
  refine ⟨openEnvelope_sealPlaintext key, hiff, ?_, fun envelope envelope' plaintext h h' =>
    (eq_sealPlaintext h).trans (eq_sealPlaintext h').symm⟩
  intro envelope
  simp only [Option.eq_none_iff_forall_ne_some, ne_eq, hiff]

end Envelope
end Sealing

/-! ### Two packets under the default application id -/

/-- A big-endian constant. -/
private def bytesOf (width value : Nat) : Bytes := (packLE width value).reverse

/-- AES-256 under the key of the default application id, on the blocks of two packets. -/
private def recordedBlocks : List (Nat × Nat) :=
  [(0x30000200010000000000000000000000, 0xed5708c2f38a913ed435675234e4f907),
   (0x00000000020000000000000010000000, 0xdf36acef7b16539dbffbc48736dacc03),
   (0x43414e44494441544541444420372063, 0x123f5deaf7052e03cf1563d4cbe37d6f),
   (0x10101010101010101010101010101010, 0x16b068801060a3aa8ddf5c00d45f5592),
   (0x94040200010000000000000000000000, 0xd8ac6bc1f7d4acc1a68ce993c932954e),
   (0x00000000020000000000000074040000, 0x8095a0d6ee9bfd5398c94cc8d122f183),
   (0x43414e44494441544541444420372078, 0x43c58bbbdbfbddfb5e4f406ac825d750),
   (0x78787878787878787878787878787878, 0xa51f77086c2d22bd9a0d6c57b31aad3c),
   (0x787878780c0c0c0c0c0c0c0c0c0c0c0c, 0xe9285b0f2a5d7c97fb79d08e013c5415)]

private def recordedCipher (blocks : List (Nat × Nat)) : Equiv.Perm Bytes :=
  blocks.foldr (fun p cipher => (Equiv.swap (bytesOf blockSize p.1) (bytesOf blockSize p.2)).trans cipher) (Equiv.refl Bytes)

/-- The primitives with the values they have on the two packets. -/
@[reducible] def recorded : Primitives where
  sha256 _ := bytesOf 32 0xeed4c37861936c6ebb91ab9d195c1b489de46362d3bb8e30d8aab08bf217e6f3
  hmac _ text :=
    bytesOf 32 (if text.length = 48 then 0x54c87592bd607f6c02d169380194a1bc7aea4b65997dc8926fcf007e879d9a72
      else 0xf6857d383d58ea76edf788fa5a19b952131747f88f906c3cf5d62e57ebafbc9d)
  encryptBlock _ := recordedCipher recordedBlocks
  decryptBlock _ := (recordedCipher recordedBlocks).symm

private theorem length_bytesOf (width value : Nat) : (bytesOf width value).length = width := by simp [bytesOf]

private theorem length_recordedCipher (blocks : List (Nat × Nat)) {block : Bytes} (h : block.length = blockSize) :
    (recordedCipher blocks block).length = blockSize := by
  induction blocks generalizing block with
  | nil => exact h
  | cons p blocks ih =>
    refine ih ?_
    rw [Equiv.swap_apply_def]
    split
    · exact length_bytesOf _ _
    · split
      · exact length_bytesOf _ _
      · exact h

theorem lawful_recorded : @LawfulPrimitives recorded :=
  @LawfulPrimitives.mk recorded (fun _ _ => length_bytesOf _ _) (fun _ _ h => length_recordedCipher _ h)
    (fun _ block _ => (recordedCipher recordedBlocks).symm_apply_apply block)

namespace Envelope

/-- The packet of a short CANDIDATEADD, and its envelope without the last byte. -/
theorem opens_iff_sealed_packet :
    letI := recorded
    let key := deriveKey 0xDEADBEEF
    let packet := bytesOf 16 0x30000200010000000000000000000000 ++ bytesOf 16 0x00000000020000000000000010000000 ++
      bytesOf 16 0x43414e44494441544541444420372063
    let envelope := sealPlaintext key packet
    openEnvelope key envelope = some packet ∧ openEnvelope key envelope.dropLast = none := by
  let _ := recorded
  have _ := lawful_recorded
  obtain ⟨hopens, _, hnone, _⟩ := opens_iff_sealed (deriveKey 0xDEADBEEF)
  refine ⟨hopens _, (hnone _).mpr fun plaintext h => ?_⟩
  obtain ⟨hmac, hwhole⟩ := length_sealPlaintext (deriveKey 0xDEADBEEF)
    (bytesOf 16 0x30000200010000000000000000000000 ++ bytesOf 16 0x00000000020000000000000010000000 ++
      bytesOf 16 0x43414e44494441544541444420372063)
  obtain ⟨_, hwhole'⟩ := length_sealPlaintext (deriveKey 0xDEADBEEF) plaintext
  rw [← h, List.length_dropLast] at hwhole'
  generalize (sealPlaintext _ _).length = length at hmac hwhole hwhole'
  simp only [macSize, blockSize] at hmac hwhole hwhole'
  omega

end Envelope
end NetherNet
