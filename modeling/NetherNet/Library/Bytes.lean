import Mathlib.Algebra.Group.Nat.Defs
import Mathlib.Data.List.Basic
import Mathlib.Data.Set.Finite.List

/-! Byte strings: little-endian fields, PKCS7 padding and block-wise maps, each with its inverse. -/
namespace NetherNet.Library

/-! ### Little-endian fields -/

/-- The low `width` bytes of a number. -/
def packLE : (width : Nat) → Nat → List UInt8
  | 0, _ => []
  | width + 1, value => UInt8.ofNat value :: packLE width (value / 256)

def unpackLE : List UInt8 → Nat
  | [] => 0
  | b :: rest => b.toNat + 256 * unpackLE rest

@[simp] theorem length_packLE (width value : Nat) : (packLE width value).length = width := by
  induction width generalizing value with
  | zero => rfl
  | succ width ih => simp [packLE, ih]

theorem unpackLE_packLE {width value : Nat} (h : value < 256 ^ width) : unpackLE (packLE width value) = value := by
  induction width generalizing value with
  | zero =>
    have hz : value = 0 := by simpa using h
    simp [packLE, unpackLE, hz]
  | succ width ih =>
    have hrest : value / 256 < 256 ^ width := by
      rw [Nat.div_lt_iff_lt_mul (by decide), ← Nat.pow_succ]
      exact h
    simp only [packLE, unpackLE, UInt8.toNat_ofNat', ih hrest]
    omega

/-- A field is the packing of its number. -/
theorem packLE_unpackLE (field : List UInt8) : packLE field.length (unpackLE field) = field := by
  induction field with
  | nil => rfl
  | cons b rest ih =>
    have hb := b.toNat_lt
    have hlow : UInt8.ofNat (b.toNat + 256 * unpackLE rest) = b := by
      apply UInt8.toNat_inj.mp
      rw [UInt8.toNat_ofNat']
      omega
    have hhigh : (b.toNat + 256 * unpackLE rest) / 256 = unpackLE rest := by omega
    rw [List.length_cons, packLE, unpackLE, hlow, hhigh, ih]

theorem unpackLE_lt (field : List UInt8) : unpackLE field < 256 ^ field.length := by
  induction field with
  | nil => decide
  | cons b rest ih =>
    have hb := b.toNat_lt
    rw [unpackLE, List.length_cons, Nat.pow_succ]
    omega

/-! ### PKCS7 -/

def pad (size : Nat) (data : List UInt8) : List UInt8 :=
  data ++ List.replicate (size - data.length % size) (UInt8.ofNat (size - data.length % size))

/-- The data before the padding, or nothing where the padding is not valid. -/
def unpad (size : Nat) (padded : List UInt8) : Option (List UInt8) :=
  match padded.getLast? with
  | none => none
  | some last =>
    let front := padded.length - last.toNat
    if padded.length % size = 0 ∧ 0 < last.toNat ∧ last.toNat ≤ size ∧ (padded.drop front).all (· = last) then
      some (padded.take front)
    else none

theorem length_pad_mod {size : Nat} (hs : 0 < size) (data : List UInt8) : (pad size data).length % size = 0 := by
  have hle := Nat.le_of_lt (Nat.mod_lt data.length hs)
  rw [pad, List.length_append, List.length_replicate, ← Nat.add_sub_assoc hle, Nat.add_comm,
    Nat.add_sub_assoc (Nat.mod_le _ _), Nat.add_mod_left]
  exact Nat.sub_mod_eq_zero_of_mod_eq (Nat.mod_mod _ _).symm

theorem unpad_pad {size : Nat} (hs : 0 < size) (hbyte : size < 256) (data : List UInt8) : unpad size (pad size data) = some data := by
  have hlt := Nat.mod_lt data.length hs
  have hcount : size - data.length % size = (size - data.length % size - 1) + 1 := by omega
  have hvalue : (UInt8.ofNat (size - data.length % size)).toNat = size - data.length % size := by
    rw [UInt8.toNat_ofNat', Nat.mod_eq_of_lt (by omega)]
  have hlast : (pad size data).getLast? = some (UInt8.ofNat (size - data.length % size)) := by
    rw [pad, hcount, List.replicate_succ', ← List.append_assoc, List.getLast?_concat]
  have hfront : (pad size data).length - (UInt8.ofNat (size - data.length % size)).toNat = data.length := by
    rw [hvalue, pad, List.length_append, List.length_replicate, Nat.add_sub_cancel]
  simp only [unpad, hlast, hfront]
  rw [if_pos ⟨length_pad_mod hs data, by omega, by omega, by simp [pad]⟩]
  simp [pad]

/-- The padding of a padded byte string is the one that its data gets. -/
theorem eq_pad_of_unpad {size : Nat} {padded data : List UInt8} (h : unpad size padded = some data) :
    padded = pad size data := by
  unfold unpad at h
  split at h
  · cases h
  · next last hlast =>
    simp only at h
    split at h
    · next hvalid =>
      obtain ⟨hmod, hpos, hle, hall⟩ := hvalid
      obtain rfl := Option.some.inj h
      obtain ⟨count, hcount⟩ := Nat.dvd_of_mod_eq_zero hmod
      have hne : padded.length ≠ 0 := fun hz => by
        rw [List.length_eq_zero_iff.mp hz] at hlast
        cases hlast
      have hblock : size ≤ padded.length := Nat.le_of_dvd (Nat.pos_of_ne_zero hne) ⟨count, hcount⟩
      have hfill : size - (padded.length - last.toNat) % size = last.toNat := by
        have hsplit : padded.length - last.toNat = (size - last.toNat) + (count - 1) * size := by
          obtain ⟨count, rfl⟩ : ∃ c, count = c + 1 := ⟨count - 1, by rcases count with _ | c <;> simp_all⟩
          rw [hcount, Nat.mul_succ, Nat.add_sub_cancel, Nat.mul_comm count size]
          omega
        rw [hsplit, Nat.add_mul_mod_self_right, Nat.mod_eq_of_lt (by omega)]
        omega
      have htail : padded.drop (padded.length - last.toNat) = List.replicate last.toNat last := by
        refine List.eq_replicate_iff.mpr ⟨?_, fun b hb => by simpa using List.all_eq_true.mp hall b hb⟩
        rw [List.length_drop]
        omega
      have hlength : (padded.take (padded.length - last.toNat)).length = padded.length - last.toNat := by
        rw [List.length_take]
        omega
      rw [pad, hlength, hfill, UInt8.ofNat_toNat, ← htail, List.take_append_drop]
    · cases h

/-! ### Blocks -/

/-- A map of blocks, over the first `count` blocks of a byte string. -/
def mapBlocks (size : Nat) (f : List UInt8 → List UInt8) : (count : Nat) → List UInt8 → List UInt8
  | 0, _ => []
  | count + 1, data => f (data.take size) ++ mapBlocks size f count (data.drop size)

section Blocks
variable {size : Nat} {f g : List UInt8 → List UInt8}

theorem length_mapBlocks (hf : ∀ block, block.length = size → (f block).length = size) {count : Nat} {data : List UInt8}
    (h : data.length = count * size) : (mapBlocks size f count data).length = count * size := by
  induction count generalizing data with
  | zero => simp [mapBlocks]
  | succ count ih =>
    rw [Nat.succ_mul] at h
    have hblock : (data.take size).length = size := by rw [List.length_take]; omega
    have hrest : (data.drop size).length = count * size := by rw [List.length_drop]; omega
    rw [mapBlocks, List.length_append, hf _ hblock, ih hrest, Nat.succ_mul, Nat.add_comm]

/-- Blocks that are mapped there and back are as they were. -/
theorem mapBlocks_inverse (hf : ∀ block, block.length = size → (f block).length = size)
    (hg : ∀ block, block.length = size → g (f block) = block) {count : Nat} {data : List UInt8}
    (h : data.length = count * size) : mapBlocks size g count (mapBlocks size f count data) = data := by
  induction count generalizing data with
  | zero =>
    rw [Nat.zero_mul] at h
    rw [List.length_eq_zero_iff.mp h]
    rfl
  | succ count ih =>
    rw [Nat.succ_mul] at h
    have hblock : (data.take size).length = size := by rw [List.length_take]; omega
    have hrest : (data.drop size).length = count * size := by rw [List.length_drop]; omega
    rw [mapBlocks, mapBlocks, List.take_left' (hf _ hblock), List.drop_left' (hf _ hblock), hg _ hblock, ih hrest,
      List.take_append_drop]

/-- A map of blocks that can be undone reaches every block, so it undoes its inverse. -/
theorem blocks_right_inverse (hf : ∀ block, block.length = size → (f block).length = size)
    (hg : ∀ block, block.length = size → g (f block) = block) {block : List UInt8} (h : block.length = size) :
    (g block).length = size ∧ f (g block) = block := by
  have hbytes : Finite UInt8 := Finite.of_injective UInt8.toFin fun _ _ => UInt8.toFin_inj.mp
  have hblocks : Finite { block : List UInt8 // block.length = size } := (List.finite_length_eq UInt8 size).to_subtype
  let onBlocks : { block : List UInt8 // block.length = size } → { block : List UInt8 // block.length = size } :=
    fun block => ⟨f block, hf block block.2⟩
  have hinj : Function.Injective onBlocks := by
    intro a b hab
    have hvalue := congrArg g (congrArg Subtype.val hab)
    simp only [onBlocks, hg _ a.2, hg _ b.2] at hvalue
    exact Subtype.ext hvalue
  obtain ⟨source, hsource⟩ := Finite.injective_iff_surjective.mp hinj ⟨block, h⟩
  have hblock : f source = block := congrArg Subtype.val hsource
  rw [← hblock, hg _ source.2]
  exact ⟨source.2, rfl⟩
end Blocks

end NetherNet.Library
