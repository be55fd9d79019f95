import Mathlib.Algebra.GroupWithZero.Nat
import Mathlib.Algebra.Ring.Int.Defs

/-!
# The slab bitmap of the coordinator

A producer's slabs are marked in an array of 32-bit words, one bit a slab, set
while the slab is granted. Bit numbers are signed, as in the source: `bit >> 5`
rounds down and `bit & 0x1f` is the remainder.
-/

namespace Memtrade.Coordinator

abbrev Bitmap := List (BitVec 32)

def bitmapShift : Nat := 5

/-- `align_up`, on unsigned 64-bit words. -/
def alignUp (v a : BitVec 64) : BitVec 64 := (v + a - 1#64) &&& ~~~(a - 1#64)

/-- `init_bitmap`: words enough for `size` bits, all zero. -/
def initBitmap (size : Nat) : Bitmap :=
  List.replicate (alignUp (BitVec.ofNat 64 size) (1#64 <<< bitmapShift) >>> bitmapShift).toNat 0#32

/-- The word of a bit. -/
def wordIndex (bit : Int) : Int := bit / 2 ^ bitmapShift

/-- The place of a bit in its word. -/
def bitOffset (bit : Int) : Nat := (bit % 2 ^ bitmapShift).toNat

/-- The access to this bit stays in the array. -/
def inside (bitmap : Bitmap) (bit : Int) : Bool :=
  decide (0 ≤ wordIndex bit) && decide (wordIndex bit < bitmap.length)

def setBit (bitmap : Bitmap) (bit : Int) : Bitmap :=
  bitmap.modify (wordIndex bit).toNat fun w => w ||| 1#32 <<< bitOffset bit

/-- `clear_bit`: the shift moves zeros in below the cleared bit. -/
def clearBit (bitmap : Bitmap) (bit : Int) : Bitmap :=
  bitmap.modify (wordIndex bit).toNat fun w => w &&& (~~~1#32) <<< bitOffset bit

def getBit (bitmap : Bitmap) (bit : Int) : Bool :=
  (bitmap.getD (wordIndex bit).toNat 0#32 &&& 1#32 <<< bitOffset bit) != 0#32

/-! ## Reading a bit -/

theorem bitOffset_lt (bit : Int) : bitOffset bit < 32 := by
  simp only [bitOffset, bitmapShift]
  omega

theorem getBit_eq (bitmap : Bitmap) (bit : Int) :
    getBit bitmap bit = (bitmap.getD (wordIndex bit).toNat 0#32).getLsbD (bitOffset bit) := by
  unfold getBit
  rw [← BitVec.twoPow_eq, BitVec.and_twoPow]
  cases hbit : (bitmap.getD (wordIndex bit).toNat 0#32).getLsbD (bitOffset bit) with
  | false => simp
  | true =>
      have hne : BitVec.twoPow 32 (bitOffset bit) ≠ 0#32 := by
        intro hzero
        have hget := BitVec.getLsbD_twoPow (w := 32) (bitOffset bit) (bitOffset bit)
        simp [hzero, bitOffset_lt] at hget
      simpa using hne

theorem getD_modify (bitmap : Bitmap) (i j : Nat) (f : BitVec 32 → BitVec 32)
    (hi : i < bitmap.length) :
    (bitmap.modify i f).getD j 0#32 =
      if i = j then f (bitmap.getD j 0#32) else bitmap.getD j 0#32 := by
  rw [List.getD_eq_getElem?_getD, List.getD_eq_getElem?_getD, List.getElem?_modify]
  by_cases hij : i = j
  · subst hij
    simp [List.getElem?_eq_getElem hi]
  · simp [hij]

theorem inside_iff {bitmap : Bitmap} {bit : Int} :
    inside bitmap bit = true ↔ 0 ≤ bit ∧ bit < 32 * bitmap.length := by
  simp only [inside, Bool.and_eq_true, decide_eq_true_eq]
  simp only [wordIndex, bitmapShift]
  omega

theorem wordIndex_lt {bitmap : Bitmap} {bit : Int} (h : inside bitmap bit = true) :
    (wordIndex bit).toNat < bitmap.length := by
  simp only [inside, Bool.and_eq_true, decide_eq_true_eq] at h
  omega

theorem wordIndex_toNat_eq_iff {i j : Int} (hi : 0 ≤ i) (hj : 0 ≤ j) :
    (wordIndex i).toNat = (wordIndex j).toNat ↔ i / 32 = j / 32 := by
  simp only [wordIndex, bitmapShift]
  omega

@[simp] theorem length_setBit (bitmap : Bitmap) (bit : Int) :
    (setBit bitmap bit).length = bitmap.length := by
  simp [setBit]

@[simp] theorem length_clearBit (bitmap : Bitmap) (bit : Int) :
    (clearBit bitmap bit).length = bitmap.length := by
  simp [clearBit]

theorem getBit_setBit {bitmap : Bitmap} {i j : Int} (hi : inside bitmap i = true) (hj : 0 ≤ j) :
    getBit (setBit bitmap i) j = (getBit bitmap j || decide (i = j)) := by
  have hi₀ : 0 ≤ i := (inside_iff.mp hi).1
  have hword := wordIndex_toNat_eq_iff hi₀ hj
  rw [getBit_eq, getBit_eq, setBit, getD_modify _ _ _ _ (wordIndex_lt hi)]
  by_cases hsame : i / 32 = j / 32
  · have hoff : bitOffset i = bitOffset j ↔ i = j := by
      simp only [bitOffset, bitmapShift]
      omega
    rw [if_pos (hword.mpr hsame), BitVec.getLsbD_or, ← BitVec.twoPow_eq, BitVec.getLsbD_twoPow]
    simp [bitOffset_lt, hoff]
  · have hne : i ≠ j := fun h => hsame (by rw [h])
    rw [if_neg (fun h => hsame (hword.mp h))]
    simp [hne]

theorem getBit_clearBit {bitmap : Bitmap} {i j : Int} (hi : inside bitmap i = true) (hj : 0 ≤ j) :
    getBit (clearBit bitmap i) j = (getBit bitmap j && !decide (i / 32 = j / 32 ∧ j ≤ i)) := by
  have hi₀ : 0 ≤ i := (inside_iff.mp hi).1
  have hword := wordIndex_toNat_eq_iff hi₀ hj
  rw [getBit_eq, getBit_eq, clearBit, getD_modify _ _ _ _ (wordIndex_lt hi)]
  by_cases hsame : i / 32 = j / 32
  · have hoff : bitOffset i < bitOffset j ↔ ¬ j ≤ i := by
      simp only [bitOffset, bitmapShift]
      omega
    rw [if_pos (hword.mpr hsame), BitVec.getLsbD_and, BitVec.getLsbD_shiftLeft, BitVec.getLsbD_not,
      BitVec.getLsbD_one]
    congr 1
    have hjlt := bitOffset_lt j
    by_cases hle : j ≤ i
    · have hnlt : ¬ bitOffset i < bitOffset j := fun h => hoff.mp h hle
      have hcase : bitOffset j < bitOffset i ∨ bitOffset j - bitOffset i = 0 := by omega
      rcases hcase with h | h <;> simp [h, hsame, hle]
    · have hlt := hoff.mpr hle
      have hge : ¬ bitOffset j < bitOffset i := by omega
      have hpos : bitOffset j - bitOffset i ≠ 0 := by omega
      have hwidth : bitOffset j - bitOffset i < 32 := by omega
      simp [hjlt, hge, hpos, hwidth, hle]
  · rw [if_neg (fun h => hsame (hword.mp h))]
    simp [hsame]

/-! ## Fresh bitmaps -/

theorem and_not_mask_shift (v : BitVec 64) :
    (v &&& ~~~(31#64)) >>> bitmapShift = v >>> bitmapShift := by
  apply BitVec.eq_of_getLsbD_eq
  intro i _
  have hlow : Nat.testBit 31 (bitmapShift + i) = false := by
    apply Nat.testBit_lt_two_pow
    calc 31 < 2 ^ 5 := by decide
      _ ≤ 2 ^ (bitmapShift + i) := Nat.pow_le_pow_right (by decide) (by simp [bitmapShift])
  simp only [BitVec.getLsbD_ushiftRight, BitVec.getLsbD_and, BitVec.getLsbD_not,
    BitVec.getLsbD_ofNat, hlow]
  by_cases hi : bitmapShift + i < 64
  · simp [hi]
  · simp [BitVec.getLsbD_of_ge v (bitmapShift + i) (by omega)]

theorem length_initBitmap {size : Nat} (h : size < 2 ^ 31) :
    (initBitmap size).length = (size + 31) / 32 := by
  have hmask : alignUp (BitVec.ofNat 64 size) (1#64 <<< bitmapShift) =
      (BitVec.ofNat 64 size + 31#64) &&& ~~~(31#64) := by
    have hone : 1#64 <<< bitmapShift = 32#64 := by decide
    have hlast : BitVec.ofNat 64 size + 32#64 - 1#64 = BitVec.ofNat 64 size + 31#64 := by
      apply BitVec.eq_of_toNat_eq
      simp only [BitVec.toNat_sub, BitVec.toNat_add, BitVec.toNat_ofNat]
      omega
    unfold alignUp
    rw [hone, hlast]
    rfl
  have hsum : (BitVec.ofNat 64 size + 31#64).toNat = size + 31 := by
    rw [BitVec.toNat_add, BitVec.toNat_ofNat, BitVec.toNat_ofNat]
    omega
  rw [initBitmap, List.length_replicate, hmask, and_not_mask_shift, BitVec.toNat_ushiftRight, hsum,
    Nat.shiftRight_eq_div_pow]
  rfl

theorem getBit_initBitmap (size : Nat) (bit : Int) : getBit (initBitmap size) bit = false := by
  rw [getBit_eq, initBitmap, List.getD_eq_getElem?_getD, List.getElem?_replicate]
  split <;> simp

/-! ## The laws of a bitmap -/

/-- What is expected of a bitmap for `n` slabs and the bit `i`: the bits of all slabs are in
the array and fresh ones are 0, and setting or clearing `i` changes no other bit. -/
structure BitmapLaws (n : Nat) (bitmap : Bitmap) (i : Nat) : Prop where
  allocated : ∀ j : Nat, j < n → inside bitmap j = true
  fresh : ∀ j : Nat, j < n → getBit (initBitmap n) j = false
  set_self : getBit (setBit bitmap i) i = true
  set_other : ∀ j : Nat, j < n → j ≠ i → getBit (setBit bitmap i) j = getBit bitmap j
  clear_self : getBit (clearBit bitmap i) i = false
  clear_other : ∀ j : Nat, j < n → j ≠ i → getBit (clearBit bitmap i) j = getBit bitmap j

theorem inside_of_lt {n : Nat} {bitmap : Bitmap} (hn : n < 2 ^ 31)
    (hlen : bitmap.length = (initBitmap n).length) {j : Nat} (hj : j < n) :
    inside bitmap j = true := by
  rw [length_initBitmap hn] at hlen
  rw [inside_iff, hlen]
  omega

/-- The laws hold exactly if no lower bit of the word of `i` is set. -/
theorem bitmapLaws_iff {n i : Nat} {bitmap : Bitmap} (hn : n < 2 ^ 31)
    (hlen : bitmap.length = (initBitmap n).length) (hi : i < n) :
    BitmapLaws n bitmap i ↔ ∀ j : Nat, j < i → j / 32 = i / 32 → getBit bitmap j = false := by
  have hin := inside_of_lt hn hlen hi
  have hword : ∀ j : Nat, (i : Int) / 32 = (j : Int) / 32 ↔ j / 32 = i / 32 := by
    intro j
    omega
  constructor
  · intro h j hlt hsame
    have hkept := h.clear_other j (by omega) (by omega)
    have hle : (j : Int) ≤ i := by omega
    rw [getBit_clearBit hin (Int.natCast_nonneg j), decide_eq_true ⟨(hword j).mpr hsame, hle⟩,
      Bool.not_true, Bool.and_false] at hkept
    exact hkept.symm
  · intro hlow
    constructor
    case allocated =>
      intro j hj
      exact inside_of_lt hn hlen hj
    case fresh =>
      intro j _
      exact getBit_initBitmap n j
    case set_self =>
      rw [getBit_setBit hin (Int.natCast_nonneg i), decide_eq_true rfl, Bool.or_true]
    case set_other =>
      intro j _ hne
      have hne' : ¬ (i : Int) = j := by omega
      rw [getBit_setBit hin (Int.natCast_nonneg j), decide_eq_false hne', Bool.or_false]
    case clear_self =>
      rw [getBit_clearBit hin (Int.natCast_nonneg i), decide_eq_true ⟨rfl, Int.le_refl _⟩,
        Bool.not_true, Bool.and_false]
    case clear_other =>
      intro j _ hne
      rw [getBit_clearBit hin (Int.natCast_nonneg j)]
      by_cases hcleared : (i : Int) / 32 = (j : Int) / 32 ∧ (j : Int) ≤ i
      · rw [hlow j (by omega) ((hword j).mp hcleared.1), Bool.false_and]
      · rw [decide_eq_false hcleared, Bool.not_false, Bool.and_true]

/-- Three slabs of the first word and two of the second are granted, none below slab 34 in
its word. -/
theorem bitmapLaws_second_word : BitmapLaws 64 [7#32, 12#32] 34 :=
  (bitmapLaws_iff (by decide) (by decide) (by decide)).mpr (by decide)

/-- Clearing the second of two slabs clears the first. -/
theorem clearBit_clears_neighbour :
    ¬ ∀ (n : Nat) (bitmap : Bitmap) (i : Nat), n < 2 ^ 31 →
      bitmap.length = (initBitmap n).length → i < n → BitmapLaws n bitmap i := by
  intro hall
  have hlaws := hall 2 [3#32] 1 (by decide) (by decide) (by decide)
  have hkept := hlaws.clear_other 0 (by decide) (by decide)
  exact absurd hkept (by decide)

end Memtrade.Coordinator
