import Mathlib.Data.BitVec
import Mathlib.Order.CompletePartialOrder
import Memtrade.Coordinator.Listing

/-!
# Slabs of a producer

What granting and releasing do to the bitmap and the counter of one struct, and
how the addresses of slabs are read back.
-/

namespace Memtrade.Coordinator

/-- Every slab has a bit in the bitmap. -/
def Fits (p : ProducerInfo) : Prop := p.nslabs ≤ 32 * p.slabAvailabilityFlag.length

def marked (p : ProducerInfo) (slab : Nat) : Bool := getBit p.slabAvailabilityFlag slab

/-! ## Marking -/

@[simp] theorem length_setBits (bitmap : Bitmap) (slab count : Nat) :
    (setBits bitmap slab count).length = bitmap.length := by
  induction count with
  | zero => rfl
  | succ count ih => simp [setBits, ih]

theorem getBit_setBits {bitmap : Bitmap} {slab count : Nat}
    (hin : slab + count ≤ 32 * bitmap.length) (j : Nat) :
    getBit (setBits bitmap slab count) j =
      (getBit bitmap j || decide (slab ≤ j ∧ j < slab + count)) := by
  induction count with
  | zero =>
      have hempty : ¬ (slab ≤ j ∧ j < slab + 0) := by omega
      rw [setBits, decide_eq_false hempty, Bool.or_false]
  | succ count ih =>
      have hbit : inside (setBits bitmap slab count) ((slab + count : Nat) : Int) = true := by
        rw [inside_iff, length_setBits]
        omega
      rw [setBits, getBit_setBit hbit (by omega), ih (by omega), Bool.or_assoc]
      congr 1
      rw [← Bool.decide_or]
      apply decide_eq_decide.mpr
      omega

/-! ## Searching -/

theorem isSlabAvailable_eq {p : ProducerInfo} {slab : Nat} (h : slab < p.nslabs) :
    isSlabAvailable p slab = !marked p slab := by
  unfold isSlabAvailable
  rw [if_neg (by omega)]
  rfl

theorem findAvailableSlabs_some {p : ProducerInfo} {slab : Nat} :
    findAvailableSlabs p = some slab ↔
      slab < p.nslabs ∧ marked p slab = false ∧ ∀ j < slab, marked p j = true := by
  unfold findAvailableSlabs
  rw [List.find?_range_eq_some]
  constructor
  · rintro ⟨havail, hmem, hbefore⟩
    have hlt : slab < p.nslabs := by simpa using hmem
    refine ⟨hlt, ?_, ?_⟩
    · simpa [isSlabAvailable_eq hlt] using havail
    · intro j hj
      have := hbefore j hj
      simpa [isSlabAvailable_eq (show j < p.nslabs by omega)] using this
  · rintro ⟨hlt, hclear, hbefore⟩
    refine ⟨by simp [isSlabAvailable_eq hlt, hclear], by simpa using hlt, ?_⟩
    intro j hj
    simp [isSlabAvailable_eq (show j < p.nslabs by omega), hbefore j hj]

/-! ## Granting -/

/-- The struct after `count` slabs from `slab` on were granted. -/
def granted (p : ProducerInfo) (slab count : Nat) : ProducerInfo :=
  { p with
    slabAvailabilityFlag := setBits p.slabAvailabilityFlag slab count
    availableSlabs := p.availableSlabs - count }

theorem grantSlabs_spec {s s' : State} {peer ptr : Nat} {p : ProducerInfo} {slab requested : Nat}
    {g : Grant} (h : (s', g) = grantSlabs s peer ptr p slab requested) :
    g = { peer := peer, producer := ptr, slab := slab, nslabs := min requested (p.nslabs - slab),
          id := p.id, addr := addrFromSlab p slab } ∧
      s' = { s with
        producers := s.producers.write ptr (granted p slab (min requested (p.nslabs - slab)))
        grants := g :: s.grants } := by
  have hcount : (if p.nslabs - slab ≥ requested then requested else p.nslabs - slab) =
      min requested (p.nslabs - slab) := by
    split <;> omega
  unfold grantSlabs at h
  simp only [hcount, Prod.mk.injEq] at h
  obtain ⟨hs', hg⟩ := h
  refine ⟨hg, ?_⟩
  rw [hs', hg]
  rfl

theorem marked_granted {p : ProducerInfo} (h : Fits p) {slab count : Nat}
    (hle : slab + count ≤ p.nslabs) (j : Nat) :
    marked (granted p slab count) j = (marked p j || decide (slab ≤ j ∧ j < slab + count)) := by
  unfold Fits at h
  exact getBit_setBits (by omega) j

theorem Fits.granted {p : ProducerInfo} (h : Fits p) (slab count : Nat) :
    Fits (granted p slab count) := by
  unfold Fits at h ⊢
  simpa [Coordinator.granted] using h

/-! ## Releasing -/

theorem freeSlabs_fields (count : Nat) (slab : Int) (p : ProducerInfo) :
    (freeSlabs count slab p).nslabs = p.nslabs ∧ (freeSlabs count slab p).memaddr = p.memaddr ∧
      (freeSlabs count slab p).availableSlabs = p.availableSlabs + count ∧
      (freeSlabs count slab p).slabAvailabilityFlag.length = p.slabAvailabilityFlag.length := by
  induction count generalizing slab p with
  | zero => simp [freeSlabs]
  | succ count ih =>
      unfold freeSlabs
      obtain ⟨hn, hm, ha, hl⟩ := ih (slab + 1) { p with
        slabAvailabilityFlag :=
          if inside p.slabAvailabilityFlag slab then clearBit p.slabAvailabilityFlag slab
          else p.slabAvailabilityFlag
        availableSlabs := p.availableSlabs + 1 }
      refine ⟨hn, hm, ?_, ?_⟩
      · rw [ha]
        push_cast
        omega
      · rw [hl]
        show (if inside p.slabAvailabilityFlag slab then clearBit p.slabAvailabilityFlag slab
          else p.slabAvailabilityFlag).length = _
        split
        · exact length_clearBit _ _
        · rfl

/-- A release clears its range and, in the word where the range begins, what is below. -/
theorem marked_freeSlabs {count : Nat} (slab : Nat) (p : ProducerInfo)
    (hin : slab + count ≤ 32 * p.slabAvailabilityFlag.length) (hpos : 0 < count) (j : Nat) :
    marked (freeSlabs count slab p) j =
      (marked p j && !decide (32 * (slab / 32) ≤ j ∧ j < slab + count)) := by
  induction count generalizing slab p with
  | zero => omega
  | succ count ih =>
      have hbit : inside p.slabAvailabilityFlag slab = true := by
        rw [inside_iff]
        omega
      have hfirst : getBit (clearBit p.slabAvailabilityFlag slab) j =
          (marked p j && !decide (32 * (slab / 32) ≤ j ∧ j ≤ slab)) := by
        rw [getBit_clearBit hbit (by omega)]
        unfold marked
        congr 2
        apply decide_eq_decide.mpr
        omega
      rw [freeSlabs, if_pos hbit]
      by_cases hlast : count = 0
      · subst hlast
        show getBit (clearBit p.slabAvailabilityFlag slab) j = _
        rw [hfirst]
        congr 2
        apply decide_eq_decide.mpr
        omega
      · have hrest := ih (slab + 1) { p with
          slabAvailabilityFlag := clearBit p.slabAvailabilityFlag slab
          availableSlabs := p.availableSlabs + 1 }
          (by
            show slab + 1 + count ≤ 32 * (clearBit p.slabAvailabilityFlag slab).length
            rw [length_clearBit]
            omega) (by omega)
        push_cast at hrest
        rw [hrest]
        show (getBit (clearBit p.slabAvailabilityFlag slab) j && _) = _
        rw [hfirst, Bool.and_assoc, ← Bool.not_or, ← Bool.decide_or]
        congr 2
        apply decide_eq_decide.mpr
        omega

/-! ## Addresses -/

theorem slabOffset_toNat {slabs : Nat} (h : slabs * slabSize < 2 ^ 31) :
    (slabOffset slabs).toNat = slabs * slabSize := by
  have hint : (BitVec.ofInt 32 ((slabs : Int) * slabSize)).toNat = slabs * slabSize := by
    rw [BitVec.toNat_ofInt]
    have hcast : (slabs : Int) * (slabSize : Int) = ((slabs * slabSize : Nat) : Int) := by
      push_cast
      rfl
    rw [hcast]
    omega
  have hmsb : (BitVec.ofInt 32 ((slabs : Int) * slabSize)).msb = false := by
    rw [BitVec.msb_eq_decide, decide_eq_false_iff_not, hint]
    omega
  unfold slabOffset
  rw [BitVec.signExtend_eq_setWidth_of_msb_false hmsb, BitVec.toNat_setWidth, hint]
  omega

/-- The region of a producer is addressed without overflow. -/
def InRange (nslabs : Nat) (memaddr : BitVec 64) : Prop :=
  nslabs * slabSize < 2 ^ 31 ∧ memaddr.toNat + nslabs * slabSize < 2 ^ 64

theorem addrFromSlab_toNat {p : ProducerInfo} (h : InRange p.nslabs p.memaddr) {slab : Nat}
    (hlt : slab < p.nslabs) : (addrFromSlab p slab).toNat = p.memaddr.toNat + slab * slabSize := by
  have hmul : slab * slabSize ≤ p.nslabs * slabSize := Nat.mul_le_mul_right _ (by omega)
  obtain ⟨hint, haddr⟩ := h
  unfold addrFromSlab
  rw [if_neg (by omega), BitVec.toNat_add, slabOffset_toNat (by omega)]
  omega

theorem slabFromAddr_of_mem {p : ProducerInfo} (h : InRange p.nslabs p.memaddr) {addr : BitVec 64}
    (hlo : p.memaddr.toNat ≤ addr.toNat)
    (hhi : addr.toNat < p.memaddr.toNat + p.nslabs * slabSize) :
    slabFromAddr p addr = ((addr.toNat - p.memaddr.toNat) / slabSize : Nat) := by
  obtain ⟨hint, hregion⟩ := h
  have hend : (p.memaddr + slabOffset p.nslabs).toNat = p.memaddr.toNat + p.nslabs * slabSize := by
    rw [BitVec.toNat_add, slabOffset_toNat hint]
    omega
  have hin : ¬ (addr < p.memaddr ∨ addr ≥ p.memaddr + slabOffset p.nslabs) := by
    rw [BitVec.lt_def, ge_iff_le, BitVec.le_def, hend]
    omega
  have hdiv : ((addr - p.memaddr) / BitVec.ofNat 64 slabSize).toNat =
      (addr.toNat - p.memaddr.toNat) / slabSize := by
    have hsize : (BitVec.ofNat 64 slabSize).toNat = slabSize := by decide
    rw [BitVec.toNat_udiv, hsize, BitVec.toNat_sub_of_le (BitVec.le_def.mpr hlo)]
  have hsmall : (addr.toNat - p.memaddr.toNat) / slabSize < 2 ^ 31 :=
    lt_of_le_of_lt (Nat.div_le_self _ _) (by omega)
  have htrunc : (((addr - p.memaddr) / BitVec.ofNat 64 slabSize).truncate 32).toNat =
      (addr.toNat - p.memaddr.toNat) / slabSize := by
    rw [BitVec.truncate_eq_setWidth, BitVec.toNat_setWidth, hdiv]
    omega
  unfold slabFromAddr
  rw [if_neg hin, BitVec.toInt_eq_toNat_of_lt (by omega), htrunc]

theorem slabFromAddr_addrFromSlab {p : ProducerInfo} (h : InRange p.nslabs p.memaddr) {slab : Nat}
    (hlt : slab < p.nslabs) : slabFromAddr p (addrFromSlab p slab) = slab := by
  have haddr := addrFromSlab_toNat h hlt
  have hmul : (slab + 1) * slabSize ≤ p.nslabs * slabSize := Nat.mul_le_mul_right _ (by omega)
  have hsucc : (slab + 1) * slabSize = slab * slabSize + slabSize := Nat.succ_mul _ _
  have hpos : 0 < slabSize := by decide
  rw [slabFromAddr_of_mem h (by omega) (by omega), haddr, Nat.add_sub_cancel_left,
    Nat.mul_div_cancel _ hpos]

/-! ## Regions of any size -/

/-- `RDMA_PRODUCER_NSLABS`. -/
def producerNslabs : Nat := 524288

/-- The addresses that a producer registered. -/
def region (p : ProducerInfo) : Set Nat :=
  Set.Ico p.memaddr.toNat (p.memaddr.toNat + p.nslabs * slabSize)

/-- The addresses of a slab. -/
def slabRange (p : ProducerInfo) (slab : Nat) : Set Nat :=
  Set.Ico (addrFromSlab p slab).toNat ((addrFromSlab p slab).toNat + slabSize)

/-- Slabs and addresses are translated into each other. -/
structure RoundTrips (p : ProducerInfo) : Prop where
  slab : ∀ slab < p.nslabs, slabFromAddr p (addrFromSlab p slab) = slab
  range : ∀ slab < p.nslabs, slabRange p slab ⊆ region p
  disjoint : ∀ slab < p.nslabs, ∀ slab' < p.nslabs, slab ≠ slab' →
    Disjoint (slabRange p slab) (slabRange p slab')
  outside : ∀ addr : BitVec 64, slabFromAddr p addr = -1 ↔ addr.toNat ∉ region p

/-- Without overflow the slabs lie in the region one behind the other. -/
theorem roundTrips_of_inRange {p : ProducerInfo} (h : InRange p.nslabs p.memaddr) :
    RoundTrips p where
  slab _ hlt := slabFromAddr_addrFromSlab h hlt
  range slab hlt := by
    have hmul : (slab + 1) * slabSize ≤ p.nslabs * slabSize := Nat.mul_le_mul_right _ (by omega)
    have hsucc : (slab + 1) * slabSize = slab * slabSize + slabSize := Nat.succ_mul _ _
    unfold slabRange region
    rw [addrFromSlab_toNat h hlt]
    apply Set.Ico_subset_Ico
    · omega
    · omega
  disjoint slab hlt slab' hlt' hne := by
    have hsucc : (slab + 1) * slabSize = slab * slabSize + slabSize := Nat.succ_mul _ _
    have hsucc' : (slab' + 1) * slabSize = slab' * slabSize + slabSize := Nat.succ_mul _ _
    unfold slabRange
    rw [addrFromSlab_toNat h hlt, addrFromSlab_toNat h hlt', Set.disjoint_left]
    intro a ha ha'
    obtain ⟨hlo, hhi⟩ := ha
    obtain ⟨hlo', hhi'⟩ := ha'
    cases Nat.lt_or_gt_of_ne hne with
    | inl hbefore =>
        have hmul : (slab + 1) * slabSize ≤ slab' * slabSize := Nat.mul_le_mul_right _ (by omega)
        omega
    | inr hbehind =>
        have hmul : (slab' + 1) * slabSize ≤ slab * slabSize := Nat.mul_le_mul_right _ (by omega)
        omega
  outside addr := by
    unfold region
    constructor
    · intro hneg hmem
      rw [slabFromAddr_of_mem h hmem.1 hmem.2] at hneg
      have hnonneg := Int.natCast_nonneg ((addr.toNat - p.memaddr.toNat) / slabSize)
      rw [hneg] at hnonneg
      exact absurd hnonneg (by decide)
    · intro hout
      have hend : (p.memaddr + slabOffset p.nslabs).toNat =
          p.memaddr.toNat + p.nslabs * slabSize := by
        rw [BitVec.toNat_add, slabOffset_toNat h.1]
        have hregion := h.2
        omega
      unfold slabFromAddr
      rw [if_pos]
      rw [BitVec.lt_def, ge_iff_le, BitVec.le_def, hend]
      rw [Set.mem_Ico] at hout
      omega

theorem slabOffset_two_pow : (slabOffset (2 ^ 14 : Nat)).toNat = 2 ^ 64 - 2 ^ 31 := by decide

/-- The bound of the region has wrapped around, so that no address passes the test. -/
theorem slabFromAddr_of_wrapped {p : ProducerInfo}
    (hend : (p.memaddr + slabOffset p.nslabs).toNat ≤ p.memaddr.toNat) (addr : BitVec 64) :
    slabFromAddr p addr = -1 := by
  unfold slabFromAddr
  rw [if_pos]
  rw [BitVec.lt_def, ge_iff_le, BitVec.le_def]
  omega

theorem not_roundTrips_of_wrapped {p : ProducerInfo} (hpos : 0 < p.nslabs)
    (hend : (p.memaddr + slabOffset p.nslabs).toNat ≤ p.memaddr.toNat) : ¬ RoundTrips p := by
  intro h
  have hslab := h.slab 0 hpos
  rw [slabFromAddr_of_wrapped hend] at hslab
  cases hslab

theorem not_roundTrips_two_pow {p : ProducerInfo} (hn : p.nslabs = 2 ^ 14) : ¬ RoundTrips p := by
  have hend : (p.memaddr + slabOffset p.nslabs).toNat =
      (p.memaddr.toNat + (2 ^ 64 - 2 ^ 31)) % 2 ^ 64 := by
    rw [hn, BitVec.toNat_add, slabOffset_two_pow]
  have hlt := p.memaddr.isLt
  by_cases hlow : p.memaddr.toNat < 2 ^ 31
  · -- the bound wraps to the top of the address space, so addresses behind the region pass
    intro h
    have hsum : (p.memaddr + BitVec.ofNat 64 (2 ^ 31)).toNat = p.memaddr.toNat + 2 ^ 31 := by
      rw [BitVec.toNat_add, BitVec.toNat_ofNat]
      omega
    have hout : (p.memaddr + BitVec.ofNat 64 (2 ^ 31)).toNat ∉ region p := by
      unfold region slabSize
      rw [hsum, Set.mem_Ico, hn]
      omega
    have hneg := (h.outside _).mpr hout
    have hin : ¬ (p.memaddr + BitVec.ofNat 64 (2 ^ 31) < p.memaddr ∨
        p.memaddr + BitVec.ofNat 64 (2 ^ 31) ≥ p.memaddr + slabOffset p.nslabs) := by
      rw [BitVec.lt_def, ge_iff_le, BitVec.le_def, hend, hsum]
      omega
    have hdiff : p.memaddr + BitVec.ofNat 64 (2 ^ 31) - p.memaddr = BitVec.ofNat 64 (2 ^ 31) := by
      rw [BitVec.add_comm, BitVec.add_sub_cancel]
    unfold slabFromAddr at hneg
    rw [if_neg hin, hdiff] at hneg
    exact absurd hneg (by decide)
  · apply not_roundTrips_of_wrapped (by omega)
    rw [hend]
    omega

/-- A region of more than 2 GB: the slab that begins at 2 GB gets an address outside. -/
theorem not_roundTrips_of_gt {p : ProducerInfo} (hn : 2 ^ 14 < p.nslabs)
    (hle : p.nslabs ≤ producerNslabs) : ¬ RoundTrips p := by
  intro h
  have haddr : (addrFromSlab p ((2 ^ 14 : Nat) : Int)).toNat =
      (p.memaddr.toNat + (2 ^ 64 - 2 ^ 31)) % 2 ^ 64 := by
    unfold addrFromSlab
    rw [if_neg (by omega), BitVec.toNat_add, slabOffset_two_pow]
  have hpos : 0 < slabSize := by decide
  have hfirst : (addrFromSlab p ((2 ^ 14 : Nat) : Int)).toNat ∈ slabRange p (2 ^ 14) :=
    Set.mem_Ico.mpr ⟨le_refl _, by omega⟩
  have hmem := h.range (2 ^ 14) hn hfirst
  have hsize : p.nslabs * slabSize ≤ producerNslabs * slabSize := Nat.mul_le_mul_right _ hle
  have hmax : producerNslabs * slabSize = 2 ^ 36 := by decide
  have hlt := p.memaddr.isLt
  unfold region at hmem
  rw [haddr, Set.mem_Ico] at hmem
  omega

/-- Slabs and addresses are translated into each other exactly when the region is
smaller than 2 GB and does not end with the address space. -/
theorem roundTrips_iff (p : ProducerInfo) (hpos : 0 < p.nslabs) (hle : p.nslabs ≤ producerNslabs)
    (hfit : p.memaddr.toNat + p.nslabs * slabSize ≤ 2 ^ 64) :
    RoundTrips p ↔
      p.nslabs * slabSize < 2 ^ 31 ∧ p.memaddr.toNat + p.nslabs * slabSize < 2 ^ 64 := by
  constructor
  · intro h
    have hsmall : p.nslabs < 2 ^ 14 := by
      by_contra hge
      by_cases heq : p.nslabs = 2 ^ 14
      · exact not_roundTrips_two_pow heq h
      · exact not_roundTrips_of_gt (by omega) hle h
    have hint : p.nslabs * slabSize < 2 ^ 31 := by
      unfold slabSize
      omega
    refine ⟨hint, ?_⟩
    by_contra hge
    apply not_roundTrips_of_wrapped hpos ?_ h
    rw [BitVec.toNat_add, slabOffset_toNat hint]
    omega
  · exact fun h => roundTrips_of_inRange h

/-- A producer as it registers with `nslabs` slabs at an address. -/
def registration (nslabs : Nat) (memaddr : BitVec 64) : ProducerInfo where
  lstptr := none
  ip := ['a']
  port := 9400
  rdmakey := 7
  nslabs := nslabs
  availableSlabs := nslabs
  memaddr := memaddr
  id := 1
  slabAvailabilityFlag := initBitmap nslabs

theorem roundTrips_registration :
    0 < (registration 3 (2 ^ 20)).nslabs ∧ (registration 3 (2 ^ 20)).nslabs ≤ producerNslabs ∧
      RoundTrips (registration 3 (2 ^ 20)) :=
  ⟨by decide, by decide,
    (roundTrips_iff (registration 3 (2 ^ 20)) (by decide) (by decide) (by decide)).mpr (by decide)⟩

/-- A producer of the default size. -/
theorem default_region_not_roundTrips :
    ¬ ∀ p : ProducerInfo, 0 < p.nslabs → p.nslabs ≤ producerNslabs →
      p.memaddr.toNat + p.nslabs * slabSize ≤ 2 ^ 64 → RoundTrips p := by
  intro hall
  apply not_roundTrips_of_gt (p := registration producerNslabs (2 ^ 40)) (by decide) (by decide)
  exact hall _ (by decide) (by decide) (by decide)

end Memtrade.Coordinator
