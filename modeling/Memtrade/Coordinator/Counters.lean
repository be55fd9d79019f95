import Memtrade.Coordinator.Slabs
import Mathlib.Data.Finset.Card
import Mathlib.Order.Interval.Finset.Nat

/-!
# Counters and bitmaps

While every counter is the number of clear bits of its bitmap, a run of clear bits
can be granted and a run of set bits released. The allocator looks at the first bit
of a run only, so what it takes behind it has to be clear by assumption.
-/

namespace Memtrade.Coordinator

/-- The slabs of a struct whose bits are clear. -/
def clearSet (p : ProducerInfo) : Finset Nat :=
  (Finset.range p.nslabs).filter fun k => marked p k = false

/-- The counter is the number of clear bits. -/
structure Counted (p : ProducerInfo) : Prop where
  fits : Fits p
  counted : p.availableSlabs = (clearSet p).card

namespace Counted

variable {p : ProducerInfo}

theorem bounds (h : Counted p) : 0 ≤ p.availableSlabs ∧ p.availableSlabs ≤ p.nslabs := by
  have hle : (clearSet p).card ≤ (Finset.range p.nslabs).card := Finset.card_filter_le _ _
  rw [Finset.card_range] at hle
  rw [h.counted]
  omega

/-- A struct whose slabs from its first clear bit on are all clear has just these. -/
theorem available_eq {slab : Nat} (h : Counted p) (hslab : findAvailableSlabs p = some slab)
    (hclear : ∀ k < p.nslabs - slab, marked p (slab + k) = false) :
    p.availableSlabs = (p.nslabs - slab : Nat) := by
  obtain ⟨hlt, -, hbefore⟩ := findAvailableSlabs_some.mp hslab
  have hset : clearSet p = Finset.Ico slab p.nslabs := by
    ext k
    rw [clearSet, Finset.mem_filter, Finset.mem_range, Finset.mem_Ico]
    constructor
    · rintro ⟨hk, hfree⟩
      refine ⟨?_, hk⟩
      by_contra hlow
      rw [hbefore k (by omega)] at hfree
      cases hfree
    · rintro ⟨hlow, hk⟩
      have hbit := hclear (k - slab) (by omega)
      rw [show slab + (k - slab) = k by omega] at hbit
      exact ⟨hk, hbit⟩
  rw [h.counted, hset, Nat.card_Ico]

theorem granted (h : Counted p) {slab count : Nat} (hle : slab + count ≤ p.nslabs)
    (hclear : ∀ k < count, marked p (slab + k) = false) : Counted (granted p slab count) := by
  refine ⟨h.fits.granted _ _, ?_⟩
  have hset : clearSet (Coordinator.granted p slab count) =
      clearSet p \ Finset.Ico slab (slab + count) := by
    ext k
    simp only [clearSet, Finset.mem_filter, Finset.mem_range, Finset.mem_sdiff, Finset.mem_Ico,
      marked_granted h.fits hle, Bool.or_eq_false_iff, decide_eq_false_iff_not, and_assoc]
    rfl
  have hsub : Finset.Ico slab (slab + count) ⊆ clearSet p := by
    intro k hk
    obtain ⟨hlo, hhi⟩ := Finset.mem_Ico.mp hk
    have hbit := hclear (k - slab) (by omega)
    rw [show slab + (k - slab) = k by omega] at hbit
    rw [clearSet, Finset.mem_filter, Finset.mem_range]
    exact ⟨by omega, hbit⟩
  have hcard := Finset.card_sdiff_add_card_eq_card hsub
  rw [Nat.card_Ico] at hcard
  show p.availableSlabs - (count : Int) = _
  rw [hset, h.counted]
  omega

/-- Releasing a run of set bits that has clear bits below it in its first word. -/
theorem freeSlabs (h : Counted p) {slab count : Nat} (hpos : 0 < count)
    (hle : slab + count ≤ p.nslabs) (hset : ∀ k < count, marked p (slab + k) = true)
    (hlow : ∀ k < slab, 32 * (slab / 32) ≤ k → marked p k = false) :
    Counted (freeSlabs count slab p) := by
  obtain ⟨hnslabs, -, havail, hlength⟩ := freeSlabs_fields count slab p
  have hfits := h.fits
  unfold Fits at hfits
  refine ⟨?_, ?_⟩
  · unfold Fits
    rw [hnslabs, hlength]
    exact hfits
  · have hunion : clearSet (Coordinator.freeSlabs count slab p) =
        clearSet p ∪ Finset.Ico slab (slab + count) := by
      ext k
      simp only [clearSet, Finset.mem_filter, Finset.mem_range, Finset.mem_union, Finset.mem_Ico,
        hnslabs, marked_freeSlabs slab p (show slab + count ≤ _ by omega) hpos,
        Bool.and_eq_false_iff, Bool.not_eq_false', decide_eq_true_eq]
      constructor
      · rintro ⟨hk, hbit | ⟨hword, hhi⟩⟩
        · exact .inl ⟨hk, hbit⟩
        · by_cases hbelow : k < slab
          · exact .inl ⟨hk, hlow k hbelow hword⟩
          · exact .inr ⟨by omega, hhi⟩
      · rintro (⟨hk, hbit⟩ | ⟨hlo, hhi⟩)
        · exact ⟨hk, .inl hbit⟩
        · exact ⟨by omega, .inr ⟨by omega, hhi⟩⟩
    have hdisjoint : Disjoint (clearSet p) (Finset.Ico slab (slab + count)) := by
      rw [Finset.disjoint_left]
      intro k hclear hk
      obtain ⟨hlo, hhi⟩ := Finset.mem_Ico.mp hk
      have hbit := hset (k - slab) (by omega)
      rw [show slab + (k - slab) = k by omega] at hbit
      rw [clearSet, Finset.mem_filter, hbit] at hclear
      cases hclear.2
    rw [hunion, Finset.card_union_of_disjoint hdisjoint, Nat.card_Ico, havail, h.counted]
    omega

theorem of_registered {s s' : State} {ip : CText.Text} {port : Int} {nslabs : Fin (2 ^ 31)}
    {id : Nat} {addr : BitVec 64} (hreg : Registered s s' ip port nslabs addr id p) :
    Counted p := by
  constructor
  · unfold Fits
    rw [hreg.flag_eq, hreg.nslabs_eq, length_initBitmap nslabs.isLt]
    omega
  · have hall : clearSet p = Finset.range p.nslabs := by
      apply Finset.filter_true_of_mem
      intro k _
      unfold marked
      rw [hreg.flag_eq, getBit_initBitmap]
    rw [hall, Finset.card_range, hreg.available_eq, hreg.nslabs_eq]

end Counted

/-! ## Requests -/

/-- From each producer that the request comes to, the slabs that it takes behind the
first clear bit have clear bits too. -/
def runsClear (s : State) : List Node → Nat → Bool
  | [], _ => true
  | n :: rest, requested =>
      match s.producers.cell n.producer with
      | none => true
      | some p =>
          if p.availableSlabs > 0 then
            match findAvailableSlabs p with
            | none => true
            | some first =>
                ((List.range (min requested (p.nslabs - first))).all fun k => !marked p (first + k)) &&
                  runsClear s rest (requested - min requested (p.nslabs - first))
          else runsClear s rest requested

theorem runsClear_congr {s s' : State} {l : List Node}
    (h : ∀ n ∈ l, s'.producers.cell n.producer = s.producers.cell n.producer) (requested : Nat) :
    runsClear s' l requested = runsClear s l requested := by
  induction l generalizing requested with
  | nil => rfl
  | cons n l ih =>
      have hrest := ih fun m hm => h m (List.mem_cons_of_mem _ hm)
      unfold runsClear
      rw [h n List.mem_cons_self]
      simp only [hrest]

theorem runsClear_zero (s : State) (l : List Node) : runsClear s l 0 = true := by
  induction l with
  | nil => rfl
  | cons n l ih =>
      unfold runsClear
      split
      · rfl
      · split
        · split
          · rfl
          · simpa using ih
        · exact ih

/-- A property of states that a grant of clear slabs keeps. -/
structure GrantClosed (I : State → Prop) : Prop where
  listInv : ∀ s, I s → ListInv s
  counted : ∀ s, I s → ∀ ptr p, s.producers.cell ptr = some p → Counted p
  halt : ∀ s, I s → I { s with halted := true }
  grant : ∀ s s' peer n p slab requested g, I s → n ∈ s.list →
    s.producers.cell n.producer = some p → 0 < requested → slab < p.nslabs →
    (s', g) = grantSlabs s peer n.producer p slab requested →
    (∀ k < min requested (p.nslabs - slab), marked p (slab + k) = false) → I s'

namespace GrantClosed

variable {I : State → Prop}

/-- A round that grants slabs of the first listed producer. If it does not end the
request, it has taken all that this producer had. -/
theorem runsClear_grant (hI : GrantClosed I) {s s' : State} (h : I s) {peer requested : Nat}
    (hreq : 0 < requested) {n : Node} (hn : n ∈ s.list) {l : List Node}
    (hnot : n.producer ∉ l.map Node.producer) {r : ProducerInfo}
    {slab : Nat} {g : Grant} (hp : s.producers.cell n.producer = some r)
    (hslab : findAvailableSlabs r = some slab)
    (hg : (s', g) = grantSlabs s peer n.producer r slab requested)
    (hrun : ∀ k < min requested (r.nslabs - slab), marked r (slab + k) = false)
    (hrest : runsClear s l (requested - min requested (r.nslabs - slab)) = true) :
    I s' ∧ runsClear s' (n :: l) (requested - g.nslabs) = true ∧
      g.producer ∈ (n :: l).map Node.producer ∧
      (∀ i, i ≠ g.producer → s'.producers.cell i = s.producers.cell i) ∧
      s'.list = s.list ∧ 0 < g.nslabs := by
  have hlt := (findAvailableSlabs_some.mp hslab).1
  obtain ⟨hgrant, hstate⟩ := grantSlabs_spec hg
  have hptr : g.producer = n.producer := by rw [hgrant]
  have hcount : g.nslabs = min requested (r.nslabs - slab) := by rw [hgrant]
  have hcells : ∀ i, s'.producers.cell i =
      if i = n.producer then some (granted r slab g.nslabs) else s.producers.cell i := by
    intro i
    rw [hstate, hcount]
    exact Heap.cell_write hp _ i
  refine ⟨hI.grant _ _ _ _ _ _ _ _ h hn hp hreq hlt hg hrun, ?_, by simp [hptr], ?_,
    by rw [hstate], by omega⟩
  · by_cases hdone : requested ≤ r.nslabs - slab
    · rw [show requested - g.nslabs = 0 by omega]
      exact runsClear_zero s' _
    · have hempty : (granted r slab g.nslabs).availableSlabs = 0 := by
        have havail := (hI.counted s h _ _ hp).available_eq hslab (fun k hk => hrun k (by omega))
        show r.availableSlabs - (g.nslabs : Int) = 0
        omega
      unfold runsClear
      rw [hcells, if_pos rfl]
      simp only []
      rw [hempty, if_neg (by omega), runsClear_congr (s := s), hcount]
      · exact hrest
      · intro m hm
        rw [hcells, if_neg]
        intro heq
        exact hnot (List.mem_map.mpr ⟨m, hm, heq⟩)
  · intro i hi
    rw [hcells, if_neg (hptr ▸ hi)]

/-- One round: the run that it grants is clear, and so are those of the rounds to come. -/
theorem runsClear_step (hI : GrantClosed I) {s s' : State} (h : I s) {peer requested : Nat}
    (hreq : 0 < requested) {l : List Node} (hl : l ⊆ s.list) (hnodup : (l.map Node.producer).Nodup)
    {p : ProducerInfo} {g : Grant}
    (halloc : allocFrom s peer requested (l.map (fun n => some n.producer) ++ [none]) =
      .ok (some (s', p, g)))
    (hclear : runsClear s l requested = true) :
    I s' ∧ runsClear s' l (requested - g.nslabs) = true ∧ g.producer ∈ l.map Node.producer ∧
      (∀ i, i ≠ g.producer → s'.producers.cell i = s.producers.cell i) ∧
      s'.list = s.list ∧ 0 < g.nslabs := by
  induction l with
  | nil => cases halloc
  | cons n l ih =>
      obtain ⟨hn, hl⟩ := List.cons_subset.mp hl
      obtain ⟨hnot, hnodup⟩ := List.nodup_cons.mp hnodup
      rw [List.map_cons, List.cons_append, allocFrom] at halloc
      unfold runsClear at hclear
      cases hp : s.producers.cell n.producer with
      | none =>
          simp only [hp] at halloc
          cases halloc
      | some r =>
          simp only [hp] at halloc hclear
          by_cases havail : r.availableSlabs > 0
          · rw [if_pos havail] at halloc hclear
            cases hslab : findAvailableSlabs r with
            | none =>
                simp only [hslab] at halloc
                cases halloc
            | some slab =>
                simp only [hslab, Except.ok.injEq, Option.some.injEq, Prod.mk.injEq] at halloc
                simp only [hslab, Bool.and_eq_true, List.all_eq_true, List.mem_range,
                  Bool.not_eq_true'] at hclear
                obtain ⟨hs', rfl, hg'⟩ := halloc
                have hg : (s', g) = grantSlabs s peer n.producer r slab requested :=
                  Prod.ext hs'.symm hg'.symm
                exact hI.runsClear_grant h hreq hn hnot hp hslab hg hclear.1 hclear.2
          · rw [if_neg havail] at halloc hclear
            obtain ⟨hinv, hrest, hmem, hother, hlist, hpos⟩ := ih hl hnodup halloc hclear
            refine ⟨hinv, ?_, List.mem_cons_of_mem _ hmem, hother, hlist, hpos⟩
            have hne : n.producer ≠ g.producer := fun heq => hnot (heq ▸ hmem)
            unfold runsClear
            rw [hother _ hne, hp]
            simp only []
            rw [if_neg havail]
            exact hrest

end GrantClosed

theorem ListInv.producers_nodup {s : State} (h : ListInv s) :
    (s.list.map Node.producer).Nodup := by
  rw [List.nodup_map_iff_inj_on (h.nodup.of_map _)]
  intro n hn m hm heq
  exact h.eq_of_producer hn hm heq

theorem ListInv.halt {s : State} (h : ListInv s) : ListInv { s with halted := true } :=
  ⟨h.nodup, h.fresh, h.live⟩

theorem GrantClosed.slabsAddLoop {I : State → Prop} (hI : GrantClosed I)
    {peer fuel requested : Nat} {s : State} (h : I s)
    (hclear : runsClear s s.list requested = true) :
    I (slabsAddLoop peer fuel requested s).1 := by
  induction fuel generalizing requested s with
  | zero => exact h
  | succ fuel ih =>
      unfold Coordinator.slabsAddLoop
      by_cases hreq : requested = 0
      · rw [if_pos hreq]
        exact h
      · rw [if_neg hreq]
        split
        · exact hI.halt s h
        · exact h
        · rename_i s' p g halloc
          obtain ⟨hinv, hrest, -, -, hlist, -⟩ :=
            hI.runsClear_step h (by omega) (List.Subset.refl _) (hI.listInv s h).producers_nodup halloc
              hclear
          exact ih hinv (by rw [hlist]; exact hrest)

end Memtrade.Coordinator
