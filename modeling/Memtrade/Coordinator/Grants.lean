import Memtrade.Coordinator.Counters
import Memtrade.Coordinator.Identity

/-!
# Outstanding grants

The allocator looks at the bit of the first slab it hands out only, and a release
clears more bits than it gives back; a producer that registers again starts with an
empty bitmap. While none of these meets a granted slab, the bitmap is the set of
granted slabs, no slab is granted twice and the counters are right. Producers are told
apart by their ids; the invariant does so by the structs of their registrations.
-/

namespace Memtrade.Coordinator

def Grant.covers (g : Grant) (slab : Nat) : Prop := g.slab ≤ slab ∧ slab < g.slab + g.nslabs

instance (g : Grant) (slab : Nat) : Decidable (g.covers slab) :=
  inferInstanceAs (Decidable (_ ∧ _))

section

variable (field : Grant → Nat)

/-- The slab belongs to a grant from `x`, a producer or a registration of one. -/
def InGrant (grants : List Grant) (x slab : Nat) : Prop :=
  ∃ g ∈ grants, field g = x ∧ g.covers slab

instance (grants : List Grant) (x slab : Nat) : Decidable (InGrant field grants x slab) :=
  inferInstanceAs (Decidable (∃ g ∈ grants, field g = x ∧ g.covers slab))

/-- The grants share no slab of a producer. -/
def Grant.Apart (g h : Grant) : Prop := field g = field h → ∀ k, g.covers k → ¬ h.covers k

/-- The slabs of a producer that belong to no grant. -/
def freeSet (grants : List Grant) (x nslabs : Nat) : Finset Nat :=
  (Finset.range nslabs).filter fun k => ¬ InGrant field grants x k

end

/-- No slab of a producer is in two outstanding grants, and the counter of every listed
producer is the number of its slabs in none. -/
structure Accounted (s : State) : Prop where
  disjoint : s.grants.Pairwise (Grant.Apart Grant.id)
  counted : ∀ n ∈ s.list, ∀ p, s.producers.cell n.producer = some p →
    p.availableSlabs = (freeSet Grant.id s.grants p.id p.nslabs).card

/-! ## Runs to be considered -/

/-- Traffic without removals in which addresses do not overflow and peers release whole
grants of theirs. -/
def Allowed (s : State) : Message → Prop
  | .producerAdd _ _ _ nslabs addr _ => InRange nslabs addr
  | .producerRem _ => False
  | .slabAdd _ _ => True
  | .slabRem peer id addr nslabs => (releasedGrant s peer id addr nslabs).isSome = true

/-- The bits that the release of a grant clears besides its own are clear already. -/
def releaseClear (s : State) (g : Grant) : Prop :=
  ∀ p ∈ s.producers.cell g.producer,
    ∀ k < g.slab, 32 * (g.slab / 32) ≤ k → marked p k = false

/-- A producer at this endpoint that is listed already has no outstanding grant. -/
def registersClear (s : State) (ip : CText.Text) (port : Int) : Prop :=
  ∀ n ∈ s.list, ∀ p ∈ s.producers.cell n.producer, p.ip = ip → p.port = port →
    ∀ g ∈ s.grants, g.id ≠ p.id

/-- Requests and releases meet clear bits where they look at none, and a producer is
registered again only when it has no outstanding grant. -/
def Clear (s : State) : Message → Prop
  | .slabAdd _ nslabs => runsClear s s.list nslabs = true
  | .slabRem peer id addr nslabs => ∀ g ∈ releasedGrant s peer id addr nslabs, releaseClear s g
  | .producerAdd _ ip port _ _ _ => registersClear s ip port
  | .producerRem _ => True

instance (nslabs : Nat) (memaddr : BitVec 64) : Decidable (InRange nslabs memaddr) :=
  inferInstanceAs (Decidable (_ ∧ _))

instance (s : State) (m : Message) : Decidable (Allowed s m) :=
  match m with
  | .producerAdd _ _ _ nslabs addr _ => inferInstanceAs (Decidable (InRange nslabs addr))
  | .producerRem _ => inferInstanceAs (Decidable False)
  | .slabAdd _ _ => inferInstanceAs (Decidable True)
  | .slabRem peer id addr nslabs =>
      inferInstanceAs (Decidable ((releasedGrant s peer id addr nslabs).isSome = true))

instance (s : State) (g : Grant) : Decidable (releaseClear s g) :=
  inferInstanceAs (Decidable (∀ p ∈ s.producers.cell g.producer,
    ∀ k < g.slab, 32 * (g.slab / 32) ≤ k → marked p k = false))

instance (s : State) (ip : CText.Text) (port : Int) : Decidable (registersClear s ip port) :=
  inferInstanceAs (Decidable (∀ n ∈ s.list, ∀ p ∈ s.producers.cell n.producer, p.ip = ip →
    p.port = port → ∀ g ∈ s.grants, g.id ≠ p.id))

instance (s : State) (m : Message) : Decidable (Clear s m) :=
  match m with
  | .slabAdd _ nslabs => inferInstanceAs (Decidable (runsClear s s.list nslabs = true))
  | .slabRem peer id addr nslabs =>
      inferInstanceAs (Decidable (∀ g ∈ releasedGrant s peer id addr nslabs, releaseClear s g))
  | .producerAdd _ ip port _ _ _ => inferInstanceAs (Decidable (registersClear s ip port))
  | .producerRem _ => inferInstanceAs (Decidable True)

/-! ## Slabs in grants -/

section

variable {field field' : Grant → Nat}

theorem inGrant_cons {g : Grant} {grants : List Grant} {x k : Nat} :
    InGrant field (g :: grants) x k ↔ (field g = x ∧ g.covers k) ∨ InGrant field grants x k := by
  simp [InGrant]

theorem inGrant_cons_of_ne {g : Grant} {grants : List Grant} {x k : Nat} (hne : field g ≠ x) :
    InGrant field (g :: grants) x k ↔ InGrant field grants x k := by
  rw [inGrant_cons]
  simp [hne]

theorem inGrant_congr_field {grants : List Grant} {x y : Nat}
    (h : ∀ g ∈ grants, field g = x ↔ field' g = y) (k : Nat) :
    InGrant field grants x k ↔ InGrant field' grants y k := by
  constructor
  · rintro ⟨g, hg, hx, hk⟩
    exact ⟨g, hg, (h g hg).mp hx, hk⟩
  · rintro ⟨g, hg, hy, hk⟩
    exact ⟨g, hg, (h g hg).mpr hy, hk⟩

theorem Grant.Apart.symm {g h : Grant} (hgh : g.Apart field h) : h.Apart field g :=
  fun hfield k hk hk' => hgh hfield.symm k hk' hk

theorem freeSet_congr {grants grants' : List Grant} {x y : Nat}
    (h : ∀ k, InGrant field grants x k ↔ InGrant field' grants' y k) (nslabs : Nat) :
    freeSet field grants x nslabs = freeSet field' grants' y nslabs := by
  apply Finset.filter_congr
  intro k _
  rw [h k]

theorem freeSet_eq_clearSet {grants : List Grant} {x : Nat} {p : ProducerInfo}
    (hmarks : ∀ k < p.nslabs, marked p k = true ↔ InGrant field grants x k) :
    freeSet field grants x p.nslabs = clearSet p := by
  apply Finset.filter_congr
  intro k hk
  rw [← hmarks k (Finset.mem_range.mp hk)]
  simp

end

/-! ## The invariant -/

/-- A grant lies in the region of its registration and carries its address and id. -/
structure ValidGrant (p : ProducerInfo) (g : Grant) : Prop where
  pos : 0 < g.nslabs
  le : g.slab + g.nslabs ≤ p.nslabs
  addr : g.addr = addrFromSlab p g.slab
  id : g.id = p.id

/-- The bitmap of a registration is the set of its granted slabs. -/
structure Marked (grants : List Grant) (ptr : Nat) (p : ProducerInfo) : Prop where
  fits : Fits p
  inRange : InRange p.nslabs p.memaddr
  marks : ∀ k < p.nslabs, marked p k = true ↔ InGrant Grant.producer grants ptr k
  counted : p.availableSlabs = (freeSet Grant.producer grants ptr p.nslabs).card

/-- The registrations with outstanding grants are the listed ones. -/
structure GrantInv (s : State) : Prop where
  ids : ListedIds s
  valid : ∀ g ∈ s.grants, ∃ n ∈ s.list, ∃ p, n.producer = g.producer ∧
    s.producers.cell n.producer = some p ∧ ValidGrant p g
  apart : s.grants.Pairwise (Grant.Apart Grant.producer)
  tracked : ∀ ptr p, s.producers.cell ptr = some p → Marked s.grants ptr p

theorem GrantInv.id_iff {s : State} (h : GrantInv s) {n : Node} (hn : n ∈ s.list)
    {p : ProducerInfo} (hp : s.producers.cell n.producer = some p) {g : Grant} (hg : g ∈ s.grants) :
    g.id = p.id ↔ g.producer = n.producer := by
  obtain ⟨m, hm, q, hptr, hq, hvalid⟩ := h.valid g hg
  rw [← hptr, hvalid.id]
  constructor
  · intro hids
    rw [h.ids.distinct m hm n hn q p hq hp hids]
  · intro hsame
    rw [hsame, hp] at hq
    cases hq
    rfl

theorem GrantInv.accounted {s : State} (h : GrantInv s) : Accounted s := by
  refine ⟨?_, ?_⟩
  · refine h.apart.imp_of_mem ?_
    intro g g' hg hg' hapart hids
    obtain ⟨m, hm, q, hptr, hq, hvalid⟩ := h.valid g' hg'
    apply hapart
    rw [← hptr]
    exact (h.id_iff hm hq hg).mp (hids.trans hvalid.id)
  · intro n hn p hp
    have hsame : ∀ k, InGrant Grant.id s.grants p.id k ↔
        InGrant Grant.producer s.grants n.producer k :=
      inGrant_congr_field fun g hg => h.id_iff hn hp hg
    rw [freeSet_congr hsame]
    exact (h.tracked n.producer p hp).counted

theorem GrantInv.findProducerById {s : State} (h : GrantInv s) {g : Grant} (hg : g ∈ s.grants) :
    findProducerById s g.id = some g.producer := by
  obtain ⟨n, hn, p, hptr, hp, hvalid⟩ := h.valid g hg
  unfold Coordinator.findProducerById
  cases hfind : findListed s fun p => (p.id : Int) == g.id with
  | none =>
      have htest := findListed_none hfind hn hp
      simp [hvalid.id] at htest
  | some m =>
      obtain ⟨hm, q, hq, htest⟩ := findListed_some hfind
      have hqid : g.id = q.id := by simpa using (beq_iff_eq.mp htest).symm
      rw [Option.map_some, (h.id_iff hm hq hg).mp hqid]

theorem Marked.congr {grants grants' : List Grant} {ptr : Nat} {p : ProducerInfo}
    (hm : Marked grants ptr p) (h : ∀ k, InGrant Grant.producer grants ptr k ↔ InGrant Grant.producer grants' ptr k) :
    Marked grants' ptr p where
  fits := hm.fits
  inRange := hm.inRange
  marks k hk := (hm.marks k hk).trans (h k)
  counted := by rw [hm.counted, freeSet_congr h]

theorem Marked.toCounted {grants : List Grant} {ptr : Nat} {p : ProducerInfo}
    (hm : Marked grants ptr p) : Counted p :=
  ⟨hm.fits, by rw [hm.counted, freeSet_eq_clearSet hm.marks]⟩

theorem Counted.toMarked {grants : List Grant} {ptr : Nat} {p : ProducerInfo} (hc : Counted p)
    (hrange : InRange p.nslabs p.memaddr)
    (hmarks : ∀ k < p.nslabs, marked p k = true ↔ InGrant Grant.producer grants ptr k) :
    Marked grants ptr p :=
  ⟨hc.fits, hrange, hmarks, by rw [hc.counted, freeSet_eq_clearSet hmarks]⟩

/-! ## Granting a clear run -/

theorem Marked.granted {grants : List Grant} {p : ProducerInfo} {g : Grant}
    (hm : Marked grants g.producer p) (hle : g.slab + g.nslabs ≤ p.nslabs)
    (hclear : ∀ k < g.nslabs, marked p (g.slab + k) = false) :
    Marked (g :: grants) g.producer (granted p g.slab g.nslabs) := by
  apply (hm.toCounted.granted hle hclear).toMarked hm.inRange
  intro k hk
  rw [marked_granted hm.fits hle, Bool.or_eq_true, decide_eq_true_eq, hm.marks k hk, inGrant_cons,
    or_comm]
  simp [Grant.covers]

theorem GrantInv.grant {s s' : State} (h : GrantInv s) {peer slab requested : Nat} {n : Node}
    (hn : n ∈ s.list) {p : ProducerInfo} {g : Grant} (hp : s.producers.cell n.producer = some p)
    (hreq : 0 < requested) (hslab : slab < p.nslabs)
    (hg : (s', g) = grantSlabs s peer n.producer p slab requested)
    (hclear : ∀ k < min requested (p.nslabs - slab), marked p (slab + k) = false) : GrantInv s' := by
  have hshrinks := grantSlabs_shrinks hp peer slab requested
  rw [← hg] at hshrinks
  obtain ⟨hgrant, hs'⟩ := grantSlabs_spec hg
  have hptr : g.producer = n.producer := by rw [hgrant]
  have hgslab : g.slab = slab := by rw [hgrant]
  have hcount : g.nslabs = min requested (p.nslabs - slab) := by rw [hgrant]
  rw [← hptr] at hp
  have hm := h.tracked g.producer p hp
  have hle : g.slab + g.nslabs ≤ p.nslabs := by omega
  rw [← hcount, ← hgslab] at hclear
  have hcells : ∀ i, s'.producers.cell i =
      if i = g.producer then some (granted p g.slab g.nslabs) else s.producers.cell i := by
    intro i
    rw [hs', hgslab, hcount, ← hptr]
    exact Heap.cell_write hp _ i
  have hgrants : s'.grants = g :: s.grants := by rw [hs']
  have hlist : s'.list = s.list := by rw [hs']
  refine ⟨h.ids.shrinks hshrinks, ?_, ?_, ?_⟩
  · rw [hgrants, hlist]
    intro g' hg'
    rcases List.mem_cons.mp hg' with rfl | hg'
    · refine ⟨n, hn, granted p g'.slab g'.nslabs, hptr.symm, by rw [hcells, if_pos hptr.symm],
        ?_, hle, ?_, ?_⟩
      · omega
      · rw [hgrant]
        rfl
      · rw [hgrant]
        rfl
    · obtain ⟨m, hm', q, hmptr, hq, hvalid⟩ := h.valid g' hg'
      by_cases hsame : m.producer = g.producer
      · rw [hsame, hp] at hq
        cases hq
        exact ⟨m, hm', granted p g.slab g.nslabs, hmptr, by rw [hcells, if_pos hsame],
          ⟨hvalid.pos, hvalid.le, hvalid.addr, hvalid.id⟩⟩
      · exact ⟨m, hm', q, hmptr, by rw [hcells, if_neg hsame, hq], hvalid⟩
  · rw [hgrants, List.pairwise_cons]
    refine ⟨?_, h.apart⟩
    intro g' hg' hsame k hk hk'
    obtain ⟨hlo, hhi⟩ := hk
    have hmark := (hm.marks k (by omega)).mpr ⟨g', hg', hsame.symm, hk'⟩
    have hbit := hclear (k - g.slab) (by omega)
    rw [show g.slab + (k - g.slab) = k by omega, hmark] at hbit
    cases hbit
  · rw [hgrants]
    intro i q hq
    rw [hcells] at hq
    split at hq
    · rename_i hi
      cases hq
      subst hi
      exact hm.granted hle hclear
    · rename_i hi
      exact (h.tracked i q hq).congr fun k => (inGrant_cons_of_ne (fun h => hi h.symm)).symm

/-! ## A request -/

theorem GrantInv.halt {s : State} (h : GrantInv s) : GrantInv { s with halted := true } :=
  ⟨h.ids.shrinks (.of_eq rfl rfl rfl rfl rfl), h.valid, h.apart, h.tracked⟩

theorem grantClosed_grantInv : GrantClosed GrantInv where
  listInv _ h := h.ids.listInv
  counted _ h ptr p hp := (h.tracked ptr p hp).toCounted
  halt _ h := h.halt
  grant _ _ _ _ _ _ _ _ h hn hp hreq hslab hg hclear := h.grant hn hp hreq hslab hg hclear

/-! ## A release -/

theorem inGrant_erase {field : Grant → Nat} {grants : List Grant}
    (hapart : grants.Pairwise (Grant.Apart field)) {g : Grant} (hg : g ∈ grants) (x k : Nat) :
    InGrant field (grants.erase g) x k ↔
      InGrant field grants x k ∧ ¬ (field g = x ∧ g.covers k) := by
  have hperm := List.perm_cons_erase hg
  have hpair : (g :: grants.erase g).Pairwise (Grant.Apart field) :=
    (hperm.pairwise_iff fun h => h.symm).mp hapart
  have hfirst := (List.pairwise_cons.mp hpair).1
  constructor
  · rintro ⟨g', hg', hptr, hk⟩
    refine ⟨⟨g', List.mem_of_mem_erase hg', hptr, hk⟩, ?_⟩
    rintro ⟨hptr', hk'⟩
    exact hfirst g' hg' (by rw [hptr', hptr]) k hk' hk
  · rintro ⟨⟨g', hg', hptr, hk⟩, hne⟩
    have hdiff : g' ≠ g := by
      rintro rfl
      exact hne ⟨hptr, hk⟩
    exact ⟨g', (List.mem_erase_of_ne hdiff).mpr hg', hptr, hk⟩

/-- The struct after a release that cleared no other granted slab's bit. -/
theorem Marked.released {grants : List Grant} {p : ProducerInfo} {g : Grant}
    (hm : Marked grants g.producer p) (hapart : grants.Pairwise (Grant.Apart Grant.producer))
    (hg : g ∈ grants)
    (hvalid : ValidGrant p g)
    (hlow : ∀ k < g.slab, 32 * (g.slab / 32) ≤ k → marked p k = false) :
    Marked (grants.erase g) g.producer (freeSlabs g.nslabs g.slab p) := by
  obtain ⟨hnslabs, hmemaddr, -, -⟩ := freeSlabs_fields g.nslabs g.slab p
  have hfits := hm.fits
  have hle := hvalid.le
  unfold Fits at hfits
  have hset : ∀ k < g.nslabs, marked p (g.slab + k) = true := by
    intro k hk
    rw [hm.marks _ (by omega)]
    exact ⟨g, hg, rfl, by omega, by omega⟩
  apply (hm.toCounted.freeSlabs hvalid.pos hle hset hlow).toMarked
  · rw [hnslabs, hmemaddr]
    exact hm.inRange
  · intro k hk
    rw [hnslabs] at hk
    rw [marked_freeSlabs g.slab p (by omega) hvalid.pos, inGrant_erase hapart hg, Bool.and_eq_true,
      hm.marks k hk, Bool.not_eq_true', decide_eq_false_iff_not]
    constructor
    · rintro ⟨hin, hout⟩
      refine ⟨hin, ?_⟩
      rintro ⟨-, hlo, hhi⟩
      exact hout ⟨by omega, hhi⟩
    · rintro ⟨hin, hout⟩
      refine ⟨hin, ?_⟩
      rintro ⟨hword, hhi⟩
      by_cases hbelow : k < g.slab
      · have hmark := (hm.marks k hk).mpr hin
        rw [hlow k hbelow hword] at hmark
        cases hmark
      · exact hout ⟨rfl, by omega, hhi⟩

theorem releasedGrant_some {s : State} {peer : Nat} {id : Int} {addr : BitVec 64} {nslabs : Nat}
    {g : Grant} (h : releasedGrant s peer id addr nslabs = some g) :
    g ∈ s.grants ∧ (g.id : Int) = id ∧ g.addr = addr ∧ g.nslabs = nslabs := by
  have htest := List.find?_some h
  simp only [Bool.and_eq_true, beq_iff_eq] at htest
  exact ⟨List.mem_of_find?_eq_some h, htest.1.1.2, htest.1.2, htest.2⟩

theorem GrantInv.release {s s' : State} (h : GrantInv s) {g : Grant} (hg : g ∈ s.grants)
    {p : ProducerInfo} (hp : s.producers.cell g.producer = some p) (hvalid : ValidGrant p g)
    (hlow : ∀ k < g.slab, 32 * (g.slab / 32) ≤ k → marked p k = false)
    (hs' : s' = { s with
      grants := s.grants.erase g
      producers := s.producers.write g.producer (freeSlabs g.nslabs g.slab p) }) : GrantInv s' := by
  have hm := h.tracked g.producer p hp
  have hfreed := freeSlabs_sameIdentity g.nslabs g.slab p
  obtain ⟨hnslabs, hmemaddr, -, -⟩ := freeSlabs_fields g.nslabs g.slab p
  have hcells : ∀ i, s'.producers.cell i =
      if i = g.producer then some (freeSlabs g.nslabs g.slab p) else s.producers.cell i := by
    intro i
    rw [hs']
    exact Heap.cell_write hp _ i
  have hgrants : s'.grants = s.grants.erase g := by rw [hs']
  have hlist : s'.list = s.list := by rw [hs']
  refine ⟨?_, ?_, ?_, ?_⟩
  · apply h.ids.shrinks
    rw [hs']
    exact .of_write hp hfreed rfl rfl rfl rfl rfl
  · rw [hgrants, hlist]
    intro g' hg'
    obtain ⟨n, hn, q, hptr, hq, hvalid'⟩ := h.valid g' (List.mem_of_mem_erase hg')
    by_cases hsame : n.producer = g.producer
    · rw [hsame, hp] at hq
      cases hq
      refine ⟨n, hn, freeSlabs g.nslabs g.slab p, hptr, by rw [hcells, if_pos hsame],
        hvalid'.pos, ?_, ?_, ?_⟩
      · rw [hnslabs]
        exact hvalid'.le
      · rw [hvalid'.addr]
        unfold addrFromSlab
        rw [hnslabs, hmemaddr]
      · rw [hvalid'.id, hfreed.id]
    · exact ⟨n, hn, q, hptr, by rw [hcells, if_neg hsame, hq], hvalid'⟩
  · rw [hgrants]
    exact h.apart.sublist List.erase_sublist
  · rw [hgrants]
    intro i q hq
    rw [hcells] at hq
    split at hq
    · rename_i hi
      cases hq
      subst hi
      exact hm.released h.apart hg hvalid hlow
    · rename_i hi
      refine (h.tracked i q hq).congr fun k => ?_
      rw [inGrant_erase h.apart hg]
      constructor
      · intro hin
        exact ⟨hin, fun hg => hi hg.1.symm⟩
      · exact fun hin => hin.1

theorem GrantInv.onRecvSlabsRem {s : State} (h : GrantInv s) {peer : Nat} {id : Int}
    {addr : BitVec 64} {nslabs : Nat} {g : Grant}
    (hg : releasedGrant s peer id addr nslabs = some g) (hlow : releaseClear s g) :
    GrantInv (onRecvSlabsRem s peer id addr nslabs).1 := by
  obtain ⟨hmem, hid, haddr, hcount⟩ := releasedGrant_some hg
  obtain ⟨n, -, p, hptr, hp, hvalid⟩ := h.valid g hmem
  rw [hptr] at hp
  have hinRange := (h.tracked g.producer p hp).inRange
  have hslab : slabFromAddr p addr = g.slab := by
    have hlt : g.slab < p.nslabs := by
      have := hvalid.pos
      have := hvalid.le
      omega
    rw [← haddr, hvalid.addr]
    exact slabFromAddr_addrFromSlab hinRange hlt
  have hfound := h.findProducerById hmem
  rw [hid] at hfound
  have hfound' : Coordinator.findProducerById { s with grants := s.grants.erase g } id =
      some g.producer := hfound
  unfold Coordinator.onRecvSlabsRem
  simp only [hg, forget, hfound', hp]
  refine h.release hmem hp hvalid (hlow p hp) ?_
  rw [hslab, hcount]

/-! ## Runs -/

/-- A producer that is listed again has no grant, so no grant loses its node. -/
theorem GrantInv.registered {s s₁ s' : State} (h : GrantInv s) {ip : CText.Text} {port : Int}
    {nslabs : Fin (2 ^ 31)} {id : Nat} {addr : BitVec 64} {q : ProducerInfo}
    (hget : getProducerId s ip port = (s₁, id)) (hreg : Registered s s' ip port nslabs addr id q)
    (hmap : s'.producerMap = s₁.producerMap) (hpid : s'.producerId = s₁.producerId)
    (hrange : InRange nslabs addr) (hclear : registersClear s ip port) : GrantInv s' := by
  have hnone : ∀ g ∈ s.grants, g.producer ≠ s.producers.next := by
    intro g hg heq
    obtain ⟨n, -, p, hptr, hp, -⟩ := h.valid g hg
    rw [hptr, heq, Heap.cell_next] at hp
    cases hp
  refine ⟨h.ids.registered hget hreg hmap hpid, ?_, ?_, ?_⟩
  · rw [hreg.grants_eq]
    intro g hg
    obtain ⟨n, hn, p, hptr, hp, hvalid⟩ := h.valid g hg
    refine ⟨n, ?_, p, hptr, by rw [hreg.cell_listed h.ids.listInv hn, hp], hvalid⟩
    cases hreg.enlisted with
    | unlisted hport hid hlist hnext =>
        rw [hlist]
        exact hn
    | takeover node r hnode hcell hip hport hlst hid hlist hnext =>
        rw [hlist, List.mem_map]
        refine ⟨n, hn, if_neg ?_⟩
        intro haddr
        rw [h.ids.listInv.eq_of_addr hn hnode haddr, hcell] at hp
        cases hp
        exact hclear node hnode _ hcell (hip.trans hreg.ip_eq) (hport.trans hreg.port_eq) g hg
          hvalid.id
    | front hfirst hlst hid hlist hnext =>
        rw [hlist]
        exact List.mem_cons_of_mem _ hn
  · rw [hreg.grants_eq]
    exact h.apart
  · rw [hreg.grants_eq]
    intro ptr p hp
    rw [hreg.cells] at hp
    split at hp
    · rename_i hptr
      cases hp
      have hfree : ∀ k, ¬ InGrant Grant.producer s.grants ptr k := by
        rintro k ⟨g, hg, hgptr, -⟩
        exact hnone g hg (hgptr.trans hptr)
      apply (Counted.of_registered hreg).toMarked
      · rw [hreg.nslabs_eq, hreg.memaddr_eq]
        exact hrange
      · intro k _
        have hclear : marked q k = false := by
          unfold marked
          rw [hreg.flag_eq, getBit_initBitmap]
        simp [hclear, hfree k]
    · exact h.tracked ptr p hp

theorem GrantInv.onCompletion {s : State} (h : GrantInv s) {m : Message} (hallowed : Allowed s m)
    (hclear : Clear s m) : GrantInv (onCompletion s m).1 := by
  cases m with
  | producerAdd peer ip port nslabs addr rdmakey =>
      rcases onRecvProducerAdd_cases h.ids.listInv peer ip port nslabs addr rdmakey with
        hfail | ⟨s₁, s', id, q, hget, hres, hreg, hmap, hpid⟩
      · simp only [Coordinator.onCompletion, hfail]
        exact h.halt
      · simp only [Coordinator.onCompletion, hres]
        exact h.registered hget hreg hmap hpid hallowed hclear
  | producerRem peer => exact hallowed.elim
  | slabAdd peer nslabs => exact grantClosed_grantInv.slabsAddLoop h hclear
  | slabRem peer id addr nslabs =>
      obtain ⟨g, hg⟩ := Option.isSome_iff_exists.mp hallowed
      have hinv := h.onRecvSlabsRem hg (hclear g hg)
      simp only [Coordinator.onCompletion]
      split <;> exact hinv

theorem grantInv_init : GrantInv initState :=
  ⟨listedIds_init, by simp [initState], .nil, by simp [initState]⟩

/-- In every run of registrations, requests and releases of outstanding grants whose
requests and releases meet clear bits where they look at none: no slab is in two
outstanding grants, and each counter is the number of slabs in no grant. -/
theorem accounted_of_clear {s : State} {tr : List Event}
    (h : coordinator.Exec (fun s m => Allowed s m ∧ Clear s m) s tr) : Accounted s := by
  have hinv : GrantInv s := by
    refine h.invariant (I := fun s _ => GrantInv s) ?_ ?_
    · rintro s rfl
      exact grantInv_init
    · rintro s tr m s' evs hinv ⟨hallowed, hclear⟩ hs
      change (if s.halted then none else some (onCompletion s m)) = _ at hs
      split at hs
      · cases hs
      · have hres : onCompletion s m = (s', evs) := by simpa using hs
        have hnext := hinv.onCompletion hallowed hclear
        rwa [hres] at hnext
  exact hinv.accounted

/-- Eight slabs; the first three are granted and given back, the producer registers
again, and its slabs are granted to two peers. -/
def sampleGrants : List Message :=
  [.producerAdd 0 ['a'] 9400 8 0#64 7, .slabAdd 1 3, .slabRem 1 1 0#64 3,
    .producerAdd 3 ['a'] 9400 8 0#64 7, .slabAdd 2 2, .slabAdd 1 3]

theorem accounted_sample :
    coordinator.check (fun s m => decide (Allowed s m ∧ Clear s m)) initState sampleGrants = true ∧
    Accounted (coordinator.final initState sampleGrants) := by
  have hcheck : coordinator.check (fun s m => decide (Allowed s m ∧ Clear s m)) initState
      sampleGrants = true := by
    decide
  have hrun : coordinator.Exec (fun s m => Allowed s m ∧ Clear s m)
      (coordinator.final initState sampleGrants) (coordinator.trace initState sampleGrants) :=
    System.exec_final rfl (System.meets_of_check (fun _ _ => of_decide_eq_true) hcheck)
  exact ⟨hcheck, accounted_of_clear hrun⟩

/-- Two of three slabs are granted one by one and the first is given back; the next
request for two slabs gets the first one and, with it, the second one again. -/
def fragmentedTraffic : List Message :=
  [.producerAdd 0 ['a'] 9400 3 0#64 7, .slabAdd 1 1, .slabAdd 2 1, .slabRem 1 1 0#64 1, .slabAdd 3 2]

theorem slab_granted_twice :
    ¬ ∀ s tr, coordinator.Exec Allowed s tr → Accounted s := by
  intro hall
  have hcheck : coordinator.check (fun s m => decide (Allowed s m)) initState fragmentedTraffic =
      true := by
    decide
  have hrun : coordinator.Exec Allowed (coordinator.final initState fragmentedTraffic)
      (coordinator.trace initState fragmentedTraffic) :=
    System.exec_final rfl (System.meets_of_check (fun _ _ => of_decide_eq_true) hcheck)
  have hacc := hall _ _ hrun
  have hgrants : (coordinator.final initState fragmentedTraffic).grants =
      [⟨3, 0, 0, 2, 1, 0#64⟩, ⟨2, 0, 1, 1, 1, BitVec.ofNat 64 slabSize⟩] := by
    decide
  have hapart := hacc.disjoint
  rw [hgrants, List.pairwise_cons] at hapart
  exact hapart.1 _ (List.mem_singleton.mpr rfl) rfl 1 (by decide) (by decide)

end Memtrade.Coordinator
