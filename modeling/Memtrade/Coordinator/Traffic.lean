import Memtrade.Coordinator.Slabs

/-!
# Traffic that the coordinator survives

While nothing is released, the granted slabs of a listed producer are the ones
below its free ones, so the search finds a slab exactly when the counter says so.
A request is then served if and only if the listed producers have enough slabs
left: otherwise the walk comes to the tail of the list and reads its producer.
-/

namespace Memtrade.Coordinator

/-- The granted slabs come first, and the counter is the number of the others. -/
structure Filled (p : ProducerInfo) : Prop where
  fits : Fits p
  nonneg : 0 ≤ p.availableSlabs
  le : p.availableSlabs ≤ p.nslabs
  marks : ∀ k < p.nslabs, marked p k = true ↔ (k : Int) < p.nslabs - p.availableSlabs

theorem Filled.findAvailableSlabs {p : ProducerInfo} (h : Filled p) (hpos : 0 < p.availableSlabs) :
    findAvailableSlabs p = some (p.nslabs - p.availableSlabs.toNat) := by
  have hle := h.le
  rw [findAvailableSlabs_some]
  refine ⟨by omega, ?_, ?_⟩
  · rw [Bool.eq_false_iff]
    intro hmark
    have := (h.marks _ (by omega)).mp hmark
    omega
  · intro j hj
    exact (h.marks j (by omega)).mpr (by omega)

theorem Filled.granted {p : ProducerInfo} (h : Filled p) (count : Nat)
    (hcount : (count : Int) ≤ p.availableSlabs) :
    Filled (granted p (p.nslabs - p.availableSlabs.toNat) count) := by
  have hnonneg := h.nonneg
  have hle := h.le
  refine ⟨h.fits.granted _ _, ?_, ?_, ?_⟩
  · show 0 ≤ p.availableSlabs - count
    omega
  · show p.availableSlabs - count ≤ p.nslabs
    omega
  · intro k hk
    have hk' : k < p.nslabs := hk
    rw [marked_granted h.fits (by omega), Bool.or_eq_true, decide_eq_true_eq, h.marks k hk']
    show _ ↔ (k : Int) < p.nslabs - (p.availableSlabs - count)
    omega

theorem filled_of_registered {s s' : State} {ip : CText.Text} {port : Int} {nslabs : Fin (2 ^ 31)}
    {id : Nat} {addr : BitVec 64} {q : ProducerInfo}
    (hreg : Registered s s' ip port nslabs addr id q) : Filled q := by
  have hn := hreg.nslabs_eq
  have ha := hreg.available_eq
  have hlt := nslabs.isLt
  refine ⟨?_, by omega, by omega, ?_⟩
  · unfold Fits
    rw [hreg.flag_eq, length_initBitmap hlt]
    omega
  · intro k hk
    have hclear : marked q k = false := by
      unfold marked
      rw [hreg.flag_eq, getBit_initBitmap]
    simp only [hclear, Bool.false_eq_true, false_iff]
    omega

/-! ## What the listed producers have left -/

def supplyOf (s : State) (n : Node) : Nat :=
  ((s.producers.cell n.producer).map fun p => p.availableSlabs.toNat).getD 0

/-- The slabs that the listed producers have left by their counters. -/
def supply (s : State) : Nat := (s.list.map (supplyOf s)).sum

structure TrafficInv (s : State) : Prop where
  listInv : ListInv s
  filled : ∀ n ∈ s.list, ∀ p, s.producers.cell n.producer = some p → Filled p

theorem supplyOf_eq {s : State} {n : Node} {p : ProducerInfo}
    (hp : s.producers.cell n.producer = some p) : supplyOf s n = p.availableSlabs.toNat := by
  simp [supplyOf, hp]

theorem sum_map_lower {l : List Node} (hnodup : l.Nodup) {f g : Node → Nat} {n : Node} (hn : n ∈ l)
    {count : Nat} (hself : g n + count = f n) (hother : ∀ m ∈ l, m ≠ n → g m = f m) :
    (l.map g).sum + count = (l.map f).sum := by
  induction l with
  | nil => cases hn
  | cons a l ih =>
      rw [List.map_cons, List.map_cons, List.sum_cons, List.sum_cons]
      obtain ⟨hnot, hnodup⟩ := List.nodup_cons.mp hnodup
      rcases List.mem_cons.mp hn with rfl | hmem
      · have hrest : l.map g = l.map f := by
          apply List.map_congr_left
          intro m hm
          exact hother m (List.mem_cons_of_mem _ hm) (fun h => hnot (h ▸ hm))
        rw [hrest]
        omega
      · have hne : a ≠ n := fun h => hnot (h ▸ hmem)
        have hhead := hother a List.mem_cons_self hne
        have htail := ih hnodup hmem fun m hm => hother m (List.mem_cons_of_mem _ hm)
        omega

theorem TrafficInv.grant {s : State} (h : TrafficInv s) {n : Node} (hn : n ∈ s.list)
    {p : ProducerInfo} (hp : s.producers.cell n.producer = some p) (hpos : 0 < p.availableSlabs)
    {peer requested : Nat} {s' : State} {g : Grant}
    (hg : (s', g) = grantSlabs s peer n.producer p (p.nslabs - p.availableSlabs.toNat) requested) :
    TrafficInv s' ∧ s'.halted = s.halted ∧ g.nslabs = min requested p.availableSlabs.toNat ∧
      supply s' + g.nslabs = supply s := by
  have hfilled := h.filled n hn p hp
  have hle := hfilled.le
  obtain ⟨hgrant, hs'⟩ := grantSlabs_spec hg
  have hmin : min requested (p.nslabs - (p.nslabs - p.availableSlabs.toNat)) =
      min requested p.availableSlabs.toNat := by
    omega
  have hcount : g.nslabs = min requested p.availableSlabs.toNat := by
    rw [hgrant]
    exact hmin
  rw [hmin, ← hcount] at hs'
  have hcells : ∀ i, s'.producers.cell i =
      if i = n.producer then some (granted p (p.nslabs - p.availableSlabs.toNat) g.nslabs)
      else s.producers.cell i := by
    intro i
    rw [hs']
    exact Heap.cell_write hp _ i
  have hlist : s'.list = s.list := by rw [hs']
  have hgranted := hfilled.granted g.nslabs (by omega)
  refine ⟨⟨?_, ?_⟩, by rw [hs'], hcount, ?_⟩
  · have hshrinks := grantSlabs_shrinks hp peer (p.nslabs - p.availableSlabs.toNat) requested
    rw [← hg] at hshrinks
    exact hshrinks.listInv h.listInv
  · intro m hm q hq
    rw [hcells] at hq
    split at hq
    · cases hq
      exact hgranted
    · exact h.filled m (hlist ▸ hm) q hq
  · unfold supply
    rw [hlist]
    apply sum_map_lower (h.listInv.nodup.of_map _) hn
    · rw [supplyOf_eq hp]
      rw [supplyOf_eq (by rw [hcells, if_pos rfl])]
      show (p.availableSlabs - g.nslabs).toNat + g.nslabs = _
      omega
    · intro m hm hne
      have hptr : m.producer ≠ n.producer := fun heq => hne (h.listInv.eq_of_producer hm hn heq)
      unfold supplyOf
      rw [hcells, if_neg hptr]

/-! ## One walk over the list -/

/-- The walk takes from the first producer that has something left, and runs into the
tail if there is none. -/
theorem TrafficInv.allocFrom {s : State} (h : TrafficInv s) (peer requested : Nat) {l : List Node}
    (hl : ∀ n ∈ l, n ∈ s.list) :
    (allocFrom s peer requested (l.map (fun n => some n.producer) ++ [none]) = .error .sentinel ∧
      ∀ n ∈ l, supplyOf s n = 0) ∨
    ∃ n ∈ l, ∃ p, s.producers.cell n.producer = some p ∧ 0 < p.availableSlabs ∧
      allocFrom s peer requested (l.map (fun n => some n.producer) ++ [none]) =
        .ok (some ((grantSlabs s peer n.producer p (p.nslabs - p.availableSlabs.toNat) requested).1, p,
          (grantSlabs s peer n.producer p (p.nslabs - p.availableSlabs.toNat) requested).2)) := by
  induction l with
  | nil => exact .inl ⟨rfl, by simp⟩
  | cons n l ih =>
      have hn := hl n List.mem_cons_self
      obtain ⟨p, hp, -⟩ := h.listInv.live n hn
      have hfilled := h.filled n hn p hp
      rw [List.map_cons, List.cons_append, Coordinator.allocFrom]
      simp only [hp]
      by_cases hpos : p.availableSlabs > 0
      · right
        refine ⟨n, List.mem_cons_self, p, hp, hpos, ?_⟩
        rw [if_pos hpos, hfilled.findAvailableSlabs hpos]
      · rw [if_neg hpos]
        rcases ih fun m hm => hl m (List.mem_cons_of_mem _ hm) with ⟨herr, hzero⟩ | hok
        · refine .inl ⟨herr, ?_⟩
          intro m hm
          rcases List.mem_cons.mp hm with rfl | hm
          · rw [supplyOf_eq hp]
            omega
          · exact hzero m hm
        · obtain ⟨m, hm, hrest⟩ := hok
          exact .inr ⟨m, List.mem_cons_of_mem _ hm, hrest⟩

theorem TrafficInv.allocNextSlabs {s : State} (h : TrafficInv s) (peer : Nat) {requested : Nat}
    (hreq : 0 < requested) :
    (allocNextSlabs s peer requested = .error .sentinel ∧ supply s = 0) ∨
    ∃ s' p g, allocNextSlabs s peer requested = .ok (some (s', p, g)) ∧ TrafficInv s' ∧
      s'.halted = s.halted ∧ 0 < g.nslabs ∧ g.nslabs ≤ requested ∧
      supply s' + g.nslabs = supply s := by
  unfold Coordinator.allocNextSlabs
  rcases h.allocFrom peer requested (l := s.list) (fun _ hn => hn) with ⟨herr, hzero⟩ | hok
  · refine .inl ⟨herr, ?_⟩
    apply List.sum_eq_zero
    intro k hk
    obtain ⟨n, hn, rfl⟩ := List.mem_map.mp hk
    exact hzero n hn
  · obtain ⟨n, hn, p, hp, hpos, hres⟩ := hok
    generalize hg : grantSlabs s peer n.producer p (p.nslabs - p.availableSlabs.toNat) requested = r
      at hres
    obtain ⟨s', g⟩ := r
    obtain ⟨hinv, hhalted, hcount, hsupply⟩ := h.grant hn hp hpos hg.symm
    exact .inr ⟨s', p, g, hres, hinv, hhalted, by omega, by omega, hsupply⟩

/-! ## The loop over a request -/

/-- The slabs that a reply hands out. -/
def grantedSlabs (evs : List Event) : Nat :=
  (evs.map fun e =>
    match e with
    | .slabAddPartial _ _ _ g => g.nslabs
    | _ => 0).sum

/-- A request within the supply is granted in full, and the reply is complete. -/
theorem slabsAddLoop_serves (peer : Nat) {fuel requested : Nat} {s : State} (h : TrafficInv s)
    (hfuel : requested < fuel) (hle : requested ≤ supply s) :
    TrafficInv (slabsAddLoop peer fuel requested s).1 ∧
    (slabsAddLoop peer fuel requested s).1.halted = s.halted ∧
    (∀ f, .fault f ∉ (slabsAddLoop peer fuel requested s).2) ∧
    (slabsAddLoop peer fuel requested s).2.getLast? = some (.doneSlabAdd peer) ∧
    grantedSlabs (slabsAddLoop peer fuel requested s).2 = requested := by
  induction fuel generalizing requested s with
  | zero => omega
  | succ fuel ih =>
      unfold slabsAddLoop
      by_cases hreq : requested = 0
      · rw [if_pos hreq]
        exact ⟨h, rfl, by simp, rfl, by simp [grantedSlabs, hreq]⟩
      · rw [if_neg hreq]
        rcases h.allocNextSlabs peer (show 0 < requested by omega) with ⟨-, hzero⟩ | hok
        · omega
        · obtain ⟨s', p, g, halloc, hinv, hhalted, hpos, hgle, hsupply⟩ := hok
          have hfuel' : requested - g.nslabs < fuel := by omega
          obtain ⟨hinv', hhalted', hfault, hlast, hsum⟩ := ih hinv hfuel' (by omega)
          simp only [halloc]
          refine ⟨hinv', hhalted'.trans hhalted, ?_, ?_, ?_⟩
          · intro f hmem
            rcases List.mem_cons.mp hmem with heq | hmem
            · cases heq
            · exact hfault f hmem
          · rw [List.getLast?_cons, hlast]
            rfl
          · show g.nslabs + grantedSlabs (slabsAddLoop peer fuel (requested - g.nslabs) s').2 = requested
            omega

theorem slabsAddLoop_starves (peer : Nat) {fuel requested : Nat} {s : State} (h : TrafficInv s)
    (hfuel : requested < fuel) (hlt : supply s < requested) :
    .fault .sentinel ∈ (slabsAddLoop peer fuel requested s).2 := by
  induction fuel generalizing requested s with
  | zero => omega
  | succ fuel ih =>
      unfold slabsAddLoop
      rw [if_neg (by omega)]
      rcases h.allocNextSlabs peer (show 0 < requested by omega) with ⟨herr, -⟩ | hok
      · simp [herr, fail]
      · obtain ⟨s', p, g, halloc, hinv, -, hpos, hgle, hsupply⟩ := hok
        simp only [halloc]
        exact List.mem_cons_of_mem _ (ih hinv (by omega) (by omega))

/-! ## Messages -/

/-- A message is handled: no `BUG()`, no failed assertion of the allocator, no
sentinel read, and a request for slabs is answered to the end with what there is. -/
def Handled (s : State) (m : Message) : Prop :=
  (∀ f, .fault f ∈ (onCompletion s m).2 → f ≠ .bug ∧ f ≠ .assertSlab ∧ f ≠ .sentinel) ∧
  ∀ peer nslabs, m = .slabAdd peer nslabs →
    (onCompletion s m).2.getLast? = some (.doneSlabAdd peer) ∧
      grantedSlabs (onCompletion s m).2 = min nslabs (supply s)

/-- No release, and no request for more than the listed producers have left. -/
def Servable (s : State) : Message → Prop
  | .slabAdd _ nslabs => nslabs ≤ supply s
  | .slabRem _ _ _ _ => False
  | .producerAdd _ _ _ _ _ _ | .producerRem _ => True

instance (s : State) (m : Message) : Decidable (Servable s m) :=
  match m with
  | .slabAdd _ nslabs => inferInstanceAs (Decidable (nslabs ≤ supply s))
  | .slabRem _ _ _ _ => inferInstanceAs (Decidable False)
  | .producerAdd _ _ _ _ _ _ | .producerRem _ => inferInstanceAs (Decidable True)

theorem TrafficInv.registered {s s' : State} (h : TrafficInv s) {ip : CText.Text} {port : Int}
    {nslabs : Fin (2 ^ 31)} {id : Nat} {addr : BitVec 64} {q : ProducerInfo}
    (hreg : Registered s s' ip port nslabs addr id q) : TrafficInv s' := by
  refine ⟨hreg.listInv h.listInv, ?_⟩
  have hq := filled_of_registered hreg
  intro n hn p hp
  by_cases hptr : n.producer = s.producers.next
  · rw [hptr, hreg.cell_new] at hp
    cases hp
    exact hq
  · rw [hreg.cells, if_neg hptr] at hp
    cases hreg.enlisted with
    | unlisted hport hid hlist =>
        rw [hlist] at hn
        exact h.filled n hn p hp
    | takeover node r hnode hcell hip hport hlst hid hlist =>
        rw [hlist] at hn
        obtain ⟨m, hm, hmn⟩ := List.mem_map.mp hn
        split at hmn
        · rw [← hmn] at hptr
          exact absurd rfl hptr
        · subst hmn
          exact h.filled m hm p hp
    | front hnew hlst hid hlist =>
        rw [hlist] at hn
        rcases List.mem_cons.mp hn with rfl | hn
        · exact absurd rfl hptr
        · exact h.filled n hn p hp

/-- A servable message keeps the invariant, unless it halts the coordinator. -/
theorem TrafficInv.onCompletion {s : State} (h : TrafficInv s) {m : Message} (hm : Servable s m) :
    (onCompletion s m).1.halted = true ∨ TrafficInv (onCompletion s m).1 := by
  cases m with
  | producerAdd peer ip port nslabs addr rdmakey =>
      rcases onRecvProducerAdd_cases h.listInv peer ip port nslabs addr rdmakey with
        hfail | ⟨s₁, s', id, q, -, hres, hreg, -, -⟩
      · left
        simp [Coordinator.onCompletion, hfail, fail]
      · right
        simp only [Coordinator.onCompletion, hres]
        exact h.registered hreg
  | producerRem peer =>
      rcases onRecvProducerRem_cases h.listInv peer with ⟨t, hfail, -⟩ | ⟨s', hres, hshrinks, hkept, -⟩
      · left
        simp [Coordinator.onCompletion, hfail, fail]
      · right
        simp only [Coordinator.onCompletion, hres]
        refine ⟨hshrinks.listInv h.listInv, ?_⟩
        intro n hn p hp
        rw [hkept n hn] at hp
        exact h.filled n (hshrinks.list.subset hn) p hp
  | slabAdd peer nslabs =>
      right
      exact (slabsAddLoop_serves peer h (Nat.lt_succ_self _) hm).1
  | slabRem peer id addr nslabs => exact hm.elim

theorem slabRem_bug {s : State} (hs : s.halted = false) (peer : Nat) (id : Int)
    (addr : BitVec 64) (nslabs : Nat) :
    .fault .bug ∈ (onCompletion s (.slabRem peer id addr nslabs)).2 := by
  have hhalted : (onRecvSlabsRem s peer id addr nslabs).1.halted = false := by
    unfold onRecvSlabsRem
    have hframe := forget_frame s (releasedGrant s peer id addr nslabs)
    generalize forget s (releasedGrant s peer id addr nslabs) = t at hframe
    have ht : t.halted = false := by rw [hframe]; exact hs
    simp only []
    split
    · exact ht
    · rename_i ptr hfind
      obtain ⟨n, hn, rfl⟩ := Option.map_eq_some_iff.mp hfind
      obtain ⟨-, p, hp, -⟩ := findListed_some hn
      simp only [hp]
      exact ht
  simp [onCompletion, hhalted]

theorem trafficInv_of_exec {s : State} {tr : List Event} (h : coordinator.Exec Servable s tr) :
    s.halted = true ∨ TrafficInv s := by
  refine h.invariant (I := fun s _ => s.halted = true ∨ TrafficInv s) ?_ ?_
  · rintro s rfl
    exact .inr ⟨listInv_init, by simp [initState]⟩
  · intro s tr m s' evs ih hm hs
    change (if s.halted then none else some (onCompletion s m)) = _ at hs
    split at hs
    · cases hs
    · rename_i hrun
      have hres : onCompletion s m = (s', evs) := by simpa using hs
      rcases ih with hhalted | hinv
      · exact absurd hhalted hrun
      · have hnext := hinv.onCompletion hm
        rwa [hres] at hnext

/-- After any servable traffic, the next message is handled if and only if it is
servable too. -/
theorem handled_iff_servable {s : State} {tr : List Event} (h : coordinator.Exec Servable s tr)
    (hs : s.halted = false) (m : Message) : Handled s m ↔ Servable s m := by
  have hinv : TrafficInv s := by
    rcases trafficInv_of_exec h with hhalted | hinv
    · rw [hs] at hhalted
      cases hhalted
    · exact hinv
  cases m with
  | producerAdd peer ip port nslabs addr rdmakey =>
      simp only [Servable, iff_true]
      refine ⟨?_, by simp⟩
      intro f hmem
      rcases onRecvProducerAdd_cases hinv.listInv peer ip port nslabs addr rdmakey with
        hfail | ⟨s₁, s', id, q, -, hres, -, -, -⟩
      · simp only [onCompletion, hfail, fail, List.mem_singleton, Event.fault.injEq] at hmem
        simp [hmem]
      · simp only [onCompletion, hres, mapFaults] at hmem
        split at hmem <;> simp at hmem
        simp [hmem]
  | producerRem peer =>
      simp only [Servable, iff_true]
      refine ⟨?_, by simp⟩
      intro f hmem
      rcases onRecvProducerRem_cases hinv.listInv peer with ⟨t, hfail, -⟩ | ⟨s', hres, -⟩
      · simp only [onCompletion, hfail, fail, List.mem_singleton, Event.fault.injEq] at hmem
        simp [hmem]
      · simp [onCompletion, hres] at hmem
  | slabAdd peer nslabs =>
      constructor
      · intro hhandled
        show nslabs ≤ supply s
        by_contra hlt
        have hfault := slabsAddLoop_starves peer hinv (Nat.lt_succ_self nslabs) (by omega)
        exact (hhandled.1 _ hfault).2.2 rfl
      · intro hle
        obtain ⟨-, -, hfault, hlast, hsum⟩ :=
          slabsAddLoop_serves peer hinv (Nat.lt_succ_self nslabs) hle
        refine ⟨fun f hmem => absurd hmem (hfault f), ?_⟩
        rintro peer' nslabs' heq
        cases heq
        have hle' : nslabs ≤ supply s := hle
        exact ⟨hlast, by rw [Nat.min_eq_left hle']; exact hsum⟩
  | slabRem peer id addr nslabs =>
      simp only [Servable, iff_false]
      intro hhandled
      exact (hhandled.1 _ (slabRem_bug hs peer id addr nslabs)).1 rfl

/-- Two producers with three slabs in all, of which two are granted. -/
def sampleTraffic : List Message :=
  [.producerAdd 0 ['a'] 9400 2 0#64 7, .producerAdd 1 ['b'] 9400 1 (BitVec.ofNat 64 (2 ^ 20)) 7,
    .slabAdd 2 2]

theorem handled_iff_servable_sample :
    (coordinator.final initState sampleTraffic).halted = false ∧
    Handled (coordinator.final initState sampleTraffic) (.slabAdd 3 1) ∧
    ¬ Handled (coordinator.final initState sampleTraffic) (.slabAdd 3 2) := by
  have hrun : coordinator.Exec Servable (coordinator.final initState sampleTraffic)
      (coordinator.trace initState sampleTraffic) := by
    have hcheck : coordinator.check (fun s m => decide (Servable s m)) initState sampleTraffic =
        true := by
      decide
    exact System.exec_final rfl (System.meets_of_check (fun _ _ => of_decide_eq_true) hcheck)
  have hhalted : (coordinator.final initState sampleTraffic).halted = false := by decide
  refine ⟨hhalted, (handled_iff_servable hrun hhalted _).mpr (by decide), ?_⟩
  intro hhandled
  exact absurd ((handled_iff_servable hrun hhalted _).mp hhandled) (by decide)

/-- A request that meets an empty list reads the producer of the tail, and a release of
slabs that were granted reaches `BUG()`. -/
theorem valid_traffic_faults :
    ¬ ∀ s tr m, coordinator.Exec (fun _ _ => True) s tr → s.halted = false → Handled s m := by
  intro hall
  have hhandled := hall initState [] (.slabAdd 0 1) (.init rfl) rfl
  exact (hhandled.1 .sentinel (by decide)).2.2 rfl

example : .fault .bug ∈ (onCompletion (coordinator.final initState sampleTraffic)
    (.slabRem 2 2 (BitVec.ofNat 64 (2 ^ 20)) 1)).2 := by
  decide

end Memtrade.Coordinator
