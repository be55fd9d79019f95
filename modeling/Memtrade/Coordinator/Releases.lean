import Memtrade.Coordinator.Counters

/-!
# Releases

`on_recv_slabs_rem` checks the id of a release and nothing else: -1 from
`slab_from_addr` is a bit number like any other, a range may leave the region, and a
slab may be released twice. Whatever the range, its length is added to the counter.
-/

namespace Memtrade.Coordinator

/-- The slab that an address of the region lies in. -/
def slabOf (p : ProducerInfo) (addr : BitVec 64) : Nat :=
  (addr.toNat - p.memaddr.toNat) / slabSize

/-- `nslabs` slabs from the one at `addr` on lie in the region and are allocated. -/
structure Owned (p : ProducerInfo) (addr : BitVec 64) (nslabs : Nat) : Prop where
  mem : addr.toNat ∈ region p
  le : slabOf p addr + nslabs ≤ p.nslabs
  allocated : ∀ k < nslabs, marked p (slabOf p addr + k) = true

/-- A release whose id is unknown, or whose range is not one of allocated slabs. -/
def BadRelease (s : State) (id : Int) (addr : BitVec 64) (nslabs : Nat) : Prop :=
  ∀ ptr p, findProducerById s id = some ptr → s.producers.cell ptr = some p → ¬ Owned p addr nslabs

/-- No bit and no counter is changed, and no index outside a bitmap is touched. -/
structure Harmless (s : State) (r : State × List Event) : Prop where
  bitmaps : ∀ ptr, (r.1.producers.cell ptr).map ProducerInfo.slabAvailabilityFlag =
    (s.producers.cell ptr).map ProducerInfo.slabAvailabilityFlag
  counters : ∀ ptr, (r.1.producers.cell ptr).map ProducerInfo.availableSlabs =
    (s.producers.cell ptr).map ProducerInfo.availableSlabs
  inside : .fault .outOfBounds ∉ r.2

/-! ## One release -/

theorem findProducerById_some {s : State} {id : Int} {ptr : Nat}
    (h : findProducerById s id = some ptr) : ∃ p, s.producers.cell ptr = some p := by
  unfold findProducerById at h
  obtain ⟨node, hnode, hptr⟩ := Option.map_eq_some_iff.mp h
  obtain ⟨-, p, hp, -⟩ := findListed_some hnode
  rw [← hptr]
  exact ⟨p, hp⟩

/-- What a release does: nothing, or its loop on the struct that the id leads to. -/
theorem onRecvSlabsRem_cases (s : State) (peer : Nat) (id : Int) (addr : BitVec 64) (nslabs : Nat) :
    (findProducerById s id = none ∧ onRecvSlabsRem s peer id addr nslabs =
      (forget s (releasedGrant s peer id addr nslabs), [.done peer])) ∨
    ∃ ptr p, findProducerById s id = some ptr ∧ s.producers.cell ptr = some p ∧
      onRecvSlabsRem s peer id addr nslabs =
        ({ forget s (releasedGrant s peer id addr nslabs) with
            producers := s.producers.write ptr (freeSlabs nslabs (slabFromAddr p addr) p) },
          freeFaults p (slabFromAddr p addr) nslabs ++ [.done peer]) := by
  have hframe := forget_frame s (releasedGrant s peer id addr nslabs)
  have hproducers : (forget s (releasedGrant s peer id addr nslabs)).producers = s.producers := by
    rw [hframe]
  have hfind : findProducerById (forget s (releasedGrant s peer id addr nslabs)) id =
      findProducerById s id := by
    rw [hframe]
    rfl
  unfold onRecvSlabsRem
  simp only [hfind]
  cases h : findProducerById s id with
  | none => exact .inl ⟨rfl, rfl⟩
  | some ptr =>
      obtain ⟨p, hp⟩ := findProducerById_some h
      right
      refine ⟨ptr, p, rfl, hp, ?_⟩
      simp only [hproducers, hp]

/-- A release is harmless exactly when its id is unknown or it has no slabs. -/
theorem harmless_iff (s : State) (peer : Nat) (id : Int) (addr : BitVec 64) (nslabs : Nat) :
    Harmless s (onRecvSlabsRem s peer id addr nslabs) ↔
      findProducerById s id = none ∨ nslabs = 0 := by
  have hproducers : (forget s (releasedGrant s peer id addr nslabs)).producers = s.producers := by
    rw [forget_frame]
  cases onRecvSlabsRem_cases s peer id addr nslabs with
  | inl hunknown =>
      constructor
      · exact fun _ => .inl hunknown.1
      · intro _
        rw [hunknown.2]
        refine ⟨?_, ?_, by simp⟩
        · intro i
          simp only [hproducers]
        · intro i
          simp only [hproducers]
  | inr hknown =>
      obtain ⟨ptr, p, hfind, hp, hres⟩ := hknown
      constructor
      · intro h
        right
        have hcounter := h.counters ptr
        rw [hres] at hcounter
        have havail := (freeSlabs_fields nslabs (slabFromAddr p addr) p).2.2.1
        simp only [Heap.cell_write hp, if_true, hp, Option.map_some, Option.some.injEq,
          havail] at hcounter
        omega
      · intro h
        have hzero : nslabs = 0 := by
          cases h with
          | inl hnone =>
              rw [hfind] at hnone
              cases hnone
          | inr hzero => exact hzero
        have hfree : freeSlabs nslabs (slabFromAddr p addr) p = p := by
          rw [hzero]
          rfl
        have hfaults : freeFaults p (slabFromAddr p addr) nslabs = [] := by
          rw [hzero]
          rfl
        rw [hres, hfree, hfaults, Heap.write_self hp]
        exact ⟨fun _ => rfl, fun _ => rfl, by simp⟩

/-! ## Runs -/

/-- Requests take slabs with clear bits only; releases that are not ignored are of
allocated slabs in a region that is addressed without overflow, and the bits below
them in the word of the first one are clear. -/
def Orderly (s : State) : Message → Prop
  | .producerAdd _ _ _ _ _ _ | .producerRem _ => True
  | .slabAdd _ nslabs => runsClear s s.list nslabs = true
  | .slabRem _ id addr nslabs =>
      nslabs = 0 ∨ ∀ ptr p, findProducerById s id = some ptr → s.producers.cell ptr = some p →
        InRange p.nslabs p.memaddr ∧ Owned p addr nslabs ∧
          ∀ k < slabOf p addr, 32 * (slabOf p addr / 32) ≤ k → marked p k = false

structure CountInv (s : State) : Prop where
  listInv : ListInv s
  counted : ∀ ptr p, s.producers.cell ptr = some p → Counted p

namespace CountInv

variable {s s' : State}

theorem write (h : CountInv s) {ptr : Nat} {p q : ProducerInfo}
    (hp : s.producers.cell ptr = some p) (hq : Counted q) (hshrinks : Shrinks s s')
    (hproducers : s'.producers = s.producers.write ptr q) : CountInv s' := by
  refine ⟨hshrinks.listInv h.listInv, ?_⟩
  intro i r hr
  rw [hproducers, Heap.cell_write hp] at hr
  split at hr
  · cases hr
    exact hq
  · exact h.counted i r hr

theorem of_eq (h : CountInv s) (hshrinks : Shrinks s s') (hproducers : s'.producers = s.producers) :
    CountInv s' := by
  refine ⟨hshrinks.listInv h.listInv, ?_⟩
  rw [hproducers]
  exact h.counted

theorem halt (h : CountInv s) : CountInv { s with halted := true } :=
  ⟨h.listInv.halt, h.counted⟩

theorem grantClosed : GrantClosed CountInv where
  listInv _ h := h.listInv
  counted _ h := h.counted
  halt _ h := h.halt
  grant s s' peer n p slab requested g h hn hp hreq hslab hg hclear := by
    have hshrinks := grantSlabs_shrinks hp peer slab requested
    rw [← hg] at hshrinks
    obtain ⟨-, hs'⟩ := grantSlabs_spec hg
    apply h.write hp ((h.counted n.producer p hp).granted _ hclear) hshrinks
    · rw [hs']
    · omega

theorem registered (h : CountInv s) {ip : CText.Text} {port : Int} {nslabs : Fin (2 ^ 31)}
    {id : Nat} {addr : BitVec 64} {q : ProducerInfo}
    (hreg : Registered s s' ip port nslabs addr id q) : CountInv s' := by
  refine ⟨hreg.listInv h.listInv, ?_⟩
  intro i r hr
  rw [hreg.cells] at hr
  split at hr
  · cases hr
    exact .of_registered hreg
  · exact h.counted i r hr

theorem counted_removed (p : ProducerInfo) :
    Counted { p with nslabs := 0, availableSlabs := 0 } :=
  ⟨Nat.zero_le _, rfl⟩

theorem onRecvProducerRem (h : CountInv s) (peer : Nat) :
    CountInv (onRecvProducerRem s peer).1 := by
  unfold Coordinator.onRecvProducerRem
  cases hpeer : s.peers peer with
  | none => exact h.halt
  | some ptr =>
      cases hp : s.producers.cell ptr with
      | none =>
          simp only [hp]
          exact h.halt
      | some p =>
          simp only [hp]
          generalize ht : ({ s with
            producers := s.producers.write ptr { p with nslabs := 0, availableSlabs := 0 }
            peers := Function.update s.peers peer none } : State) = t
          have hid : SameIdentity p { p with nslabs := 0, availableSlabs := 0 } :=
            ⟨rfl, rfl, rfl, rfl⟩
          have hwrite : CountInv t := by
            rw [← ht]
            exact h.write hp (counted_removed p) (.of_write hp hid rfl rfl rfl rfl rfl) rfl
          cases producerlistRemove_cases t p.lstptr with
          | inl herr =>
              simp only [herr]
              exact hwrite.halt
          | inr hremoved =>
              obtain ⟨node, hnode, -, hok⟩ := hremoved
              simp only [hok]
              refine ⟨(Shrinks.of_remove hwrite.listInv hnode).listInv hwrite.listInv, ?_⟩
              intro i r hr
              rw [Heap.cell_free] at hr
              split at hr
              · cases hr
              · exact hwrite.counted i r hr

theorem onRecvSlabsRem (h : CountInv s) {peer : Nat} {id : Int} {addr : BitVec 64} {nslabs : Nat}
    (hok : Orderly s (.slabRem peer id addr nslabs)) :
    CountInv (onRecvSlabsRem s peer id addr nslabs).1 := by
  have hshrinks := (onRecvSlabsRem_shrinks s peer id addr nslabs).1
  cases onRecvSlabsRem_cases s peer id addr nslabs with
  | inl hunknown =>
      apply h.of_eq hshrinks
      rw [hunknown.2, forget_frame]
  | inr hknown =>
      obtain ⟨ptr, p, hfind, hp, hres⟩ := hknown
      apply h.write hp ?_ hshrinks (by rw [hres])
      have hcounted := h.counted ptr p hp
      by_cases hzero : nslabs = 0
      · rw [hzero]
        exact hcounted
      · have howned := hok.resolve_left hzero ptr p hfind hp
        obtain ⟨hrange, hrun, hlow⟩ := howned
        rw [slabFromAddr_of_mem hrange hrun.mem.1 hrun.mem.2]
        exact hcounted.freeSlabs (Nat.pos_of_ne_zero hzero) hrun.le hrun.allocated hlow

theorem onCompletion (h : CountInv s) {m : Message} (hok : Orderly s m) :
    CountInv (onCompletion s m).1 := by
  cases m with
  | producerAdd peer ip port nslabs addr rdmakey =>
      cases onRecvProducerAdd_cases h.listInv peer ip port nslabs addr rdmakey with
      | inl hfail =>
          simp only [Coordinator.onCompletion, hfail]
          exact h.halt
      | inr hres =>
          obtain ⟨s₁, s', id, q, -, hres, hreg, -, -⟩ := hres
          simp only [Coordinator.onCompletion, hres]
          exact h.registered hreg
  | producerRem peer => exact h.onRecvProducerRem peer
  | slabAdd peer nslabs => exact grantClosed.slabsAddLoop h hok
  | slabRem peer id addr nslabs =>
      have hinv := h.onRecvSlabsRem hok
      simp only [Coordinator.onCompletion]
      split
      · exact hinv
      · exact hinv

end CountInv

theorem countInv_of_exec {s : State} {tr : List Event} (h : coordinator.Exec Orderly s tr) :
    CountInv s := by
  apply h.invariant (I := fun s _ => CountInv s)
  · intro s hs
    rw [hs]
    exact ⟨listInv_init, by simp [initState]⟩
  · intro s tr m s' evs hinv hok hs
    change (if s.halted then none else some (onCompletion s m)) = _ at hs
    split at hs
    · cases hs
    · have hres : onCompletion s m = (s', evs) := by simpa using hs
      have hnext := hinv.onCompletion hok
      rw [hres] at hnext
      exact hnext

/-- A bad release is harmless exactly when its id is unknown or its loop does not run,
as for any count that is not positive; and in orderly runs every counter stays within
its bounds. -/
theorem badRelease_harmless_iff (s : State) :
    (∀ (peer : Nat) (id : Int) (addr : BitVec 64) (nslabs : Int),
      BadRelease s id addr nslabs.toNat →
        (Harmless s (onRecvSlabsRem s peer id addr nslabs.toNat) ↔
          findProducerById s id = none ∨ nslabs ≤ 0)) ∧
    ∀ tr, coordinator.Exec Orderly s tr → ∀ ptr p, s.producers.cell ptr = some p →
      0 ≤ p.availableSlabs ∧ p.availableSlabs ≤ p.nslabs := by
  constructor
  · intro peer id addr nslabs _
    rw [harmless_iff, Int.toNat_eq_zero]
  · intro tr h ptr p hp
    exact ((countInv_of_exec h).counted ptr p hp).bounds

/-- A producer with three slabs, of which two are granted. -/
def oneProducer : List Message :=
  [.producerAdd 0 ['a'] 9400 3 (2 ^ 20) 7, .slabAdd 1 2]

theorem badRelease_unknown_id :
    BadRelease (coordinator.final initState oneProducer) 5 0 1 ∧
      Harmless (coordinator.final initState oneProducer)
        (onRecvSlabsRem (coordinator.final initState oneProducer) 1 5 0 1) ∧
      ∀ p, (coordinator.final initState oneProducer).producers.cell 0 = some p →
        0 ≤ p.availableSlabs ∧ p.availableSlabs ≤ p.nslabs := by
  have hunknown : findProducerById (coordinator.final initState oneProducer) 5 = none := by decide
  have hbad : BadRelease (coordinator.final initState oneProducer) 5 0 1 := by
    intro ptr p hfind
    rw [hunknown] at hfind
    cases hfind
  have horderly : coordinator.check
      (fun s m => match m with
        | .slabAdd _ nslabs => runsClear s s.list nslabs
        | .slabRem _ _ _ nslabs => nslabs == 0
        | _ => true) initState oneProducer = true := by
    decide
  have hrun : coordinator.Exec Orderly (coordinator.final initState oneProducer)
      (coordinator.trace initState oneProducer) := by
    apply System.exec_final rfl (System.meets_of_check ?_ horderly)
    intro s m hm
    cases m with
    | producerAdd peer ip port nslabs addr rdmakey => trivial
    | producerRem peer => trivial
    | slabAdd peer nslabs => exact hm
    | slabRem peer id addr nslabs => exact .inl (by simpa using hm)
  have hboth := badRelease_harmless_iff (coordinator.final initState oneProducer)
  exact ⟨hbad, (hboth.1 1 5 0 1 hbad).mpr (.inl hunknown), fun p hp => hboth.2 _ hrun 0 p hp⟩

/-- The release of the third slab of that producer. -/
def freeSlabRelease : Message := .slabRem 1 1 (2 ^ 20 + 2 ^ 18) 1

/-- A release of the free third slab is booked: the counter says 2 where one slab is
free, and two more take it beyond the number of slabs. -/
theorem free_slab_released :
    (¬ ∀ (s : State) (peer : Nat) (id : Int) (addr : BitVec 64) (nslabs : Int),
        BadRelease s id addr nslabs.toNat →
          Harmless s (onRecvSlabsRem s peer id addr nslabs.toNat)) ∧
      ¬ ∀ s, coordinator.Reachable s → ∀ ptr p, s.producers.cell ptr = some p →
        0 ≤ p.availableSlabs ∧ p.availableSlabs ≤ p.nslabs := by
  constructor
  · intro hall
    have hfind : findProducerById (coordinator.final initState oneProducer) 1 = some 0 := by decide
    have hbad : BadRelease (coordinator.final initState oneProducer) 1 (2 ^ 20 + 2 ^ 18) 1 := by
      intro ptr p hptr hp howned
      rw [hfind, Option.some.injEq] at hptr
      rw [← hptr] at hp
      have hclear : ((coordinator.final initState oneProducer).producers.cell 0).map
          (fun p => marked p (slabOf p (2 ^ 20 + 2 ^ 18) + 0)) = some false := by
        decide
      rw [hp, Option.map_some, howned.allocated 0 (by decide)] at hclear
      cases hclear
    have hharmless := hall _ 1 1 (2 ^ 20 + 2 ^ 18) 1 hbad
    rw [harmless_iff, hfind] at hharmless
    exact absurd hharmless (by decide)
  · intro hall
    have hreach := System.reachable_final (M := coordinator) rfl
      (oneProducer ++ [freeSlabRelease, freeSlabRelease, freeSlabRelease])
    have hcell : ((coordinator.final initState
        (oneProducer ++ [freeSlabRelease, freeSlabRelease, freeSlabRelease])).producers.cell 0).map
        (fun p => (p.availableSlabs, p.nslabs)) = some (4, 3) := by
      decide
    obtain ⟨p, hp, hfields⟩ := Option.map_eq_some_iff.mp hcell
    have hbounds := (hall _ hreach 0 p hp).2
    simp only [Prod.mk.injEq] at hfields
    rw [hfields.1, hfields.2] at hbounds
    exact absurd hbounds (by decide)

end Memtrade.Coordinator
