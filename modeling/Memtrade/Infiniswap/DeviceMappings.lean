import Memtrade.Infiniswap.DeviceDisk

/-!
# Mappings and evictions of the block device

`IS_single_chunk_map` maps a remote chunk with no bit set, and `evict_handler` unmaps one: it
keeps its chunk of the device until all requests in flight have been waited for.
-/

namespace Memtrade.Infiniswap

variable {D : Type} {all : List CtxId} {dv : Device D} {tr : List (IoEvent D)} {m m' : Maps}
  {chunk : Chunk} {g server : Nat} {c : CtxId}

/-! ## Entries of the maps -/

/-- What a map still has when one of its entries is gone. -/
theorem some_of_cleared {κ α : Type} [DecidableEq κ] {f : κ → Option α} {k k' : κ} {a : α}
    (h : Function.update f k none k' = some a) : k' ≠ k ∧ f k' = some a := by
  by_cases heq : k' = k
  · rw [heq, Function.update_self] at h
    cases h
  · rw [Function.update_of_ne heq] at h
    exact ⟨heq, h⟩

/-- The first loop still comes to a chunk if its remote chunk stays mapped. -/
theorem Phase.Reaches.keep {phase : Phase} (h : phase.Reaches m server g)
    (hmap : ∀ j, m.chunkMap ⟨server, j⟩ = some g → m'.chunkMap ⟨server, j⟩ = some g) :
    phase.Reaches m' server g := by
  cases phase with
  | up => trivial
  | wiping i =>
      obtain ⟨j, hj, hg⟩ := h
      exact ⟨j, hj, hmap j hg⟩
  | unmapping i g' =>
      cases h with
      | inl heq => exact .inl heq
      | inr hrest =>
          obtain ⟨j, hj, hg⟩ := hrest
          exact .inr ⟨j, hj, hmap j hg⟩
  | flushing _ | handling _ _ _ _ | closing _ | closed | down => exact h

/-- A server has its connection behind it in every state but the first two. -/
theorem CbState.known_update {cbState : Nat → CbState} {state : CbState} {server' : Nat}
    (hstate : state ≠ .idle ∧ state ≠ .connected)
    (hold : server' ≠ server → cbState server' ≠ .idle ∧ cbState server' ≠ .connected) :
    Function.update cbState server state server' ≠ .idle ∧
      Function.update cbState server state server' ≠ .connected := by
  by_cases heq : server' = server
  · rw [heq, Function.update_self]
    exact hstate
  · rw [Function.update_of_ne heq]
    exact hold heq

/-- `IS_bitmap_init` sets no bit. -/
theorem Device.bitmapTest_of_init {chunk' : Chunk} {i : Nat}
    (h : (dv.bitmapInit chunk).bitmapTest chunk' i = true) : dv.bitmapTest chunk' i = true := by
  by_cases heq : chunk' = chunk
  · subst heq
    simp [bitmapTest, bitmapInit, bitmapG, wordTest_zero] at h
  · have hne : (⟨chunk', dv.gen chunk'⟩ : BitmapG) ≠ ⟨chunk, dv.gen chunk⟩ := fun h' =>
      heq (congrArg BitmapG.chunk h')
    simpa [bitmapTest, bitmapInit, bitmapG, hne] using h

namespace DeviceInv

/-! ## Mappings -/

theorem connect (h : DeviceInv all dv tr) (hidle : dv.maps.cbState server = .idle) :
    DeviceInv all { dv with
      maps := { dv.maps with
        cbState := Function.update dv.maps.cbState server .connected } } tr := by
  have hslots := h.slots
  refine h.remap ?_ ⟨hslots.busy, hslots.completing, hslots.gens, hslots.waited, hslots.dealt,
    hslots.handling⟩ (fun _ _ hroute => hroute) fun _ _ hbit => hbit
  constructor
  case routed => exact h.routing.routed
  case alive => exact fun g server hcb => (h.routing.alive g server hcb).keep fun _ hj => hj
  case mapped => exact h.routing.mapped
  case known =>
    intro chunk hmap
    have hold := h.routing.known chunk hmap
    have hne : chunk.server ≠ server := fun heq => hold.1 (heq ▸ hidle)
    simp only [Function.update_of_ne hne]
    exact hold
  case apart => exact h.routing.apart
  case bound => exact h.routing.bound
  case waited => exact h.routing.waited

/-- Nothing depends on `rdma_on` but the ways that requests take. -/
theorem setFlags (h : DeviceInv all dv tr) (rdmaOn : Bool) (binding : Nat) :
    DeviceInv all { dv with maps := { dv.maps with rdmaOn := rdmaOn, binding := binding } } tr := by
  have hrouting := h.routing
  have hslots := h.slots
  refine h.remap ⟨hrouting.routed, ?_, hrouting.mapped, hrouting.known, hrouting.apart,
    hrouting.bound, hrouting.waited⟩ ⟨hslots.busy, hslots.completing, hslots.gens, hslots.waited,
    hslots.dealt, hslots.handling⟩ (fun _ _ hroute => hroute) fun _ _ hbit => hbit
  exact fun g server hcb => (hrouting.alive g server hcb).keep fun _ hj => hj

theorem map (h : DeviceInv all dv tr) (hup : dv.maps.phase chunk.server = .up)
    (hbound : chunk.index < maxMrSizeGb) (hfree : dv.maps.chunkMap chunk = none)
    (hidle : dv.maps.evicting chunk = none) (memory : Nat → D) :
    DeviceInv all (dv.map g chunk memory) tr := by
  -- nothing is on its way to the remote chunk
  have hslot : ∀ {chunk' g'}, dv.maps.chunkMap chunk' = some g' ∨ dv.maps.evicting chunk' = some g' →
      chunk' ≠ chunk := by
    intro chunk' g' hg' heq
    rw [heq, hfree, hidle] at hg'
    cases hg' with
    | inl hmap => cases hmap
    | inr hev => cases hev
  have hbusy : ∀ {op}, op ∈ dv.io.busy → op.chunk ≠ chunk := by
    intro op hop
    obtain ⟨r, hr, -⟩ := h.flight.held op (Traffic.mem_ops_of_busy hop)
    exact hslot (h.slots.busy op hop r hr)
  have hlanded : ∀ {e}, e ∈ dv.io.completing → (dv.map g chunk memory).gen e.op.chunk = e.gen →
      e.op.chunk ≠ chunk := by
    intro e he hgen heq
    have hle := h.slots.gens e he
    rw [heq] at hgen hle
    have hnew : (dv.map g chunk memory).gen chunk = dv.gen chunk + 1 := Function.update_self ..
    omega
  have hgen : ∀ {chunk'}, chunk' ≠ chunk → (dv.map g chunk memory).gen chunk' = dv.gen chunk' :=
    fun hne => Function.update_of_ne hne ..
  have hremote : ∀ {chunk'}, chunk' ≠ chunk →
      (dv.map g chunk memory).remote chunk' = dv.remote chunk' :=
    fun hne => Function.update_of_ne hne ..
  -- its bits are clear, and those of the others are in their arrays as before
  have hbit : ∀ {chunk' i}, (dv.map g chunk memory).bitmapTest chunk' i = true →
      chunk' ≠ chunk ∧ dv.bitmapTest chunk' i = true := by
    intro chunk' i hset
    by_cases heq : chunk' = chunk
    · subst heq
      simp [Device.bitmapTest, Device.bitmapG, Device.map, wordTest_zero] at hset
    · have hne : (⟨chunk', dv.gen chunk'⟩ : BitmapG) ≠ ⟨chunk, dv.gen chunk + 1⟩ := fun h' =>
        heq (congrArg BitmapG.chunk h')
      refine ⟨heq, ?_⟩
      simpa [Device.bitmapTest, Device.bitmapG, Device.map, heq, hne] using hset
  have hroute : ∀ {g' chunk'}, (dv.map g chunk memory).maps.route g' = some chunk' →
      chunk' ≠ chunk → g' ≠ g ∧ dv.maps.route g' = some chunk' := by
    intro g' chunk' hr hne
    obtain ⟨hcb, hidx⟩ := Maps.maps_of_route hr
    have hcb' : Function.update dv.maps.cbIndexMap g (some chunk.server) g' = some chunk'.server := hcb
    have hidx' : Function.update dv.maps.chunkMapCbChunk g (some chunk.index) g' =
      some chunk'.index := hidx
    by_cases heq : g' = g
    · rw [heq, Function.update_self] at hcb' hidx'
      cases hne (congrArg₂ Chunk.mk (Option.some.inj hcb').symm (Option.some.inj hidx').symm)
    · rw [Function.update_of_ne heq] at hcb' hidx'
      exact ⟨heq, Maps.route_eq hcb' hidx'⟩
  have hmap : ∀ {chunk' g'}, dv.maps.chunkMap chunk' = some g' →
      (dv.map g chunk memory).maps.chunkMap chunk' = some g' := by
    intro chunk' g' hg'
    exact (Function.update_of_ne (hslot (.inl hg')) ..).trans hg'
  refine ⟨h.current, h.flight, ?_, ?_, ?_⟩
  · constructor
    case routed =>
      intro g' chunk' hr
      by_cases heq : chunk' = chunk
      · subst heq
        obtain ⟨hcb, hidx⟩ := Maps.maps_of_route hr
        by_cases hg : g' = g
        · rw [hg]
          exact Function.update_self ..
        · have hcb' : dv.maps.cbIndexMap g' = some chunk'.server :=
            (Function.update_of_ne hg ..).symm.trans hcb
          have hidx' : dv.maps.chunkMapCbChunk g' = some chunk'.index :=
            (Function.update_of_ne hg ..).symm.trans hidx
          have hold := h.routing.routed _ _ (Maps.route_eq hcb' hidx')
          exact absurd rfl (hslot (.inl hold))
      · exact hmap (h.routing.routed _ _ (hroute hr heq).2)
    case alive =>
      intro g' server' hcb
      have hcb' : Function.update dv.maps.cbIndexMap g (some chunk.server) g' = some server' := hcb
      by_cases heq : g' = g
      · rw [heq, Function.update_self] at hcb'
        show (dv.maps.phase server').Reaches _ server' g'
        rw [← Option.some.inj hcb', hup]
        trivial
      · rw [Function.update_of_ne heq] at hcb'
        exact (h.routing.alive g' server' hcb').keep fun j hj => hmap hj
    case mapped =>
      intro g' server' hcb
      have hcb' : Function.update dv.maps.cbIndexMap g (some chunk.server) g' = some server' := hcb
      by_cases heq : g' = g
      · rw [heq, Function.update_self] at hcb'
        refine ⟨chunk.index, ?_⟩
        rw [← Option.some.inj hcb', heq]
        exact Function.update_self ..
      · rw [Function.update_of_ne heq] at hcb'
        obtain ⟨i, hi⟩ := h.routing.mapped g' server' hcb'
        exact ⟨i, hmap hi⟩
    case known =>
      intro chunk' hchunk
      refine CbState.known_update (by simp) fun hserver => h.routing.known chunk' ?_
      have hne : chunk' ≠ chunk := fun heq => hserver (congrArg Chunk.server heq)
      exact hchunk.imp_left fun hold => by rwa [← Function.update_of_ne hne (some g) dv.maps.chunkMap]
    case apart =>
      intro chunk' hchunk
      by_cases heq : chunk' = chunk
      · rw [heq]
        exact hidle
      · refine h.routing.apart chunk' ?_
        rwa [← Function.update_of_ne heq (some g) dv.maps.chunkMap]
    case bound =>
      intro chunk' hchunk
      by_cases heq : chunk' = chunk
      · rw [heq]
        exact hbound
      · refine h.routing.bound chunk' ?_
        rwa [← Function.update_of_ne heq (some g) dv.maps.chunkMap]
    case waited => exact h.routing.waited
  · constructor
    case busy => exact fun op hop r hr => (h.slots.busy op hop r hr).imp_left hmap
    case completing =>
      intro e he r hr hcur g' hg'
      have hne := hlanded he hcur
      refine h.slots.completing e he r hr ((hgen hne).symm.trans hcur) g' ?_
      exact hg'.imp_left fun hold => (Function.update_of_ne hne ..).symm.trans hold
    case gens =>
      intro e he
      refine Nat.le_trans (h.slots.gens e he) ?_
      by_cases heq : e.op.chunk = chunk
      · have hnew : (dv.map g chunk memory).gen chunk = dv.gen chunk + 1 := Function.update_self ..
        rw [heq, hnew]
        exact Nat.le_succ _
      · exact Nat.le_of_eq (hgen heq).symm
    case waited => exact h.slots.waited
    case dealt => exact h.slots.dealt
    case handling => exact h.slots.handling
  · constructor
    case remote =>
      intro p chunk' hr hset hp
      obtain ⟨hne, hold⟩ := hbit hset
      rw [hremote hne]
      exact h.copies.remote p chunk' (hroute hr hne).2 hold hp
    case accounted =>
      intro n r p chunk' hr hdata hp hg hset
      obtain ⟨hne, hold⟩ := hbit hset
      have hsame : (dv.map g chunk memory).bitmapG chunk' = dv.bitmapG chunk' := by
        unfold Device.bitmapG
        rw [hgen hne]
      rw [hsame]
      exact h.copies.accounted n r p chunk' hr hdata hp (hroute hg hne).2 hold
    case handed => exact h.copies.handed
    case landed =>
      intro e he r f hr hdata hcur
      have hne := hlanded he hcur
      rw [hremote hne]
      exact h.copies.landed e he r f hr hdata ((hgen hne).symm.trans hcur)
    case reading =>
      intro op hop hkind r hr
      rw [hremote (hbusy hop)]
      exact h.copies.reading op hop hkind r hr

/-! ## Evictions -/

theorem evict (h : DeviceInv all dv tr) (hg : dv.maps.chunkMap chunk = some g) :
    DeviceInv all { dv with maps := dv.maps.evict chunk g } tr := by
  have hnone : dv.maps.evicting chunk = none := h.routing.apart chunk (by simp [hg])
  have hmap : ∀ {chunk' g'}, dv.maps.chunkMap chunk' = some g' → g' ≠ g →
      (dv.maps.evict chunk g).chunkMap chunk' = some g' := by
    intro chunk' g' hg' hne
    have hchunk : chunk' ≠ chunk := by
      intro heq
      rw [heq, hg] at hg'
      exact hne (Option.some.inj hg').symm
    exact (Function.update_of_ne hchunk ..).trans hg'
  -- the remote chunk keeps its chunk of the device, in the eviction now
  have hslot : ∀ chunk' g', (dv.maps.evict chunk g).chunkMap chunk' = some g' ∨
      (dv.maps.evict chunk g).evicting chunk' = some g' ↔
      dv.maps.chunkMap chunk' = some g' ∨ dv.maps.evicting chunk' = some g' := by
    intro chunk' g'
    by_cases heq : chunk' = chunk
    · rw [heq, hg, hnone]
      simp [Maps.evict]
    · simp [Maps.evict, heq]
  have hroute : ∀ {g' chunk'}, (dv.maps.evict chunk g).route g' = some chunk' →
      g' ≠ g ∧ dv.maps.route g' = some chunk' := by
    intro g' chunk' hr
    obtain ⟨hcb, hidx⟩ := Maps.maps_of_route hr
    obtain ⟨hne, hcb⟩ := some_of_cleared hcb
    exact ⟨hne, Maps.route_eq hcb hidx⟩
  refine h.remap ?_ ?_ (fun _ _ hr => (hroute hr).2) fun _ _ hbit => hbit
  · constructor
    case routed => exact fun g' chunk' hr => hmap (h.routing.routed _ _ (hroute hr).2) (hroute hr).1
    case alive =>
      intro g' server' hcb
      obtain ⟨hne, hcb⟩ := some_of_cleared hcb
      exact (h.routing.alive g' server' hcb).keep fun j hj => hmap hj hne
    case mapped =>
      intro g' server' hcb
      obtain ⟨hne, hcb⟩ := some_of_cleared hcb
      obtain ⟨i, hi⟩ := h.routing.mapped g' server' hcb
      exact ⟨i, hmap hi hne⟩
    case known =>
      intro chunk' hchunk
      refine h.routing.known chunk' ?_
      by_cases heq : chunk' = chunk
      · simp [heq, hg]
      · simpa [Maps.evict, heq] using hchunk
    case apart =>
      intro chunk' hchunk
      obtain ⟨g', hg'⟩ := Option.ne_none_iff_exists'.mp hchunk
      obtain ⟨hne, hg'⟩ := some_of_cleared hg'
      refine (Function.update_of_ne hne ..).trans (h.routing.apart chunk' ?_)
      simp [hg']
    case bound =>
      intro chunk' hchunk
      obtain ⟨g', hg'⟩ := Option.ne_none_iff_exists'.mp hchunk
      refine h.routing.bound chunk' ?_
      simp [(some_of_cleared hg').2]
    case waited =>
      intro server' c hc
      have hc' : c ∈ Function.update dv.maps.waited chunk.server [] server' := hc
      by_cases heq : server' = chunk.server
      · rw [heq, Function.update_self] at hc'
        cases hc'
      · rw [Function.update_of_ne heq] at hc'
        exact h.routing.waited server' c hc'
  · constructor
    case busy => exact fun op hop r hr => (hslot _ _).mpr (h.slots.busy op hop r hr)
    case completing =>
      exact fun e he r hr hgen g' hg' => h.slots.completing e he r hr hgen g' ((hslot _ _).mp hg')
    case gens => exact h.slots.gens
    case waited =>
      intro op hop server' hc
      have hc' : op.ctx ∈ Function.update dv.maps.waited chunk.server [] server' := hc
      by_cases heq : server' = chunk.server
      · rw [heq, Function.update_self] at hc'
        cases hc'
      · rw [Function.update_of_ne heq] at hc'
        obtain ⟨r, -, hheld⟩ := h.flight.held op (Traffic.mem_ops_of_busy hop)
        have hserver := h.routing.waited server' op.ctx hc'
        have hne : op.chunk ≠ chunk := by
          intro hchunk
          rw [← hserver, hheld.server, hchunk] at heq
          exact heq rfl
        exact (Function.update_of_ne hne ..).trans (h.slots.waited op hop server' hc')
    case dealt => exact h.slots.dealt
    case handling => exact h.slots.handling

/-- A context that is waited for is not in flight on a remote chunk of the eviction. -/
theorem waitCtx (h : DeviceInv all dv tr) (c : CtxId) :
    DeviceInv all { dv with
      maps := dv.maps.waitCtx c (dv.io.contexts.ctx c).inFlight
        (dv.io.contexts.ctx c).chunkIndex } tr := by
  have hrouting := h.routing
  have hwaited : ∀ {server' c'}, c' ∈ (dv.maps.waitCtx c (dv.io.contexts.ctx c).inFlight
      (dv.io.contexts.ctx c).chunkIndex).waited server' →
      c' ∈ dv.maps.waited server' ∨ (server' = c.server ∧ c' = c ∧
        ((dv.io.contexts.ctx c).inFlight = .idle ∨ ∀ index,
          (dv.io.contexts.ctx c).chunkIndex = some index →
          dv.maps.chunkMap ⟨c.server, index⟩ ≠ none)) := by
    intro server' c' hc'
    unfold Maps.waitCtx at hc'
    by_cases heq : server' = c.server
    · subst heq
      simp only [Function.update_self] at hc'
      have hold : ∀ {P : Prop}, P → c' ∈ c :: dv.maps.waited c.server →
          c' ∈ dv.maps.waited c.server ∨ (c.server = c.server ∧ c' = c ∧ P) := fun hP hmem =>
        (List.mem_cons.mp hmem).symm.imp_right fun hself => ⟨rfl, hself, hP⟩
      split at hc'
      case h_1 hidle =>
        rw [if_neg Bool.false_ne_true] at hc'
        exact hold (.inl hidle) hc'
      case h_2 hnone _ =>
        rw [if_neg Bool.false_ne_true] at hc'
        refine hold (.inr ?_) hc'
        intro index hindex
        rw [hnone] at hindex
        cases hindex
      case h_3 index hindex _ =>
        split at hc'
        case isTrue => cases hc'
        case isFalse hmapped =>
          refine hold (.inr ?_) hc'
          intro index' hindex' hnone
          rw [hindex, Option.some.injEq] at hindex'
          exact hmapped (by simp [hindex', hnone])
    · simp only [Function.update_of_ne heq] at hc'
      exact .inl hc'
  refine h.remap ⟨hrouting.routed, ?_, hrouting.mapped, hrouting.known, hrouting.apart,
    hrouting.bound, ?_⟩ ?_ (fun _ _ hroute => hroute) fun _ _ hbit => hbit
  · exact fun g server hcb => (hrouting.alive g server hcb).keep fun _ hj => hj
  · intro server' c' hc'
    cases hwaited hc' with
    | inl hold => exact hrouting.waited server' c' hold
    | inr hnew => rw [hnew.2.1, hnew.1]
  · constructor
    case busy => exact h.slots.busy
    case completing => exact h.slots.completing
    case gens => exact h.slots.gens
    case waited =>
      intro op hop server' hc'
      cases hwaited hc' with
      | inl hold => exact h.slots.waited op hop server' hold
      | inr hnew =>
          obtain ⟨-, hctx, hpassed⟩ := hnew
          obtain ⟨r, -, hheld⟩ := h.flight.held op (Traffic.mem_ops_of_busy hop)
          obtain ⟨hflight, hindex⟩ := h.flight.busy op hop
          rw [← hctx] at hpassed
          have hmap := hpassed.resolve_left (by rw [hflight]; cases op.kind <;> simp [OpKind.inFlight])
          refine hrouting.apart op.chunk ?_
          have hchunk := hmap _ hindex
          rwa [hheld.server] at hchunk
    case dealt => exact h.slots.dealt
    case handling => exact h.slots.handling

theorem evicted (h : DeviceInv all dv tr) (hg : dv.maps.evicting chunk = some g)
    (hall : ∀ c ∈ all, c.server = chunk.server → c ∈ dv.maps.waited chunk.server) :
    DeviceInv all { dv.bitmapInit chunk with maps := dv.maps.evicted chunk g } tr := by
  have hrouting := h.routing
  refine h.remap ⟨hrouting.routed, ?_, hrouting.mapped, ?_, ?_, hrouting.bound, hrouting.waited⟩ ?_
    (fun _ _ hroute => hroute) fun _ _ hbit => Device.bitmapTest_of_init hbit
  · exact fun g server hcb => (hrouting.alive g server hcb).keep fun _ hj => hj
  · intro chunk' hchunk
    refine CbState.known_update (by simp) fun hserver => hrouting.known chunk' (hchunk.imp_right ?_)
    have hne : chunk' ≠ chunk := fun heq => hserver (congrArg Chunk.server heq)
    intro hev
    rwa [← Function.update_of_ne hne none dv.maps.evicting]
  · intro chunk' hchunk
    by_cases heq : chunk' = chunk
    · rw [heq]
      exact Function.update_self ..
    · exact (Function.update_of_ne heq ..).trans (hrouting.apart chunk' hchunk)
  · constructor
    case busy =>
      intro op hop r hr
      refine (h.slots.busy op hop r hr).imp_right ?_
      intro hev
      have hne : op.chunk ≠ chunk := by
        intro heq
        -- its context has been waited for
        obtain ⟨r', -, hheld⟩ := h.flight.held op (Traffic.mem_ops_of_busy hop)
        have hserver : op.ctx.server = chunk.server := by rw [hheld.server, heq]
        have hnone := h.slots.waited op hop _ (hall op.ctx hheld.known hserver)
        rw [heq, hg] at hnone
        cases hnone
      exact (Function.update_of_ne hne ..).trans hev
    case completing =>
      intro e he r hr hgen g' hg'
      exact h.slots.completing e he r hr hgen g' (hg'.imp_right fun hev => (some_of_cleared hev).2)
    case gens => exact h.slots.gens
    case waited =>
      intro op hop server' hc
      have hold := h.slots.waited op hop server' hc
      show Function.update dv.maps.evicting chunk none op.chunk = none
      by_cases heq : op.chunk = chunk
      · rw [heq]
        exact Function.update_self ..
      · exact (Function.update_of_ne heq ..).trans hold
    case dealt => exact h.slots.dealt
    case handling => exact h.slots.handling

theorem evictedAll (h : DeviceInv all dv tr) :
    DeviceInv all { dv with maps := dv.maps.evictedAll server g } tr := by
  have hrouting := h.routing
  have hslots := h.slots
  have hroute : ∀ g' chunk', (dv.maps.evictedAll server g).route g' = some chunk' →
      dv.maps.route g' = some chunk' := by
    intro g' chunk' hr
    obtain ⟨hcb, hidx⟩ := Maps.maps_of_route hr
    exact Maps.route_eq hcb (some_of_cleared hidx).2
  refine h.remap ⟨?_, ?_, hrouting.mapped, ?_, hrouting.apart, hrouting.bound, hrouting.waited⟩
    ⟨hslots.busy, hslots.completing, hslots.gens, hslots.waited, hslots.dealt, hslots.handling⟩
    hroute fun _ _ hbit => hbit
  · exact fun g' chunk' hr => hrouting.routed g' chunk' (hroute g' chunk' hr)
  · exact fun g server hcb => (hrouting.alive g server hcb).keep fun _ hj => hj
  · intro chunk' hchunk
    exact CbState.known_update (by simp) fun _ => hrouting.known chunk' hchunk

end DeviceInv

end Memtrade.Infiniswap
