import Memtrade.Infiniswap.DeviceMappings

/-!
# Disconnections of the block device

`IS_disconnect_handler` unmaps the chunks of a server, deals with its contexts, forgets its
chunks and releases the contexts, while requests go on.
-/

namespace Memtrade.Infiniswap

variable {D : Type} {all : List CtxId} {dv dv' : Device D} {tr : List (IoEvent D)} {io : Traffic D}
  {m : Maps} {op : RdmaOp CtxId} {server : Nat} {c : CtxId} {phase : Phase}

/-! ## Phases -/

theorem Maps.setPhase_setPhase (m : Maps) (server : Nat) (phase phase' : Phase) :
    (m.setPhase server phase).setPhase server phase' = m.setPhase server phase' := by
  unfold setPhase
  rw [Function.update_idem]

theorem Routing.setPhase (h : Routing m)
    (hreach : ∀ g, m.cbIndexMap g = some server → (m.phase server).Reaches m server g →
      phase.Reaches m server g) : Routing (m.setPhase server phase) where
  routed := h.routed
  alive := by
    intro g server' hcb
    have hold := h.alive g server' hcb
    show (Function.update m.phase server phase server').Reaches (m.setPhase server phase) server' g
    by_cases heq : server' = server
    · subst heq
      rw [Function.update_self]
      exact (hreach g hcb hold).keep fun _ hj => hj
    · rw [Function.update_of_ne heq]
      exact hold.keep fun _ hj => hj
  mapped := h.mapped
  known := h.known
  apart := h.apart
  bound := h.bound
  waited := h.waited

theorem Slots.setPhase {gen : Chunk → Nat} (h : Slots m gen io)
    (hdealt : ∀ op ∈ io.busy, op.ctx.server = server → phase.Dealt op.ctx →
      (m.phase server).Dealt op.ctx)
    (hhandling : ∀ done c inFlight req, phase = .handling done c inFlight req → c.server = server ∧
      (inFlight ≠ .idle → ∃ op ∈ io.contexts.rdmaOps,
        op.ctx = c ∧ inFlight = op.kind.inFlight ∧ req = some op.serial)) :
    Slots (m.setPhase server phase) gen io where
  busy := h.busy
  completing := h.completing
  gens := h.gens
  waited := h.waited
  dealt := by
    intro op hop
    have hold := h.dealt op hop
    show ¬ (Function.update m.phase server phase op.ctx.server).Dealt op.ctx
    by_cases heq : op.ctx.server = server
    · rw [heq, Function.update_self]
      rw [heq] at hold
      exact fun hnew => hold (hdealt op hop heq hnew)
    · rw [Function.update_of_ne heq]
      exact hold
  handling := by
    intro server' done c inFlight req hphase
    have hphase' : Function.update m.phase server phase server' = .handling done c inFlight req :=
      hphase
    by_cases heq : server' = server
    · rw [heq, Function.update_self] at hphase'
      rw [heq]
      exact hhandling done c inFlight req hphase'
    · rw [Function.update_of_ne heq] at hphase'
      exact h.handling server' done c inFlight req hphase'

theorem OpKind.eq_of_inFlight {k k' : OpKind} (h : k.inFlight = k'.inFlight) : k' = k := by
  cases k <;> cases k' <;> first | rfl | cases h

namespace DeviceInv

/-! ## Steps of the handler -/

theorem setPhase (h : DeviceInv all dv tr) (phase : Phase)
    (hreach : ∀ g, dv.maps.cbIndexMap g = some server →
      (dv.maps.phase server).Reaches dv.maps server g → phase.Reaches dv.maps server g)
    (hdealt : ∀ op ∈ dv.io.busy, op.ctx.server = server → phase.Dealt op.ctx →
      (dv.maps.phase server).Dealt op.ctx)
    (hhandling : ∀ done c inFlight req, phase = .handling done c inFlight req → c.server = server ∧
      (inFlight ≠ .idle → ∃ op ∈ dv.io.contexts.rdmaOps,
        op.ctx = c ∧ inFlight = op.kind.inFlight ∧ req = some op.serial)) :
    DeviceInv all { dv with maps := dv.maps.setPhase server phase } tr :=
  h.remap (h.routing.setPhase hreach) (h.slots.setPhase hdealt hhandling) (fun _ _ hr => hr)
    fun _ _ hbit => hbit

theorem setFail (h : DeviceInv all dv tr) (server : Nat) :
    DeviceInv all { dv with
      maps := { dv.maps with cbState := Function.update dv.maps.cbState server .fail } } tr := by
  have hrouting := h.routing
  have hslots := h.slots
  refine h.remap ⟨hrouting.routed, ?_, hrouting.mapped, ?_, hrouting.apart, hrouting.bound,
    hrouting.waited⟩ ⟨hslots.busy, hslots.completing, hslots.gens, hslots.waited, hslots.dealt,
    hslots.handling⟩ (fun _ _ hroute => hroute) fun _ _ hbit => hbit
  · exact fun g server hcb => (hrouting.alive g server hcb).keep fun _ hj => hj
  · exact fun chunk hchunk => CbState.known_update (by simp) fun _ => hrouting.known chunk hchunk

theorem disconnect (h : DeviceInv all dv tr) :
    DeviceInv all { dv with maps := dv.maps.disconnect server } tr := by
  unfold Maps.disconnect
  split
  case isTrue hconnected =>
    -- nothing has been mapped there
    have hnone : ∀ {i g}, dv.maps.chunkMap ⟨server, i⟩ = some g ∨
        dv.maps.evicting ⟨server, i⟩ = some g → False := by
      intro i g hg
      have hknown : dv.maps.chunkMap ⟨server, i⟩ ≠ none ∨ dv.maps.evicting ⟨server, i⟩ ≠ none :=
        hg.imp (fun hmap => by simp [hmap]) fun hev => by simp [hev]
      exact (h.routing.known _ hknown).2 hconnected
    refine (h.setPhase .down ?_ ?_ ?_).setFail server
    · intro g hcb _
      obtain ⟨i, hi⟩ := h.routing.mapped g server hcb
      exact hnone (.inl hi)
    · intro op hop hserver _
      obtain ⟨r, hr, hheld⟩ := h.flight.held op (Traffic.mem_ops_of_busy hop)
      have hslot := h.slots.busy op hop r hr
      have hchunk : op.chunk = ⟨server, op.chunk.index⟩ := by rw [← hserver, hheld.server]
      rw [hchunk] at hslot
      exact absurd hslot hnone
    · intro _ _ _ _ hphase
      cases hphase
  case isFalse =>
    refine ((h.setPhase (.wiping 0) ?_ ?_ ?_).setFail server).setFlags false _
    · intro g hcb _
      obtain ⟨i, hi⟩ := h.routing.mapped g server hcb
      exact ⟨i, Nat.zero_le i, hi⟩
    · exact fun _ _ _ hdealt => hdealt.elim
    · intro _ _ _ _ hphase
      cases hphase

theorem bitmapInit (h : DeviceInv all dv tr) (chunk : Chunk) :
    DeviceInv all (dv.bitmapInit chunk) tr :=
  h.remap h.routing h.slots (fun _ _ hr => hr) fun _ _ hbit => Device.bitmapTest_of_init hbit

/-- Requests do not go to a chunk of the device any more. -/
theorem unroute (h : DeviceInv all dv tr) (g : Nat) :
    DeviceInv all { dv with
      maps := { dv.maps with cbIndexMap := Function.update dv.maps.cbIndexMap g none } } tr := by
  have hrouting := h.routing
  have hslots := h.slots
  have hroute : ∀ g' chunk', Maps.route { dv.maps with
      cbIndexMap := Function.update dv.maps.cbIndexMap g none } g' = some chunk' →
      dv.maps.route g' = some chunk' := by
    intro g' chunk' hr
    obtain ⟨hcb, hidx⟩ := Maps.maps_of_route hr
    exact Maps.route_eq (some_of_cleared hcb).2 hidx
  refine h.remap ⟨?_, ?_, ?_, hrouting.known, hrouting.apart, hrouting.bound, hrouting.waited⟩
    ⟨hslots.busy, hslots.completing, hslots.gens, hslots.waited, hslots.dealt, hslots.handling⟩
    hroute fun _ _ hbit => hbit
  · exact fun g' chunk' hr => hrouting.routed g' chunk' (hroute g' chunk' hr)
  · exact fun g' server' hcb =>
      (hrouting.alive g' server' (some_of_cleared hcb).2).keep fun _ hj => hj
  · exact fun g' server' hcb => hrouting.mapped g' server' (some_of_cleared hcb).2

/-- A chunk of a server with no contexts in flight is forgotten. -/
theorem forget (h : DeviceInv all dv tr) {i : Nat} (hphase : dv.maps.phase server = .closing i)
    (g : Nat) : DeviceInv all { dv with
      maps := { dv.maps with
        chunkMapCbChunk := Function.update dv.maps.chunkMapCbChunk g none
        chunkMap := Function.update dv.maps.chunkMap ⟨server, i⟩ none } } tr := by
  have hrouting := h.routing
  have hroute : ∀ {g' chunk'}, Maps.route { dv.maps with
      chunkMapCbChunk := Function.update dv.maps.chunkMapCbChunk g none
      chunkMap := Function.update dv.maps.chunkMap ⟨server, i⟩ none } g' = some chunk' →
      g' ≠ g ∧ dv.maps.route g' = some chunk' := by
    intro g' chunk' hr
    obtain ⟨hcb, hidx⟩ := Maps.maps_of_route hr
    obtain ⟨hne, hidx⟩ := some_of_cleared hidx
    exact ⟨hne, Maps.route_eq hcb hidx⟩
  have hdead : ∀ {g'}, dv.maps.cbIndexMap g' = some server → False := by
    intro g' hcb
    have halive := hrouting.alive g' server hcb
    rw [hphase] at halive
    exact halive
  have hmap : ∀ {chunk' g'}, dv.maps.chunkMap chunk' = some g' → chunk'.server ≠ server →
      Function.update dv.maps.chunkMap ⟨server, i⟩ none chunk' = some g' := by
    intro chunk' g' hg' hne
    have hchunk : chunk' ≠ ⟨server, i⟩ := fun heq => hne (congrArg Chunk.server heq)
    rw [Function.update_of_ne hchunk, hg']
  have hback : ∀ {chunk'}, Function.update dv.maps.chunkMap ⟨server, i⟩ none chunk' ≠ none →
      dv.maps.chunkMap chunk' ≠ none := by
    intro chunk' hchunk
    obtain ⟨g', hg'⟩ := Option.ne_none_iff_exists'.mp hchunk
    simp [(some_of_cleared hg').2]
  refine h.remap ⟨?_, ?_, ?_, ?_, ?_, ?_, hrouting.waited⟩ ?_ (fun _ _ hr => (hroute hr).2)
    fun _ _ hbit => hbit
  · intro g' chunk' hr
    refine hmap (hrouting.routed _ _ (hroute hr).2) ?_
    intro heq
    exact hdead (heq ▸ (Maps.maps_of_route (hroute hr).2).1)
  · intro g' server' hcb
    have hne : server' ≠ server := fun heq => hdead (heq ▸ hcb)
    exact (hrouting.alive g' server' hcb).keep fun j hj => hmap hj hne
  · intro g' server' hcb
    have hne : server' ≠ server := fun heq => hdead (heq ▸ hcb)
    obtain ⟨j, hj⟩ := hrouting.mapped g' server' hcb
    exact ⟨j, hmap hj hne⟩
  · exact fun chunk' hchunk => hrouting.known chunk' (hchunk.imp_left hback)
  · exact fun chunk' hchunk => hrouting.apart chunk' (hback hchunk)
  · exact fun chunk' hchunk => hrouting.bound chunk' (hback hchunk)
  · constructor
    case busy =>
      intro op hop r hr
      refine (h.slots.busy op hop r hr).imp_left fun hold => hmap hold ?_
      intro heq
      -- the handler has dealt with all contexts of the server
      obtain ⟨r', -, hheld⟩ := h.flight.held op (Traffic.mem_ops_of_busy hop)
      refine h.slots.dealt op hop ?_
      rw [hheld.server, heq, hphase]
      trivial
    case completing =>
      intro e he r hr hgen g' hg'
      refine h.slots.completing e he r hr hgen g' (hg'.imp_left ?_)
      exact fun hnew => (some_of_cleared hnew).2
    case gens => exact h.slots.gens
    case waited => exact h.slots.waited
    case dealt => exact h.slots.dealt
    case handling => exact h.slots.handling

/-- The free contexts of a server are released. -/
theorem release (h : DeviceInv all dv tr) {free : List CtxId}
    (hfree : free.Sublist dv.io.contexts.free) :
    DeviceInv all { dv with io.contexts := { dv.io.contexts with free := free } } tr := by
  have hflight := h.flight
  refine h.diskDone ⟨hflight.held, hflight.busy, hflight.buffer, hflight.completing, hflight.ctxs,
    hflight.owners, hflight.submitting, hflight.sizes, hflight.marked, ?_, hflight.backups,
    hflight.pages, hflight.order, ?_, hflight.disk⟩ rfl
  · refine hflight.returned.sublist (List.Sublist.append_left ?_ _)
    exact (hfree.append_right _).append_right _
  · exact fun c hc => hflight.free c (hfree.subset hc)

theorem disconnecting (h : DeviceInv all dv tr) (hs : dv.disconnecting all server = some dv') :
    DeviceInv all dv' tr := by
  unfold Device.disconnecting at hs
  have hmove : ∀ {dv₁ : Device D} (φ φ' : Phase), DeviceInv all dv₁ tr → dv₁.maps.phase server = φ →
      (∀ g, dv₁.maps.cbIndexMap g = some server → φ.Reaches dv₁.maps server g →
        φ'.Reaches dv₁.maps server g) →
      (∀ op ∈ dv₁.io.busy, op.ctx.server = server → φ'.Dealt op.ctx → φ.Dealt op.ctx) →
      (∀ done c inFlight req, φ' ≠ .handling done c inFlight req) →
      DeviceInv all { dv₁ with maps := dv₁.maps.setPhase server φ' } tr := by
    intro dv₁ φ φ' h₁ hφ hreach hdealt hne
    subst hφ
    exact h₁.setPhase φ' hreach hdealt fun done c inFlight req heq =>
      absurd heq (hne done c inFlight req)
  cases hphase : dv.maps.phase server with
  | up | handling done c inFlight req | down =>
      rw [hphase] at hs
      cases hs
  | wiping i =>
      simp only [hphase] at hs
      split at hs
      case isTrue hlt =>
        split at hs
        case h_1 hnone =>
          simp only [Option.some.injEq] at hs
          rw [← hs]
          refine hmove _ _ h hphase ?_ (fun _ _ _ hdealt => hdealt.elim) (by simp)
          intro g _ hreach
          obtain ⟨j, hj, hg⟩ := hreach
          refine ⟨j, Nat.lt_of_le_of_ne hj ?_, hg⟩
          intro heq
          rw [← heq, hnone] at hg
          cases hg
        case h_2 g hg =>
          simp only [Option.some.injEq] at hs
          rw [← hs]
          refine hmove _ _ (h.bitmapInit ⟨server, i⟩) hphase ?_ (fun _ _ _ hdealt => hdealt.elim)
            (by simp)
          intro g' _ hreach
          obtain ⟨j, hj, hg'⟩ := hreach
          by_cases heq : j = i
          · have hg' : dv.maps.chunkMap ⟨server, j⟩ = some g' := hg'
            rw [heq, hg] at hg'
            exact .inl (Option.some.inj hg').symm
          · exact .inr ⟨j, by omega, hg'⟩
      case isFalse hge =>
        simp only [Option.some.injEq] at hs
        rw [← hs]
        refine hmove _ _ h hphase ?_ (fun _ _ _ hdealt => ?_) (by simp)
        · intro g _ hreach
          obtain ⟨j, hj, hg⟩ := hreach
          have hbound := h.routing.bound ⟨server, j⟩ (by simp [hg])
          exact absurd (Nat.lt_of_le_of_lt hj hbound) hge
        · exact absurd hdealt List.not_mem_nil
  | unmapping i g =>
      simp only [hphase, Option.some.injEq] at hs
      rw [← hs]
      refine hmove _ _ (h.unroute g) hphase ?_ (fun _ _ _ hdealt => hdealt.elim) (by simp)
      intro g' hcb hreach
      have hne := (some_of_cleared hcb).1
      exact hreach.resolve_left hne
  | flushing done =>
      simp only [hphase] at hs
      split at hs
      case isFalse => cases hs
      case isTrue hall =>
        simp only [Option.some.injEq] at hs
        rw [← hs]
        refine hmove _ _ h hphase (fun _ _ hreach => hreach) ?_ (by simp)
        intro op hop hserver _
        obtain ⟨r, -, hheld⟩ := h.flight.held op (Traffic.mem_ops_of_busy hop)
        have hdone := List.all_eq_true.mp hall op.ctx hheld.known
        simp only [hserver, ne_eq, not_true_eq_false, decide_false, Bool.false_or,
          decide_eq_true_eq] at hdone
        exact hdone
  | closing i =>
      simp only [hphase] at hs
      split at hs
      case isTrue hlt =>
        split at hs
        case h_1 hnone =>
          simp only [Option.some.injEq] at hs
          rw [← hs]
          exact hmove _ _ h hphase (fun _ _ hreach => hreach) (fun _ _ _ _ => trivial) (by simp)
        case h_2 g _ =>
          simp only [Option.some.injEq] at hs
          rw [← hs]
          exact hmove _ _ (h.forget hphase g) hphase (fun _ _ hreach => hreach)
            (fun _ _ _ _ => trivial) (by simp)
      case isFalse =>
        simp only [Option.some.injEq] at hs
        rw [← hs]
        exact hmove _ _ (h.release List.filter_sublist) hphase (fun _ _ hreach => hreach)
          (fun _ _ _ _ => trivial) (by simp)
  | closed =>
      simp only [hphase, Option.some.injEq] at hs
      rw [← hs]
      have hdown := hmove .closed .down h hphase (fun _ _ hreach => hreach) (fun _ _ _ _ => trivial)
        (by simp)
      exact hdown.setFlags true _

/-! ## Contexts of the server -/

theorem flush (h : DeviceInv all dv tr) (hok : dv.careful (.flush c))
    (hs : dv.flush all c = some dv') : DeviceInv all dv' tr := by
  unfold Device.flush at hs
  split at hs
  case h_2 => cases hs
  case h_1 done hphase =>
    split at hs
    case isFalse => cases hs
    case isTrue =>
      simp only [Option.some.injEq] at hs
      rw [← hs]
      refine h.setPhase _ ?_ ?_ ?_
      · intro g _ hreach
        rw [hphase] at hreach
        exact hreach
      · intro op hop _ hdealt
        rw [hphase]
        refine hdealt.resolve_right ?_
        intro hidle
        -- a context with an operation is marked
        have hmarked := (h.flight.busy op hop).1
        rw [hidle.1, hidle.2] at hmarked
        cases hkind : op.kind with
        | read =>
            rw [hkind] at hmarked
            cases hmarked
        | write =>
            rw [hkind] at hmarked
            cases hmarked
      · intro done' c' inFlight req heq
        simp only [Phase.handling.injEq] at heq
        obtain ⟨rfl, rfl, rfl, rfl⟩ := heq
        refine ⟨rfl, ?_⟩
        intro hne
        obtain ⟨op, hop, hctx⟩ := h.flight.marked c hne
        have hposted : op ∈ dv.io.contexts.rdmaOps :=
          (Traffic.mem_busy.mp hop).resolve_left fun hm => hok op hm hctx
        obtain ⟨r, -, hheld⟩ := h.flight.held op (Traffic.mem_ops_of_busy hop)
        refine ⟨op, hposted, hctx, ?_, ?_⟩
        · rw [← hctx]
          exact (h.flight.busy op hop).1
        · rw [← hctx, hheld.req]

/-- The operation of the context that the handler deals with leaves. -/
theorem left_flush (h : Flight all io) (hop : op ∈ io.contexts.rdmaOps) {free : List CtxId}
    (flushed : List (RdmaOp CtxId))
    (hreturned : (free ++ io.contexts.diskOps ++
      (io.contexts.rdmaOps.erase op).filterMap Contexts.readCtx).Subperm io.contexts.returned)
    (hfree : ∀ c ∈ free, c = op.ctx ∨ c ∈ io.contexts.free) :
    Left all io op { io with
      contexts := { io.contexts.modify op.ctx fun x => { x with inFlight := .idle } with
        free := free
        rdmaOps := io.contexts.rdmaOps.filter fun o => o.ctx ≠ op.ctx }
      flushed := flushed } := by
  have hbusy : ∀ {o}, o ∈ io.contexts.rdmaOps → o ∈ io.ops := fun ho =>
    Traffic.mem_ops.mpr (.inr (.inl ho))
  -- no other operation is in flight with the context
  have hne : ∀ {o}, o ∈ io.contexts.rdmaOps → (o.ctx ≠ op.ctx ↔ o ≠ op) := fun ho =>
    not_congr ⟨fun heq => h.eq_of_ctx (hbusy ho) (hbusy hop) heq, fun heq => by rw [heq]⟩
  have hfilter : (io.contexts.rdmaOps.filter fun o => o.ctx ≠ op.ctx) = io.contexts.rdmaOps.erase op := by
    rw [h.rdmaOps_nodup.erase_eq_filter]
    refine List.filter_congr ?_
    intro o ho
    rw [Bool.eq_iff_iff, decide_eq_true_eq, bne_iff_ne]
    exact hne ho
  refine h.left_posted hop _ flushed List.filter_sublist ?_ rfl ?_ ?_ ?_ ?_ hfree
  · intro o
    show o ∈ io.contexts.rdmaOps.filter (fun o => o.ctx ≠ op.ctx) ↔ _
    rw [List.mem_filter, decide_eq_true_eq]
    exact and_congr_right hne
  · exact fun c hc => Function.update_of_ne hc ..
  · simp
  · intro c _
    by_cases hc : c = op.ctx
    · simp [hc]
    · simp [hc]
  · unfold Contexts.returned
    simp only [hfilter]
    exact hreturned

/-- The handler is done with a context that has no operation any more. -/
theorem dealtWith (h : DeviceInv all dv tr) {done : List CtxId}
    (hphase : dv.maps.phase server = .flushing done) (hc : ∀ op ∈ dv.io.busy, op.ctx ≠ c) :
    DeviceInv all { dv with maps := dv.maps.setPhase server (.flushing (c :: done)) } tr := by
  refine h.setPhase _ ?_ ?_ ?_
  · intro g _ hreach
    rw [hphase] at hreach
    exact hreach
  · intro op hop _ hdealt
    rw [hphase]
    exact (List.mem_cons.mp hdealt).resolve_left (hc op hop)
  · intro _ _ _ _ heq
    cases heq

theorem flushCtx (h : DeviceInv all dv tr) {left : D} {evs : List (IoEvent D)}
    (hs : dv.flushCtx server left = some (dv', evs)) : DeviceInv all dv' (tr ++ evs) := by
  unfold Device.flushCtx at hs
  split at hs
  case h_2 => cases hs
  case h_1 done c inFlight req hphase =>
    obtain ⟨hserver, hposted⟩ := h.slots.handling server done c inFlight req hphase
    have hup : ∀ {φ : Phase}, (∀ c', φ.Dealt c' → (dv.maps.phase server).Dealt c') →
        (∀ done c inFlight req, φ ≠ .handling done c inFlight req) →
        DeviceInv all { dv with maps := dv.maps.setPhase server φ } tr := by
      intro φ hdealt hne
      refine h.setPhase φ ?_ (fun op _ _ => hdealt op.ctx) fun done c inFlight req heq =>
        absurd heq (hne done c inFlight req)
      intro g _ hreach
      rw [hphase] at hreach
      exact hreach.elim
    -- the handler lets the operation go, and is done with its context after that
    have hlet : DeviceInv all { dv with maps := dv.maps.setPhase server (.flushing done) } tr := by
      refine hup ?_ (by simp)
      intro c' hdealt
      rw [hphase]
      exact .inl hdealt
    have hphase' : (dv.maps.setPhase server (.flushing done)).phase server = .flushing done :=
      Function.update_self ..
    have hhandled : Device.handled { dv with maps := dv.maps.setPhase server (.flushing done) }
        server = none := by
      unfold Device.handled
      simp only [hphase']
    have hrest : ∀ {dv₂ : Device D} {op : RdmaOp CtxId} {io' : Traffic D} {tr' : List (IoEvent D)},
        op ∈ dv.io.ops → op.ctx = c → Left all dv.io op io' →
        dv₂.maps = dv.maps.setPhase server (.flushing done) → dv₂.io.busy = io'.busy →
        DeviceInv all dv₂ tr' →
        DeviceInv all { dv₂ with maps := dv.maps.setPhase server (.flushing (c :: done)) } tr' := by
      intro dv₂ op io' tr' hop hctx hleft hmaps hbusy hinv
      have hgone : ∀ o ∈ dv₂.io.busy, o.ctx ≠ c := by
        intro o ho hsame
        rw [hbusy] at ho
        have hold := (hleft.mem_busy o).mp ho
        exact hold.2 (h.flight.eq_of_ctx (Traffic.mem_ops_of_busy hold.1) hop (hsame.trans hctx.symm))
      have hdone := hinv.dealtWith (by rw [hmaps]; exact hphase') hgone
      rw [hmaps, Maps.setPhase_setPhase] at hdone
      exact hdone
    cases inFlight with
    | idle =>
        simp only [Option.some.injEq, Prod.mk.injEq] at hs
        obtain ⟨rfl, rfl⟩ := hs
        rw [List.append_nil]
        refine hup ?_ (by simp)
        intro c' hdealt
        rw [hphase]
        exact (List.mem_cons.mp hdealt).symm.imp_right fun heq => ⟨heq, rfl⟩
    | read =>
        obtain ⟨op, hop, rfl, hkind, rfl⟩ := hposted (by simp)
        have hread := OpKind.eq_of_inFlight (k := .read) hkind
        have hmem := Traffic.mem_ops.mpr (.inr (.inl hop))
        obtain ⟨r, hr, hheld⟩ := h.flight.held op hmem
        have hleft := left_flush h.flight hop
          (dv.io.contexts.rdmaOps.filter (fun o => o.ctx = op.ctx) ++ dv.io.flushed)
          (Contexts.returned_clientReadDone hop hread).subperm fun c hc => List.mem_cons.mp hc
        have hgive := hlet.giveUp hmem hleft (fun _ => by rw [hserver, hhandled]; simp) hr
          fun hdata => by simp [hheld.read hread] at hdata
        simp only [Option.some.injEq, Prod.mk.injEq] at hs
        obtain ⟨rfl, rfl⟩ := hs
        rw [List.append_nil, Traffic.stackbd, hr]
        exact hrest hmem rfl hleft rfl rfl hgive
    | write =>
        obtain ⟨op, hop, rfl, hkind, rfl⟩ := hposted (by simp)
        have hwrite := OpKind.eq_of_inFlight (k := .write) hkind
        have hmem := Traffic.mem_ops.mpr (.inr (.inl hop))
        obtain ⟨r, hr, hheld⟩ := h.flight.held op hmem
        obtain ⟨hdata, -⟩ := hheld.write hwrite
        have hleft := left_flush h.flight hop
          (dv.io.contexts.rdmaOps.filter (fun o => o.ctx = op.ctx) ++ dv.io.flushed)
          ((List.erase_sublist.filterMap Contexts.readCtx).append_left _).subperm fun c hc => .inr hc
        have hdone := hlet.complete hmem (h.flight.not_marking_of_posted hop) hleft
          (fun _ => by rw [hserver, hhandled]; simp) left ?_ ?_
        · simp only [hheld.req, Device.finishHeld, Device.finish, Option.some.injEq,
            Prod.mk.injEq] at hs
          obtain ⟨rfl, rfl⟩ := hs
          exact hrest hmem rfl hleft rfl rfl hdone
        · intro r' hr' hread
          rw [request_unique hr hr'] at hread
          exact absurd hread hdata
        · intro r' p chunk hr' hdata' hp hroute hbit
          exfalso
          -- requests do not go to the server any more
          have hchunk : op.chunk = chunk := (h.flight.accounting hmem
            (h.copies.accounted op.serial r' p chunk hr' hdata' hp hroute hbit)).1
          have halive := h.routing.alive _ _ (Maps.maps_of_route hroute).1
          rw [← hchunk, ← hheld.server, hserver, hphase] at halive
          exact halive

end DeviceInv

end Memtrade.Infiniswap
