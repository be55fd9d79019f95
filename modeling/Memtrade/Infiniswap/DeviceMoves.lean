import Memtrade.Infiniswap.DeviceTraffic

/-!
# Moves of the block device

The moves with their effect on the copies: `IS_request` goes on, a request goes to the disk,
an operation gives its request up to the disk or ends it, and the maps change without a new
way to a remote chunk.
-/

namespace Memtrade.Infiniswap

variable {D : Type} {all : List CtxId} {dv : Device D} {tr : List (IoEvent D)} {io' : Traffic D}
  {op : RdmaOp CtxId} {r : IoRequest D} {n : Nat}

theorem Device.trusted_of_route {p : Nat} {chunk : Chunk}
    (hroute : dv.maps.route (p / pagesPerChunk) = some chunk) :
    dv.trusted p = dv.bitmapTest chunk (p % pagesPerChunk) := by
  rw [trusted, hroute]

theorem Device.bitsClear_page (h : dv.bitsClear r) {p : Nat} (hp : r.Covers p) :
    dv.trusted p = false := by
  have hpage := h (p - r.start) (by unfold PageRange.Covers at hp; omega)
  rwa [Nat.add_sub_cancel' hp.1] at hpage

/-- What accounts for a request goes on to do so while it stays. -/
theorem Traffic.Accounts.stays {io : Traffic D} {p : Nat} {array : BitmapG}
    (h : io.Accounts n r p array) (hprogress : io'.progress n = io.progress n)
    (hbusy : ∀ op ∈ io.busy, op.serial = n → op ∈ io'.busy)
    (hcompleting : ∀ e ∈ io.completing, e.op.serial = n →
      ∃ e' ∈ io'.completing, e'.op = e.op ∧ e'.gen = e.gen) :
    io'.Accounts n r p array := by
  cases h with
  | inl hφ =>
      refine .inl ?_
      rw [hprogress]
      exact hφ
  | inr h =>
      cases h with
      | inl hop =>
          obtain ⟨op, hop, hserial, hchunk⟩ := hop
          exact .inr (.inl ⟨op, hbusy op hop hserial, hserial, hchunk⟩)
      | inr he =>
          obtain ⟨e, he, hserial, hchunk, hgen⟩ := he
          obtain ⟨e', he', hop, hgen'⟩ := hcompleting e he hserial
          refine .inr (.inr ⟨e', he', ?_, ?_, ?_⟩)
          · rw [hop, hserial]
          · rw [hop, hchunk]
          · rw [hgen', hgen]

/-- Only its submission can account for a request with nothing on its way. -/
theorem Traffic.Accounts.submitting {io : Traffic D} {p : Nat} {array : BitmapG}
    (h : io.Accounts n r p array) (hn : n ∉ io.owned) :
    ∃ φ, io.progress n = some φ ∧ φ.Accounts r p array := by
  cases h with
  | inl hφ => exact hφ
  | inr h =>
      exfalso
      cases h with
      | inl hop =>
          obtain ⟨op, hop, hserial, -⟩ := hop
          exact hn (hserial ▸ Traffic.serial_mem_owned (Traffic.mem_ops_of_busy hop))
      | inr he =>
          obtain ⟨e, he, hserial, -⟩ := he
          exact hn (hserial ▸ Traffic.serial_mem_owned (Traffic.mem_ops_of_completing he))

/-- Only its operation can account for a request that has one. -/
theorem Flight.accounting {io : Traffic D} (h : Flight all io) (hop : op ∈ io.ops) {p : Nat}
    {array : BitmapG} (hacc : io.Accounts op.serial r p array) :
    op.chunk = array.chunk ∧
      (op ∈ io.busy ∨ ∃ e ∈ io.completing, e.op = op ∧ e.gen = array.gen) := by
  cases hacc with
  | inl hφ =>
      obtain ⟨φ, hφ, -⟩ := hφ
      rw [h.progress_of_op hop] at hφ
      cases hφ
  | inr hacc =>
      cases hacc with
      | inl ho =>
          obtain ⟨o, ho, hserial, hchunk⟩ := ho
          have hsame := h.eq_of_serial (Traffic.mem_ops_of_busy ho) hop hserial
          subst hsame
          exact ⟨hchunk, .inl ho⟩
      | inr he =>
          obtain ⟨e, he, hserial, hchunk, hgen⟩ := he
          have hsame := h.eq_of_serial (Traffic.mem_ops_of_completing he) hop hserial
          subst hsame
          exact ⟨hchunk, .inr ⟨e, he, rfl, hgen⟩⟩

namespace Slots

variable {m : Maps} {gen : Chunk → Nat} {io : Traffic D}

/-- Operations leave, and requests end. -/
theorem sub (h : Slots m gen io) (hbusy : ∀ op ∈ io'.busy, op ∈ io.busy)
    (hcompleting : ∀ e ∈ io'.completing, ∃ e' ∈ io.completing, e'.op = e.op ∧ e'.gen = e.gen)
    (hpending : ∀ op ∈ io.ops, ∀ r, io'.store.pending op.serial = some r →
      io.store.pending op.serial = some r)
    (hhandling : ∀ server done c inFlight req, m.phase server = .handling done c inFlight req →
      inFlight ≠ .idle → ∀ op ∈ io.contexts.rdmaOps, op.ctx = c → op ∈ io'.contexts.rdmaOps) :
    Slots m gen io' where
  busy := by
    intro op hop r hr
    exact h.busy op (hbusy op hop) r (hpending op (Traffic.mem_ops_of_busy (hbusy op hop)) r hr)
  completing := by
    intro e he r hr
    obtain ⟨e', he', hop, hgen⟩ := hcompleting e he
    rw [← hop, ← hgen]
    refine h.completing e' he' r (hpending e'.op (Traffic.mem_ops_of_completing he') r ?_)
    rw [hop]
    exact hr
  gens := by
    intro e he
    obtain ⟨e', he', hop, hgen⟩ := hcompleting e he
    rw [← hop, ← hgen]
    exact h.gens e' he'
  waited := fun op hop => h.waited op (hbusy op hop)
  dealt := fun op hop => h.dealt op (hbusy op hop)
  handling := by
    intro server done c inFlight req hphase
    have hold := h.handling server done c inFlight req hphase
    refine ⟨hold.1, ?_⟩
    intro hbusy
    obtain ⟨op, hop, hctx, hrest⟩ := hold.2 hbusy
    exact ⟨op, hhandling server done c inFlight req hphase hbusy op hop hctx, hctx, hrest⟩

end Slots

namespace DeviceInv

/-- Pages of requests in progress are apart. -/
theorem eq_of_covers (h : DeviceInv all dv tr) {n' p : Nat} {r' : IoRequest D}
    (hr : dv.io.store.pending n = some r) (hr' : dv.io.store.pending n' = some r')
    (hp : r.Covers p) (hp' : r'.Covers p) : n = n' :=
  h.current.eq_of_covers hr hr' hp hp'

theorem request_unique {s : IoStore D} {r' : IoRequest D} (hr : s.pending n = some r)
    (hr' : s.pending n = some r') : r' = r := by
  rw [hr] at hr'
  exact (Option.some.inj hr').symm

/-- `IS_request` goes on, and perhaps clears bits. -/
theorem goOn (h : DeviceInv all dv tr) {φ φ' : Progress} (hφ : dv.io.progress n = some φ)
    (hr : dv.io.store.pending n = some r) (hfits : φ'.Fits r) {words : BitmapG → Nat → BitVec 32}
    (hbits : ∀ chunk i, ({ dv with words := words } : Device D).bitmapTest chunk i = true →
      dv.bitmapTest chunk i = true)
    (haccounts : r.data ≠ none → ∀ p chunk, r.Covers p →
      dv.maps.route (p / pagesPerChunk) = some chunk →
      ({ dv with words := words } : Device D).bitmapTest chunk (p % pagesPerChunk) = true →
      φ.Accounts r p (dv.bitmapG chunk) → φ'.Accounts r p (dv.bitmapG chunk)) :
    DeviceInv all (({ dv with words := words } : Device D).setProgress n (some φ')) tr := by
  have hnone : ∀ {n'}, Function.update dv.io.progress n (some φ') n' = none →
      dv.io.progress n' = none := by
    intro n' hn'
    by_cases heq : n' = n
    · subst heq
      rw [Function.update_self] at hn'
      cases hn'
    · rwa [Function.update_of_ne heq] at hn'
  have hold := h.flight.submitting n φ hφ
  refine ⟨h.current, h.flight.setProgress n _ ?_, h.routing, ?_, ?_⟩
  · intro φ'' heq
    exact ⟨hold.1, r, hr, Option.some.inj heq ▸ hfits⟩
  · exact ⟨h.slots.busy, h.slots.completing, h.slots.gens, h.slots.waited, h.slots.dealt, h.slots.handling⟩
  · constructor
    case remote => exact fun p chunk hroute hbit => h.copies.remote p chunk hroute (hbits _ _ hbit)
    case accounted =>
      intro n' r' p chunk hr' hdata hp hroute hbit
      have hwas := h.copies.accounted n' r' p chunk hr' hdata hp hroute (hbits _ _ hbit)
      by_cases heq : n' = n
      · subst heq
        refine .inl ⟨φ', Function.update_self .., ?_⟩
        rw [request_unique hr hr'] at hp hdata hwas ⊢
        refine haccounts hdata p chunk hp hroute hbit ?_
        obtain ⟨φ'', hφ'', hacc⟩ := hwas.submitting hold.1
        rw [hφ] at hφ''
        exact Option.some.inj hφ'' ▸ hacc
      · exact hwas.stays (Function.update_of_ne heq ..) (fun _ hop _ => hop)
          fun e he _ => ⟨e, he, rfl, rfl⟩
    case handed => exact fun n' r' f p hr' hdata hn' => h.copies.handed n' r' f p hr' hdata (hnone hn')
    case landed => exact h.copies.landed
    case reading => exact h.copies.reading

/-- A request that `IS_request` has brought to the disk. -/
theorem toDisk (h : DeviceInv all dv tr) (hφ : dv.io.progress n = some .disk)
    (hr : dv.io.store.pending n = some r) :
    DeviceInv all { dv with
      io.progress := Function.update dv.io.progress n none
      io.bios := requestBios n r ++ dv.io.bios } tr := by
  have hold := h.flight.submitting n .disk hφ
  have hpos := h.current.pos n r hr
  -- the writes that are outstanding, with those of the request before them
  have hbacking : ∀ p, Device.backing { dv with
      io.progress := Function.update dv.io.progress n none
      io.bios := requestBios n r ++ dv.io.bios } p =
      settled dv.disk ((requestBios n r).filterMap dv.io.written ++
        dv.io.bios.filterMap dv.io.written) p := by
    intro p
    rw [← List.filterMap_append]
    rfl
  have hother : ∀ p, ¬ (r.data ≠ none ∧ r.Covers p) → Device.backing { dv with
      io.progress := Function.update dv.io.progress n none
      io.bios := requestBios n r ++ dv.io.bios } p = dv.backing p := by
    intro p hp
    rw [hbacking]
    exact settled_requestBios_other hr hp
  have hclear : ∀ p chunk, r.data ≠ none → r.Covers p →
      dv.maps.route (p / pagesPerChunk) = some chunk →
      dv.bitmapTest chunk (p % pagesPerChunk) = true → False := by
    intro p chunk hdata hp hroute hbit
    obtain ⟨φ, hφ', hacc⟩ :=
      (h.copies.accounted n r p chunk hr hdata hp hroute hbit).submitting hold.1
    rw [hφ] at hφ'
    rw [← Option.some.inj hφ'] at hacc
    exact hacc
  refine ⟨h.current.rewrite ?_, ?_, h.routing, ?_, ?_⟩
  · intro p hp
    exact hother p fun hw => hp ⟨n, r, hr, hw⟩
  · refine Flight.submit (h.flight.setProgress n none ?_) hold.1 ?_ hr hpos ?_
    · intro φ heq
      cases heq
    · exact Function.update_self ..
    · intro n' r' hr' hne
      exact h.current.disjoint n' n r' r hr' hr hne
  · exact ⟨h.slots.busy, h.slots.completing, h.slots.gens, h.slots.waited, h.slots.dealt, h.slots.handling⟩
  · constructor
    case remote =>
      intro p chunk hroute hbit hp
      refine (h.copies.remote p chunk hroute hbit hp).trans (hother p ?_).symm
      exact fun hw => hp ⟨n, r, hr, hw⟩
    case accounted =>
      intro n' r' p chunk hr' hdata hp hroute hbit
      by_cases heq : n' = n
      · subst heq
        rw [request_unique hr hr'] at hdata hp
        exact absurd (hclear p chunk hdata hp hroute hbit) not_false
      · refine (h.copies.accounted n' r' p chunk hr' hdata hp hroute hbit).stays ?_
          (fun _ hop _ => hop) fun e he _ => ⟨e, he, rfl, rfl⟩
        exact Function.update_of_ne heq ..
    case handed =>
      intro n' r' f p hr' hdata hn' hmarking hp
      by_cases heq : n' = n
      · subst heq
        rw [request_unique hr hr'] at hdata hp ⊢
        rw [hbacking]
        exact settled_requestBios hr hdata hp
      · refine (hother p ?_).trans (h.copies.handed n' r' f p hr' hdata ?_ hmarking hp)
        · exact fun hw => heq (h.eq_of_covers hr' hr hp hw.2)
        · exact (Function.update_of_ne heq ..).symm.trans hn'
    case landed => exact h.copies.landed
    case reading =>
      intro op hop hkind r' hr'
      refine (h.copies.reading op hop hkind r' hr').trans (hother r'.start ?_).symm
      intro hw
      have hstart := PageRange.covers_start (h.current.pos op.serial r' hr')
      have heq := h.eq_of_covers hr' hr hstart hw.2
      exact hold.1 (heq ▸ Traffic.serial_mem_owned (Traffic.mem_ops_of_busy hop))

theorem backing_of_left (h : DeviceInv all dv tr) (hl : Left all dv.io op io') :
    Device.backing { dv with io := io' } = dv.backing :=
  Device.backing_congr rfl hl.bios fun _ hb => hl.written h.flight hb

/-- The operation that the handler is dealing with is not the one that leaves. -/
theorem slots_of_left (h : DeviceInv all dv tr) (hl : Left all dv.io op io')
    (hhandled : op ∈ dv.io.contexts.rdmaOps → dv.handled op.ctx.server ≠ some op.ctx) :
    Slots dv.maps dv.gen io' := by
  refine h.slots.sub (fun o ho => ((hl.mem_busy o).mp ho).1) ?_ ?_ ?_
  · intro e he
    exact ⟨e, ((hl.completing e).mp he).1, rfl, rfl⟩
  · intro o _ r hr
    rwa [hl.store] at hr
  · intro server done c inFlight req hphase _ o ho hctx
    refine (hl.rdmaOps o).mpr ⟨ho, ?_⟩
    intro heq
    have hserver := (h.slots.handling server done c inFlight req hphase).1
    refine hhandled (heq ▸ ho) ?_
    rw [← heq, hctx, hserver, Device.handled, hphase]

/-- What accounts for another request stays when an operation leaves. -/
theorem accounts_of_left (hl : Left all dv.io op io') {p : Nat}
    {array : BitmapG} (hne : n ≠ op.serial) (hacc : dv.io.Accounts n r p array) :
    io'.Accounts n r p array := by
  refine hacc.stays ?_ ?_ ?_
  · rw [hl.progress]
  · intro o ho hserial
    refine (hl.mem_busy o).mpr ⟨ho, ?_⟩
    intro heq
    exact hne (heq ▸ hserial.symm)
  · intro e he hserial
    refine ⟨e, (hl.completing e).mpr ⟨he, ?_⟩, rfl, rfl⟩
    intro heq
    exact hne (heq ▸ hserial.symm)

theorem not_marking_of_left (hl : Left all dv.io op io') (hne : n ≠ op.serial)
    (hn : n ∉ io'.marking.map RdmaOp.serial) : n ∉ dv.io.marking.map RdmaOp.serial := by
  intro hmem
  obtain ⟨o, ho, hserial⟩ := List.mem_map.mp hmem
  refine hn (List.mem_map.mpr ⟨o, (hl.marking o).mpr ⟨ho, ?_⟩, hserial⟩)
  intro heq
  exact hne (heq ▸ hserial.symm)

/-- An operation leaves, and its request is to go to the disk. -/
theorem redirect (h : DeviceInv all dv tr) (hop : op ∈ dv.io.ops) (hl : Left all dv.io op io')
    (hhandled : op ∈ dv.io.contexts.rdmaOps → dv.handled op.ctx.server ≠ some op.ctx)
    (hclear : ∀ r, dv.io.store.pending op.serial = some r → r.data.isSome = true → dv.bitsClear r) :
    DeviceInv all { dv with
      io := { io' with progress := Function.update io'.progress op.serial (some .disk) } } tr := by
  obtain ⟨r, hr, -⟩ := h.flight.held op hop
  have hflight := h.flight.leave hop hl
  have hslots := h.slots_of_left hl hhandled
  have hstore := hl.store
  have hbacking : Device.backing { dv with
      io := { io' with progress := Function.update io'.progress op.serial (some .disk) } } =
      dv.backing := by
    have hleft : Device.backing { dv with io := io' } = dv.backing := h.backing_of_left hl
    exact hleft
  refine ⟨?_, hflight.setProgress op.serial _ ?_, h.routing, ?_, ?_⟩
  · rw [hbacking]
    show io'.store.Current tr dv.backing
    rw [hstore]
    exact h.current
  · intro φ heq
    refine ⟨hl.not_owned h.flight hop, r, ?_, Option.some.inj heq ▸ trivial⟩
    rw [hstore, hr]
  · exact ⟨hslots.busy, hslots.completing, hslots.gens, hslots.waited, hslots.dealt, hslots.handling⟩
  · constructor
    case remote =>
      rw [hbacking]
      simp only [hstore]
      exact h.copies.remote
    case accounted =>
      simp only [hstore]
      intro n r' p chunk hr' hdata hp hroute hbit
      by_cases heq : n = op.serial
      · subst heq
        exfalso
        have hfalse := Device.bitsClear_page (hclear r' hr' (by simpa [Option.isSome_iff_ne_none]
          using hdata)) hp
        rw [Device.trusted_of_route hroute] at hfalse
        have htrue : dv.bitmapTest chunk (p % pagesPerChunk) = true := hbit
        rw [htrue] at hfalse
        cases hfalse
      · refine (accounts_of_left hl heq
          (h.copies.accounted n r' p chunk hr' hdata hp hroute hbit)).stays ?_
          (fun _ ho _ => ho) fun e he _ => ⟨e, he, rfl, rfl⟩
        exact Function.update_of_ne heq ..
    case handed =>
      rw [hbacking]
      simp only [hstore]
      intro n r' f p hr' hdata hn hmarking hp
      have hne : n ≠ op.serial := by
        intro heq
        rw [heq, Function.update_self] at hn
        cases hn
      refine h.copies.handed n r' f p hr' hdata ?_ (not_marking_of_left hl hne hmarking) hp
      rw [Function.update_of_ne hne, hl.progress] at hn
      exact hn
    case landed =>
      simp only [hstore]
      exact fun e he => h.copies.landed e ((hl.completing e).mp he).1
    case reading =>
      rw [hbacking]
      simp only [hstore]
      exact fun o ho => h.copies.reading o ((hl.mem_busy o).mp ho).1

/-- An operation leaves, and its request goes to the disk. -/
theorem giveUp (h : DeviceInv all dv tr) (hop : op ∈ dv.io.ops) (hl : Left all dv.io op io')
    (hhandled : op ∈ dv.io.contexts.rdmaOps → dv.handled op.ctx.server ≠ some op.ctx)
    (hr : dv.io.store.pending op.serial = some r)
    (hclear : r.data.isSome = true → dv.bitsClear r) :
    DeviceInv all { dv with io := { io' with bios := requestBios op.serial r ++ io'.bios } } tr := by
  have hredirect := h.redirect hop hl hhandled fun r' hr' => request_unique hr hr' ▸ hclear
  have hpending : io'.store.pending op.serial = some r := by rw [hl.store, hr]
  have hmove := hredirect.toDisk (Function.update_self ..) hpending
  have hnone : io'.progress op.serial = none := by
    rw [hl.progress]
    exact h.flight.progress_of_op hop
  have hprogress : Function.update (Function.update io'.progress op.serial (some .disk)) op.serial
      none = io'.progress := by
    rw [Function.update_idem, ← hnone, Function.update_eq_self]
  simp only [hprogress] at hmove
  exact hmove

/-- An operation leaves, and its request ends. -/
theorem complete (h : DeviceInv all dv tr) (hop : op ∈ dv.io.ops) (hmarking : op ∉ dv.io.marking)
    (hl : Left all dv.io op io')
    (hhandled : op ∈ dv.io.contexts.rdmaOps → dv.handled op.ctx.server ≠ some op.ctx) (value : D)
    (hread : ∀ r, dv.io.store.pending op.serial = some r → r.data = none → value = dv.backing r.start)
    (hwrite : ∀ r p chunk, dv.io.store.pending op.serial = some r → r.data ≠ none → r.Covers p →
      dv.maps.route (p / pagesPerChunk) = some chunk →
      dv.bitmapTest chunk (p % pagesPerChunk) = true →
      dv.remote chunk (p % pagesPerChunk) = dv.backing p) :
    DeviceInv all { dv with
        io := { io' with store := (dv.io.store.finish op.serial value).1 } }
      (tr ++ (dv.io.store.finish op.serial value).2) := by
  obtain ⟨r, hr, -⟩ := h.flight.held op hop
  have hstore := hl.store
  have hflight := h.flight.leave hop hl
  have hnone : dv.io.progress op.serial = none := h.flight.progress_of_op hop
  have hserials : op.serial ∉ dv.io.marking.map RdmaOp.serial := by
    intro hmem
    obtain ⟨o, ho, hserial⟩ := List.mem_map.mp hmem
    have hmem := Traffic.mem_ops.mpr (.inl ho)
    exact hmarking (h.flight.eq_of_serial hmem hop hserial ▸ ho)
  -- no page of the request is on its way to the disk any more
  have hbacking : Device.backing { dv with
      io := { io' with store := (dv.io.store.finish op.serial value).1 } } = dv.backing := by
    refine Device.backing_congr rfl hl.bios ?_
    intro b hb
    refine h.flight.written_congr ?_ ?_ hb
    · exact hl.buffer
    · intro n hn
      have hne : n ≠ op.serial := fun heq => h.flight.not_ends hop (heq ▸ hn)
      show (dv.io.store.finish op.serial value).1.pending n = _
      rw [IoStore.pending_finish, if_neg hne]
  refine ⟨?_, ?_, h.routing, ?_, ?_⟩
  · rw [hbacking]
    refine h.current.finish hread ?_
    intro r' f hr' hdata p hp
    exact h.copies.handed op.serial r' f p hr' hdata hnone hserials hp
  · have hfin := hflight.finish (hl.not_owned h.flight hop) (by rw [hl.progress, hnone]) value
    rw [hstore] at hfin
    exact hfin
  · refine (h.slots_of_left hl hhandled).sub (fun _ ho => ho) (fun e he => ⟨e, he, rfl, rfl⟩) ?_
      fun _ _ _ _ _ _ _ _ ho _ => ho
    intro o _ r' hr'
    rw [hstore]
    exact (IoStore.finish_cases hr').2
  · constructor
    case remote =>
      rw [hbacking]
      intro p chunk hroute hbit hp
      by_cases hw : dv.io.store.Writing p
      · by_cases hcov : r.data ≠ none ∧ r.Covers p
        · exact hwrite r p chunk hr hcov.1 hcov.2 hroute hbit
        · exact absurd (IoStore.writing_of_finish hw hr hcov) hp
      · exact h.copies.remote p chunk hroute hbit hw
    case accounted =>
      intro n r' p chunk hr' hdata hp hroute hbit
      have hold := IoStore.finish_cases hr'
      exact (accounts_of_left hl hold.1
        (h.copies.accounted n r' p chunk hold.2 hdata hp hroute hbit)).stays rfl
        (fun _ ho _ => ho) fun e he _ => ⟨e, he, rfl, rfl⟩
    case handed =>
      rw [hbacking]
      intro n r' f p hr' hdata hn hmark hp
      have hold := IoStore.finish_cases hr'
      refine h.copies.handed n r' f p hold.2 hdata ?_ (not_marking_of_left hl hold.1 hmark) hp
      rw [← hl.progress]
      exact hn
    case landed =>
      intro e he r' f hr'
      exact h.copies.landed e ((hl.completing e).mp he).1 r' f (IoStore.finish_cases hr').2
    case reading =>
      rw [hbacking]
      intro o ho hkind r' hr'
      exact h.copies.reading o ((hl.mem_busy o).mp ho).1 hkind r' (IoStore.finish_cases hr').2

/-- The maps and the bits change, without a new way to a remote chunk. -/
theorem remap (h : DeviceInv all dv tr) {maps : Maps} {words : BitmapG → Nat → BitVec 32}
    (hrouting : Routing maps) (hslots : Slots maps dv.gen dv.io)
    (hroute : ∀ g chunk, maps.route g = some chunk → dv.maps.route g = some chunk)
    (hbits : ∀ chunk i, ({ dv with words := words } : Device D).bitmapTest chunk i = true →
      dv.bitmapTest chunk i = true) :
    DeviceInv all { dv with maps := maps, words := words } tr := by
  refine ⟨h.current, h.flight, hrouting, hslots, ?_⟩
  constructor
  case remote =>
    intro p chunk hr hbit hp
    exact h.copies.remote p chunk (hroute _ _ hr) (hbits _ _ hbit) hp
  case accounted =>
    intro n r p chunk hr hdata hp hg hbit
    exact h.copies.accounted n r p chunk hr hdata hp (hroute _ _ hg) (hbits _ _ hbit)
  case handed => exact h.copies.handed
  case landed => exact h.copies.landed
  case reading => exact h.copies.reading

end DeviceInv

end Memtrade.Infiniswap
