import Memtrade.Infiniswap.DeviceRequests

/-!
# Transfers of the block device

`IS_transfer_chunk`: a context is taken and marked, and the operation is posted, or given up
when `rdma_on` is off.
-/

namespace Memtrade.Infiniswap

variable {D : Type} {all : List CtxId} {dv dv' : Device D} {tr : List (IoEvent D)}
  {io : Traffic D} {op : RdmaOp CtxId} {r : IoRequest D} {n : Nat} {c : CtxId}

/-! ## The contexts -/

namespace Contexts

variable {κ : Type} [DecidableEq κ] {p : Contexts κ D} {o : RdmaOp κ}

theorem mark_free : (p.mark o).free = p.free.erase o.ctx := by
  unfold mark
  split <;> rfl

theorem mark_rdmaOps : (p.mark o).rdmaOps = p.rdmaOps := by
  unfold mark
  split <;> rfl

theorem mark_diskOps : (p.mark o).diskOps = p.diskOps := by
  unfold mark
  split <;> rfl

theorem mark_other {k : κ} (hne : k ≠ o.ctx) : (p.mark o).ctx k = p.ctx k := by
  unfold mark
  split <;> simp [hne]

theorem mark_rdmaBuf (k : κ) : ((p.mark o).ctx k).rdmaBuf = (p.ctx k).rdmaBuf := by
  by_cases heq : k = o.ctx
  · subst heq
    unfold mark
    split <;> simp
  · rw [mark_other heq]

theorem mark_inFlight : ((p.mark o).ctx o.ctx).inFlight = o.kind.inFlight := by
  unfold mark
  split <;> simp_all [OpKind.inFlight]

theorem mark_chunkIndex : ((p.mark o).ctx o.ctx).chunkIndex = some o.chunk.index := by
  unfold mark
  split <;> simp

theorem mark_req : ((p.mark o).ctx o.ctx).req = some o.serial := by
  unfold mark
  split <;> simp

theorem mark_write (hkind : o.kind = .write) :
    ((p.mark o).ctx o.ctx).chunkPtr = some o.chunk ∧ ((p.mark o).ctx o.ctx).offset = o.offset ∧
      ((p.mark o).ctx o.ctx).len = o.len := by
  unfold mark
  rw [hkind]
  simp

/-- A marked context is returned by the one that has it. -/
theorem returned_mark (hfree : o.ctx ∈ p.free) :
    (o.ctx :: (p.mark o).returned).Perm p.returned := by
  unfold returned
  rw [mark_free, mark_diskOps, mark_rdmaOps]
  have hperm := List.perm_cons_erase hfree
  exact ((hperm.symm.append_right p.diskOps).append_right (p.rdmaOps.filterMap readCtx))

end Contexts

/-! ## `IS_get_ctx` -/

/-- A request that has got the context of `op`. -/
def Traffic.taken (io : Traffic D) (op : RdmaOp CtxId) : Traffic D :=
  { io with
    progress := Function.update io.progress op.serial none
    contexts := io.contexts.mark op
    marking := op :: io.marking }

theorem Traffic.busy_taken : (io.taken op).busy = op :: io.busy := by
  show op :: io.marking ++ (io.contexts.mark op).rdmaOps = _
  rw [Contexts.mark_rdmaOps]
  rfl

theorem Traffic.ops_taken : (io.taken op).ops = op :: io.ops := by
  unfold Traffic.ops
  rw [Traffic.busy_taken]
  rfl

theorem Traffic.owned_taken : (io.taken op).owned = op.serial :: io.owned := by
  unfold Traffic.owned
  rw [Traffic.ops_taken]
  rfl

namespace Flight

theorem transferOp_held (h : Flight all io) {chunk : Chunk} (hfree : c ∈ io.contexts.free)
    (hserver : c.server = chunk.server) (hsingle : gbIndex r = endIndex r) :
    Held all ((io.contexts.mark (Device.transferOp n r c chunk)).ctx c) (Device.transferOp n r c chunk) r where
  single := hsingle
  offset := rfl
  len := rfl
  server := hserver
  known := h.free c hfree
  req := Contexts.mark_req
  read := by
    intro hkind
    cases hdata : r.data with
    | none => rfl
    | some f => simp [Device.transferOp, hdata] at hkind
  write := by
    intro hkind
    refine ⟨?_, Contexts.mark_write hkind⟩
    intro hnone
    simp [Device.transferOp, hnone] at hkind

/-- No operation uses a free context that the condition lets pass. -/
theorem ctx_ne_of_free (h : Flight all io) (hfree : c ∈ io.contexts.free)
    (hrdma : ∀ o ∈ io.contexts.rdmaOps, o.ctx ≠ c) (hcompleting : ∀ e ∈ io.completing, e.op.ctx ≠ c)
    (hop : op ∈ io.ops) : op.ctx ≠ c := by
  rw [Traffic.mem_ops] at hop
  cases hop with
  | inl hmarking =>
      intro heq
      refine h.marked_not_returned hmarking ?_
      rw [heq]
      exact List.mem_append_left _ (List.mem_append_left _ hfree)
  | inr hop =>
      cases hop with
      | inl hposted => exact hrdma op hposted
      | inr he =>
          obtain ⟨e, he, rfl⟩ := he
          exact hcompleting e he

theorem take (h : Flight all io) (hn : op.serial ∉ io.owned)
    (hr : io.store.pending op.serial = some r)
    (hheld : Held all ((io.contexts.mark op).ctx op.ctx) op r) (hfree : op.ctx ∈ io.contexts.free)
    (hother : ∀ o ∈ io.ops, o.ctx ≠ op.ctx) : Flight all (io.taken op) where
  held := by
    intro o ho
    rw [Traffic.ops_taken] at ho
    cases List.mem_cons.mp ho with
    | inl heq =>
        subst heq
        exact ⟨r, hr, hheld⟩
    | inr ho =>
        have hctx : (io.contexts.mark op).ctx o.ctx = io.contexts.ctx o.ctx :=
          Contexts.mark_other (hother o ho)
        show ∃ r', io.store.pending o.serial = some r' ∧
          Held all ((io.contexts.mark op).ctx o.ctx) o r'
        rw [hctx]
        exact h.held o ho
  busy := by
    intro o ho
    rw [Traffic.busy_taken] at ho
    cases List.mem_cons.mp ho with
    | inl heq =>
        subst heq
        exact ⟨Contexts.mark_inFlight, Contexts.mark_chunkIndex⟩
    | inr hold =>
        have hctx : (io.contexts.mark op).ctx o.ctx = io.contexts.ctx o.ctx :=
          Contexts.mark_other (hother o (Traffic.mem_ops_of_busy hold))
        show ((io.contexts.mark op).ctx o.ctx).inFlight = _ ∧ _
        simp only [Traffic.taken, hctx]
        exact h.busy o hold
  buffer := by
    intro o ho r' f hr' hdata j hj
    show ((io.contexts.mark op).ctx o.ctx).rdmaBuf j = f j
    rw [Contexts.mark_rdmaBuf]
    have ho' : o ∈ io.contexts.rdmaOps := by
      rw [← Contexts.mark_rdmaOps]
      exact ho
    exact h.buffer o ho' r' f hr' hdata j hj
  completing := h.completing
  ctxs := by
    rw [Traffic.ops_taken, List.map_cons, List.nodup_cons]
    refine ⟨?_, h.ctxs⟩
    intro hmem
    obtain ⟨o, ho, heq⟩ := List.mem_map.mp hmem
    exact hother o ho heq
  owners := by
    rw [Traffic.owned_taken, List.nodup_cons]
    exact ⟨hn, h.owners⟩
  submitting := by
    intro n' φ hφ
    have hne : n' ≠ op.serial := by
      intro heq
      rw [heq] at hφ
      simp [Traffic.taken] at hφ
    simp only [Traffic.taken, Function.update_of_ne hne] at hφ
    have hold := h.submitting n' φ hφ
    refine ⟨?_, hold.2⟩
    rw [Traffic.owned_taken, List.mem_cons, not_or]
    exact ⟨hne, hold.1⟩
  sizes := h.sizes
  marked := by
    intro c' hc'
    by_cases heq : c' = op.ctx
    · exact ⟨op, List.mem_append_left _ List.mem_cons_self, heq.symm⟩
    · simp only [Traffic.taken, Contexts.mark_other heq] at hc'
      obtain ⟨o, ho, hctx⟩ := h.marked c' hc'
      refine ⟨o, ?_, hctx⟩
      rw [Traffic.busy_taken]
      exact List.mem_cons_of_mem _ ho
  returned := by
    show (op.ctx :: io.marking.map RdmaOp.ctx ++ (io.contexts.mark op).returned).Nodup
    refine (List.Perm.nodup_iff ?_).mp h.returned
    refine ((Contexts.returned_mark hfree).symm.append_left _).trans ?_
    exact List.perm_middle
  backups := by
    show (io.bios.filterMap Bio.ctx?).Perm (io.contexts.mark op).diskOps
    rw [Contexts.mark_diskOps]
    exact h.backups
  pages := h.pages
  order := h.order
  free := by
    intro c' hc'
    have hmem : c' ∈ io.contexts.free.erase op.ctx := by
      rw [← Contexts.mark_free]
      exact hc'
    exact h.free c' (List.mem_of_mem_erase hmem)
  disk := by
    show ∀ c' ∈ (io.contexts.mark op).diskOps, c' ∈ all
    rw [Contexts.mark_diskOps]
    exact h.disk

end Flight

/-- Requests do not go to a server that the handler is done with. -/
theorem Phase.not_dealt_of_reaches {m : Maps} {server g : Nat} {phase : Phase}
    (h : phase.Reaches m server g) : ¬ phase.Dealt c := by
  cases phase <;> simp_all [Phase.Reaches, Phase.Dealt]

namespace DeviceInv

theorem getCtx (h : DeviceInv all dv tr) (hok : dv.careful (.getCtx n c))
    (hs : dv.getCtx n c = some dv') : DeviceInv all dv' tr := by
  unfold Device.getCtx at hs
  split at hs
  case h_2 => cases hs
  case h_1 r chunk hr hφ =>
    split at hs
    case isFalse => cases hs
    case isTrue hfree =>
      simp only [Option.some.injEq] at hs
      have hcare := hok r hr _ hφ
      obtain ⟨hrdma, hcompleting, hroute, htrusted⟩ := hcare
      obtain ⟨hn, r', hr', hfits⟩ := h.flight.submitting n _ hφ
      rw [request_unique hr hr'] at hfits
      have hsingle : gbIndex r = endIndex r := hfits
      have hother : ∀ o ∈ dv.io.ops, o.ctx ≠ c := fun o ho =>
        h.flight.ctx_ne_of_free hfree.2 hrdma hcompleting ho
      have hslot : dv.maps.chunkMap chunk = some (gbIndex r) := h.routing.routed _ _ hroute
      have hbusy : ∀ o, o ∈ (dv.io.taken (Device.transferOp n r c chunk)).busy →
          o = Device.transferOp n r c chunk ∨ o ∈ dv.io.busy := by
        intro o ho
        rw [Traffic.busy_taken] at ho
        exact List.mem_cons.mp ho
      have hstays : ∀ o ∈ dv.io.busy, o ∈ (dv.io.taken (Device.transferOp n r c chunk)).busy := by
        intro o ho
        rw [Traffic.busy_taken]
        exact List.mem_cons_of_mem _ ho
      have hbacking : Device.backing { dv with io := dv.io.taken (Device.transferOp n r c chunk) } =
          dv.backing := by
        refine Device.backing_congr rfl rfl ?_
        intro b hb
        refine h.flight.written_congr ?_ ?_ hb
        · intro c' _
          exact Contexts.mark_rdmaBuf c'
        · intro _ _
          rfl
      rw [← hs]
      show DeviceInv all { dv with io := dv.io.taken (Device.transferOp n r c chunk) } tr
      refine ⟨?_, ?_, h.routing, ?_, ?_⟩
      · rw [hbacking]
        exact h.current
      · exact h.flight.take hn hr (h.flight.transferOp_held hfree.2 hfree.1 hsingle) hfree.2 hother
      · constructor
        case busy =>
          intro o ho r' hr'
          cases hbusy o ho with
          | inl heq =>
              subst heq
              rw [request_unique hr hr']
              exact .inl hslot
          | inr hold => exact h.slots.busy o hold r' hr'
        case completing => exact h.slots.completing
        case gens => exact h.slots.gens
        case waited =>
          intro o ho server hw
          cases hbusy o ho with
          | inl heq =>
              subst heq
              exact h.routing.apart chunk (by rw [hslot]; simp)
          | inr hold => exact h.slots.waited o hold server hw
        case dealt =>
          intro o ho
          cases hbusy o ho with
          | inl heq =>
              subst heq
              show ¬ (dv.maps.phase c.server).Dealt c
              rw [hfree.1]
              exact Phase.not_dealt_of_reaches
                (h.routing.alive _ _ (Maps.maps_of_route hroute).1)
          | inr hold => exact h.slots.dealt o hold
        case handling =>
          intro server done c' inFlight req hphase
          show _ ∧ (_ → ∃ o ∈ (dv.io.contexts.mark _).rdmaOps, _)
          rw [Contexts.mark_rdmaOps]
          exact h.slots.handling server done c' inFlight req hphase
      · constructor
        case remote =>
          rw [hbacking]
          exact h.copies.remote
        case accounted =>
          intro n' r' p chunk' hr' hdata hp hg hbit
          have hwas := h.copies.accounted n' r' p chunk' hr' hdata hp hg hbit
          by_cases heq : n' = n
          · subst heq
            refine .inr (.inl ⟨Device.transferOp n' r c chunk, List.mem_append_left _ List.mem_cons_self,
              rfl, ?_⟩)
            rw [request_unique hr hr'] at hp
            have hg' : dv.maps.route (p / pagesPerChunk) = some chunk' := hg
            rw [(page_of_single hsingle hp).1, hroute] at hg'
            exact Option.some.inj hg'
          · exact hwas.stays (Function.update_of_ne heq ..) (fun o ho _ => hstays o ho)
              fun e he _ => ⟨e, he, rfl, rfl⟩
        case handed =>
          rw [hbacking]
          intro n' r' f p hr' hdata hn' hmarking hp
          simp only [Traffic.taken, List.map_cons, List.mem_cons, not_or] at hmarking hn'
          have hne : n' ≠ n := hmarking.1
          have hsame := Function.update_of_ne hne none dv.io.progress
          exact h.copies.handed n' r' f p hr' hdata (hsame.symm.trans hn') hmarking.2 hp
        case landed => exact h.copies.landed
        case reading =>
          rw [hbacking]
          intro o ho hkind r' hr'
          cases hbusy o ho with
          | inr hold => exact h.copies.reading o hold hkind r' hr'
          | inl heq =>
              subst heq
              rw [request_unique hr hr']
              have hdata : r.data = none := by
                cases hdata : r.data with
                | none => rfl
                | some f => simp [Device.transferOp, hdata] at hkind
              have hbit := htrusted (by simp [hdata])
              have hg : dv.maps.route (r.start / pagesPerChunk) = some chunk := hroute
              rw [Device.trusted_of_route hg] at hbit
              exact h.copies.remote r.start chunk hg hbit (h.current.not_writing_of_read hr hdata)

end DeviceInv

/-! ## Posting -/

theorem Held.rdmaBuf {x : RdmaCtx D} (h : Held all x op r) (buf : Nat → D) :
    Held all { x with rdmaBuf := buf } op r :=
  ⟨h.single, h.offset, h.len, h.server, h.known, h.req, h.read, h.write⟩

/-- The operation `op` is posted: its buffer has been filled, if it is a write. -/
structure Posts (io : Traffic D) (op : RdmaOp CtxId) (io' : Traffic D) : Prop where
  store : io'.store = io.store
  progress : io'.progress = io.progress
  marking : io'.marking = io.marking.erase op
  rdmaOps : io'.contexts.rdmaOps = op :: io.contexts.rdmaOps
  completing : io'.completing = io.completing
  free : io'.contexts.free = io.contexts.free
  other : ∀ c, c ≠ op.ctx → io'.contexts.ctx c = io.contexts.ctx c
  own : ∃ buf, io'.contexts.ctx op.ctx = { io.contexts.ctx op.ctx with rdmaBuf := buf }
  buffer : ∀ r f, io.store.pending op.serial = some r → r.data = some f → ∀ j, j < r.len →
    (io'.contexts.ctx op.ctx).rdmaBuf j = f j
  ends : io'.bios.filterMap Bio.ends? = io.bios.filterMap Bio.ends?
  pages : ∀ n p write last, Bio.page n p write last ∈ io'.bios → Bio.page n p write last ∈ io.bios
  backups : (io'.bios.filterMap Bio.ctx?).Perm io'.contexts.diskOps
  diskOps : ∀ c ∈ io'.contexts.diskOps, c = op.ctx ∨ c ∈ io.contexts.diskOps
  order : io'.bios.Pairwise fun newer older => ∀ n p last, older = .page n p false last →
    newer.writes = true → ¬ newer.range.Covers p
  returned : (io'.marking.map RdmaOp.ctx ++ io'.contexts.returned).Nodup

namespace Posts

variable {io' : Traffic D}

theorem busy_perm (h : Posts io op io') (hop : op ∈ io.marking) : io'.busy.Perm io.busy := by
  unfold Traffic.busy
  rw [h.marking, h.rdmaOps]
  refine List.perm_middle.trans ?_
  rw [← List.cons_append]
  exact (List.perm_cons_erase hop).symm.append_right _

theorem ops_perm (h : Posts io op io') (hop : op ∈ io.marking) : io'.ops.Perm io.ops := by
  unfold Traffic.ops
  rw [h.completing]
  exact (h.busy_perm hop).append_right _

theorem owned_perm (h : Posts io op io') (hop : op ∈ io.marking) : io'.owned.Perm io.owned := by
  unfold Traffic.owned
  rw [h.ends]
  exact ((h.ops_perm hop).map _).append_right _

/-- The contexts hold what they held, but for a buffer. -/
theorem ctx_eq (h : Posts io op io') (c : CtxId) :
    ∃ buf, io'.contexts.ctx c = { io.contexts.ctx c with rdmaBuf := buf } := by
  by_cases heq : c = op.ctx
  · rw [heq]
    exact h.own
  · exact ⟨(io.contexts.ctx c).rdmaBuf, h.other c heq⟩

end Posts

theorem Flight.post {io' : Traffic D} (h : Flight all io) (hop : op ∈ io.marking)
    (hp : Posts io op io') : Flight all io' where
  held := by
    intro o ho
    rw [(hp.ops_perm hop).mem_iff] at ho
    obtain ⟨r, hr, hheld⟩ := h.held o ho
    obtain ⟨buf, hctx⟩ := hp.ctx_eq o.ctx
    rw [hp.store, hctx]
    exact ⟨r, hr, hheld.rdmaBuf buf⟩
  busy := by
    intro o ho
    rw [(hp.busy_perm hop).mem_iff] at ho
    obtain ⟨buf, hctx⟩ := hp.ctx_eq o.ctx
    rw [hctx]
    exact h.busy o ho
  buffer := by
    intro o ho
    rw [hp.rdmaOps, List.mem_cons] at ho
    rw [hp.store]
    cases ho with
    | inl heq => exact heq ▸ hp.buffer
    | inr hold =>
        have hne : o.ctx ≠ op.ctx := by
          intro heq
          have hops := Traffic.mem_ops.mpr (.inr (.inl hold))
          have hsame := h.eq_of_ctx hops (Traffic.mem_ops.mpr (.inl hop)) heq
          exact h.not_marking_of_posted hold (hsame ▸ hop)
        rw [hp.other o.ctx hne]
        exact h.buffer o hold
  completing := by
    rw [hp.completing]
    exact h.completing
  ctxs := ((hp.ops_perm hop).map _).nodup_iff.mpr h.ctxs
  owners := (hp.owned_perm hop).nodup_iff.mpr h.owners
  submitting := by
    rw [hp.progress, hp.store]
    intro n φ hφ
    rw [(hp.owned_perm hop).mem_iff]
    exact h.submitting n φ hφ
  sizes := by
    rw [hp.store]
    exact h.sizes
  marked := by
    intro c hc
    obtain ⟨buf, hctx⟩ := hp.ctx_eq c
    rw [hctx] at hc
    obtain ⟨o, ho, hoc⟩ := h.marked c hc
    exact ⟨o, (hp.busy_perm hop).mem_iff.mpr ho, hoc⟩
  returned := hp.returned
  backups := hp.backups
  pages := by
    intro n p write last hb
    rw [hp.ends, hp.store]
    exact h.pages n p write last (hp.pages n p write last hb)
  order := hp.order
  free := by
    rw [hp.free]
    exact h.free
  disk := by
    intro c hc
    cases hp.diskOps c hc with
    | inl heq =>
        obtain ⟨r, -, hheld⟩ := h.held op (Traffic.mem_ops.mpr (.inl hop))
        exact heq ▸ hheld.known
    | inr hold => exact h.disk c hold

namespace DeviceInv

/-- An operation is posted, and what the disk is going to have changes at most where its
request writes. -/
theorem posts (h : DeviceInv all dv tr) (hop : op ∈ dv.io.marking) {io' : Traffic D}
    (hp : Posts dv.io op io') (hr : dv.io.store.pending op.serial = some r)
    (hother : ∀ p, ¬ (r.data ≠ none ∧ r.Covers p) →
      Device.backing { dv with io := io' } p = dv.backing p)
    (hown : ∀ f p, r.data = some f → r.Covers p →
      Device.backing { dv with io := io' } p = f (p - r.start)) :
    DeviceInv all { dv with io := io' } tr := by
  have hbusy := hp.busy_perm hop
  have hstore := hp.store
  refine ⟨?_, h.flight.post hop hp, h.routing, ?_, ?_⟩
  · show io'.store.Current tr _
    rw [hstore]
    refine h.current.rewrite ?_
    intro p hw
    exact hother p fun hcov => hw ⟨op.serial, r, hr, hcov⟩
  · constructor
    case busy =>
      intro o ho
      simp only [hstore]
      exact h.slots.busy o (hbusy.mem_iff.mp ho)
    case completing =>
      simp only [hstore, hp.completing]
      exact h.slots.completing
    case gens =>
      simp only [hp.completing]
      exact h.slots.gens
    case waited => exact fun o ho => h.slots.waited o (hbusy.mem_iff.mp ho)
    case dealt => exact fun o ho => h.slots.dealt o (hbusy.mem_iff.mp ho)
    case handling =>
      intro server done c inFlight req hphase
      have hold := h.slots.handling server done c inFlight req hphase
      refine ⟨hold.1, ?_⟩
      intro hne
      obtain ⟨o, ho, hrest⟩ := hold.2 hne
      refine ⟨o, ?_, hrest⟩
      show o ∈ io'.contexts.rdmaOps
      rw [hp.rdmaOps]
      exact List.mem_cons_of_mem _ ho
  · constructor
    case remote =>
      simp only [hstore]
      intro p chunk hroute hbit hw
      refine (h.copies.remote p chunk hroute hbit hw).trans (hother p ?_).symm
      exact fun hcov => hw ⟨op.serial, r, hr, hcov⟩
    case accounted =>
      simp only [hstore]
      intro n r' p chunk hr' hdata hcov hroute hbit
      refine (h.copies.accounted n r' p chunk hr' hdata hcov hroute hbit).stays ?_ ?_ ?_
      · rw [hp.progress]
      · exact fun o ho _ => hbusy.mem_iff.mpr ho
      · intro e he _
        rw [hp.completing]
        exact ⟨e, he, rfl, rfl⟩
    case handed =>
      simp only [hstore, hp.progress]
      intro n r' f p hr' hdata hn hmarking hcov
      by_cases heq : n = op.serial
      · subst heq
        rw [request_unique hr hr'] at hdata hcov ⊢
        exact hown f p hdata hcov
      · refine (hother p ?_).trans (h.copies.handed n r' f p hr' hdata hn ?_ hcov)
        · exact fun hw => heq (h.eq_of_covers hr' hr hcov hw.2)
        · intro hmem
          obtain ⟨o, ho, hserial⟩ := List.mem_map.mp hmem
          refine hmarking (List.mem_map.mpr ⟨o, ?_, hserial⟩)
          rw [hp.marking]
          refine (List.mem_erase_of_ne ?_).mpr ho
          intro hsame
          exact heq (hsame ▸ hserial.symm)
    case landed =>
      simp only [hstore, hp.completing]
      exact h.copies.landed
    case reading =>
      simp only [hstore]
      intro o ho hkind r' hr'
      have ho := hbusy.mem_iff.mp ho
      refine (h.copies.reading o ho hkind r' hr').trans (hother r'.start ?_).symm
      intro hw
      have hstart := PageRange.covers_start (h.current.pos o.serial r' hr')
      have hserial := h.eq_of_covers hr' hr hstart hw.2
      have hsame := h.flight.eq_of_serial (Traffic.mem_ops_of_busy ho)
        (Traffic.mem_ops.mpr (.inl hop)) hserial
      have hdata := (h.flight.held_of (Traffic.mem_ops_of_busy ho) hr').read hkind
      rw [hsame] at hr'
      rw [request_unique hr hr'] at hdata
      exact hw.1 hdata

theorem postRead (h : DeviceInv all dv tr) (hop : op ∈ dv.io.marking) (hkind : op.kind = .read) :
    DeviceInv all { dv with
      io.marking := dv.io.marking.erase op
      io.contexts := dv.io.contexts.postRead op } tr := by
  obtain ⟨r, hr, hheld⟩ := h.flight.held op (Traffic.mem_ops.mpr (.inl hop))
  have hnone := hheld.read hkind
  refine h.posts hop ?_ hr (fun _ _ => rfl) ?_
  · constructor
    case store => rfl
    case progress => rfl
    case marking => rfl
    case rdmaOps => rfl
    case completing => rfl
    case free => rfl
    case other => exact fun _ _ => rfl
    case own => exact ⟨_, rfl⟩
    case buffer =>
      intro r' f hr' hdata
      rw [request_unique hr hr', hnone] at hdata
      cases hdata
    case ends => rfl
    case pages => exact fun _ _ _ _ hb => hb
    case backups => exact h.flight.backups
    case diskOps => exact fun _ hc => .inr hc
    case order => exact h.flight.order
    case returned =>
      have hctx : Contexts.readCtx op = some op.ctx := by rw [Contexts.readCtx, hkind]
      refine (List.Perm.nodup_iff ?_).mp h.flight.returned
      show (dv.io.marking.map RdmaOp.ctx ++ dv.io.contexts.returned).Perm
        ((dv.io.marking.erase op).map RdmaOp.ctx ++ (dv.io.contexts.free ++ dv.io.contexts.diskOps ++
          (op :: dv.io.contexts.rdmaOps).filterMap Contexts.readCtx))
      rw [List.filterMap_cons_some hctx]
      refine (((List.perm_cons_erase hop).map RdmaOp.ctx).append_right _).trans ?_
      refine List.Perm.trans ?_ (List.perm_middle.symm.append_left _)
      exact List.perm_middle.symm
  · intro f p hdata
    rw [hnone] at hdata
    cases hdata

theorem postWrite (h : DeviceInv all dv tr) (hop : op ∈ dv.io.marking) (hkind : op.kind = .write)
    (hr : dv.io.store.pending op.serial = some r) {f : Nat → D} (hdata : r.data = some f) :
    DeviceInv all { dv with
      io.marking := dv.io.marking.erase op
      io.contexts := dv.io.contexts.postWrite op f
      io.bios := .backup op.ctx r.toPageRange :: dv.io.bios } tr := by
  have hnot := h.flight.marked_not_backup hop
  have hother : ∀ c, c ≠ op.ctx →
      (dv.io.contexts.postWrite op f).ctx c = dv.io.contexts.ctx c := by
    intro c hne
    exact Function.update_of_ne hne ..
  have hself : (dv.io.contexts.postWrite op f).ctx op.ctx =
      { dv.io.contexts.ctx op.ctx with rdmaBuf := f } := Function.update_self ..
  -- the new backup write comes first, and the older ones have their buffers
  have hbacking : Device.backing { dv with
      io.marking := dv.io.marking.erase op
      io.contexts := dv.io.contexts.postWrite op f
      io.bios := .backup op.ctx r.toPageRange :: dv.io.bios } =
      settled dv.disk (⟨r.toPageRange, f⟩ :: dv.io.bios.filterMap dv.io.written) := by
    have hold : ∀ b ∈ dv.io.bios, Traffic.written { dv.io with
        marking := dv.io.marking.erase op
        contexts := dv.io.contexts.postWrite op f
        bios := .backup op.ctx r.toPageRange :: dv.io.bios } b = dv.io.written b := by
      intro b hb
      refine h.flight.written_congr ?_ ?_ hb
      · intro c hc
        have hne : c ≠ op.ctx := fun heq => hnot (heq ▸ hc)
        exact congrArg RdmaCtx.rdmaBuf (hother c hne)
      · intro _ _
        rfl
    have hnew : Traffic.written { dv.io with
        marking := dv.io.marking.erase op
        contexts := dv.io.contexts.postWrite op f
        bios := .backup op.ctx r.toPageRange :: dv.io.bios } (.backup op.ctx r.toPageRange) =
        some ⟨r.toPageRange, f⟩ := by
      simp only [Traffic.written, hself]
    unfold Device.backing
    rw [List.filterMap_cons_some hnew, List.filterMap_congr hold]
  refine h.posts hop ?_ hr ?_ ?_
  · constructor
    case store => rfl
    case progress => rfl
    case marking => rfl
    case rdmaOps => rfl
    case completing => rfl
    case free => rfl
    case other => exact hother
    case own => exact ⟨f, hself⟩
    case buffer =>
      intro r' f' hr' hdata' j _
      rw [request_unique hr hr', hdata] at hdata'
      show ((dv.io.contexts.postWrite op f).ctx op.ctx).rdmaBuf j = f' j
      rw [hself, ← Option.some.inj hdata']
    case ends => rfl
    case pages =>
      intro n p write last hb
      exact (List.mem_cons.mp hb).resolve_left (by simp)
    case backups => exact h.flight.backups.cons op.ctx
    case diskOps => exact fun c hc => List.mem_cons.mp hc
    case order =>
      refine List.pairwise_cons.mpr ⟨?_, h.flight.order⟩
      intro b hb n p last heq _ hcov
      subst heq
      obtain ⟨-, r', hr', hp, hread⟩ := h.flight.pages n p false last hb
      have hne : n ≠ op.serial := by
        intro heq
        rw [heq] at hr'
        rw [request_unique hr hr', hdata] at hread
        cases hread
      exact hne (h.eq_of_covers hr' hr hp hcov)
    case returned =>
      have hctx : Contexts.readCtx op = none := by rw [Contexts.readCtx, hkind]
      refine (List.Perm.nodup_iff ?_).mp h.flight.returned
      show (dv.io.marking.map RdmaOp.ctx ++ dv.io.contexts.returned).Perm
        ((dv.io.marking.erase op).map RdmaOp.ctx ++
          (dv.io.contexts.free ++ op.ctx :: dv.io.contexts.diskOps ++
            (op :: dv.io.contexts.rdmaOps).filterMap Contexts.readCtx))
      rw [List.filterMap_cons_none hctx]
      refine (((List.perm_cons_erase hop).map RdmaOp.ctx).append_right _).trans ?_
      refine List.perm_middle.symm.trans (List.Perm.append_left _ ?_)
      exact List.perm_middle.symm.append_right (dv.io.contexts.rdmaOps.filterMap Contexts.readCtx)
  · intro p hp
    rw [hbacking]
    exact settled_cons_of_not_covers fun hcov => hp ⟨by simp [hdata], hcov⟩
  · intro f' p hdata' hp
    rw [hdata] at hdata'
    rw [hbacking, ← Option.some.inj hdata']
    exact settled_cons_of_covers hp

/-- `rdma_on` is found off: the context goes back. -/
theorem left_giveUp {io : Traffic D} (h : Flight all io) (hop : op ∈ io.marking) :
    Left all io op { io with
      marking := io.marking.erase op
      contexts := io.contexts.giveUp op.ctx } := by
  constructor
  case store => rfl
  case progress => rfl
  case bios => rfl
  case diskOps => rfl
  case sublist =>
    exact (List.erase_sublist.append_right io.contexts.rdmaOps).append_right _
  case marking =>
    intro o
    show o ∈ io.marking.erase op ↔ _
    rw [h.apart.1.mem_erase_iff, and_comm]
  case rdmaOps =>
    intro o
    refine ⟨fun ho => ⟨ho, ?_⟩, And.left⟩
    intro heq
    exact h.not_marking_of_posted (heq ▸ ho) hop
  case completing =>
    intro e
    refine ⟨fun he => ⟨he, ?_⟩, And.left⟩
    intro heq
    exact h.not_busy_of_completing he (heq ▸ Traffic.mem_busy.mpr (.inl hop))
  case other => exact fun c hne => Function.update_of_ne hne ..
  case idle =>
    show ((io.contexts.giveUp op.ctx).ctx op.ctx).inFlight = .idle
    simp [Contexts.giveUp]
  case buffer =>
    intro c hc
    have hne : c ≠ op.ctx := fun heq => h.marked_not_backup hop (heq ▸ hc)
    exact congrArg RdmaCtx.rdmaBuf (Function.update_of_ne hne ..)
  case returned =>
    refine (List.Perm.nodup_iff ?_).mp h.returned
    show (io.marking.map RdmaOp.ctx ++ io.contexts.returned).Perm
      ((io.marking.erase op).map RdmaOp.ctx ++ op.ctx :: io.contexts.returned)
    refine (((List.perm_cons_erase hop).map RdmaOp.ctx).append_right _).trans ?_
    exact List.perm_middle.symm
  case free =>
    intro c hc
    cases List.mem_cons.mp hc with
    | inl heq =>
        obtain ⟨r, -, hheld⟩ := h.held op (Traffic.mem_ops.mpr (.inl hop))
        exact heq ▸ hheld.known
    | inr hc => exact h.free c hc

theorem post (h : DeviceInv all dv tr) (hok : dv.careful (.post op)) (hs : dv.post op = some dv') :
    DeviceInv all dv' tr := by
  unfold Device.post at hs
  split at hs
  case isFalse => cases hs
  case isTrue hop =>
    split at hs
    case isTrue =>
      split at hs
      case h_1 hkind =>
        simp only [Option.some.injEq] at hs
        rw [← hs]
        exact h.postRead hop hkind
      case h_2 hkind =>
        split at hs
        case h_1 => cases hs
        case h_2 r hr =>
          simp only [Option.map_eq_some_iff] at hs
          obtain ⟨f, hdata, rfl⟩ := hs
          exact h.postWrite hop hkind hr hdata
    case isFalse hoff =>
      simp only [Option.some.injEq] at hs
      obtain ⟨r, hr, -⟩ := h.flight.held op (Traffic.mem_ops.mpr (.inl hop))
      have hmove := h.giveUp (Traffic.mem_ops.mpr (.inl hop)) (left_giveUp h.flight hop)
        (fun hposted => absurd hop (h.flight.not_marking_of_posted hposted)) hr
        fun hdata => hok r hr hdata (by simpa using hoff)
      rw [← hs]
      have hr' : ({ dv.io with marking := dv.io.marking.erase op } : Traffic D).store.pending
        op.serial = some r := hr
      rw [Traffic.stackbd_eq hr']
      exact hmove

end DeviceInv

end Memtrade.Infiniswap
