import Memtrade.Infiniswap.DeviceTransfers

/-!
# Completions of the block device

RDMA operations and disk operations complete, and requests end.
-/

namespace Memtrade.Infiniswap

variable {D : Type} {all : List CtxId} {dv dv' : Device D} {tr : List (IoEvent D)}
  {io : Traffic D} {op op' : RdmaOp CtxId} {r r' : IoRequest D} {n : Nat} {c : CtxId}
  {e : Completion} {evs : List (IoEvent D)}

namespace Flight

theorem rdmaOps_nodup (h : Flight all io) : io.contexts.rdmaOps.Nodup := h.apart.2.1

theorem completing_nodup (h : Flight all io) : io.completing.Nodup := h.apart.2.2.1.of_map

/-- A context whose write has landed is not marked any more. -/
theorem idle_of_completing (h : Flight all io) (he : e ∈ io.completing) :
    (io.contexts.ctx e.op.ctx).inFlight = .idle := by
  by_contra hne
  obtain ⟨o, ho, hctx⟩ := h.marked _ hne
  have hsame := h.eq_of_ctx (Traffic.mem_ops_of_busy ho) (Traffic.mem_ops_of_completing he) hctx
  exact h.not_busy_of_completing he (hsame ▸ ho)

/-- An RDMA operation leaves with the contexts that `contexts` describes. -/
theorem left_posted (h : Flight all io) (hop : op ∈ io.contexts.rdmaOps)
    (contexts : Contexts CtxId D) (flushed : List (RdmaOp CtxId))
    (hsub : contexts.rdmaOps.Sublist io.contexts.rdmaOps)
    (hmem : ∀ o, o ∈ contexts.rdmaOps ↔ o ∈ io.contexts.rdmaOps ∧ o ≠ op)
    (hdisk : contexts.diskOps = io.contexts.diskOps)
    (hother : ∀ c, c ≠ op.ctx → contexts.ctx c = io.contexts.ctx c)
    (hidle : (contexts.ctx op.ctx).inFlight = .idle)
    (hbuf : ∀ c ∈ io.contexts.diskOps, (contexts.ctx c).rdmaBuf = (io.contexts.ctx c).rdmaBuf)
    (hreturned : contexts.returned.Subperm io.contexts.returned)
    (hfree : ∀ c ∈ contexts.free, c = op.ctx ∨ c ∈ io.contexts.free) :
    Left all io op { io with contexts := contexts, flushed := flushed } where
  store := rfl
  progress := rfl
  bios := rfl
  diskOps := hdisk
  sublist := (hsub.append_left _).append_right _
  marking := by
    intro o
    refine ⟨fun ho => ⟨ho, ?_⟩, And.left⟩
    intro heq
    exact h.not_marking_of_posted hop (heq ▸ ho)
  rdmaOps := hmem
  completing := by
    intro e
    refine ⟨fun he => ⟨he, ?_⟩, And.left⟩
    intro heq
    exact h.not_busy_of_completing he (heq ▸ Traffic.mem_busy.mpr (.inr hop))
  other := hother
  idle := hidle
  buffer := hbuf
  returned := nodup_of_subperm ((List.subperm_append_left _).mpr hreturned) h.returned
  free := by
    intro c hc
    cases hfree c hc with
    | inl heq =>
        obtain ⟨r, -, hheld⟩ := h.held op (Traffic.mem_ops.mpr (.inr (.inl hop)))
        exact heq ▸ hheld.known
    | inr hold => exact h.free c hold

/-- A write has landed. -/
theorem landed (h : Flight all io) (hop : op ∈ io.contexts.rdmaOps) (hkind : op.kind = .write)
    (gen : Nat) (flushed : List (RdmaOp CtxId)) :
    Flight all { io with
      contexts := io.contexts.writeIdle op
      flushed := flushed
      completing := ⟨op, gen, none⟩ :: io.completing } := by
  have hmem := Traffic.mem_ops.mpr (.inr (.inl hop))
  have hsub : ∀ o, o ∈ io.marking ++ io.contexts.rdmaOps.erase op ↔ o ∈ io.busy ∧ o ≠ op := by
    intro o
    rw [List.mem_append, h.rdmaOps_nodup.mem_erase_iff, Traffic.mem_busy]
    constructor
    · intro ho
      cases ho with
      | inl hm =>
          refine ⟨.inl hm, ?_⟩
          intro heq
          exact h.not_marking_of_posted hop (heq ▸ hm)
      | inr hp => exact ⟨.inr hp.2, hp.1⟩
    · intro ho
      exact ho.1.imp_right fun hp => ⟨ho.2, hp⟩
  have hops : (io.marking ++ io.contexts.rdmaOps.erase op ++ op :: io.completing.map Completion.op).Perm
      io.ops := by
    refine List.perm_middle.trans ?_
    rw [← List.cons_append]
    refine List.Perm.append_right _ (List.perm_middle.symm.trans ?_)
    exact (List.perm_cons_erase hop).symm.append_left _
  have hother : ∀ {c}, c ≠ op.ctx → (io.contexts.writeIdle op).ctx c = io.contexts.ctx c :=
    fun hne => Function.update_of_ne hne ..
  have hself : (io.contexts.writeIdle op).ctx op.ctx =
      { io.contexts.ctx op.ctx with inFlight := .idle } := Function.update_self ..
  have hne_ctx : ∀ {o}, o ∈ io.busy → o ≠ op → o.ctx ≠ op.ctx := fun ho hne heq =>
    hne (h.eq_of_ctx (Traffic.mem_ops_of_busy ho) hmem heq)
  constructor
  case held =>
    intro o ho
    obtain ⟨r, hr, hheld⟩ := h.held o (hops.mem_iff.mp ho)
    refine ⟨r, hr, ?_⟩
    show Held all ((io.contexts.writeIdle op).ctx o.ctx) o r
    by_cases heq : o.ctx = op.ctx
    · rw [heq, hself, ← heq]
      exact ⟨hheld.single, hheld.offset, hheld.len, hheld.server, hheld.known, hheld.req, hheld.read,
        hheld.write⟩
    · rw [hother heq]
      exact hheld
  case busy =>
    intro o ho
    have hold := (hsub o).mp ho
    show ((io.contexts.writeIdle op).ctx o.ctx).inFlight = _ ∧
      ((io.contexts.writeIdle op).ctx o.ctx).chunkIndex = _
    rw [hother (hne_ctx hold.1 hold.2)]
    exact h.busy o hold.1
  case buffer =>
    intro o ho r f hr hdata j hj
    have hold := (h.rdmaOps_nodup.mem_erase_iff).mp ho
    show ((io.contexts.writeIdle op).ctx o.ctx).rdmaBuf j = f j
    rw [hother (hne_ctx (Traffic.mem_busy.mpr (.inr hold.2)) hold.1)]
    exact h.buffer o hold.2 r f hr hdata j hj
  case completing =>
    intro e he
    cases List.mem_cons.mp he with
    | inl heq =>
        subst heq
        refine ⟨hkind, ?_⟩
        intro l hl
        cases hl
    | inr hold => exact h.completing e hold
  case ctxs => exact (hops.map _).nodup_iff.mpr h.ctxs
  case owners =>
    refine (List.Perm.nodup_iff ?_).mpr h.owners
    exact (hops.map _).append_right _
  case submitting =>
    intro n φ hφ
    have hold := h.submitting n φ hφ
    refine ⟨?_, hold.2⟩
    intro hmem
    exact hold.1 (((hops.map RdmaOp.serial).append_right _).mem_iff.mp hmem)
  case sizes => exact h.sizes
  case marked =>
    intro c hc
    have hne : c ≠ op.ctx := by
      intro heq
      subst heq
      exact hc (congrArg RdmaCtx.inFlight hself)
    have hc' : (io.contexts.ctx c).inFlight ≠ .idle := by
      rw [← hother hne]
      exact hc
    obtain ⟨o, ho, hctx⟩ := h.marked c hc'
    refine ⟨o, (hsub o).mpr ⟨ho, ?_⟩, hctx⟩
    intro heq
    exact hne (heq ▸ hctx).symm
  case returned =>
    have hread : Contexts.readCtx op = none := by rw [Contexts.readCtx, hkind]
    have hreads := Contexts.filterMap_erase hop
    rw [hread] at hreads
    refine (List.Perm.nodup_iff ?_).mp h.returned
    exact (hreads.append_left (io.contexts.free ++ io.contexts.diskOps)).append_left _
  case backups => exact h.backups
  case pages => exact h.pages
  case order => exact h.order
  case free => exact h.free
  case disk => exact h.disk

theorem mem_replaced (h : Flight all io) {e' e'' : Completion} :
    e'' ∈ e' :: io.completing.erase e ↔ e'' = e' ∨ (e'' ∈ io.completing ∧ e'' ≠ e) := by
  rw [List.mem_cons, h.completing_nodup.mem_erase_iff, and_comm]

/-- `client_write_done` goes on. -/
theorem replace (h : Flight all io) (he : e ∈ io.completing) {e' : Completion} (hop : e'.op = e.op)
    (hloop : e'.op.kind = .write ∧ ∀ l, e'.loop = some l → l.array = ⟨e'.op.chunk, e'.gen⟩ ∧
      e'.op.offset ≤ l.page ∧ l.page + l.left = e'.op.offset + e'.op.len) :
    Flight all { io with completing := e' :: io.completing.erase e } := by
  have hops : (io.busy ++ (e' :: io.completing.erase e).map Completion.op).Perm io.ops := by
    refine List.Perm.append_left _ ?_
    rw [List.map_cons, hop]
    exact ((List.perm_cons_erase he).map Completion.op).symm
  constructor
  case held => exact fun o ho => h.held o (hops.mem_iff.mp ho)
  case busy => exact h.busy
  case buffer => exact h.buffer
  case completing =>
    intro e'' he''
    cases h.mem_replaced.mp he'' with
    | inl heq => exact heq ▸ hloop
    | inr hold => exact h.completing e'' hold.1
  case ctxs => exact (hops.map _).nodup_iff.mpr h.ctxs
  case owners => exact ((hops.map _).append_right _).nodup_iff.mpr h.owners
  case submitting =>
    intro n φ hφ
    have hold := h.submitting n φ hφ
    refine ⟨?_, hold.2⟩
    intro hmem
    exact hold.1 (((hops.map RdmaOp.serial).append_right _).mem_iff.mp hmem)
  case sizes => exact h.sizes
  case marked => exact h.marked
  case returned => exact h.returned
  case backups => exact h.backups
  case pages => exact h.pages
  case order => exact h.order
  case free => exact h.free
  case disk => exact h.disk

end Flight

/-! ## RDMA reads -/

namespace DeviceInv

theorem readDone (h : DeviceInv all dv tr) (hop : op ∈ dv.io.contexts.rdmaOps)
    (hhandled : dv.handled op.ctx.server ≠ some op.ctx) (hkind : op.kind = .read) :
    DeviceInv all (dv.readDone op).1 (tr ++ (dv.readDone op).2) := by
  have hmem := Traffic.mem_ops.mpr (.inr (.inl hop))
  obtain ⟨r, hr, hheld⟩ := h.flight.held op hmem
  have hnone := hheld.read hkind
  have hleft : Left all dv.io op { dv.io with
      contexts := ((dv.io.contexts.modify op.ctx fun x =>
        { x with rdmaBuf := overlay x.rdmaBuf 0 1 fun _ => dv.remote op.chunk op.offset }).clientReadDone
          op).1
      flushed := dv.io.flushed.erase op } := by
    refine h.flight.left_posted hop _ _ List.erase_sublist ?_ rfl ?_ ?_ ?_ ?_ ?_
    · intro o
      show o ∈ dv.io.contexts.rdmaOps.erase op ↔ _
      rw [h.flight.rdmaOps_nodup.mem_erase_iff, and_comm]
    · intro c hne
      simp [Contexts.clientReadDone, hne]
    · simp [Contexts.clientReadDone]
    · intro c hc
      have hne : c ≠ op.ctx := fun heq => h.flight.read_not_backup hop hkind (heq ▸ hc)
      simp [Contexts.clientReadDone, hne]
    · exact (Contexts.returned_clientReadDone hop hkind).subperm
    · exact fun c hc => List.mem_cons.mp hc
  have hreq : ((dv.io.contexts.modify op.ctx fun x =>
      { x with rdmaBuf := overlay x.rdmaBuf 0 1 fun _ => dv.remote op.chunk op.offset }).clientReadDone
        op).2 = some op.serial := by
    simp [Contexts.clientReadDone, hheld.req]
  have hdone := h.complete hmem (h.flight.not_marking_of_posted hop) hleft (fun _ => hhandled)
    (dv.remote op.chunk op.offset) ?_ ?_
  · simp only [Device.readDone, hreq, Device.finishHeld, Device.finish]
    exact hdone
  · intro r' hr' _
    exact h.copies.reading op (Traffic.mem_busy.mpr (.inr hop)) hkind r' hr'
  · intro r' p chunk hr' hdata
    rw [request_unique hr hr'] at hdata
    exact absurd hnone hdata

/-! ## RDMA writes -/

/-- Operations to the same remote chunk are for the same chunk of the device. -/
theorem slot_unique (h : DeviceInv all dv tr) {chunk : Chunk} {g g' : Nat}
    (hg : dv.maps.chunkMap chunk = some g ∨ dv.maps.evicting chunk = some g)
    (hg' : dv.maps.chunkMap chunk = some g' ∨ dv.maps.evicting chunk = some g') : g = g' := by
  cases hmap : dv.maps.chunkMap chunk with
  | none =>
      rw [hmap] at hg hg'
      have hev := hg.resolve_left (by simp)
      rw [hg'.resolve_left (by simp)] at hev
      exact (Option.some.inj hev).symm
  | some k =>
      have hev : dv.maps.evicting chunk = none := h.routing.apart chunk (by simp [hmap])
      rw [hmap, hev] at hg hg'
      have hk := Option.some.inj (hg.resolve_right (by simp))
      have hk' := Option.some.inj (hg'.resolve_right (by simp))
      exact hk.symm.trans hk'

/-- Where a write lands on its remote chunk, it lands on the pages of its request. -/
theorem covers_of_landing (h : DeviceInv all dv tr) (hop : op ∈ dv.io.busy)
    (hr : dv.io.store.pending op.serial = some r) {p : Nat}
    (hg : dv.maps.chunkMap op.chunk = some (p / pagesPerChunk) ∨
      dv.maps.evicting op.chunk = some (p / pagesPerChunk))
    (hp : op.offset ≤ p % pagesPerChunk ∧ p % pagesPerChunk < op.offset + op.len) : r.Covers p := by
  have hheld := h.flight.held_of (Traffic.mem_ops_of_busy hop) hr
  have hslot := h.slot_unique hg (h.slots.busy op hop r hr)
  rw [hheld.offset, hheld.len] at hp
  exact covers_of_offset hslot hp.1 hp.2

theorem writeLanded (h : DeviceInv all dv tr) (hop : op ∈ dv.io.contexts.rdmaOps)
    (hhandled : dv.handled op.ctx.server ≠ some op.ctx) (hkind : op.kind = .write) :
    DeviceInv all (dv.writeLanded op) tr := by
  have hbusy := Traffic.mem_busy.mpr (.inr hop)
  have hmem := Traffic.mem_ops_of_busy hbusy
  obtain ⟨r, hr, hheld⟩ := h.flight.held op hmem
  obtain ⟨hdata, hptr, -⟩ := hheld.write hkind
  have heq : dv.writeLanded op = { dv with
      remote := Function.update dv.remote op.chunk
        (overlay (dv.remote op.chunk) op.offset op.len (dv.io.contexts.ctx op.ctx).rdmaBuf)
      io := { dv.io with
        contexts := dv.io.contexts.writeIdle op
        flushed := dv.io.flushed.erase op
        completing := ⟨op, dv.gen op.chunk, none⟩ :: dv.io.completing } } := by
    simp only [Device.writeLanded, hptr]
  rw [heq]
  have hsub : ∀ {o}, o ∈ dv.io.marking ++ dv.io.contexts.rdmaOps.erase op → o ∈ dv.io.busy :=
    fun ho => (List.erase_sublist.append_left _).subset ho
  have hne : ∀ {o}, o ∈ dv.io.marking ++ dv.io.contexts.rdmaOps.erase op → o ≠ op := by
    intro o ho heq
    subst heq
    cases List.mem_append.mp ho with
    | inl hm => exact h.flight.not_marking_of_posted hop hm
    | inr hp => exact (h.flight.rdmaOps_nodup.mem_erase_iff.mp hp).1 rfl
  have hslot := h.slots.busy op hbusy r hr
  -- only pages of the request have changed
  have hremote : ∀ {chunk p}, (dv.maps.chunkMap chunk = some (p / pagesPerChunk) ∨
      dv.maps.evicting chunk = some (p / pagesPerChunk)) → ¬ r.Covers p →
      Function.update dv.remote op.chunk (overlay (dv.remote op.chunk) op.offset op.len
        (dv.io.contexts.ctx op.ctx).rdmaBuf) chunk (p % pagesPerChunk) =
      dv.remote chunk (p % pagesPerChunk) := by
    intro chunk p hg hp
    by_cases hchunk : chunk = op.chunk
    · subst hchunk
      rw [Function.update_self]
      exact overlay_of_not_mem fun hin => hp (h.covers_of_landing hbusy hr hg hin)
    · rw [Function.update_of_ne hchunk]
  have hbacking : Device.backing { dv with
      remote := Function.update dv.remote op.chunk
        (overlay (dv.remote op.chunk) op.offset op.len (dv.io.contexts.ctx op.ctx).rdmaBuf)
      io := { dv.io with
        contexts := dv.io.contexts.writeIdle op
        flushed := dv.io.flushed.erase op
        completing := ⟨op, dv.gen op.chunk, none⟩ :: dv.io.completing } } = dv.backing := by
    refine Device.backing_congr rfl rfl ?_
    intro b hb
    refine h.flight.written_congr ?_ ?_ hb
    · intro c _
      show ((dv.io.contexts.writeIdle op).ctx c).rdmaBuf = _
      by_cases hc : c = op.ctx
      · simp [Contexts.writeIdle, hc]
      · simp [Contexts.writeIdle, hc]
    · intro _ _
      rfl
  refine ⟨?_, h.flight.landed hop hkind _ _, h.routing, ?_, ?_⟩
  · rw [hbacking]
    exact h.current
  · constructor
    case busy => exact fun o ho => h.slots.busy o (hsub ho)
    case completing =>
      intro e he r' hr' hgen g hg
      cases List.mem_cons.mp he with
      | inl heq =>
          subst heq
          rw [request_unique hr hr']
          exact h.slot_unique hg hslot
      | inr hold => exact h.slots.completing e hold r' hr' hgen g hg
    case gens =>
      intro e he
      cases List.mem_cons.mp he with
      | inl heq =>
          subst heq
          exact Nat.le_refl _
      | inr hold => exact h.slots.gens e hold
    case waited => exact fun o ho => h.slots.waited o (hsub ho)
    case dealt => exact fun o ho => h.slots.dealt o (hsub ho)
    case handling =>
      intro server done c inFlight req hphase
      have hold := h.slots.handling server done c inFlight req hphase
      refine ⟨hold.1, ?_⟩
      intro hne
      obtain ⟨o, ho, hctx, hrest⟩ := hold.2 hne
      refine ⟨o, h.flight.rdmaOps_nodup.mem_erase_iff.mpr ⟨?_, ho⟩, hctx, hrest⟩
      intro heq
      refine hhandled ?_
      have hphase' : dv.maps.phase server = .handling done c inFlight req := hphase
      rw [← heq, hctx, hold.1, Device.handled, hphase']
  · constructor
    case remote =>
      rw [hbacking]
      intro p chunk hroute hbit hw
      refine (hremote (.inl (h.routing.routed _ _ hroute)) ?_).trans
        (h.copies.remote p chunk hroute hbit hw)
      exact fun hp => hw ⟨op.serial, r, hr, hdata, hp⟩
    case accounted =>
      intro n r' p chunk hr' hdata' hp hroute hbit
      cases h.copies.accounted n r' p chunk hr' hdata' hp hroute hbit with
      | inl hφ => exact .inl hφ
      | inr hwas =>
          cases hwas with
          | inl ho =>
              obtain ⟨o, ho, hserial, hchunk⟩ := ho
              by_cases heq : o = op
              · subst heq
                refine .inr (.inr ⟨_, List.mem_cons_self, hserial, hchunk, ?_⟩)
                show dv.gen o.chunk = dv.gen chunk
                rw [hchunk]
                rfl
              · refine .inr (.inl ⟨o, ?_, hserial, hchunk⟩)
                cases Traffic.mem_busy.mp ho with
                | inl hm => exact List.mem_append_left _ hm
                | inr hp =>
                    exact List.mem_append_right _
                      (h.flight.rdmaOps_nodup.mem_erase_iff.mpr ⟨heq, hp⟩)
          | inr he =>
              obtain ⟨e, he, hrest⟩ := he
              exact .inr (.inr ⟨e, List.mem_cons_of_mem _ he, hrest⟩)
    case handed =>
      rw [hbacking]
      exact h.copies.handed
    case landed =>
      intro e he r' f hr' hdata' hgen j hj
      cases List.mem_cons.mp he with
      | inl heq =>
          subst heq
          have hrr := request_unique hr hr'
          rw [hrr] at hdata' hj
          show Function.update dv.remote op.chunk _ op.chunk (op.offset + j) = f j
          rw [Function.update_self, overlay_of_mem ⟨Nat.le_add_right _ _, by rw [hheld.len]; omega⟩,
            Nat.add_sub_cancel_left]
          exact h.flight.buffer op hop r f hr hdata' j hj
      | inr hold =>
          -- an older write to the same remote chunk has landed on other pages
          have heops := Traffic.mem_ops_of_completing hold
          have hheld' := h.flight.held_of heops hr'
          have hlanded := h.copies.landed e hold r' f hr' hdata' hgen j hj
          have hpage := page_of_single hheld'.single (p := r'.start + j)
            ⟨Nat.le_add_right _ _, Nat.add_lt_add_left hj _⟩
          rw [Nat.add_sub_cancel_left, ← hheld'.offset] at hpage
          show Function.update dv.remote op.chunk _ e.op.chunk (e.op.offset + j) = f j
          by_cases hchunk : e.op.chunk = op.chunk
          · have hsame : gbIndex r = gbIndex r' :=
              h.slots.completing e hold r' hr' hgen _ (hchunk ▸ hslot)
            rw [← hpage.2, ← hlanded, ← hpage.2]
            refine hremote ?_ ?_
            · rw [hpage.1, ← hsame, hchunk]
              exact hslot
            · intro hp
              have hserial := h.eq_of_covers hr hr' hp
                ⟨Nat.le_add_right _ _, Nat.add_lt_add_left hj _⟩
              have hsame := h.flight.eq_of_serial hmem heops hserial
              exact h.flight.not_busy_of_completing hold (hsame ▸ hbusy)
          · rw [Function.update_of_ne hchunk]
            exact hlanded
    case reading =>
      rw [hbacking]
      intro o ho hkind' r' hr'
      have hold := hsub ho
      have hheld' := h.flight.held_of (Traffic.mem_ops_of_busy hold) hr'
      have hread := h.copies.reading o hold hkind' r' hr'
      refine Eq.trans ?_ hread
      show Function.update dv.remote op.chunk _ o.chunk o.offset = _
      rw [hheld'.offset]
      refine hremote (h.slots.busy o hold r' hr') ?_
      intro hp
      have hstart := PageRange.covers_start (h.current.pos o.serial r' hr')
      have hserial := h.eq_of_covers hr' hr hstart hp
      exact hne ho (h.flight.eq_of_serial (Traffic.mem_ops_of_busy hold) hmem hserial)

end DeviceInv

/-! ## `client_write_done` -/

namespace Device

/-- A turn of a bitmap loop stays with the pages of its request. -/
theorem within_of_step (dv : Device D) (change : BitVec 32 → Nat → BitVec 32) {l : GroupLoop}
    (hleft : l.left ≠ 0) :
    l.page ≤ (dv.groupStep change l).2.page ∧
      (dv.groupStep change l).2.page + (dv.groupStep change l).2.left = l.page + l.left := by
  unfold groupStep
  split
  · exact ⟨Nat.le_refl _, rfl⟩
  · show l.page ≤ l.page + 1 ∧ l.page + 1 + (l.left - 1) = l.page + l.left
    omega

/-- A turn of `IS_bitmap_group_set` sets the bit of its page at most. -/
theorem bitmapTest_of_set {l : GroupLoop} (hl : dv.unraced l) {chunk : Chunk} {i : Nat}
    (h : (dv.groupStep wordSet l).1.bitmapTest chunk i = true) :
    dv.bitmapTest chunk i = true ∨ (l.array = dv.bitmapG chunk ∧ i = l.page) := by
  rw [bitmapTest_groupStep hl] at h
  split at h
  case isTrue hcond =>
    rw [wordTest_set, Bool.or_eq_true, decide_eq_true_eq] at h
    cases h with
    | inl hold =>
        left
        rw [bitmapTest, ← hcond.2.1, ← hcond.2.2]
        exact hold
    | inr hmod => exact .inr ⟨hcond.2.1, by omega⟩
  case isFalse => exact .inl h

end Device

namespace DeviceInv

/-- `client_write_done` goes on, and sets bits of the pages of its request at most. -/
theorem goOnCompleting (h : DeviceInv all dv tr) (he : e ∈ dv.io.completing) (e' : Completion)
    (hop : e'.op = e.op) (hgen : e'.gen = e.gen)
    (hloop : ∀ l, e'.loop = some l → l.array = ⟨e.op.chunk, e.gen⟩ ∧
      e.op.offset ≤ l.page ∧ l.page + l.left = e.op.offset + e.op.len)
    {words : BitmapG → Nat → BitVec 32}
    (hbits : ∀ chunk i, ({ dv with words := words } : Device D).bitmapTest chunk i = true →
      dv.bitmapTest chunk i = true ∨ (dv.bitmapG chunk = ⟨e.op.chunk, e.gen⟩ ∧ e.op.offset ≤ i ∧
        i < e.op.offset + e.op.len)) :
    DeviceInv all { dv with
      words := words
      io := { dv.io with completing := e' :: dv.io.completing.erase e } } tr := by
  have hmem := Traffic.mem_ops_of_completing he
  obtain ⟨r, hr, hheld⟩ := h.flight.held e.op hmem
  have hkind := (h.flight.completing e he).1
  obtain ⟨hdata, -⟩ := hheld.write hkind
  have hold : ∀ {e''}, e'' ∈ e' :: dv.io.completing.erase e →
      ∃ e₀ ∈ dv.io.completing, e₀.op = e''.op ∧ e₀.gen = e''.gen := by
    intro e'' he''
    cases h.flight.mem_replaced.mp he'' with
    | inl heq => exact ⟨e, he, by rw [heq, hop], by rw [heq, hgen]⟩
    | inr hold => exact ⟨e'', hold.1, rfl, rfl⟩
  have hstays : ∀ e₀ ∈ dv.io.completing,
      ∃ e'' ∈ e' :: dv.io.completing.erase e, e''.op = e₀.op ∧ e''.gen = e₀.gen := by
    intro e₀ he₀
    by_cases heq : e₀ = e
    · exact ⟨e', List.mem_cons_self, by rw [heq, hop], by rw [heq, hgen]⟩
    · exact ⟨e₀, h.flight.mem_replaced.mpr (.inr ⟨he₀, heq⟩), rfl, rfl⟩
  -- a bit that has just been set is of a page of the request
  have hnew : ∀ {p chunk}, dv.maps.route (p / pagesPerChunk) = some chunk →
      dv.bitmapG chunk = ⟨e.op.chunk, e.gen⟩ → e.op.offset ≤ p % pagesPerChunk →
      p % pagesPerChunk < e.op.offset + e.op.len → r.Covers p := by
    intro p chunk hroute harray hle hlt
    have hchunk : chunk = e.op.chunk := congrArg BitmapG.chunk harray
    have hcur : dv.gen e.op.chunk = e.gen := by
      rw [← hchunk]
      exact congrArg BitmapG.gen harray
    have hslot := h.slots.completing e he r hr hcur (p / pagesPerChunk)
      (.inl (hchunk ▸ h.routing.routed _ _ hroute))
    rw [hheld.offset] at hle hlt
    rw [hheld.len] at hlt
    exact covers_of_offset hslot hle hlt
  refine ⟨h.current, h.flight.replace he hop ?_, h.routing, ?_, ?_⟩
  · rw [hop, hgen]
    exact ⟨hkind, hloop⟩
  · refine h.slots.sub (fun _ ho => ho) (fun e'' he'' => ?_) (fun _ _ _ hr' => hr')
      fun _ _ _ _ _ _ _ _ ho _ => ho
    exact hold he''
  · constructor
    case remote =>
      intro p chunk hroute hbit hw
      cases hbits chunk _ hbit with
      | inl hbit => exact h.copies.remote p chunk hroute hbit hw
      | inr hpage =>
          exact absurd ⟨e.op.serial, r, hr, hdata, hnew hroute hpage.1 hpage.2.1 hpage.2.2⟩ hw
    case accounted =>
      intro n r' p chunk hr' hdata' hp hroute hbit
      cases hbits chunk _ hbit with
      | inl hbit =>
          exact (h.copies.accounted n r' p chunk hr' hdata' hp hroute hbit).stays rfl
            (fun _ ho _ => ho) fun e₀ he₀ _ => hstays e₀ he₀
      | inr hpage =>
          have hcov := hnew hroute hpage.1 hpage.2.1 hpage.2.2
          have hserial := h.eq_of_covers hr hr' hcov hp
          refine .inr (.inr ⟨e', List.mem_cons_self, ?_, ?_, ?_⟩)
          · rw [hop, hserial]
          · rw [hop]
            exact (congrArg BitmapG.chunk hpage.1).symm
          · rw [hgen]
            exact (congrArg BitmapG.gen hpage.1).symm
    case handed => exact h.copies.handed
    case landed =>
      intro e'' he'' r' f hr' hdata' hcur j hj
      obtain ⟨e₀, he₀, hop₀, hgen₀⟩ := hold he''
      rw [← hop₀] at hr' hcur ⊢
      exact h.copies.landed e₀ he₀ r' f hr' hdata' (hgen₀ ▸ hcur) j hj
    case reading => exact h.copies.reading

/-- The last step of `client_write_done`. -/
theorem writeEnds (h : DeviceInv all dv tr) (he : e ∈ dv.io.completing) (left : D) :
    DeviceInv all
      (({ dv with
        io.completing := dv.io.completing.erase e
        io.contexts := (dv.io.contexts.writeEnd e.op.ctx).1 } : Device D).finishHeld
          (dv.io.contexts.ctx e.op.ctx).req left).1
      (tr ++ (({ dv with
        io.completing := dv.io.completing.erase e
        io.contexts := (dv.io.contexts.writeEnd e.op.ctx).1 } : Device D).finishHeld
          (dv.io.contexts.ctx e.op.ctx).req left).2) := by
  have hmem := Traffic.mem_ops_of_completing he
  have hnot := h.flight.not_busy_of_completing he
  obtain ⟨r, hr, hheld⟩ := h.flight.held e.op hmem
  obtain ⟨hdata, -⟩ := hheld.write (h.flight.completing e he).1
  have hleft : Left all dv.io e.op { dv.io with
      completing := dv.io.completing.erase e
      contexts := (dv.io.contexts.writeEnd e.op.ctx).1 } := by
    constructor
    case store => rfl
    case progress => rfl
    case bios => rfl
    case diskOps => rfl
    case sublist => exact (List.erase_sublist.map _).append_left _
    case marking =>
      intro o
      refine ⟨fun ho => ⟨ho, ?_⟩, And.left⟩
      intro heq
      exact hnot (heq ▸ Traffic.mem_busy.mpr (.inl ho))
    case rdmaOps =>
      intro o
      refine ⟨fun ho => ⟨ho, ?_⟩, And.left⟩
      intro heq
      exact hnot (heq ▸ Traffic.mem_busy.mpr (.inr ho))
    case completing =>
      intro e'
      show e' ∈ dv.io.completing.erase e ↔ _
      rw [h.flight.completing_nodup.mem_erase_iff, and_comm]
      refine and_congr_right ?_
      intro he'
      exact not_congr ⟨fun heq => by rw [heq], fun heq => h.flight.eq_of_completing he' he heq⟩
    case other => exact fun c hne => Function.update_of_ne hne ..
    case idle =>
      have hidle := h.flight.idle_of_completing he
      simpa [Contexts.writeEnd] using hidle
    case buffer =>
      intro c _
      by_cases hc : c = e.op.ctx
      · simp [Contexts.writeEnd, hc]
      · simp [Contexts.writeEnd, hc]
    case returned => exact h.flight.returned
    case free => exact h.flight.free
  have hnone := h.flight.progress_of_op hmem
  have hmarking : e.op ∉ dv.io.marking := fun hm => hnot (Traffic.mem_busy.mpr (.inl hm))
  rw [hheld.req]
  refine h.complete hmem hmarking hleft ?_ left ?_ ?_
  · intro hp
    exact absurd (Traffic.mem_busy.mpr (.inr hp)) hnot
  · intro r' hr' hread
    rw [request_unique hr hr'] at hread
    exact absurd hread hdata
  · intro r' p chunk hr' hdata' hp hroute hbit
    rw [request_unique hr hr'] at hdata' hp
    obtain ⟨f, hf⟩ := Option.ne_none_iff_exists'.mp hdata
    have hserials : e.op.serial ∉ dv.io.marking.map RdmaOp.serial := by
      intro hm
      obtain ⟨o, ho, hserial⟩ := List.mem_map.mp hm
      exact hmarking (h.flight.eq_of_serial (Traffic.mem_ops.mpr (.inl ho)) hmem hserial ▸ ho)
    rw [h.copies.handed e.op.serial r f p hr hf hnone hserials hp]
    -- the bit is set in the array of the mapping that the write has landed in
    obtain ⟨hchunk, hway⟩ :=
      h.flight.accounting hmem (h.copies.accounted e.op.serial r p chunk hr hdata hp hroute hbit)
    obtain ⟨e', he', hop, hgen⟩ := hway.resolve_left hnot
    have hsame := h.flight.eq_of_completing he' he hop
    subst hsame
    have hcur : dv.gen e'.op.chunk = e'.gen := by
      rw [hgen, hchunk]
      rfl
    have hpage := page_of_single hheld.single hp
    have hlanded := h.copies.landed e' he' r f hr hf hcur (p - r.start) (by
      have hcov := hp
      unfold PageRange.Covers at hcov
      omega)
    rw [hpage.2, ← hheld.offset]
    rw [hchunk] at hlanded
    exact hlanded

theorem writeDone (h : DeviceInv all dv tr) (he : e ∈ dv.io.completing)
    (hok : dv.mayComplete e) {left : D} (hs : dv.writeDone e left = some (dv', evs)) :
    DeviceInv all dv' (tr ++ evs) := by
  have hmem := Traffic.mem_ops_of_completing he
  obtain ⟨r, hr, hheld⟩ := h.flight.held e.op hmem
  obtain ⟨hkind, hloop⟩ := h.flight.completing e he
  obtain ⟨-, hptr, hoffset, hlen⟩ := hheld.write hkind
  unfold Device.writeDone at hs
  unfold Device.mayComplete at hok
  cases hl : e.loop with
  | none =>
      rw [hl] at hok
      simp only [hl, hptr, Option.map_some, Option.some.injEq, Prod.mk.injEq] at hs
      obtain ⟨rfl, rfl⟩ := hs
      rw [List.append_nil]
      refine h.goOnCompleting he { e with loop := some ⟨_, _, _, none⟩ } rfl rfl ?_
        fun _ _ hbit => .inl hbit
      intro l heq
      simp only [Option.some.injEq] at heq
      subst heq
      refine ⟨?_, Nat.le_of_eq hoffset.symm, by rw [hoffset, hlen]⟩
      rw [Device.bitmapG, hok]
  | some l =>
      rw [hl] at hok
      obtain ⟨harray, hle, hend⟩ := hloop l hl
      simp only [hl] at hs
      split at hs
      case isTrue =>
        simp only [Option.some.injEq] at hs
        have hends := h.writeEnds he left
        rw [hs] at hends
        exact hends
      case isFalse hleft =>
        simp only [Option.some.injEq, Prod.mk.injEq] at hs
        obtain ⟨rfl, rfl⟩ := hs
        rw [List.append_nil]
        have hnext := Device.within_of_step dv wordSet hleft
        rw [Device.groupStep_eq]
        refine h.goOnCompleting he { e with loop := some _ } rfl rfl ?_ ?_
        · intro l' heq
          rw [← Option.some.inj heq, Device.groupStep_array]
          exact ⟨harray, Nat.le_trans hle hnext.1, hnext.2.trans hend⟩
        · intro chunk i hbit
          rw [← Device.groupStep_eq] at hbit
          cases Device.bitmapTest_of_set hok hbit with
          | inl hbit => exact .inl hbit
          | inr hset =>
              refine .inr ⟨hset.1.symm.trans harray, ?_, ?_⟩
              · rw [hset.2]
                exact hle
              · rw [hset.2]
                omega

end DeviceInv

end Memtrade.Infiniswap
