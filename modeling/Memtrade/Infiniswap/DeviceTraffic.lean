import Memtrade.Infiniswap.DeviceInvariant

/-!
# Requests and operations of the block device

How the invariants of the traffic live through the moves that the steps of the device are made
of: a request begins or ends, goes to the disk, or an operation leaves. What the disk is going
to have changes only when a write is handed to it.
-/

namespace Memtrade.Infiniswap

variable {D : Type} {all : List CtxId} {io io' : Traffic D} {dv dv' : Device D}
  {op op' : RdmaOp CtxId} {r : IoRequest D} {n : Nat} {c : CtxId}

/-! ## Operations and their owners -/

namespace Traffic

theorem mem_ops : op ∈ io.ops ↔
    op ∈ io.marking ∨ op ∈ io.contexts.rdmaOps ∨ ∃ e ∈ io.completing, e.op = op := by
  simp [ops, busy]

theorem mem_busy : op ∈ io.busy ↔ op ∈ io.marking ∨ op ∈ io.contexts.rdmaOps := List.mem_append

theorem mem_ops_of_busy (h : op ∈ io.busy) : op ∈ io.ops := List.mem_append_left _ h

theorem mem_ops_of_completing {e : Completion} (h : e ∈ io.completing) : e.op ∈ io.ops :=
  List.mem_append_right _ (List.mem_map_of_mem h)

theorem serial_mem_owned (h : op ∈ io.ops) : op.serial ∈ io.owned :=
  List.mem_append_left _ (List.mem_map_of_mem h)

end Traffic

namespace Flight

/-- Operations are known by their contexts. -/
theorem eq_of_ctx (h : Flight all io) (hop : op ∈ io.ops) (hop' : op' ∈ io.ops)
    (heq : op.ctx = op'.ctx) : op = op' :=
  List.inj_on_of_nodup_map h.ctxs hop hop' heq

/-- Operations are known by their requests. -/
theorem eq_of_serial (h : Flight all io) (hop : op ∈ io.ops) (hop' : op' ∈ io.ops)
    (heq : op.serial = op'.serial) : op = op' :=
  List.inj_on_of_nodup_map (List.nodup_append.mp h.owners).1 hop hop' heq

/-- No operation is listed twice, or in two places. -/
theorem apart (h : Flight all io) : io.marking.Nodup ∧ io.contexts.rdmaOps.Nodup ∧
    (io.completing.map Completion.op).Nodup ∧ List.Disjoint io.marking io.contexts.rdmaOps ∧
    List.Disjoint io.busy (io.completing.map Completion.op) := by
  have hops : io.ops.Nodup := h.ctxs.of_map
  unfold Traffic.ops at hops
  have hbusy := List.nodup_append'.mp hops
  have hmarking := List.nodup_append'.mp hbusy.1
  exact ⟨hmarking.1, hmarking.2.1, hbusy.2.1, hmarking.2.2, hbusy.2.2⟩

theorem eq_of_completing (h : Flight all io) {e e' : Completion} (he : e ∈ io.completing)
    (he' : e' ∈ io.completing) (heq : e.op = e'.op) : e = e' :=
  List.inj_on_of_nodup_map h.apart.2.2.1 he he' heq

theorem not_busy_of_completing (h : Flight all io) {e : Completion} (he : e ∈ io.completing) :
    e.op ∉ io.busy := fun hmem => h.apart.2.2.2.2 hmem (List.mem_map_of_mem he)

theorem not_marking_of_posted (h : Flight all io) (hop : op ∈ io.contexts.rdmaOps) :
    op ∉ io.marking := fun hmem => h.apart.2.2.2.1 hmem hop

theorem not_ends (h : Flight all io) (hop : op ∈ io.ops) :
    op.serial ∉ io.bios.filterMap Bio.ends? := by
  intro hmem
  exact (List.nodup_append.mp h.owners).2.2 _ (List.mem_map_of_mem hop) _ hmem rfl

theorem progress_of_op (h : Flight all io) (hop : op ∈ io.ops) : io.progress op.serial = none := by
  cases hφ : io.progress op.serial with
  | none => rfl
  | some φ => exact absurd (Traffic.serial_mem_owned hop) (h.submitting op.serial φ hφ).1

theorem progress_of_ends (h : Flight all io) (hn : n ∈ io.bios.filterMap Bio.ends?) :
    io.progress n = none := by
  cases hφ : io.progress n with
  | none => rfl
  | some φ => exact absurd (List.mem_append_right _ hn) (h.submitting n φ hφ).1

/-- The request of an operation, and its context. -/
theorem held_of (h : Flight all io) (hop : op ∈ io.ops) (hr : io.store.pending op.serial = some r) :
    Held all (io.contexts.ctx op.ctx) op r := by
  obtain ⟨r', hr', hheld⟩ := h.held op hop
  rw [hr] at hr'
  exact Option.some.inj hr' ▸ hheld

theorem marked_not_returned (h : Flight all io) (hop : op ∈ io.marking) :
    op.ctx ∉ io.contexts.returned := by
  intro hmem
  exact (List.nodup_append.mp h.returned).2.2 _ (List.mem_map_of_mem hop) _ hmem rfl

/-- No backup write uses the buffer of a read. -/
theorem read_not_backup (h : Flight all io) (hop : op ∈ io.contexts.rdmaOps)
    (hkind : op.kind = .read) : op.ctx ∉ io.contexts.diskOps := by
  intro hmem
  have hreturned := (List.nodup_append.mp h.returned).2.1
  have hread : op.ctx ∈ io.contexts.rdmaOps.filterMap Contexts.readCtx :=
    List.mem_filterMap.mpr ⟨op, hop, by simp [Contexts.readCtx, hkind]⟩
  exact (List.nodup_append.mp hreturned).2.2 _ (List.mem_append_right _ hmem) _ hread rfl

theorem marked_not_backup (h : Flight all io) (hop : op ∈ io.marking) :
    op.ctx ∉ io.contexts.diskOps := by
  intro hmem
  exact h.marked_not_returned hop (List.mem_append_left _ (List.mem_append_right _ hmem))

theorem backup_mem (h : Flight all io) {range : PageRange} (hb : Bio.backup c range ∈ io.bios) :
    c ∈ io.contexts.diskOps :=
  h.backups.subset (List.mem_filterMap.mpr ⟨_, hb, rfl⟩)

end Flight

/-! ## What the disk is going to have -/

theorem Traffic.pageData_of {p : Nat} {f : Nat → D} (hr : io.store.pending n = some r)
    (hdata : r.data = some f) : io.pageData n p = some (f (p - r.start)) := by
  simp [Traffic.pageData, hr, hdata]

/-- Nothing changes for the operations that are handed to the disk. -/
theorem Device.backing_congr (hdisk : dv'.disk = dv.disk) (hbios : dv'.io.bios = dv.io.bios)
    (hwritten : ∀ b ∈ dv.io.bios, dv'.io.written b = dv.io.written b) :
    dv'.backing = dv.backing := by
  unfold Device.backing
  rw [hdisk, hbios, List.filterMap_congr hwritten]

/-- An outstanding operation writes the same with other contexts and requests, if its own ones
are left alone. -/
theorem Flight.written_congr (h : Flight all io)
    (hbuf : ∀ c ∈ io.contexts.diskOps, (io'.contexts.ctx c).rdmaBuf = (io.contexts.ctx c).rdmaBuf)
    (hpending : ∀ n ∈ io.bios.filterMap Bio.ends?, io'.store.pending n = io.store.pending n)
    {b : Bio} (hb : b ∈ io.bios) : io'.written b = io.written b := by
  cases b with
  | backup c range =>
      simp only [Traffic.written]
      rw [hbuf c (h.backup_mem hb)]
  | page n p write last =>
      simp only [Traffic.written, Traffic.pageData]
      rw [hpending n (h.pages n p write last hb).1]

section RequestBios

theorem mem_requestBios {b : Bio} : b ∈ requestBios n r ↔
    ∃ i, i < r.len ∧ b = .page n (r.start + i) r.data.isSome (i + 1 == r.len) := by
  unfold requestBios
  rw [List.mem_reverse, List.mem_map]
  simp only [List.mem_range]
  constructor
  · intro h
    obtain ⟨i, hi, rfl⟩ := h
    exact ⟨i, hi, rfl⟩
  · intro h
    obtain ⟨i, hi, rfl⟩ := h
    exact ⟨i, hi, rfl⟩

theorem requestBios_ctx : (requestBios n r).filterMap Bio.ctx? = [] := by
  rw [List.filterMap_eq_nil_iff]
  intro b hb
  obtain ⟨i, -, rfl⟩ := mem_requestBios.mp hb
  rfl

/-- The last page ends the request, and no other one does. -/
theorem requestBios_ends (hpos : 0 < r.len) : (requestBios n r).filterMap Bio.ends? = [n] := by
  obtain ⟨k, hk⟩ : ∃ k, r.len = k + 1 := ⟨r.len - 1, by omega⟩
  unfold requestBios
  rw [hk, List.range_succ, List.map_append, List.reverse_append]
  simp only [List.map_cons, List.map_nil, List.reverse_cons, List.reverse_nil, List.nil_append,
    List.singleton_append, BEq.rfl]
  have hlast : Bio.ends? (.page n (r.start + k) r.data.isSome true) = some n := rfl
  rw [List.filterMap_cons_some hlast]
  congr 1
  rw [List.filterMap_eq_nil_iff]
  intro b hb
  rw [List.mem_reverse, List.mem_map] at hb
  obtain ⟨i, hi, rfl⟩ := hb
  have hne : (i + 1 == k + 1) = false := by
    have hlt := List.mem_range.mp hi
    simp
    omega
  rw [hne]
  rfl

variable {p : Nat}

theorem requestBios_covers {b : Bio} {w : PageWrite D} (hb : b ∈ requestBios n r)
    (hw : io.written b = some w) (hp : w.Covers p) :
    r.Covers p ∧ io.pageData n p = some (w.data (p - w.start)) := by
  obtain ⟨i, hi, rfl⟩ := mem_requestBios.mp hb
  simp only [Traffic.written, Option.map_eq_some_iff] at hw
  obtain ⟨d, hd, rfl⟩ := hw
  have heq : p = r.start + i := by
    simp only [PageRange.Covers] at hp
    omega
  rw [heq]
  exact ⟨⟨Nat.le_add_right _ _, Nat.add_lt_add_left hi _⟩, hd⟩

/-- A page of a write that is handed to the disk is going to have what is written. -/
theorem settled_requestBios {disk : Nat → D} {writes : List (PageWrite D)} {f : Nat → D}
    (hr : io.store.pending n = some r) (hdata : r.data = some f) (hp : r.Covers p) :
    settled disk ((requestBios n r).filterMap io.written ++ writes) p = f (p - r.start) := by
  have hpage : io.pageData n p = some (f (p - r.start)) := Traffic.pageData_of hr hdata
  apply settled_append_of_agree
  · refine ⟨⟨⟨p, 1⟩, fun _ => f (p - r.start)⟩, ?_, ⟨Nat.le_refl _, Nat.lt_succ_self _⟩⟩
    rw [List.mem_filterMap]
    refine ⟨.page n p r.data.isSome (p - r.start + 1 == r.len), ?_, ?_⟩
    · rw [mem_requestBios]
      refine ⟨p - r.start, ?_, ?_⟩
      · have hlt := hp.2
        have hle := hp.1
        omega
      · rw [Nat.add_sub_cancel' hp.1]
    · simp [Traffic.written, hpage]
  · intro w hw hcov
    obtain ⟨b, hb, hwritten⟩ := List.mem_filterMap.mp hw
    have hcovers := requestBios_covers hb hwritten hcov
    rw [hpage] at hcovers
    exact (Option.some.inj hcovers.2).symm

/-- Other pages are left alone, and all pages by a read. -/
theorem settled_requestBios_other {disk : Nat → D} {writes : List (PageWrite D)}
    (hr : io.store.pending n = some r) (hp : ¬ (r.data ≠ none ∧ r.Covers p)) :
    settled disk ((requestBios n r).filterMap io.written ++ writes) p = settled disk writes p := by
  apply settled_append_of_not_covers
  intro w hw hcov
  obtain ⟨b, hb, hwritten⟩ := List.mem_filterMap.mp hw
  have hcovers := requestBios_covers hb hwritten hcov
  refine hp ⟨?_, hcovers.1⟩
  intro hnone
  simp [Traffic.pageData, hr, hnone] at hcovers

end RequestBios

/-! ## Moves of the traffic -/

namespace Traffic

theorem stackbd_eq (hr : io.store.pending n = some r) :
    io.stackbd n = { io with bios := requestBios n r ++ io.bios } := by
  rw [stackbd, hr]

end Traffic

/-- The operation `op` leaves, and with it the mark of its context. -/
structure Left (all : List CtxId) (io : Traffic D) (op : RdmaOp CtxId) (io' : Traffic D) : Prop where
  store : io'.store = io.store
  progress : io'.progress = io.progress
  bios : io'.bios = io.bios
  diskOps : io'.contexts.diskOps = io.contexts.diskOps
  sublist : io'.ops.Sublist io.ops
  marking : ∀ o, o ∈ io'.marking ↔ o ∈ io.marking ∧ o ≠ op
  rdmaOps : ∀ o, o ∈ io'.contexts.rdmaOps ↔ o ∈ io.contexts.rdmaOps ∧ o ≠ op
  completing : ∀ e, e ∈ io'.completing ↔ e ∈ io.completing ∧ e.op ≠ op
  other : ∀ c, c ≠ op.ctx → io'.contexts.ctx c = io.contexts.ctx c
  idle : (io'.contexts.ctx op.ctx).inFlight = .idle
  buffer : ∀ c ∈ io.contexts.diskOps, (io'.contexts.ctx c).rdmaBuf = (io.contexts.ctx c).rdmaBuf
  returned : (io'.marking.map RdmaOp.ctx ++ io'.contexts.returned).Nodup
  free : ∀ c ∈ io'.contexts.free, c ∈ all

namespace Left

theorem mem_busy (h : Left all io op io') (o : RdmaOp CtxId) :
    o ∈ io'.busy ↔ o ∈ io.busy ∧ o ≠ op := by
  rw [Traffic.mem_busy, Traffic.mem_busy, h.marking, h.rdmaOps, or_and_right]

theorem mem_ops (h : Left all io op io') {o : RdmaOp CtxId} (ho : o ∈ io'.ops) :
    o ∈ io.ops ∧ o ≠ op := by
  rw [Traffic.mem_ops] at ho ⊢
  rw [h.marking, h.rdmaOps] at ho
  cases ho with
  | inl hm => exact ⟨.inl hm.1, hm.2⟩
  | inr ho =>
      cases ho with
      | inl hp => exact ⟨.inr (.inl hp.1), hp.2⟩
      | inr hc =>
          obtain ⟨e, he, rfl⟩ := hc
          have hold := (h.completing e).mp he
          exact ⟨.inr (.inr ⟨e, hold.1, rfl⟩), hold.2⟩

theorem owned_sublist (h : Left all io op io') : io'.owned.Sublist io.owned := by
  unfold Traffic.owned
  rw [h.bios]
  exact (h.sublist.map _).append_right _

/-- Nothing else is for the request of the operation. -/
theorem not_owned (h : Left all io op io') (hflight : Flight all io) (hop : op ∈ io.ops) :
    op.serial ∉ io'.owned := by
  intro hmem
  cases List.mem_append.mp hmem with
  | inl hops =>
      obtain ⟨o, ho, heq⟩ := List.mem_map.mp hops
      have hold := h.mem_ops ho
      exact hold.2 (hflight.eq_of_serial hold.1 hop heq)
  | inr hends =>
      rw [h.bios] at hends
      exact hflight.not_ends hop hends

theorem written (h : Left all io op io') (hflight : Flight all io) {b : Bio} (hb : b ∈ io.bios) :
    io'.written b = io.written b := by
  refine hflight.written_congr h.buffer ?_ hb
  intro n _
  rw [h.store]

end Left

namespace Flight

theorem leave (h : Flight all io) (hop : op ∈ io.ops) (hl : Left all io op io') : Flight all io' where
  held := by
    intro o ho
    have hold := hl.mem_ops ho
    have hne : o.ctx ≠ op.ctx := fun heq => hold.2 (h.eq_of_ctx hold.1 hop heq)
    rw [hl.store, hl.other o.ctx hne]
    exact h.held o hold.1
  busy := by
    intro o ho
    have hold := (hl.mem_busy o).mp ho
    have hne : o.ctx ≠ op.ctx := fun heq =>
      hold.2 (h.eq_of_ctx (Traffic.mem_ops_of_busy hold.1) hop heq)
    rw [hl.other o.ctx hne]
    exact h.busy o hold.1
  buffer := by
    intro o ho
    have hold := (hl.rdmaOps o).mp ho
    have hne : o.ctx ≠ op.ctx := fun heq =>
      hold.2 (h.eq_of_ctx (Traffic.mem_ops.mpr (.inr (.inl hold.1))) hop heq)
    rw [hl.store, hl.other o.ctx hne]
    exact h.buffer o hold.1
  completing := fun e he => h.completing e ((hl.completing e).mp he).1
  ctxs := h.ctxs.sublist (hl.sublist.map _)
  owners := h.owners.sublist hl.owned_sublist
  submitting := by
    rw [hl.progress, hl.store]
    intro n φ hφ
    have hold := h.submitting n φ hφ
    exact ⟨fun hmem => hold.1 (hl.owned_sublist.subset hmem), hold.2⟩
  sizes := by
    rw [hl.store]
    exact h.sizes
  marked := by
    intro c hc
    have hne : c ≠ op.ctx := by
      intro heq
      rw [heq, hl.idle] at hc
      exact hc rfl
    rw [hl.other c hne] at hc
    obtain ⟨o, ho, hctx⟩ := h.marked c hc
    refine ⟨o, (hl.mem_busy o).mpr ⟨ho, ?_⟩, hctx⟩
    intro heq
    exact hne (heq ▸ hctx).symm
  returned := hl.returned
  backups := by
    rw [hl.bios, hl.diskOps]
    exact h.backups
  pages := by
    rw [hl.bios, hl.store]
    exact h.pages
  order := by
    rw [hl.bios]
    exact h.order
  free := hl.free
  disk := by
    rw [hl.diskOps]
    exact h.disk

/-- `IS_request` goes on with a request, or is done with it. -/
theorem setProgress (h : Flight all io) (n : Nat) (φ : Option Progress)
    (hφ : ∀ φ', φ = some φ' → n ∉ io.owned ∧ ∃ r, io.store.pending n = some r ∧ φ'.Fits r) :
    Flight all { io with progress := Function.update io.progress n φ } where
  held := h.held
  busy := h.busy
  buffer := h.buffer
  completing := h.completing
  ctxs := h.ctxs
  owners := h.owners
  submitting := by
    intro n' φ' hφ'
    by_cases heq : n' = n
    · subst heq
      simp only [Function.update_self] at hφ'
      exact hφ φ' hφ'
    · simp only [Function.update_of_ne heq] at hφ'
      exact h.submitting n' φ' hφ'
  sizes := h.sizes
  marked := h.marked
  returned := h.returned
  backups := h.backups
  pages := h.pages
  order := h.order
  free := h.free
  disk := h.disk

/-- The disk gets a request. -/
theorem submit (h : Flight all io) (hn : n ∉ io.owned) (hφ : io.progress n = none)
    (hr : io.store.pending n = some r) (hpos : 0 < r.len)
    (hapart : ∀ n' r', io.store.pending n' = some r' → n' ≠ n → r'.Disjoint r.toPageRange) :
    Flight all { io with bios := requestBios n r ++ io.bios } where
  held := h.held
  busy := h.busy
  buffer := h.buffer
  completing := h.completing
  ctxs := h.ctxs
  owners := by
    show (io.ops.map RdmaOp.serial ++ (requestBios n r ++ io.bios).filterMap Bio.ends?).Nodup
    rw [List.filterMap_append, requestBios_ends hpos, List.singleton_append]
    exact List.perm_middle.nodup_iff.mpr (List.nodup_cons.mpr ⟨hn, h.owners⟩)
  submitting := by
    intro n' φ hφ'
    have hold := h.submitting n' φ hφ'
    refine ⟨?_, hold.2⟩
    show n' ∉ io.ops.map RdmaOp.serial ++ (requestBios n r ++ io.bios).filterMap Bio.ends?
    rw [List.filterMap_append, requestBios_ends hpos, List.singleton_append,
      List.perm_middle.mem_iff, List.mem_cons, not_or]
    refine ⟨?_, hold.1⟩
    intro heq
    rw [heq, hφ] at hφ'
    cases hφ'
  sizes := h.sizes
  marked := h.marked
  returned := h.returned
  backups := by
    show ((requestBios n r ++ io.bios).filterMap Bio.ctx?).Perm io.contexts.diskOps
    rw [List.filterMap_append, requestBios_ctx, List.nil_append]
    exact h.backups
  pages := by
    intro n' p write last hb
    show n' ∈ (requestBios n r ++ io.bios).filterMap Bio.ends? ∧ _
    rw [List.filterMap_append, requestBios_ends hpos, List.singleton_append, List.mem_cons]
    cases List.mem_append.mp hb with
    | inl hnew =>
        obtain ⟨i, hi, heq⟩ := mem_requestBios.mp hnew
        simp only [Bio.page.injEq] at heq
        refine ⟨.inl heq.1, r, ?_, ?_, heq.2.2.1⟩
        · rw [heq.1]
          exact hr
        · rw [heq.2.1]
          exact ⟨Nat.le_add_right _ _, Nat.add_lt_add_left hi _⟩
    | inr hold =>
        have hpage := h.pages n' p write last hold
        exact ⟨.inr hpage.1, hpage.2⟩
  order := by
    refine List.pairwise_append.mpr ⟨?_, h.order, ?_⟩
    · -- the pages of one request are all read or all written
      apply List.pairwise_of_forall_mem_list
      intro b hb b' hb' n' p last heq hwrites
      obtain ⟨i, -, rfl⟩ := mem_requestBios.mp hb
      obtain ⟨i', -, rfl⟩ := mem_requestBios.mp hb'
      simp only [Bio.page.injEq] at heq
      rw [Bio.writes, heq.2.2.1] at hwrites
      cases hwrites
    · intro b hb b' hb' n' p last heq hwrites hcov
      subst heq
      obtain ⟨i, hi, rfl⟩ := mem_requestBios.mp hb
      obtain ⟨-, r', hr', hp, hread⟩ := h.pages n' p false last hb'
      have hne : n' ≠ n := by
        intro heq
        rw [heq, hr] at hr'
        rw [← Option.some.inj hr'] at hread
        rw [Bio.writes, ← hread] at hwrites
        cases hwrites
      refine (hapart n' r' hr' hne).not_covers hp ?_
      simp only [Bio.range, PageRange.Covers] at hcov ⊢
      omega
  free := h.free
  disk := h.disk

/-- A request ends that nothing is on its way for. -/
theorem finish (h : Flight all io) (hn : n ∉ io.owned) (hφ : io.progress n = none) (value : D) :
    Flight all { io with store := (io.store.finish n value).1 } where
  held := by
    intro o ho
    have hne : o.serial ≠ n := fun heq => hn (heq ▸ Traffic.serial_mem_owned ho)
    show ∃ r, (io.store.finish n value).1.pending o.serial = some r ∧ _
    rw [IoStore.pending_finish, if_neg hne]
    exact h.held o ho
  busy := h.busy
  buffer := fun o ho r f hr => h.buffer o ho r f (IoStore.finish_cases hr).2
  completing := h.completing
  ctxs := h.ctxs
  owners := h.owners
  submitting := by
    intro n' φ hφ'
    have hne : n' ≠ n := by
      intro heq
      rw [heq, hφ] at hφ'
      cases hφ'
    have hold := h.submitting n' φ hφ'
    refine ⟨hold.1, ?_⟩
    show ∃ r, (io.store.finish n value).1.pending n' = some r ∧ _
    rw [IoStore.pending_finish, if_neg hne]
    exact hold.2
  sizes := fun n' r hr => h.sizes n' r (IoStore.finish_cases hr).2
  marked := h.marked
  returned := h.returned
  backups := h.backups
  pages := by
    intro n' p write last hb
    have hold := h.pages n' p write last hb
    have hne : n' ≠ n := fun heq => hn (List.mem_append_right _ (heq ▸ hold.1))
    refine ⟨hold.1, ?_⟩
    show ∃ r, (io.store.finish n value).1.pending n' = some r ∧ _
    rw [IoStore.pending_finish, if_neg hne]
    exact hold.2
  order := h.order
  free := h.free
  disk := h.disk

/-- A request begins. -/
theorem accept (h : Flight all io) (hnext : ∀ n r, io.store.pending n = some r → n < io.store.next)
    (hlen : r.len ≤ maxSglLen) (hread : r.data = none → r.len = 1) :
    Flight all { io with
      store := io.store.accept r
      progress := Function.update io.progress io.store.next (some .start) } := by
  have hpending : ∀ {n' r'}, io.store.pending n' = some r' →
      (io.store.accept r).pending n' = some r' := by
    intro n' r' hr'
    have hne : n' ≠ io.store.next := Nat.ne_of_lt (hnext n' r' hr')
    rw [IoStore.pending_accept, if_neg hne, hr']
  have hnone : io.store.pending io.store.next = none := by
    cases hr : io.store.pending io.store.next with
    | none => rfl
    | some r => exact absurd (hnext _ r hr) (Nat.lt_irrefl _)
  have hfresh : io.store.next ∉ io.owned := by
    intro hmem
    cases List.mem_append.mp hmem with
    | inl hops =>
        obtain ⟨o, ho, heq⟩ := List.mem_map.mp hops
        obtain ⟨r', hr', -⟩ := h.held o ho
        rw [heq, hnone] at hr'
        cases hr'
    | inr hends =>
        obtain ⟨b, hb, hends⟩ := List.mem_filterMap.mp hends
        cases b with
        | backup c range => cases hends
        | page n' p write last =>
            obtain ⟨r', hr', -⟩ := (h.pages n' p write last hb).2
            have heq : n' = io.store.next := by
              cases last with
              | false => cases hends
              | true => exact Option.some.inj hends
            rw [heq, hnone] at hr'
            cases hr'
  constructor
  case held =>
    intro o ho
    obtain ⟨r', hr', hheld⟩ := h.held o ho
    exact ⟨r', hpending hr', hheld⟩
  case busy => exact h.busy
  case buffer =>
    intro o ho r' f hr'
    obtain ⟨r'', hr'', -⟩ := h.held o (Traffic.mem_ops.mpr (.inr (.inl ho)))
    have heq := (hpending hr'').symm.trans hr'
    exact h.buffer o ho r' f (Option.some.inj heq ▸ hr'')
  case completing => exact h.completing
  case ctxs => exact h.ctxs
  case owners => exact h.owners
  case submitting =>
    intro n' φ hφ
    by_cases heq : n' = io.store.next
    · subst heq
      simp only [Function.update_self, Option.some.injEq] at hφ
      refine ⟨hfresh, r, ?_, hφ ▸ trivial⟩
      show (io.store.accept r).pending io.store.next = some r
      rw [IoStore.pending_accept, if_pos rfl]
    · simp only [Function.update_of_ne heq] at hφ
      obtain ⟨hold, r', hr', hfits⟩ := h.submitting n' φ hφ
      exact ⟨hold, r', hpending hr', hfits⟩
  case sizes =>
    intro n' r' hr'
    cases IoStore.accept_cases hr' with
    | inl hnew =>
        rw [hnew.2]
        exact ⟨hlen, hread⟩
    | inr hold => exact h.sizes n' r' hold.2
  case marked => exact h.marked
  case returned => exact h.returned
  case backups => exact h.backups
  case pages =>
    intro n' p write last hb
    obtain ⟨hmem, r', hr', hpage⟩ := h.pages n' p write last hb
    exact ⟨hmem, r', hpending hr', hpage⟩
  case order => exact h.order
  case free => exact h.free
  case disk => exact h.disk

end Flight

end Memtrade.Infiniswap
