import Memtrade.Infiniswap.DeviceCompletions

/-!
# The disk of the block device

The disk completes its operations in any order in which those on a common page keep theirs, and
a request that goes to the disk ends with its last page. What the disk is going to have does
not change with that.
-/

namespace Memtrade.Infiniswap

variable {D : Type} {all : List CtxId} {dv : Device D} {tr : List (IoEvent D)} {io : Traffic D}
  {r : IoRequest D} {n p : Nat} {c : CtxId} {b : Bio} {newer older : List Bio} {w : PageWrite D}

theorem Bio.req?_of_ends? (h : b.ends? = some n) : b.req? = some n := by
  cases b with
  | backup c range => cases h
  | page req p write last =>
      cases last with
      | false => cases h
      | true => exact h

namespace Flight

theorem written_writes (h : Flight all io) (hb : b ∈ io.bios) (hw : io.written b = some w) :
    b.writes = true ∧ w.toPageRange = b.range := by
  cases b with
  | backup c range =>
      simp only [Traffic.written, Option.some.injEq] at hw
      subst hw
      exact ⟨rfl, rfl⟩
  | page req p write last =>
      obtain ⟨-, r, hr, -, hwrite⟩ := h.pages req p write last hb
      simp only [Traffic.written, Traffic.pageData, hr, Option.map_map, Option.map_eq_some_iff] at hw
      obtain ⟨f, hf, rfl⟩ := hw
      refine ⟨?_, rfl⟩
      rw [Bio.writes, hwrite, hf]
      rfl

/-- An operation of the disk is done, and perhaps returns its context. -/
theorem diskDone (h : Flight all io) (hbios : io.bios = newer ++ b :: older)
    (hlast : ∀ n ∈ b.ends?, ∀ b' ∈ newer ++ older, b'.req? ≠ some n) {free diskOps : List CtxId}
    (hbackups : ((newer ++ older).filterMap Bio.ctx?).Perm diskOps)
    (hreturned : (free ++ diskOps).Perm (io.contexts.free ++ io.contexts.diskOps)) :
    Flight all { io with
      bios := newer ++ older
      contexts := { io.contexts with free := free, diskOps := diskOps } } := by
  have hsub : (newer ++ older).Sublist io.bios := by
    rw [hbios]
    exact (List.sublist_cons_self b older).append_left newer
  have howned : (io.ops.map RdmaOp.serial ++ (newer ++ older).filterMap Bio.ends?).Sublist io.owned :=
    (hsub.filterMap _).append_left _
  have hknown : ∀ c ∈ free ++ diskOps, c ∈ all := by
    intro c hc
    cases List.mem_append.mp (hreturned.subset hc) with
    | inl hfree => exact h.free c hfree
    | inr hdisk => exact h.disk c hdisk
  constructor
  case held => exact h.held
  case busy => exact h.busy
  case buffer => exact h.buffer
  case completing => exact h.completing
  case ctxs => exact h.ctxs
  case owners => exact h.owners.sublist howned
  case submitting =>
    intro n φ hφ
    have hold := h.submitting n φ hφ
    exact ⟨fun hmem => hold.1 (howned.subset hmem), hold.2⟩
  case sizes => exact h.sizes
  case marked => exact h.marked
  case returned =>
    refine (List.Perm.nodup_iff ?_).mpr h.returned
    exact (hreturned.append_right _).append_left _
  case backups => exact hbackups
  case pages =>
    intro n p write last hb
    obtain ⟨hends, hpage⟩ := h.pages n p write last (hsub.subset hb)
    refine ⟨?_, hpage⟩
    obtain ⟨b', hb', hn⟩ := List.mem_filterMap.mp hends
    refine List.mem_filterMap.mpr ⟨b', ?_, hn⟩
    rw [hbios, List.perm_middle.mem_iff, List.mem_cons] at hb'
    refine hb'.resolve_left ?_
    intro heq
    exact hlast n (heq ▸ hn) _ hb rfl
  case order => exact h.order.sublist hsub
  case free => exact fun c hc => hknown c (List.mem_append_left _ hc)
  case disk => exact fun c hc => hknown c (List.mem_append_right _ hc)

/-- No write on its way to the disk is of a page that the disk is reading in order. -/
theorem disk_of_read (h : Flight all io) {last : Bool}
    (hbios : io.bios = newer ++ .page n p false last :: older)
    (hok : ∀ b' ∈ older, b'.writes = true → (Bio.page n p false last).range.Disjoint b'.range)
    (disk : Nat → D) : settled disk ((newer ++ older).filterMap io.written) p = disk p := by
  refine settled_of_not_covers ?_
  intro w hw
  obtain ⟨b', hb', hwritten⟩ := List.mem_filterMap.mp hw
  have hmem : b' ∈ io.bios := by
    rw [hbios, List.perm_middle.mem_iff]
    exact List.mem_cons_of_mem _ hb'
  obtain ⟨hwrites, hrange⟩ := h.written_writes hmem hwritten
  rw [hrange]
  cases List.mem_append.mp hb' with
  | inl hnewer =>
      have horder := h.order
      rw [hbios, List.pairwise_append] at horder
      exact horder.2.2 b' hnewer _ List.mem_cons_self n p last rfl hwrites
  | inr holder =>
      exact (hok b' holder hwrites).not_covers ⟨Nat.le_refl _, Nat.lt_succ_self _⟩

end Flight

namespace DeviceInv

/-! ## What the disk is going to have -/

theorem backing_of_write (h : DeviceInv all dv tr) (hbios : dv.io.bios = newer ++ b :: older)
    (hw : dv.io.written b = some w)
    (hok : ∀ b' ∈ older, b'.writes = true → b.range.Disjoint b'.range) :
    settled (overlay dv.disk w.start w.len w.data) ((newer ++ older).filterMap dv.io.written) =
      dv.backing := by
  have hmem : ∀ {b'}, b' ∈ b :: older → b' ∈ dv.io.bios := by
    intro b' hb'
    rw [hbios]
    exact List.mem_append_right _ hb'
  unfold Device.backing
  rw [hbios, List.filterMap_append, List.filterMap_append, List.filterMap_cons_some hw]
  refine settled_complete ?_
  intro w' hw'
  obtain ⟨b', hb', hwritten⟩ := List.mem_filterMap.mp hw'
  obtain ⟨hwrites, hrange⟩ := h.flight.written_writes (hmem (List.mem_cons_of_mem _ hb')) hwritten
  obtain ⟨-, hrange'⟩ := h.flight.written_writes (hmem List.mem_cons_self) hw
  rw [hrange, hrange']
  exact hok b' hb' hwrites

theorem backing_of_read (hbios : dv.io.bios = newer ++ b :: older) (hw : dv.io.written b = none) :
    settled dv.disk ((newer ++ older).filterMap dv.io.written) = dv.backing := by
  unfold Device.backing
  rw [hbios, List.filterMap_append, List.filterMap_append, List.filterMap_cons_none hw]

/-! ## Completions -/

/-- The disk is done with an operation, and what it is going to have stays. -/
theorem diskDone (h : DeviceInv all dv tr) {disk : Nat → D} {bios : List Bio}
    {free diskOps : List CtxId}
    (hflight : Flight all { dv.io with
      bios := bios
      contexts := { dv.io.contexts with free := free, diskOps := diskOps } })
    (hbacking : settled disk (bios.filterMap dv.io.written) = dv.backing) :
    DeviceInv all { dv with
      disk := disk
      io := { dv.io with
        bios := bios
        contexts := { dv.io.contexts with free := free, diskOps := diskOps } } } tr := by
  have hsame : Device.backing { dv with
      disk := disk
      io := { dv.io with
        bios := bios
        contexts := { dv.io.contexts with free := free, diskOps := diskOps } } } = dv.backing :=
    hbacking
  refine ⟨?_, hflight, h.routing, ?_, ?_⟩
  · rw [hsame]
    exact h.current
  · exact ⟨h.slots.busy, h.slots.completing, h.slots.gens, h.slots.waited, h.slots.dealt, h.slots.handling⟩
  · constructor
    case remote =>
      rw [hsame]
      exact h.copies.remote
    case accounted => exact h.copies.accounted
    case handed =>
      rw [hsame]
      exact h.copies.handed
    case landed => exact h.copies.landed
    case reading =>
      rw [hsame]
      exact h.copies.reading

/-- A request ends that has nothing on its way. -/
theorem ends (h : DeviceInv all dv tr) (hn : n ∉ dv.io.owned) (hφ : dv.io.progress n = none)
    (value : D)
    (hread : ∀ r, dv.io.store.pending n = some r → r.data = none → value = dv.backing r.start) :
    DeviceInv all (dv.finish n value).1 (tr ++ (dv.finish n value).2) := by
  have hmarking : n ∉ dv.io.marking.map RdmaOp.serial := by
    intro hmem
    obtain ⟨op, hop, hserial⟩ := List.mem_map.mp hmem
    exact hn (hserial ▸ Traffic.serial_mem_owned (Traffic.mem_ops.mpr (.inl hop)))
  have hbacking : (dv.finish n value).1.backing = dv.backing := by
    refine Device.backing_congr rfl rfl ?_
    intro b hb
    refine h.flight.written_congr ?_ ?_ hb
    · intro _ _
      rfl
    · intro n' hn'
      have hne : n' ≠ n := fun heq => hn (List.mem_append_right _ (heq ▸ hn'))
      show (dv.io.store.finish n value).1.pending n' = _
      rw [IoStore.pending_finish, if_neg hne]
  refine ⟨?_, h.flight.finish hn hφ value, h.routing, ?_, ?_⟩
  · rw [hbacking]
    refine h.current.finish hread ?_
    intro r f hr hdata p hp
    exact h.copies.handed n r f p hr hdata hφ hmarking hp
  · refine h.slots.sub (fun _ ho => ho) (fun e he => ⟨e, he, rfl, rfl⟩) ?_
      fun _ _ _ _ _ _ _ _ ho _ => ho
    exact fun _ _ _ hr => (IoStore.finish_cases hr).2
  · constructor
    case remote =>
      rw [hbacking]
      intro p chunk hroute hbit hp
      refine h.copies.remote p chunk hroute hbit ?_
      intro hw
      obtain ⟨n', r, hr, hdata, hcov⟩ := hw
      by_cases heq : n' = n
      · -- the bit would be accounted for, and nothing is on its way
        subst heq
        obtain ⟨φ, hφ', -⟩ :=
          (h.copies.accounted n' r p chunk hr hdata hcov hroute hbit).submitting hn
        rw [hφ] at hφ'
        cases hφ'
      · refine hp ⟨n', r, ?_, hdata, hcov⟩
        show (dv.io.store.finish n value).1.pending n' = some r
        rw [IoStore.pending_finish, if_neg heq, hr]
    case accounted =>
      exact fun n' r p chunk hr => h.copies.accounted n' r p chunk (IoStore.finish_cases hr).2
    case handed =>
      rw [hbacking]
      exact fun n' r f p hr => h.copies.handed n' r f p (IoStore.finish_cases hr).2
    case landed => exact fun e he r f hr => h.copies.landed e he r f (IoStore.finish_cases hr).2
    case reading =>
      rw [hbacking]
      exact fun o ho hkind r hr => h.copies.reading o ho hkind r (IoStore.finish_cases hr).2

theorem backupDone (h : DeviceInv all dv tr) {range : PageRange}
    (hbios : dv.io.bios = newer ++ .backup c range :: older)
    (hok : ∀ b' ∈ older, b'.writes = true → range.Disjoint b'.range) :
    DeviceInv all { dv with
      io.bios := newer ++ older
      disk := overlay dv.disk range.start range.len (dv.io.contexts.ctx c).rdmaBuf
      io.contexts := dv.io.contexts.stackbdEndIo3 c } tr := by
  have hmem : Bio.backup c range ∈ dv.io.bios := by
    rw [hbios]
    exact List.mem_append_right _ List.mem_cons_self
  have hc := h.flight.backup_mem hmem
  have hbackups : (c :: (newer ++ older).filterMap Bio.ctx?).Perm dv.io.contexts.diskOps := by
    refine List.Perm.trans ?_ h.flight.backups
    have hsome : Bio.ctx? (.backup c range) = some c := rfl
    rw [← List.filterMap_cons_some hsome, hbios]
    exact (List.perm_middle.symm).filterMap _
  have hrest := (hbackups.trans (List.perm_cons_erase hc)).cons_inv
  have hreturned : (c :: dv.io.contexts.free ++ dv.io.contexts.diskOps.erase c).Perm
      (dv.io.contexts.free ++ dv.io.contexts.diskOps) :=
    List.perm_middle.symm.trans ((List.perm_cons_erase hc).symm.append_left _)
  have hflight := h.flight.diskDone hbios (fun n hn => nomatch hn) hrest hreturned
  exact h.diskDone hflight (h.backing_of_write hbios rfl hok)

/-- A page of a request has come to the disk. -/
theorem pageDone (h : DeviceInv all dv tr) {write last : Bool} (left : D)
    (hbios : dv.io.bios = newer ++ .page n p write last :: older)
    (hok : ∀ b' ∈ older, b'.writes = true → (Bio.page n p write last).range.Disjoint b'.range)
    (hlast : ∀ n' ∈ (Bio.page n p write last).ends?, ∀ b' ∈ newer ++ older, b'.req? ≠ some n') :
    DeviceInv all { dv with
      io.bios := newer ++ older
      disk := if write then overlay dv.disk p 1 (fun _ => (dv.io.pageData n p).getD left)
        else dv.disk } tr := by
  have hmem : Bio.page n p write last ∈ dv.io.bios := by
    rw [hbios]
    exact List.mem_append_right _ List.mem_cons_self
  obtain ⟨-, r, hr, hp, hwrite⟩ := h.flight.pages n p write last hmem
  have hbackups : ((newer ++ older).filterMap Bio.ctx?).Perm dv.io.contexts.diskOps := by
    refine List.Perm.trans ?_ h.flight.backups
    rw [hbios, List.filterMap_append, List.filterMap_append, List.filterMap_cons_none rfl]
  have hflight := h.flight.diskDone hbios hlast hbackups (.refl _)
  refine h.diskDone hflight ?_
  cases hdata : r.data with
  | none =>
      have hnone : dv.io.written (.page n p write last) = none := by
        simp [Traffic.written, Traffic.pageData, hr, hdata]
      rw [hwrite, hdata]
      exact backing_of_read hbios hnone
  | some f =>
      have hpage := Traffic.pageData_of (p := p) hr hdata
      have hsome : dv.io.written (.page n p write last) = some ⟨⟨p, 1⟩, fun _ => f (p - r.start)⟩ := by
        simp [Traffic.written, hpage]
      rw [hwrite, hdata, hpage]
      exact h.backing_of_write hbios hsome hok

/-- The last page of a request has come to the disk, or from it. -/
theorem lastPageDone (h : DeviceInv all dv tr) {write : Bool} (left : D)
    (hbios : dv.io.bios = newer ++ .page n p write true :: older)
    (hok : ∀ b' ∈ older, b'.writes = true → (Bio.page n p write true).range.Disjoint b'.range)
    (hlast : ∀ b' ∈ newer ++ older, b'.req? ≠ some n) {dv' : Device D}
    (hdv : dv' = { dv with
      io.bios := newer ++ older
      disk := if write then overlay dv.disk p 1 (fun _ => (dv.io.pageData n p).getD left)
        else dv.disk }) :
    DeviceInv all (dv'.finish n (dv.disk p)).1 (tr ++ (dv'.finish n (dv.disk p)).2) := by
  have hmem : Bio.page n p write true ∈ dv.io.bios := by
    rw [hbios]
    exact List.mem_append_right _ List.mem_cons_self
  obtain ⟨hends, r, hr, hp, hwrite⟩ := h.flight.pages n p write true hmem
  have hmove := h.pageDone left hbios hok fun n' hn' => by
    rw [← Option.some.inj hn']
    exact hlast
  rw [← hdv] at hmove
  refine hmove.ends ?_ ?_ _ ?_
  · intro howned
    rw [hdv] at howned
    cases List.mem_append.mp howned with
    | inl hop => exact (List.nodup_append.mp h.flight.owners).2.2 _ hop _ hends rfl
    | inr hbio =>
        obtain ⟨b', hb', hn⟩ := List.mem_filterMap.mp hbio
        exact hlast b' hb' (Bio.req?_of_ends? hn)
  · rw [hdv]
    exact h.flight.progress_of_ends hends
  · intro r' hr' hnone
    rw [hdv] at hr'
    rw [request_unique hr hr'] at hnone ⊢
    rw [hnone] at hwrite
    cases hwrite
    -- a read has one page
    have hlen := (h.flight.sizes n r hr).2 hnone
    have hstart : r.start = p := by
      unfold PageRange.Covers at hp
      omega
    rw [hstart, hdv]
    exact (h.flight.disk_of_read hbios hok dv.disk).symm

theorem bioDone (h : DeviceInv all dv tr) {i : Nat} {left : D} {dv' : Device D}
    {evs : List (IoEvent D)} (hok : dv.careful (.bioDone i left))
    (hs : dv.bioDone i left = some (dv', evs)) : DeviceInv all dv' (tr ++ evs) := by
  unfold Device.bioDone at hs
  simp only [Option.map_eq_some_iff] at hs
  obtain ⟨b, hb, hs⟩ := hs
  obtain ⟨horder, hlast⟩ := hok b hb
  have hbios : dv.io.bios = dv.io.bios.take i ++ b :: dv.io.bios.drop (i + 1) := by
    obtain ⟨hlt, rfl⟩ := List.getElem?_eq_some_iff.mp hb
    rw [List.getElem_cons_drop, List.take_append_drop]
  rw [List.eraseIdx_eq_take_drop_succ] at hs hlast
  cases b with
  | backup c range =>
      simp only [Prod.mk.injEq] at hs
      obtain ⟨rfl, rfl⟩ := hs
      rw [List.append_nil]
      exact h.backupDone hbios horder
  | page n p write last =>
      cases last with
      | false =>
          simp only [Bool.false_eq_true, if_false, Prod.mk.injEq] at hs
          obtain ⟨rfl, rfl⟩ := hs
          rw [List.append_nil]
          exact h.pageDone left hbios horder hlast
      | true =>
          simp only [if_true] at hs
          have hends := h.lastPageDone left hbios horder (hlast n rfl) rfl
          rw [hs] at hends
          exact hends

end DeviceInv

end Memtrade.Infiniswap
