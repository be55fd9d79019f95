import Memtrade.Tswap.Coherence

/-!
# Prefetch requests in progress

A request is a job between the test of the map bit and the submission of the
read, and a read bio after that. Its entry is in no tree, so the calls and the
discharge thread do not see it: they leave the request and the contents of its
page alone.
-/

namespace Memtrade.Tswap

variable {P : Type} {k : Kernel} {s s' : St P} {e : EntryId} {en : Entry} {t : TreeId}
  {tree : RadixTree} {p : PageId} {c : Option P} {x : Slot}

/-! ## The pages of requests -/

/-- The pages of entries outside every tree keep their contents. -/
def OutsideKept (s s' : St P) : Prop :=
  ∀ e en q, s.entries.cell e = some en → en.tswapTreeRoot = none → en.data = some q →
    s'.pages.cell q = s.pages.cell q

theorem outsideKept_of_pages (hpages : s'.pages.cell = s.pages.cell) : OutsideKept s s' := by
  intro e en q _ _ _
  rw [hpages]

theorem OutsideKept.of_same {s₁ : St P} (h : OutsideKept s₁ s') (hentries : s₁.entries = s.entries)
    (hpages : s₁.pages = s.pages) : OutsideKept s s' := by
  intro e en q hcell hroot hq
  rw [← hpages]
  exact h e en q (hentries ▸ hcell) hroot hq

theorem outsideKept_of_inTree (h : Inv s) (hin : InTree s e en t tree p c)
    (hpages : ∀ q, q ≠ p → s'.pages.cell q = s.pages.cell q) : OutsideKept s s' := by
  intro i eni q hi hroot hq
  apply hpages
  rintro rfl
  obtain rfl := h.pages.inj i e eni en hi hin.cell (hq.trans hin.data.symm)
  obtain rfl := Option.some.inj (hi.symm.trans hin.cell)
  rw [hin.root] at hroot
  cases hroot

theorem outsideKept_of_alloc (h : Inv s) {contents : Option P}
    (hpages : s'.pages = s.pages.alloc contents) : OutsideKept s s' := by
  intro i eni q hi _ hq
  obtain ⟨q', d, hq', hd⟩ := h.pages.owned i eni hi
  obtain rfl := Option.some.inj (hq.symm.trans hq')
  rw [hpages, Heap.cell_alloc, if_neg (Nat.ne_of_lt (Heap.lt_next hd))]

theorem outsideKept_dropEntry (h : Inv s) (hin : InTree s e en t tree p c) :
    OutsideKept s (dropEntry s e) := by
  refine outsideKept_of_inTree h hin ?_
  intro q hq
  by_cases hst : en.state = .inMemory
  · rw [dropEntry_of_inMemory hin hst]
    exact (Heap.cell_free s.pages p q).trans (if_neg hq)
  · rw [dropEntry_of_outstanding hin (h.outstanding_of_ne hin hst)]

theorem outsideKept_storeInto (h : Inv s) (hin : InTree s e en t tree p c) (page : P)
    (o : StoreOutcome) : OutsideKept s (storeInto s e true page o).1 := by
  have hvalid := (h.lifecycle.tree hin.cell hin.root).1
  by_cases hk : o.kmapOk = true
  · obtain ⟨n, heq⟩ := storeInto_ok hin hvalid page o hk
    rw [heq]
    refine outsideKept_of_inTree h hin ?_
    intro q hq
    exact (Heap.cell_write hin.page _ q).trans (if_neg hq)
  · obtain ⟨n, heq⟩ := storeInto_kmapFail hin hvalid page o (by simpa using hk)
    rw [heq]
    have hinv : Inv { s with
        stat.nrKmapFail := s.stat.nrKmapFail + 1
        stat.nrOverwriteStore := n } := inv_stat h (fun st => by cases st <;> rfl) rfl
    exact (outsideKept_dropEntry hinv (hin.stat _)).of_same rfl rfl

theorem outsideKept_storeFresh (h : Inv s) (y : Slot) (page : P) (entryOk : Bool)
    (o : StoreOutcome) : OutsideKept s (storeFresh s y page entryOk o).1 := by
  rcases storeFresh_cases h y page entryOk o with ⟨t, tree, n, -, -, -, heq⟩ | hu
  · rw [heq]
    exact outsideKept_of_alloc h rfl
  · obtain ⟨entries, pages, stat, heq, -, hpages, -⟩ := hu.state
    rw [heq]
    exact outsideKept_of_pages hpages

theorem outsideKept_loadFromEntry (h : Inv s) (hin : InTree s e en t tree p c) (kmapOk : Bool) :
    OutsideKept s (loadFromEntry s e kmapOk).1 := by
  unfold loadFromEntry
  simp only [hin.cell]
  cases kmapOk with
  | false =>
      have hinv : Inv { s with stat.nrKmapFail := s.stat.nrKmapFail + 1 } :=
        inv_stat h (fun st => by cases st <;> rfl) rfl
      exact (outsideKept_dropEntry hinv (hin.stat _)).of_same rfl rfl
  | true => exact outsideKept_dropEntry h hin

theorem outsideKept_invalidatePage (h : Inv s) (y : Slot) :
    OutsideKept s (tswapFrontswapInvalidatePage s y) := by
  have hr : Inv { s with stat.nrInvalidatePage := s.stat.nrInvalidatePage + 1 } :=
    inv_stat h (fun st => by cases st <;> rfl) rfl
  unfold tswapFrontswapInvalidatePage
  simp only
  split
  · exact outsideKept_of_pages rfl
  · rename_i e hl
    obtain ⟨en, t, tree, p, c, hin, -, -⟩ := hr.of_lookup hl
    exact (outsideKept_dropEntry hr hin).of_same rfl rfl

theorem outsideKept_areaLooped (h : Inv s) {type : Nat} (harea : s.areas type = some t) :
    OutsideKept s (areaLooped s type t) := by
  have hi := inv_touchType h type
  obtain ⟨tree, htree⟩ := Option.isSome_iff_exists.mp (hi.index.areas type t harea).2
  unfold areaLooped invalidateAreaStep
  cases hg : radixTreeGangLookup tree with
  | none =>
      simp only [htree, hg]
      exact outsideKept_of_pages rfl
  | some e =>
      obtain ⟨off, hitem⟩ := gangLookup_some hg
      obtain ⟨en, hcell, hroot, -⟩ := hi.index.sound t tree off e htree hitem
      obtain ⟨tree', p, c, hin⟩ := hi.inTree hcell hroot
      simp only [htree, hg, hcell, if_neg (hi.lifecycle.tree hcell hroot).1]
      exact outsideKept_dropEntry hi hin

/-- The settlement of a discharge frees the page of a tree entry or none. -/
theorem outsideKept_settle (h : Inv s) (hin : InTree s e en t tree p c) {w : Heap WriteBio}
    {pc : DischargePc} {dk : Slot → P} {st : Stat} (gone : Prop) [Decidable gone] :
    OutsideKept s (if gone then
        { s with writes := w, discharge := pc, disk := dk, stat := st }.reaped e en p t tree
      else { s with writes := w, discharge := pc, disk := dk, stat := st }.settled e en) := by
  refine outsideKept_of_inTree h hin ?_
  intro q hq
  split
  · exact (Heap.cell_free s.pages p q).trans (if_neg hq)
  · rfl

theorem outsideKept_dischargeSubmit (h : Inv s) {n : Int} (hpc : s.discharge = .submit n e)
    (bioOk : Bool) : OutsideKept s (dischargeSubmit s n e bioOk) := by
  obtain ⟨en, t, tree, p, c, hin, hst⟩ := h.of_outstanding (e := e) (by simp [outstanding, hpc])
  cases bioOk with
  | false =>
      rw [dischargeSubmit_fail hin hst n]
      exact outsideKept_settle h hin (en.state = .zombie)
  | true =>
      rw [dischargeSubmit_ok hin n]
      exact outsideKept_of_pages rfl

theorem outsideKept_dischargeEnd (h : Inv s) {b : BioId} {bio : WriteBio}
    (hb : s.writes.cell b = some bio) (ok : Bool) (junk : P) :
    OutsideKept s (stepDischargeEnd s b bio ok junk) := by
  have hpos : 0 < s.writes.count fun b' => b'.entry == bio.entry := Heap.count_pos hb (by simp)
  obtain ⟨en, t, tree, p, c, hin, hst⟩ := h.of_outstanding (e := bio.entry) (by
    unfold outstanding
    omega)
  obtain ⟨m, heq⟩ := stepDischargeEnd_eq hin hst b ok junk
  rw [heq]
  exact outsideKept_settle h hin _

/-- What a step outside prefetch leaves alone. -/
structure Aside (s s' : St P) : Prop where
  jobs : s'.jobs = s.jobs
  reads : s'.reads = s.reads
  outside : OutsideKept s s'

theorem aside_loadMissed (s : St P) (y : Slot) :
    Aside s ((loadMissRecord (loadRecord (s.touch y))).setPending y (some .loadMissed)) := by
  cases s
  exact ⟨rfl, rfl, outsideKept_of_pages rfl⟩

theorem Book.aside (hb : Book s s') (ho : OutsideKept s s') : Aside s s' :=
  ⟨hb.jobs, hb.reads, ho⟩

theorem aside_of_step {a : Action P} {r : St P × List (Event P)} (h : Inv s)
    (hs : step k s a = some r) (ha : a.isPrefetch = false) : Aside s r.1 := by
  cases a with
  | frontswapInit type kmallocOk =>
      obtain ⟨-, rfl⟩ := step_frontswapInit.mp hs
      cases kmallocOk <;> exact ⟨rfl, rfl, outsideKept_of_pages rfl⟩
  | store y page transHuge o =>
      obtain ⟨-, rfl⟩ := step_store.mp hs
      have hr := inv_storeRecord (inv_touch h y) k y
      unfold stepStore
      simp only
      cases transHuge with
      | true => exact ⟨rfl, rfl, outsideKept_of_pages rfl⟩
      | false =>
          simp only [Bool.false_eq_true, if_false]
          cases hl : atomicEntryLookupLock (storeRecord k (s.touch y) y) y with
          | none =>
              simp only
              exact ⟨rfl, rfl, outsideKept_of_pages rfl⟩
          | some e =>
              obtain ⟨en, t, tree, p, c, hin, -, -⟩ := hr.of_lookup hl
              have hb := book_storeInto hr hin page o
              exact ⟨hb.jobs, hb.reads, outsideKept_storeInto hr hin page o⟩
  | storeMissed y entryOk o =>
      obtain ⟨page, -, rfl⟩ := step_storeMissed.mp hs
      have hb := book_storeFresh (inv_touch h y) y page entryOk o
      exact ⟨hb.jobs, hb.reads, outsideKept_storeFresh (inv_touch h y) y page entryOk o⟩
  | load y kmapOk =>
      obtain ⟨-, rfl⟩ := step_load.mp hs
      have hr := inv_loadRecord (inv_touch h y)
      unfold stepLoad
      simp only
      cases hl : atomicEntryLookupLock (loadRecord (s.touch y)) y with
      | none => exact aside_loadMissed s y
      | some e =>
          obtain ⟨en, t, tree, p, c, hin, -, -⟩ := hr.of_lookup hl
          have hb := book_loadFromEntry hr hin kmapOk
          exact ⟨hb.jobs, hb.reads, outsideKept_loadFromEntry hr hin kmapOk⟩
  | loadMissed y io =>
      obtain ⟨-, rfl⟩ := step_loadMissed.mp hs
      have hb : Book (s.touch y) (loadFromDevice k (s.touch y) y io).1 :=
        (book_loadFromDevice y io).toBook
      refine ⟨hb.jobs, hb.reads, outsideKept_of_pages ?_⟩
      unfold loadFromDevice
      cases io with
      | bioAllocFailed => rfl
      | readFailed => rfl
      | readOk junk =>
          simp only
          split <;> rfl
  | invalidatePage y =>
      obtain ⟨-, rfl⟩ := step_invalidatePage.mp hs
      have hb := book_invalidatePage (inv_touch h y) y
      exact ⟨hb.jobs, hb.reads, outsideKept_invalidatePage (inv_touch h y) y⟩
  | frontswapMap y =>
      obtain ⟨mark, -, rfl⟩ := step_frontswapMap.mp hs
      exact ⟨rfl, rfl, outsideKept_of_pages rfl⟩
  | invalidateArea type =>
      obtain ⟨-, rfl⟩ := step_invalidateArea.mp hs
      have hb := book_invalidateAreaDetach (s := s.touchType type) type
      refine ⟨hb.jobs, hb.reads, outsideKept_of_pages ?_⟩
      unfold invalidateAreaDetach
      simp only
      split <;> rfl
  | invalidateAreaStep type =>
      obtain ⟨t, harea, rfl⟩ := step_invalidateAreaStep.mp hs
      have hb := (book_invalidateAreaStep (inv_touchType h type) harea).1
      refine ⟨?_, ?_, outsideKept_areaLooped h harea⟩
      · unfold areaLooped
        simp only
        split <;> exact hb.jobs
      · unfold areaLooped
        simp only
        split <;> exact hb.reads
  | dischargeOuter =>
      obtain ⟨-, rfl⟩ := step_dischargeOuter.mp hs
      exact ⟨rfl, rfl, outsideKept_of_pages rfl⟩
  | dischargeScan =>
      obtain ⟨n, -, rfl⟩ := step_dischargeScan.mp hs
      refine (book_dischargeScan h n).toBook.aside (outsideKept_of_pages ?_)
      rcases dischargeScan_cases h k n with heq | ⟨e, rest, m, -, heq⟩ |
        ⟨e, rest, en, t, tree, p, c, -, -, -, -, heq⟩ <;> rw [heq]
  | dischargeSubmit bioOk =>
      obtain ⟨n, e, hpc, rfl⟩ := step_dischargeSubmit.mp hs
      exact (book_dischargeSubmit h hpc bioOk).toBook.aside (outsideKept_dischargeSubmit h hpc bioOk)
  | dischargeEnd b ok junk =>
      obtain ⟨bio, hb, rfl⟩ := step_dischargeEnd.mp hs
      exact (book_dischargeEnd h hb ok junk).toBook.aside (outsideKept_dischargeEnd h hb ok junk)
  | prefetchPop => cases ha
  | prefetchLookup j => cases ha
  | prefetchSubmit j o => cases ha
  | prefetchRead b => cases ha
  | prefetchEnd b ok lockFree nodeOk => cases ha
  | statStore input =>
      obtain rfl := Option.some.inj hs
      unfold tswapStatStore
      split <;> exact ⟨rfl, rfl, outsideKept_of_pages rfl⟩
  | quarantineTimeStore input =>
      obtain rfl := Option.some.inj hs
      unfold tswapQuarantineTimeStore
      split <;> exact ⟨rfl, rfl, outsideKept_of_pages rfl⟩
  | nrPromotedPageShow =>
      obtain rfl := Option.some.inj hs
      exact ⟨rfl, rfl, outsideKept_of_pages rfl⟩
  | nrDiskPromotedPageShow =>
      obtain rfl := Option.some.inj hs
      exact ⟨rfl, rfl, outsideKept_of_pages rfl⟩
  | tick jiffies =>
      obtain rfl := Option.some.inj hs
      exact ⟨rfl, rfl, outsideKept_of_pages rfl⟩
  | kernelWrite y page =>
      obtain ⟨-, -, rfl⟩ := step_kernelWrite.mp hs
      exact ⟨rfl, rfl, outsideKept_of_pages rfl⟩

/-! ## Where jobs and reads come from -/

/-- A job was there before, was just taken from the ring, or has just looked for
an entry in vain. -/
theorem jobs_step {a : Action P} {r : St P × List (Event P)} (h : Inv s)
    (hs : step k s a = some r) {j : Nat} {job : PrefetchJob} (hj : r.1.jobs.cell j = some job) :
    s.jobs.cell j = some job ∨
      (s.frontswapMap job.slot = true ∧ job.seen = s.opCount job.slot ∧ job.missed = false) ∨
      ∃ job', s.jobs.cell j = some job' ∧ job'.slot = job.slot ∧ job'.seen = job.seen ∧
        atomicEntryLookupLock s job.slot = none := by
  have hfree : ∀ i, (s.jobs.free i).cell j = some job → s.jobs.cell j = some job := by
    intro i hi
    rw [Heap.cell_free] at hi
    split at hi
    · cases hi
    · exact hi
  cases ha : a.isPrefetch with
  | false =>
      rw [(aside_of_step h hs ha).jobs] at hj
      exact .inl hj
  | true =>
      cases a <;> simp only [Action.isPrefetch, Bool.false_eq_true] at ha
      case prefetchPop =>
        obtain ⟨y, ring, -, ⟨hmap, rfl⟩ | ⟨-, rfl⟩⟩ := step_prefetchPop.mp hs
        · simp only [Heap.cell_alloc] at hj
          split at hj
          · obtain rfl := Option.some.inj hj
            exact .inr (.inl ⟨hmap, rfl, rfl⟩)
          · exact .inl hj
        · exact .inl hj
      case prefetchLookup i =>
        obtain ⟨job', hj', -, ⟨-, rfl⟩ | ⟨hl, rfl⟩⟩ := step_prefetchLookup.mp hs
        · exact .inl (hfree i hj)
        · simp only [Heap.cell_write hj'] at hj
          split at hj
          · rename_i hji
            obtain rfl := Option.some.inj hj
            exact .inr (.inr ⟨job', hji ▸ hj', rfl, rfl, hl⟩)
          · exact .inl hj
      case prefetchSubmit i o =>
        obtain ⟨job', -, -, rfl⟩ := step_prefetchSubmit.mp hs
        left
        apply hfree i
        rcases prefetchSubmit_cases (inv_jobs h (s.jobs.free i) s.ring) job'.slot job'.seen o with
          hu | heq
        · simpa only [hu.book.jobs] using hj
        · simpa only [heq] using hj
      case prefetchRead b =>
        obtain ⟨bio, -, -, rfl⟩ := step_prefetchRead.mp hs
        exact .inl hj
      case prefetchEnd b ok lockFree nodeOk =>
        obtain ⟨bio, hb, -, rfl⟩ := step_prefetchEnd.mp hs
        rw [(prefetchEnded h k hb ok lockFree nodeOk).jobs] at hj
        exact .inl hj

theorem Inv.read_page_ne (h : Inv s) {b i : BioId} {bio bio' : ReadBio}
    (hb : s.reads.cell b = some bio) (hi : s.reads.cell i = some bio') (hne : b ≠ i) :
    bio.page ≠ bio'.page := by
  intro heq
  obtain ⟨en, c, hcell, hroot, -, hdata, -, -⟩ := h.of_read hi
  obtain ⟨en', c', hcell', -, -, hdata', -, -⟩ := h.of_read hb
  have hentry := h.pages.inj _ _ en' en hcell' hcell (by rw [hdata', hdata, heq])
  have hone := (h.lifecycle.prefetching hcell hroot).2.2.2
  have hfree := Heap.count_free hi fun b => b.entry == bio'.entry
  have hpos : 0 < (s.reads.free i).count fun b => b.entry == bio'.entry := by
    refine Heap.count_pos (i := b) (a := bio) ?_ (by simp [hentry])
    rw [Heap.cell_free, if_neg hne]
    exact hb
  simp only [beq_self_eq_true, if_true] at hfree
  unfold reading at hone
  omega

/-- A read was there before and its page is untouched, or it was just submitted
for a job that had found no entry, or the device has just filled its page. -/
theorem reads_step {a : Action P} {r : St P × List (Event P)} (h : Inv s)
    (hs : step k s a = some r) {b : BioId} {bio : ReadBio} (hb : r.1.reads.cell b = some bio) :
    (s.reads.cell b = some bio ∧
        r.1.dataContents (some bio.page) = s.dataContents (some bio.page)) ∨
      (bio.done = false ∧ ∃ j job, s.jobs.cell j = some job ∧ job.slot = bio.slot ∧
        job.seen = bio.seen ∧ job.missed = true) ∨
      ∃ bio', s.reads.cell b = some bio' ∧ bio'.slot = bio.slot ∧ bio'.seen = bio.seen ∧
        (bio'.done = false ∧ bio.done = true) ∧
        r.1.dataContents (some bio.page) = some (s.disk bio.slot) := by
  have hkept : ∀ {s' : St P}, OutsideKept s s' → s.reads.cell b = some bio →
      s'.dataContents (some bio.page) = s.dataContents (some bio.page) := by
    intro s' ho hb
    obtain ⟨en, c, hcell, hroot, -, hdata, -, -⟩ := h.of_read hb
    simp only [St.dataContents, ho _ en bio.page hcell hroot hdata]
  cases ha : a.isPrefetch with
  | false =>
      have haside := aside_of_step h hs ha
      rw [haside.reads] at hb
      exact .inl ⟨hb, hkept haside.outside hb⟩
  | true =>
      cases a <;> simp only [Action.isPrefetch, Bool.false_eq_true] at ha
      case prefetchPop =>
        obtain ⟨y, ring, -, ⟨-, rfl⟩ | ⟨-, rfl⟩⟩ := step_prefetchPop.mp hs
        · exact .inl ⟨hb, rfl⟩
        · exact .inl ⟨hb, rfl⟩
      case prefetchLookup i =>
        obtain ⟨job, -, -, ⟨-, rfl⟩ | ⟨-, rfl⟩⟩ := step_prefetchLookup.mp hs
        · exact .inl ⟨hb, rfl⟩
        · exact .inl ⟨hb, rfl⟩
      case prefetchSubmit i o =>
        obtain ⟨job, hj, hm, rfl⟩ := step_prefetchSubmit.mp hs
        have hi := inv_jobs h (s.jobs.free i) s.ring
        rcases prefetchSubmit_cases hi job.slot job.seen o with hu | heq
        · simp only [hu.book.reads] at hb
          obtain ⟨entries, pages, stat, heq, -, hpages, -⟩ := hu
          refine .inl ⟨hb, ?_⟩
          simp only [heq, St.dataContents, hpages]
        · simp only [heq, Heap.cell_alloc] at hb
          split at hb
          · obtain rfl := Option.some.inj hb
            exact .inr (.inl ⟨rfl, i, job, hj, rfl, rfl, hm⟩)
          · refine .inl ⟨hb, hkept ?_ hb⟩
            rw [heq]
            exact outsideKept_of_alloc h rfl
      case prefetchRead i =>
        obtain ⟨bio', hi, hd, rfl⟩ := step_prefetchRead.mp hs
        obtain ⟨en, c, hcell, hroot, -, hdata, -, hpage⟩ := h.of_read hi
        simp only [stepPrefetchRead, Heap.cell_write hi] at hb
        split at hb
        · rename_i hbi
          obtain rfl := Option.some.inj hb
          refine .inr (.inr ⟨bio', hbi ▸ hi, rfl, rfl, ⟨hd, rfl⟩, ?_⟩)
          simp [stepPrefetchRead, St.dataContents, Heap.cell_write hpage]
        · rename_i hbi
          refine .inl ⟨hb, ?_⟩
          have hne := h.read_page_ne hb hi hbi
          simp [stepPrefetchRead, St.dataContents, Heap.cell_write hpage, hne]
      case prefetchEnd i ok lockFree nodeOk =>
        obtain ⟨bio', hi, -, rfl⟩ := step_prefetchEnd.mp hs
        have he := prefetchEnded h k hi ok lockFree nodeOk
        rw [he.reads, Heap.cell_free] at hb
        split at hb
        · cases hb
        · rename_i hbi
          refine .inl ⟨hb, ?_⟩
          simp only [St.dataContents, he.pages _ (h.read_page_ne hb hi hbi)]

/-! ## The insertion -/

/-- The completion of a read will find a place for its entry. -/
def Inserts (s : St P) (bio : ReadBio) (ok lockFree nodeOk : Bool) : Prop :=
  (ok = true ∧ lockFree = true ∧ nodeOk = true) ∧ (s.tswapTreeRoots bio.slot.type).isSome ∧
    atomicEntryLookupLock s bio.slot = none

theorem inserts_of_prefetched {a : Action P} {r : St P × List (Event P)} {data : Option P}
    (h : Inv s) (hs : step k s a = some r) (hev : .prefetched x data ∈ r.2) :
    ∃ b bio ok lockFree nodeOk, a = .prefetchEnd b ok lockFree nodeOk ∧
      s.reads.cell b = some bio ∧ bio.slot = x ∧ bio.done = true ∧
      Inserts s bio ok lockFree nodeOk ∧ data = s.dataContents (some bio.page) ∧
      s.opCount x < r.1.opCount x := by
  have hemits := emits_of_mem hs hev
  cases a <;> simp only [Action.Emits] at hemits
  case prefetchEnd b ok lockFree nodeOk =>
    obtain ⟨bio, hb, hdone, rfl⟩ := step_prefetchEnd.mp hs
    have he := prefetchEnded h k hb ok lockFree nodeOk
    have hslot : bio.slot = x := by
      rcases he.count with ⟨hnil, -⟩ | ⟨data', hone, -⟩
      · simp [hnil] at hev
      · simp only [hone, List.mem_singleton, Event.prefetched.injEq] at hev
        exact hev.1.symm
    have hcount : s.opCount x < (stepPrefetchEnd k s b bio ok lockFree nodeOk).1.opCount x := by
      rcases he.count with ⟨hnil, -⟩ | ⟨data', -, hc⟩
      · simp [hnil] at hev
      · rw [hc, hslot]
        simp
    unfold stepPrefetchEnd at hev
    simp only at hev
    rcases prefetchEnd_cases h k hb ok lockFree nodeOk x with ⟨-, hnot⟩ |
      ⟨-, hok, -, hroot, hv, hpages, -⟩
    · rcases hnot with hnot | hnot
      · rw [if_neg (by simp [hnot])] at hev
        cases hev
      · exact (hnot hslot).elim
    · split at hev
      · refine ⟨b, bio, ok, lockFree, nodeOk, rfl, hb, hslot, hdone hok.1, ⟨hok, ?_, ?_⟩, ?_,
          hcount⟩
        · rw [hslot]
          exact hroot
        · rw [hslot]
          exact h.lookup_vacant hv
        · simp only [List.mem_singleton, Event.prefetched.injEq] at hev
          rw [hev.2]
          simp only [St.dataContents, hpages]
      · cases hev

end Memtrade.Tswap
