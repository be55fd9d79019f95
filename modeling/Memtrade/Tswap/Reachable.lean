import Memtrade.Tswap.Effects

/-!
# The invariant holds in every reachable state

One lemma per operation, each an application of a rule of `Preservation` to the
equation of the operation in `Effects`; `inv_step` puts them together and
`inv_of_reachable` is the induction over runs.
-/

namespace Memtrade.Tswap

variable {P : Type} {s : St P} {e : EntryId} {en : Entry} {t : TreeId} {tree : RadixTree}
  {p : PageId} {c : Option P}

/-! ## Steps that touch nothing the invariant reads -/

/-- Only device contents, kernel bookkeeping, clocks, the ring, prefetch jobs and
event counters differ. -/
theorem Inv.quiet {s s' : St P} (h : Inv s) (hentries : s'.entries = s.entries)
    (hpages : s'.pages = s.pages) (htrees : s'.trees = s.trees)
    (hroots : s'.tswapTreeRoots = s.tswapTreeRoots) (hareas : s'.areas = s.areas)
    (hnext : s'.nextTree = s.nextTree) (hlist : s'.quarantineList = s.quarantineList)
    (hpc : ∀ i, s'.discharge.holds i = s.discharge.holds i) (hwrites : s'.writes = s.writes)
    (hreads : s'.reads = s.reads) (hcensus : ∀ st, s'.stat.census st = s.stat.census st)
    (hlen : s'.stat.lenQuarantineList = s.stat.lenQuarantineList)
    (hfaults : s'.faults = s.faults) : Inv s' := by
  refine h.silent (by rw [hentries]) htrees hroots hareas hnext ?_ ?_ hlist ?_ ?_ hcensus hlen
    hfaults
  · rw [hpages]
    exact h.pages
  · rw [hwrites, hreads]
    exact h.bios
  · intro i
    simp only [outstanding, hwrites, hpc]
  · intro i
    simp only [reading, hreads]

theorem Inv.undone {s s' : St P} (h : Inv s) (hu : Undone s s') : Inv s' := by
  obtain ⟨entries, pages, stat, rfl, hentries, -, hpages, hcensus, hlen⟩ := hu
  exact h.silent hentries rfl rfl rfl rfl hpages h.bios rfl (fun _ => rfl) (fun _ => rfl) hcensus
    hlen rfl

/-! ## Giving up an entry -/

theorem count_erase_frame (l : List EntryId) (i : EntryId) (hi : i ≠ e) :
    (l.erase e).count i = l.count i :=
  List.count_erase_of_ne hi

theorem Inv.count_erase_self (h : Inv s) (e : EntryId) :
    (s.quarantineList.erase e).count e = 0 := by
  have := h.count_le_one e
  rw [List.count_erase_self]
  omega

theorem inv_dropEntry (h : Inv s) (hin : InTree s e en t tree p c) : Inv (dropEntry s e) := by
  obtain ⟨hvalid, hout, hlist, hread⟩ := h.lifecycle.tree hin.cell hin.root
  by_cases hst : en.state = .inMemory
  · rw [dropEntry_of_inMemory hin hst]
    refine h.remove hin ⟨rfl, rfl, rfl, rfl, count_erase_frame _, fun _ _ => rfl, fun _ _ => rfl,
      lenWithout_eq h.len⟩ rfl ?_ (h.count_erase_self e) hread rfl rfl h.bios ?_
    · rw [hst] at hout
      exact hout
    · intro st
      rw [hst]
      exact s.stat.census_dec (by simp) st
  · have hst' := h.outstanding_of_ne hin hst
    rw [dropEntry_of_outstanding hin hst']
    refine h.rewrite hin ⟨rfl, rfl, rfl, rfl, count_erase_frame _, fun _ _ => rfl, fun _ _ => rfl,
      lenWithout_eq h.len⟩ rfl rfl rfl rfl rfl (by simp) (hout.trans hst') (h.count_erase_self e)
      hread rfl h.pages h.bios ?_
    intro st
    have hdec := s.stat.census_dec hvalid st
    have hinc := (s.stat.dec en.state).census_inc (a := .zombie) (by simp) st
    change ((s.stat.dec en.state).inc .zombie).census st + _ = _
    rw [hinc]
    simp only
    omega

/-! ## Settling a discharge -/

/-- `w`, `pc` are the writes and the thread of `s` without one discharge of `e`. -/
def TakesOff (s : St P) (e : EntryId) (w : Heap WriteBio) (pc : DischargePc) : Prop :=
  ∀ i, w.count (fun b => b.entry == i) + pc.holds i + (if i = e then 1 else 0) = outstanding s i

theorem Inv.settled (h : Inv s) (hin : InTree s e en t tree p c)
    (hst : en.state = .inMemoryFollowedByZombie ∨ en.state = .inFlight)
    {w : Heap WriteBio} {pc : DischargePc} (hoff : TakesOff s e w pc)
    (hbios : Bios s.entries w s.reads) (d : Slot → P) (st : Stat)
    (hcensus : ∀ a, st.census a = s.stat.census a)
    (hlen : st.lenQuarantineList = s.stat.lenQuarantineList) :
    Inv ({ s with writes := w, discharge := pc, disk := d, stat := st }.settled e en) := by
  obtain ⟨hvalid, hout, hlist, hread⟩ := h.lifecycle.tree hin.cell hin.root
  have hcount : ∀ i, (if en.state = .inFlight then s.quarantineList.erase e ++ [e]
      else s.quarantineList).count i = if i = e then 1 else s.quarantineList.count i := by
    intro i
    rcases hst with hst | hst
    · rw [if_neg (by simp [hst])]
      split
      · rename_i hi
        rw [hi, hlist, hst]
        rfl
      · rfl
    · rw [if_pos hst]
      exact count_requeue (h.count_le_one e) i
  have hlen' : (if en.state = .inFlight then
      { s with writes := w, discharge := pc, disk := d, stat := st }.lenWith e
      else st.lenQuarantineList) = ((if en.state = .inFlight then s.quarantineList.erase e ++ [e]
        else s.quarantineList).length : Int) := by
    split
    · exact lenWith_eq (hlen.trans h.len)
    · exact hlen.trans h.len
  refine h.rewrite hin ⟨rfl, rfl, rfl, rfl, ?_, ?_, fun _ _ => rfl, hlen'⟩ rfl rfl rfl rfl rfl
    (by simp) ?_ ?_ hread rfl h.pages hbios ?_
  · intro i hi
    exact (hcount i).trans (if_neg hi)
  · intro i hi
    have := hoff i
    rw [if_neg hi] at this
    exact this
  · have := hoff e
    rw [if_pos rfl, hout] at this
    have hone : en.state.outstanding = 1 := by rcases hst with hst | hst <;> rw [hst] <;> rfl
    change w.count _ + pc.holds e = 0
    omega
  · exact (hcount e).trans (if_pos rfl)
  · intro a
    have hdec := st.census_dec hvalid a
    have hinc := (st.dec en.state).census_inc (a := .inMemory) (by simp) a
    change ((st.dec en.state).inc .inMemory).census a + _ = _
    rw [hinc, ← hcensus a]
    simp only
    omega

theorem Inv.reaped (h : Inv s) (hin : InTree s e en t tree p c)
    (hst : en.state = .zombie ∨ en.state = .inFlight)
    {w : Heap WriteBio} {pc : DischargePc} (hoff : TakesOff s e w pc)
    (hbios : Bios s.entries w s.reads) (d : Slot → P) (st : Stat)
    (hcensus : ∀ a, st.census a = s.stat.census a)
    (hlen : st.lenQuarantineList = s.stat.lenQuarantineList) :
    Inv ({ s with writes := w, discharge := pc, disk := d, stat := st }.reaped e en p t tree) := by
  obtain ⟨hvalid, hout, hlist, hread⟩ := h.lifecycle.tree hin.cell hin.root
  refine h.remove hin ⟨rfl, rfl, rfl, rfl, fun _ _ => rfl, ?_, fun _ _ => rfl, ?_⟩ rfl ?_ ?_ hread
    rfl rfl hbios ?_
  · intro i hi
    have := hoff i
    rw [if_neg hi] at this
    exact this
  · change (st.dec en.state).lenQuarantineList = _
    rw [Stat.dec_len, hlen]
    exact h.len
  · have := hoff e
    rw [if_pos rfl, hout] at this
    have hone : en.state.outstanding = 1 := by rcases hst with hst | hst <;> rw [hst] <;> rfl
    change w.count _ + pc.holds e = 0
    omega
  · change s.quarantineList.count e = 0
    rw [hlist]
    rcases hst with hst | hst <;> rw [hst] <;> rfl
  · intro a
    change (st.dec en.state).census a + _ = _
    rw [st.census_dec hvalid a, hcensus a]

/-- The two ways to settle a discharge, as the handlers choose between them. -/
theorem Inv.settle (h : Inv s) (hin : InTree s e en t tree p c) (hst : en.state.outstanding = 1)
    {w : Heap WriteBio} {pc : DischargePc} (hoff : TakesOff s e w pc)
    (hbios : Bios s.entries w s.reads) (d : Slot → P) (st : Stat)
    (hcensus : ∀ a, st.census a = s.stat.census a)
    (hlen : st.lenQuarantineList = s.stat.lenQuarantineList) (gone : Prop) [Decidable gone]
    (hzombie : en.state = .zombie → gone)
    (hrewritten : en.state = .inMemoryFollowedByZombie → ¬ gone) :
    Inv (if gone then
        { s with writes := w, discharge := pc, disk := d, stat := st }.reaped e en p t tree
      else { s with writes := w, discharge := pc, disk := d, stat := st }.settled e en) := by
  split
  · rename_i hg
    refine h.reaped hin ?_ hoff hbios d st hcensus hlen
    cases hs : en.state <;> simp_all [EntryState.outstanding]
  · rename_i hg
    refine h.settled hin ?_ hoff hbios d st hcensus hlen
    cases hs : en.state <;> simp_all [EntryState.outstanding]

theorem takesOff_submit {n m : Int} (hpc : s.discharge = .submit n e) :
    TakesOff s e s.writes (.scan m) := by
  intro i
  simp only [outstanding, hpc, DischargePc.holds_submit, DischargePc.holds_scan, eq_comm (a := e)]
  omega

theorem takesOff_end {b : BioId} {bio : WriteBio} (hb : s.writes.cell b = some bio) :
    TakesOff s bio.entry (s.writes.free b) s.discharge := by
  intro i
  have hcount := Heap.count_free hb fun b' => b'.entry == i
  simp only [outstanding, ← hcount, beq_iff_eq, eq_comm (a := i)]
  omega

theorem bios_free_write (h : Bios s.entries s.writes s.reads) (b : BioId) :
    Bios s.entries (s.writes.free b) s.reads := by
  refine h.of_bios ?_ fun i bio hi => ⟨bio, hi, rfl, rfl, rfl⟩
  intro i bio hi
  rw [Heap.cell_free] at hi
  split at hi
  · cases hi
  · exact ⟨bio, hi, rfl, rfl, rfl⟩

theorem inv_dischargeSubmit (h : Inv s) {n : Int} (hpc : s.discharge = .submit n e)
    (bioOk : Bool) : Inv (dischargeSubmit s n e bioOk) := by
  have hpos : 0 < outstanding s e := by simp [outstanding, hpc]
  obtain ⟨en, t, tree, p, c, hin, hst⟩ := h.of_outstanding hpos
  cases bioOk with
  | false =>
      rw [dischargeSubmit_fail hin hst n]
      have hsettled := h.settle hin hst (takesOff_submit (m := n) hpc) h.bios s.disk
        { s.stat with
          nrAsyncIo := s.stat.nrAsyncIo + 1
          nrMallocFail := s.stat.nrMallocFail + 1 }
        (fun a => by cases a <;> rfl) rfl (en.state = .zombie) id (by simp_all)
      exact hsettled.quiet rfl rfl rfl rfl rfl rfl rfl (fun _ => rfl) rfl rfl
        (fun st => by cases st <;> rfl) rfl rfl
  | true =>
      rw [dischargeSubmit_ok hin n]
      have hout : ∀ i, (s.writes.alloc ⟨e, en.slot, p, false⟩).count (fun b => b.entry == i) +
          DischargePc.holds (.scan n) i = outstanding s i := by
        intro i
        have := takesOff_submit (m := n) hpc i
        rw [Heap.count_alloc, ← this]
        simp only [beq_iff_eq, eq_comm (a := e)]
        omega
      refine h.silent rfl rfl rfl rfl rfl h.pages ?_ rfl hout (fun _ => rfl)
        (fun st => by cases st <;> rfl) rfl rfl
      constructor
      · intro b bio eni hb hi
        rw [Heap.cell_alloc] at hb
        split at hb
        · obtain rfl := Option.some.inj hb
          obtain rfl : en = eni := Option.some.inj (hin.cell.symm.trans hi)
          exact ⟨hin.data, rfl⟩
        · exact h.bios.writes b bio eni hb hi
      · exact h.bios.reads

theorem inv_dischargeEnd (h : Inv s) {b : BioId} {bio : WriteBio}
    (hb : s.writes.cell b = some bio) (ok : Bool) (junk : P) :
    Inv (stepDischargeEnd s b bio ok junk) := by
  have hpos : 0 < outstanding s bio.entry := by
    have : 0 < s.writes.count fun b' => b'.entry == bio.entry := Heap.count_pos hb (by simp)
    unfold outstanding
    omega
  obtain ⟨en, t, tree, p, c, hin, hst⟩ := h.of_outstanding hpos
  obtain ⟨m, heq⟩ := stepDischargeEnd_eq hin hst b ok junk
  rw [heq]
  exact h.settle hin hst (takesOff_end hb) (bios_free_write h.bios b) _
    { s.stat with
      nrAsyncEndIo := s.stat.nrAsyncEndIo + 1
      nrAsyncEndIoFail := m }
    (fun a => by cases a <;> rfl) rfl (en.state = .zombie ∨ (en.state = .inFlight ∧ ok = true))
    .inl (by simp_all)

/-! ## Storing -/

theorem InTree.stat (hin : InTree s e en t tree p c) (st : Stat) :
    InTree { s with stat := st } e en t tree p c :=
  ⟨hin.cell, hin.root, hin.trees, hin.item, hin.data, hin.page⟩

theorem bios_markModified (h : Bios s.entries s.writes s.reads) (p : PageId) :
    Bios s.entries (s.writes.map (markModified p)) s.reads := by
  refine h.of_bios ?_ fun i bio hi => ⟨bio, hi, rfl, rfl, rfl⟩
  intro b bio hb
  rw [Heap.cell_map] at hb
  cases hcell : s.writes.cell b with
  | none => simp [hcell] at hb
  | some bio' =>
      simp only [hcell, Option.map_some, Option.some.injEq] at hb
      subst hb
      refine ⟨bio', rfl, ?_⟩
      unfold markModified
      split <;> exact ⟨rfl, rfl, rfl⟩

theorem count_markModified (w : Heap WriteBio) (p : PageId) (i : EntryId) :
    (w.map (markModified p)).count (fun b => b.entry == i) = w.count fun b => b.entry == i := by
  apply Heap.count_map
  intro b
  unfold markModified
  split <;> rfl

theorem inv_storeInto (h : Inv s) (hin : InTree s e en t tree p c) (page : P) (o : StoreOutcome) :
    Inv (storeInto s e true page o).1 := by
  obtain ⟨hvalid, hout, hlist, hread⟩ := h.lifecycle.tree hin.cell hin.root
  by_cases hk : o.kmapOk = true
  · obtain ⟨n, heq⟩ := storeInto_ok hin hvalid page o hk
    rw [heq]
    have hfilled : en.state.filled ≠ .invalid := by
      cases hs : en.state <;> simp_all [EntryState.filled]
    have hsame : outstanding s e = en.state.filled.outstanding := by
      rw [hout]
      cases hs : en.state <;> simp_all [EntryState.filled, EntryState.outstanding]
    have hlisted : en.state.filled.listed = 1 := by
      cases hs : en.state <;> rfl
    have hcount := count_requeue (h.count_le_one e)
    refine h.rewrite hin ⟨rfl, rfl, rfl, rfl, ?_, ?_, fun _ _ => rfl, lenWith_eq h.len⟩ rfl rfl rfl
      rfl rfl hfilled ?_ ?_ hread rfl (h.pages.writePage hin.page) (bios_markModified h.bios p) ?_
    · intro i hi
      exact (hcount i).trans (if_neg hi)
    · intro i _
      exact congrArg (· + _) (count_markModified s.writes p i)
    · exact (congrArg (· + _) (count_markModified s.writes p e)).trans hsame
    · exact ((hcount e).trans (if_pos rfl)).trans hlisted.symm
    · intro a
      have hdec := s.stat.census_dec hvalid a
      have hinc := (s.stat.dec en.state).census_inc hfilled a
      change ((s.stat.dec en.state).inc en.state.filled).census a + _ = _
      rw [hinc]
      simp only
      omega
  · obtain ⟨n, heq⟩ := storeInto_kmapFail hin hvalid page o (by simpa using hk)
    rw [heq]
    have hq : Inv { s with
        stat.nrKmapFail := s.stat.nrKmapFail + 1
        stat.nrOverwriteStore := n } :=
      h.quiet rfl rfl rfl rfl rfl rfl rfl (fun _ => rfl) rfl rfl
        (fun st => by cases st <;> rfl) rfl rfl
    exact inv_dropEntry hq (hin.stat _)

theorem Inv.bios_ne_next (h : Inv s) :
    (∀ b bio, s.writes.cell b = some bio → bio.entry ≠ s.entries.next) ∧
      ∀ b bio, s.reads.cell b = some bio → bio.entry ≠ s.entries.next := by
  obtain ⟨hout, -, hread⟩ := h.lifecycle.dead (Heap.cell_next s.entries)
  constructor
  · rintro b bio hb heq
    have : 0 < s.writes.count fun b => b.entry == s.entries.next :=
      Heap.count_pos hb (by simp [heq])
    unfold outstanding at hout
    omega
  · rintro b bio hb heq
    have : 0 < s.reads.count fun b => b.entry == s.entries.next :=
      Heap.count_pos hb (by simp [heq])
    unfold reading at hread
    omega

theorem inv_storeFresh (h : Inv s) (x : Slot) (page : P) (entryOk : Bool) (o : StoreOutcome) :
    Inv (storeFresh s x page entryOk o).1 := by
  rcases storeFresh_cases h x page entryOk o with ⟨t, tree, n, hroot, htree, hitem, heq⟩ | hu
  · rw [heq]
    obtain ⟨hout, hlist, hread⟩ := h.lifecycle.dead (Heap.cell_next s.entries)
    have hcount := count_requeue (h.count_le_one s.entries.next)
    have hcell : ∀ i, i ≠ s.entries.next →
        (s.entries.alloc (storedEntry s x t)).cell i = s.entries.cell i := by
      intro i hi
      rw [Heap.cell_alloc, if_neg hi]
    refine ⟨?_, ?_, h.pages.alloc rfl _, h.bios.alloc h.bios_ne_next.1 h.bios_ne_next.2, ?_,
      lenWith_eq h.len, h.faults⟩
    · refine h.lifecycle.of_local s.entries.next ?_ ?_
      · intro i hi
        simp only [St.view, hcell i hi, hcount i, if_neg hi]
        rfl
      · have hnew : (s.entries.alloc (storedEntry s x t)).cell s.entries.next =
            some (storedEntry s x t) := by rw [Heap.cell_alloc, if_pos rfl]
        exact View.ok_tree hnew rfl (by simp [storedEntry]) hout ((hcount _).trans (if_pos rfl))
          hread
    · have halloc : Index (s.entries.alloc (newEntry x)) s.trees s.tswapTreeRoots s.areas
          s.nextTree := h.index.alloc rfl
      have hnew : (s.entries.alloc (newEntry x)).cell s.entries.next = some (newEntry x) := by
        rw [Heap.cell_alloc, if_pos rfl]
      have hstored : (storedEntry s x t).tswapTreeRoot = some t := rfl
      have hindex := halloc.insert hnew rfl hroot htree hitem hstored
      rw [Heap.alloc_write] at hindex
      exact hindex
    · exact h.census.alloc fun st => s.stat.census_inc (by simp) st
  · exact h.undone hu.state

/-! ## The discharge scan -/

theorem inv_dischargeScan (h : Inv s) (k : Kernel) {n : Int} (hpc : s.discharge = .scan n) :
    Inv (dischargeScan k s n) := by
  have hidle : ∀ i, s.discharge.holds i = 0 := by
    intro i
    rw [hpc]
    rfl
  rcases dischargeScan_cases h k n with heq | ⟨e, rest, m, hlist, heq⟩ |
    ⟨e, rest, en, t, tree, p, c, hlist, hin, hst, -, heq⟩
  · rw [heq]
    exact h.quiet rfl rfl rfl rfl rfl rfl rfl (fun i => (hidle i).symm) rfl rfl (fun _ => rfl) rfl
      rfl
  · rw [heq]
    have hcount : ∀ i, (rest ++ [e]).count i = s.quarantineList.count i := by
      intro i
      rw [hlist, List.count_append, List.count_singleton, List.count_cons]
    have hview : ∀ i, St.view { s with
        quarantineList := rest ++ [e]
        discharge := .scan (n - 1)
        stat.nrQuarantineSkipMemZombie := m } i = s.view i := by
      intro i
      simp only [St.view, hcount i, outstanding, hidle i]
      rfl
    refine ⟨?_, h.index, h.pages, h.bios, h.census.stat fun st => by cases st <;> rfl, ?_,
      h.faults⟩
    · intro i
      rw [hview i]
      exact h.lifecycle i
    · have hlen := h.len
      rw [hlist] at hlen
      simpa using hlen
  · rw [heq]
    obtain ⟨hvalid, hout, hlisted, hread⟩ := h.lifecycle.tree hin.cell hin.root
    have hhead : rest.count e = 0 := by
      have hcount := h.count_le_one e
      rw [hlist, List.count_cons_self] at hcount
      omega
    refine h.rewrite hin ⟨rfl, rfl, rfl, rfl, ?_, ?_, fun _ _ => rfl, ?_⟩ rfl rfl rfl rfl rfl
      (by simp) ?_ hhead hread rfl h.pages h.bios ?_
    · intro i hi
      rw [hlist, List.count_cons_of_ne (Ne.symm hi)]
    · intro i hi
      simp [outstanding, hidle i, Ne.symm hi]
    · have hlen := h.len
      rw [hlist] at hlen
      simp only [hlen, List.length_cons]
      omega
    · have hzero : s.writes.count (fun b => b.entry == e) = 0 := by
        rw [hst] at hout
        unfold outstanding at hout
        simp only [EntryState.outstanding] at hout
        omega
      simp [outstanding, hzero, EntryState.outstanding]
    · intro st
      have hdec := s.stat.census_dec (a := .inMemory) (by simp) st
      have hinc := (s.stat.dec .inMemory).census_inc (a := .inFlight) (by simp) st
      change ((s.stat.dec .inMemory).inc .inFlight).census st + _ = _
      rw [hinc, hst]
      simp only
      omega

/-! ## Prefetch -/

theorem inv_prefetchSubmit (h : Inv s) (x : Slot) (seen : Nat) (o : PrefetchOutcome) :
    Inv (prefetchSubmit s x seen o) := by
  rcases prefetchSubmit_cases h x seen o with hu | heq
  · exact h.undone hu
  · rw [heq]
    obtain ⟨hout, hlist, hread⟩ := h.lifecycle.dead (Heap.cell_next s.entries)
    have hcell : ∀ i, i ≠ s.entries.next →
        (s.entries.alloc (prefetchEntry s x)).cell i = s.entries.cell i := by
      intro i hi
      rw [Heap.cell_alloc, if_neg hi]
    have hnew : (s.entries.alloc (prefetchEntry s x)).cell s.entries.next =
        some (prefetchEntry s x) := by rw [Heap.cell_alloc, if_pos rfl]
    refine ⟨?_, h.index.alloc rfl, h.pages.alloc rfl _, ?_, ?_, h.len, h.faults⟩
    · refine h.lifecycle.of_local s.entries.next ?_ ?_
      · intro i hi
        simp only [St.view, hcell i hi, reading, Heap.count_alloc]
        simp [Ne.symm hi]
        rfl
      · refine View.ok_prefetching hnew rfl rfl hout hlist ?_
        simp only [St.view, reading, Heap.count_alloc]
        unfold reading at hread
        simp [hread]
    · have halloc : Bios (s.entries.alloc (prefetchEntry s x)) s.writes s.reads :=
        h.bios.alloc h.bios_ne_next.1 h.bios_ne_next.2
      refine ⟨halloc.writes, ?_⟩
      intro b bio en hb he
      rw [Heap.cell_alloc] at hb
      split at hb
      · obtain rfl := Option.some.inj hb
        obtain rfl := Option.some.inj (hnew.symm.trans he)
        exact ⟨rfl, rfl⟩
      · exact halloc.reads b bio en hb he
    · exact h.census.alloc fun st => s.stat.census_inc (by simp) st

theorem Inv.of_read (h : Inv s) {b : BioId} {bio : ReadBio} (hb : s.reads.cell b = some bio) :
    ∃ en c, s.entries.cell bio.entry = some en ∧ en.tswapTreeRoot = none ∧
      en.state = .inMemory ∧ en.data = some bio.page ∧ en.slot = bio.slot ∧
      s.pages.cell bio.page = some c := by
  have hpos : 0 < s.reads.count fun b' => b'.entry == bio.entry := Heap.count_pos hb (by simp)
  cases hcell : s.entries.cell bio.entry with
  | none =>
      have := (h.lifecycle.dead hcell).2.2
      unfold reading at this
      omega
  | some en =>
      cases hroot : en.tswapTreeRoot with
      | some t =>
          have := (h.lifecycle.tree hcell hroot).2.2.2
          unfold reading at this
          omega
      | none =>
          obtain ⟨p, c, hp, hc⟩ := h.pages.owned _ en hcell
          obtain ⟨hdata, hslot⟩ := h.bios.reads b bio en hb hcell
          obtain rfl := Option.some.inj (hdata.symm.trans hp)
          exact ⟨en, c, rfl, hroot, (h.lifecycle.prefetching hcell hroot).1, hdata, hslot, hc⟩

theorem bios_free_read (h : Bios s.entries s.writes s.reads) (b : BioId) :
    Bios s.entries s.writes (s.reads.free b) := by
  refine h.of_bios (fun i bio hi => ⟨bio, hi, rfl, rfl, rfl⟩) ?_
  intro i bio hi
  rw [Heap.cell_free] at hi
  split at hi
  · cases hi
  · exact ⟨bio, hi, rfl, rfl, rfl⟩

theorem inv_prefetchEnd (h : Inv s) (k : Kernel) {b : BioId} {bio : ReadBio}
    (hb : s.reads.cell b = some bio) (ok lockFree nodeOk : Bool) :
    Inv (prefetchAsyncIoEnd k { s with reads := s.reads.free b } bio.entry ok lockFree
      nodeOk).1 := by
  obtain ⟨en, c, hcell, hroot, hst, hdata, hslot, hpage⟩ := h.of_read hb
  obtain ⟨-, hout, hlist, hread⟩ := h.lifecycle.prefetching hcell hroot
  have hreads : ∀ i, (s.reads.free b).count (fun b' => b'.entry == i) +
      (if i = bio.entry then 1 else 0) = reading s i := by
    intro i
    have := Heap.count_free hb fun b' => b'.entry == i
    simp only [reading, ← this, beq_iff_eq, eq_comm (a := i)]
  have hother : ∀ i, i ≠ bio.entry →
      (s.reads.free b).count (fun b' => b'.entry == i) = reading s i := by
    intro i hi
    have := hreads i
    rw [if_neg hi] at this
    exact this
  have hzero : (s.reads.free b).count (fun b' => b'.entry == bio.entry) = 0 := by
    have := hreads bio.entry
    rw [if_pos rfl] at this
    omega
  have hroots : ∀ ty t, s.tswapTreeRoots ty = some t → (s.trees t).isSome := fun ty t ht =>
    (h.index.roots ty t ht).2.1
  rcases prefetchAsyncIoEnd_cases (s := { s with reads := s.reads.free b }) hroots hcell hroot
    hdata hpage k ok lockFree nodeOk with
    ⟨a, f, n, heq⟩ | ⟨t, tree, ts, a, -, hr, htree, hitem, heq⟩
  · rw [heq]
    refine ⟨?_, h.index.free_outside ?_, h.pages.free hcell hdata hpage,
      (bios_free_read h.bios b).free _, ?_, ?_, h.faults⟩
    · refine h.lifecycle.of_local bio.entry ?_ ?_
      · intro i hi
        simp only [St.view, Heap.cell_free, if_neg hi, reading, hother i hi]
        rfl
      · simp only [View.Ok, St.view, Heap.cell_free, if_true]
        exact ⟨hout, hlist, hzero⟩
    · intro en' hen'
      obtain rfl := Option.some.inj (hcell.symm.trans hen')
      exact hroot
    · refine h.census.free hcell fun st => ?_
      rw [hst]
      exact s.stat.census_dec (by simp) st
    · exact h.len
  · rw [heq]
    have hw := Heap.cell_write hcell { en with timeStamp := ts, tswapTreeRoot := some t }
    have hcount := count_requeue (h.count_le_one bio.entry)
    refine ⟨?_, h.index.insert hcell hroot hr htree hitem rfl, h.pages.write hcell rfl,
      (bios_free_read h.bios b).write hcell rfl rfl, ?_, lenWith_eq h.len, h.faults⟩
    · refine h.lifecycle.of_local bio.entry ?_ ?_
      · intro i hi
        simp only [St.view, hw, if_neg hi, reading, hother i hi, hcount i]
        rfl
      · refine View.ok_tree ((hw _).trans (if_pos rfl)) rfl (by simp [hst]) ?_ ?_ hzero
        · simp only [hst]
          exact hout
        · simp only [hst]
          exact (hcount _).trans (if_pos rfl)
    · exact h.census.write hcell fun st => rfl

theorem inv_prefetchRead (h : Inv s) {b : BioId} {bio : ReadBio} (hb : s.reads.cell b = some bio) :
    Inv (stepPrefetchRead s b bio) := by
  obtain ⟨en, c, -, -, -, -, -, hpage⟩ := h.of_read hb
  have hw := Heap.cell_write hb { bio with done := true }
  refine h.silent rfl rfl rfl rfl rfl (h.pages.writePage hpage) ?_ rfl (fun _ => rfl) ?_
    (fun _ => rfl) rfl rfl
  · refine h.bios.of_bios (fun i bio hi => ⟨bio, hi, rfl, rfl, rfl⟩) ?_
    intro i bio' hi
    change (s.reads.write b { bio with done := true }).cell i = some bio' at hi
    rw [hw] at hi
    split at hi
    · rename_i hib
      obtain rfl := Option.some.inj hi
      exact ⟨bio, hib ▸ hb, rfl, rfl, rfl⟩
    · exact ⟨bio', hi, rfl, rfl, rfl⟩
  · intro i
    have := Heap.count_write hb { bio with done := true } fun b' => b'.entry == i
    exact Nat.add_right_cancel this

/-! ## Area invalidation and set-up -/

theorem inv_invalidateAreaDetach (h : Inv s) {type : Nat} (harea : s.areas type = none) :
    Inv (invalidateAreaDetach s type) := by
  unfold invalidateAreaDetach
  cases hroot : s.tswapTreeRoots type with
  | none =>
      simp only [hroot]
      refine ⟨h.lifecycle, h.index, h.pages, h.bios, h.census.stat fun st => by cases st <;> rfl,
        h.len, ?_⟩
      intro f hf
      rcases List.mem_cons.mp hf with rfl | hf
      · rfl
      · exact h.faults f hf
  | some t =>
      simp only [hroot]
      have hindex : Index s.entries s.trees (Function.update s.tswapTreeRoots type none)
          (Function.update s.areas type (some t)) s.nextTree := by
        refine ⟨h.index.sound, h.index.complete, ?_, ?_, ?_, h.index.fresh⟩
        · intro e en u he hu
          obtain ⟨htype, hreg⟩ := h.index.type e en u he hu
          refine ⟨htype, ?_⟩
          by_cases hty : en.type = type
          · right
            rw [hty, Function.update_self]
            rw [hty, hroot, harea] at hreg
            simpa using hreg
          · rw [Function.update_of_ne hty, Function.update_of_ne hty]
            exact hreg
        · intro ty u hu
          by_cases hty : ty = type
          · subst hty
            simp at hu
          · rw [Function.update_of_ne hty] at hu ⊢
            exact h.index.roots ty u hu
        · intro ty u hu
          by_cases hty : ty = type
          · subst hty
            rw [Function.update_self] at hu
            obtain rfl := Option.some.inj hu
            have := h.index.roots ty t hroot
            exact ⟨this.1, this.2.1⟩
          · rw [Function.update_of_ne hty] at hu
            exact h.index.areas ty u hu
      exact ⟨h.lifecycle, hindex, h.pages, h.bios, h.census.stat fun st => by cases st <;> rfl,
        h.len, h.faults⟩

theorem gangLookup_some {tree : RadixTree} {e : EntryId} (hg : radixTreeGangLookup tree = some e) :
    ∃ off : Nat, tree[off]? = some e := by
  unfold radixTreeGangLookup at hg
  cases hl : tree.toList with
  | nil => simp [hl] at hg
  | cons a l =>
      simp only [hl, List.head?_cons, Option.map_some, Option.some.injEq] at hg
      refine ⟨a.1, Std.TreeMap.mem_toList_iff_getElem?_eq_some.mp ?_⟩
      rw [hl, ← hg]
      exact List.mem_cons_self

theorem gangLookup_none {tree : RadixTree} (hg : radixTreeGangLookup tree = none) (off : Nat) :
    tree[off]? = none := by
  unfold radixTreeGangLookup at hg
  cases hitem : tree[off]? with
  | none => rfl
  | some e =>
      have hmem := Std.TreeMap.mem_toList_iff_getElem?_eq_some.mpr hitem
      cases hl : tree.toList with
      | nil => simp [hl] at hmem
      | cons a l => simp [hl] at hg

theorem Index.release {entries : Heap Entry} {trees roots areas nextTree}
    (h : Index entries trees roots areas nextTree) {type : Nat} {t : TreeId} {tree : RadixTree}
    (harea : areas type = some t) (htree : trees t = some tree)
    (hempty : ∀ off : Nat, tree[off]? = none) :
    Index entries (Function.update trees t none) roots (Function.update areas type none)
      nextTree := by
  have hne : ∀ e en u, entries.cell e = some en → en.tswapTreeRoot = some u → u ≠ t := by
    rintro e en u he hu rfl
    obtain ⟨tree', htree', hitem⟩ := h.complete e en u he hu
    obtain rfl := Option.some.inj (htree.symm.trans htree')
    rw [hempty] at hitem
    cases hitem
  have hold : ∀ u, (Function.update trees t none u).isSome → u ≠ t ∧ (trees u).isSome := by
    intro u hu
    by_cases hut : u = t
    · subst hut
      simp at hu
    · rw [Function.update_of_ne hut] at hu
      exact ⟨hut, hu⟩
  refine ⟨?_, ?_, ?_, ?_, ?_, fun u hu => h.fresh u (hold u hu).2⟩
  · intro u tree' off e hu hi
    have hut := (hold u (by rw [hu]; rfl)).1
    rw [Function.update_of_ne hut] at hu
    exact h.sound u tree' off e hu hi
  · intro e en u he hu
    rw [Function.update_of_ne (hne e en u he hu)]
    exact h.complete e en u he hu
  · intro e en u he hu
    obtain ⟨htype, hreg⟩ := h.type e en u he hu
    refine ⟨htype, hreg.imp id fun ha => ?_⟩
    rw [Function.update_of_ne]
    · exact ha
    · intro hty
      rw [hty, harea] at ha
      exact hne e en u he hu (Option.some.inj ha).symm
  · intro ty u hu
    obtain ⟨htype, hsome, hnone⟩ := h.roots ty u hu
    have hut : u ≠ t := by
      rintro rfl
      rw [← htype, (h.areas type u harea).1, harea] at hnone
      cases hnone
    rw [Function.update_of_ne hut]
    refine ⟨htype, hsome, ?_⟩
    by_cases hty : ty = type
    · rw [hty, Function.update_self]
    · rw [Function.update_of_ne hty]
      exact hnone
  · intro ty u hu
    by_cases hty : ty = type
    · subst hty
      simp at hu
    · rw [Function.update_of_ne hty] at hu
      obtain ⟨htype, hsome⟩ := h.areas ty u hu
      have hut : u ≠ t := by
        rintro rfl
        exact hty (htype.symm.trans (h.areas type u harea).1)
      rw [Function.update_of_ne hut]
      exact ⟨htype, hsome⟩

theorem inv_invalidateAreaStep (h : Inv s) {type : Nat} (harea : s.areas type = some t) :
    Inv (invalidateAreaStep s type t).1 := by
  obtain ⟨tree, htree⟩ := Option.isSome_iff_exists.mp (h.index.areas type t harea).2
  unfold invalidateAreaStep
  cases hg : radixTreeGangLookup tree with
  | none =>
      simp only [htree, hg]
      exact ⟨h.lifecycle, h.index.release harea htree (gangLookup_none hg), h.pages, h.bios,
        h.census, h.len, h.faults⟩
  | some e =>
      obtain ⟨off, hitem⟩ := gangLookup_some hg
      obtain ⟨en, hcell, hroot, -⟩ := h.index.sound t tree off e htree hitem
      simp only [htree, hg, hcell]
      split
      · exact h
      · obtain ⟨tree', p, c, hin⟩ := h.inTree hcell hroot
        exact inv_dropEntry h hin

theorem inv_tswapFrontswapInit (h : Inv s) {type : Nat} (hroot : s.tswapTreeRoots type = none)
    (harea : s.areas type = none) (kmallocOk : Bool) :
    Inv (tswapFrontswapInit s type kmallocOk) := by
  cases kmallocOk with
  | false =>
      exact h.quiet rfl rfl rfl rfl rfl rfl rfl (fun _ => rfl) rfl rfl
        (fun st => by cases st <;> rfl) rfl rfl
  | true =>
      have hnew : s.trees ⟨type, s.nextTree⟩ = none := by
        cases ht : s.trees ⟨type, s.nextTree⟩ with
        | none => rfl
        | some tree =>
            have := h.index.fresh ⟨type, s.nextTree⟩ (by rw [ht]; rfl)
            exact (Nat.lt_irrefl _ this).elim
      have hne : ∀ u tree, s.trees u = some tree → u ≠ ⟨type, s.nextTree⟩ := by
        rintro u tree hu rfl
        rw [hnew] at hu
        cases hu
      have hkeep : ∀ u, (s.trees u).isSome →
          Function.update s.trees ⟨type, s.nextTree⟩ (some ∅) u = s.trees u := by
        intro u hu
        obtain ⟨tree, htree⟩ := Option.isSome_iff_exists.mp hu
        rw [Function.update_of_ne (hne u tree htree)]
      have hindex : Index s.entries (Function.update s.trees ⟨type, s.nextTree⟩ (some ∅))
          (Function.update s.tswapTreeRoots type (some ⟨type, s.nextTree⟩)) s.areas
          (s.nextTree + 1) := by
        refine ⟨?_, ?_, ?_, ?_, ?_, ?_⟩
        · intro u tree off e hu hi
          by_cases hut : u = ⟨type, s.nextTree⟩
          · rw [hut, Function.update_self] at hu
            obtain rfl := Option.some.inj hu
            simp at hi
          · rw [Function.update_of_ne hut] at hu
            exact h.index.sound u tree off e hu hi
        · intro e en u he hu
          obtain ⟨tree, htree, hitem⟩ := h.index.complete e en u he hu
          exact ⟨tree, by rw [Function.update_of_ne (hne u tree htree)]; exact htree, hitem⟩
        · intro e en u he hu
          obtain ⟨htype, hreg⟩ := h.index.type e en u he hu
          refine ⟨htype, ?_⟩
          have hty : en.type ≠ type := by
            intro hty
            rw [hty, hroot, harea] at hreg
            simp at hreg
          rw [Function.update_of_ne hty]
          exact hreg
        · intro ty u hu
          by_cases hty : ty = type
          · subst hty
            rw [Function.update_self] at hu
            obtain rfl := Option.some.inj hu
            exact ⟨rfl, by simp, harea⟩
          · rw [Function.update_of_ne hty] at hu
            obtain ⟨htype, hsome, hnone⟩ := h.index.roots ty u hu
            exact ⟨htype, by rw [hkeep u hsome]; exact hsome, hnone⟩
        · intro ty u hu
          obtain ⟨htype, hsome⟩ := h.index.areas ty u hu
          exact ⟨htype, by rw [hkeep u hsome]; exact hsome⟩
        · intro u hu
          by_cases hut : u = ⟨type, s.nextTree⟩
          · rw [hut]
            exact Nat.lt_succ_self _
          · rw [Function.update_of_ne hut] at hu
            exact Nat.lt_succ_of_lt (h.index.fresh u hu)
      exact ⟨h.lifecycle, hindex, h.pages, h.bios, h.census.stat fun st => by cases st <;> rfl,
        h.len, h.faults⟩

/-! ## Runs -/

theorem inv_tswapInit (disk : Slot → P) (jiffies : BitVec 64) : Inv (tswapInit disk jiffies) := by
  refine ⟨?_, ?_, ?_, ?_, ?_, rfl, ?_⟩
  · intro e
    exact ⟨rfl, rfl, rfl⟩
  · refine ⟨?_, ?_, ?_, ?_, ?_, ?_⟩ <;> intros <;> simp_all [tswapInit]
  · exact ⟨by intros; simp_all [tswapInit], by intros; simp_all [tswapInit], rfl,
      Heap.freedOnce_empty⟩
  · constructor <;> intros <;> simp_all [tswapInit]
  · intro st
    cases st <;> rfl
  · intro f hf
    cases hf

theorem inv_stat (h : Inv s) {st : Stat} (hcensus : ∀ a, st.census a = s.stat.census a)
    (hlen : st.lenQuarantineList = s.stat.lenQuarantineList) : Inv { s with stat := st } :=
  h.quiet rfl rfl rfl rfl rfl rfl rfl (fun _ => rfl) rfl rfl hcensus hlen rfl

theorem inv_setPending (h : Inv s) (x : Slot) (op : Option (PendingOp P)) :
    Inv (s.setPending x op) :=
  h.quiet rfl rfl rfl rfl rfl rfl rfl (fun _ => rfl) rfl rfl (fun _ => rfl) rfl rfl

theorem inv_touch (h : Inv s) (x : Slot) : Inv (s.touch x) :=
  h.quiet rfl rfl rfl rfl rfl rfl rfl (fun _ => rfl) rfl rfl (fun _ => rfl) rfl rfl

theorem inv_touchType (h : Inv s) (type : Nat) : Inv (s.touchType type) :=
  h.quiet rfl rfl rfl rfl rfl rfl rfl (fun _ => rfl) rfl rfl (fun _ => rfl) rfl rfl

theorem inv_storeRecord (h : Inv s) (k : Kernel) (x : Slot) : Inv (storeRecord k s x) :=
  h.quiet rfl rfl rfl rfl rfl rfl rfl (fun _ => rfl) rfl rfl
    (fun st => by cases st <;> rfl) rfl rfl

theorem inv_loadRecord (h : Inv s) : Inv (loadRecord s) :=
  inv_stat h (fun st => by cases st <;> rfl) rfl

theorem inv_loadMissRecord (h : Inv s) : Inv (loadMissRecord s) :=
  inv_stat h (fun st => by cases st <;> rfl) rfl

theorem inv_stepStore (h : Inv s) (k : Kernel) (x : Slot) (page : P) (transHuge : Bool)
    (o : StoreOutcome) : Inv (stepStore k s x page transHuge o).1 := by
  have hr := inv_storeRecord (inv_touch h x) k x
  unfold stepStore
  simp only
  cases transHuge with
  | true =>
      have hthp : Inv { storeRecord k (s.touch x) x with
          stat.nrThp := (storeRecord k (s.touch x) x).stat.nrThp + 1 } :=
        inv_stat hr (fun st => by cases st <;> rfl) rfl
      simp only [if_true]
      exact inv_setPending hthp _ _
  | false =>
      simp only [Bool.false_eq_true, if_false]
      cases hl : atomicEntryLookupLock (storeRecord k (s.touch x) x) x with
      | none => exact inv_setPending hr _ _
      | some e =>
          obtain ⟨en, t, tree, p, c, hin, -, -⟩ := hr.of_lookup hl
          exact inv_setPending (inv_storeInto hr hin page o) _ _

theorem inv_loadFromEntry (h : Inv s) (hin : InTree s e en t tree p c) (kmapOk : Bool) :
    Inv (loadFromEntry s e kmapOk).1 := by
  unfold loadFromEntry
  simp only [hin.cell]
  split
  · refine inv_dropEntry (inv_stat h ?_ rfl) (hin.stat _)
    intro st
    cases st <;> rfl
  · exact inv_dropEntry h hin

theorem inv_stepLoad (h : Inv s) (x : Slot) (kmapOk : Bool) : Inv (stepLoad s x kmapOk).1 := by
  have hr := inv_loadRecord (inv_touch h x)
  unfold stepLoad
  simp only
  cases hl : atomicEntryLookupLock (loadRecord (s.touch x)) x with
  | none => exact inv_setPending (inv_loadMissRecord hr) _ _
  | some e =>
      obtain ⟨en, t, tree, p, c, hin, -, -⟩ := hr.of_lookup hl
      exact inv_setPending (inv_loadFromEntry hr hin kmapOk) _ _

theorem inv_disk (h : Inv s) (d : Slot → P) : Inv { s with disk := d } :=
  h.quiet rfl rfl rfl rfl rfl rfl rfl (fun _ => rfl) rfl rfl (fun _ => rfl) rfl rfl

theorem inv_loadFromDevice (h : Inv s) (k : Kernel) (x : Slot) (io : SyncIo P) :
    Inv (loadFromDevice k s x io).1 := by
  unfold loadFromDevice
  cases io with
  | bioAllocFailed => exact inv_stat h (fun st => by cases st <;> rfl) rfl
  | readFailed => exact h
  | readOk junk =>
      simp only
      split
      · exact inv_disk h _
      · exact h

theorem inv_tswapFrontswapInvalidatePage (h : Inv s) (x : Slot) :
    Inv (tswapFrontswapInvalidatePage s x) := by
  have hr : Inv { s with stat.nrInvalidatePage := s.stat.nrInvalidatePage + 1 } :=
    inv_stat h (fun st => by cases st <;> rfl) rfl
  unfold tswapFrontswapInvalidatePage
  simp only
  split
  · exact inv_stat hr (fun st => by cases st <;> rfl) rfl
  · rename_i e hl
    obtain ⟨en, t, tree, p, c, hin, -, -⟩ := hr.of_lookup hl
    exact inv_dropEntry hr hin

theorem inv_areaLooped (h : Inv s) {type : Nat} (harea : s.areas type = some t) :
    Inv (areaLooped s type t) := by
  have hloop := inv_invalidateAreaStep (inv_touchType h type) harea
  unfold areaLooped
  simp only
  split
  · exact hloop.quiet rfl rfl rfl rfl rfl rfl rfl (fun _ => rfl) rfl rfl (fun _ => rfl) rfl rfl
  · exact hloop

theorem inv_stepPrefetchEnd (h : Inv s) (k : Kernel) {b : BioId} {bio : ReadBio}
    (hb : s.reads.cell b = some bio) (ok lockFree nodeOk : Bool) :
    Inv (stepPrefetchEnd k s b bio ok lockFree nodeOk).1 := by
  have hend := inv_prefetchEnd h k hb ok lockFree nodeOk
  unfold stepPrefetchEnd
  simp only
  split
  · exact inv_touch hend _
  · exact hend

theorem inv_tswapStatStore (h : Inv s) (input : Int) : Inv (tswapStatStore s input) := by
  unfold tswapStatStore
  split
  · exact inv_stat h (fun st => by cases st <;> rfl) rfl
  · exact h

theorem inv_tswapQuarantineTimeStore (h : Inv s) (input : Int) :
    Inv (tswapQuarantineTimeStore s input) := by
  unfold tswapQuarantineTimeStore
  split
  · exact h.quiet rfl rfl rfl rfl rfl rfl rfl (fun _ => rfl) rfl rfl (fun _ => rfl) rfl rfl
  · exact h

theorem inv_jobs (h : Inv s) (jobs : Heap PrefetchJob) (ring : PrefetchRing) :
    Inv { s with jobs := jobs, ring := ring } :=
  h.quiet rfl rfl rfl rfl rfl rfl rfl (fun _ => rfl) rfl rfl (fun _ => rfl) rfl rfl

/-- Every step keeps the invariant. -/
theorem inv_step (k : Kernel) {r : St P × List (Event P)} (a : Action P) (h : Inv s)
    (hs : step k s a = some r) : Inv r.1 := by
  cases a with
  | frontswapInit type kmallocOk =>
      obtain ⟨⟨hroot, harea⟩, rfl⟩ := step_frontswapInit.mp hs
      exact inv_tswapFrontswapInit (inv_touchType h type) hroot harea kmallocOk
  | store x page transHuge o =>
      obtain ⟨-, rfl⟩ := step_store.mp hs
      exact inv_stepStore h k x page transHuge o
  | storeMissed x entryOk o =>
      obtain ⟨page, -, rfl⟩ := step_storeMissed.mp hs
      exact inv_setPending (inv_storeFresh (inv_touch h x) x page entryOk o) _ _
  | load x kmapOk =>
      obtain ⟨-, rfl⟩ := step_load.mp hs
      exact inv_stepLoad h x kmapOk
  | loadMissed x io =>
      obtain ⟨-, rfl⟩ := step_loadMissed.mp hs
      exact inv_setPending (inv_loadFromDevice (inv_touch h x) k x io) _ _
  | invalidatePage x =>
      obtain ⟨-, rfl⟩ := step_invalidatePage.mp hs
      exact inv_setPending (inv_tswapFrontswapInvalidatePage (inv_touch h x) x) _ _
  | frontswapMap x =>
      obtain ⟨mark, -, rfl⟩ := step_frontswapMap.mp hs
      exact h.quiet rfl rfl rfl rfl rfl rfl rfl (fun _ => rfl) rfl rfl (fun _ => rfl) rfl rfl
  | invalidateArea type =>
      obtain ⟨harea, rfl⟩ := step_invalidateArea.mp hs
      exact inv_invalidateAreaDetach (inv_touchType h type) harea
  | invalidateAreaStep type =>
      obtain ⟨t, harea, rfl⟩ := step_invalidateAreaStep.mp hs
      exact inv_areaLooped h harea
  | dischargeOuter =>
      obtain ⟨hpc, rfl⟩ := step_dischargeOuter.mp hs
      refine h.quiet rfl rfl rfl rfl rfl rfl rfl ?_ rfl rfl (fun _ => rfl) rfl rfl
      intro i
      rw [hpc]
      rfl
  | dischargeScan =>
      obtain ⟨n, hpc, rfl⟩ := step_dischargeScan.mp hs
      exact inv_dischargeScan h k hpc
  | dischargeSubmit bioOk =>
      obtain ⟨n, e, hpc, rfl⟩ := step_dischargeSubmit.mp hs
      exact inv_dischargeSubmit h hpc bioOk
  | dischargeEnd b ok junk =>
      obtain ⟨bio, hb, rfl⟩ := step_dischargeEnd.mp hs
      exact inv_dischargeEnd h hb ok junk
  | prefetchPop =>
      obtain ⟨x, ring, -, ⟨-, rfl⟩ | ⟨-, rfl⟩⟩ := step_prefetchPop.mp hs
      · exact inv_jobs h _ _
      · exact inv_jobs h _ _
  | prefetchLookup j =>
      obtain ⟨job, -, -, ⟨-, rfl⟩ | ⟨-, rfl⟩⟩ := step_prefetchLookup.mp hs
      · exact inv_jobs h _ _
      · exact inv_jobs h _ _
  | prefetchSubmit j o =>
      obtain ⟨job, -, -, rfl⟩ := step_prefetchSubmit.mp hs
      exact inv_prefetchSubmit (inv_jobs h _ _) job.slot job.seen o
  | prefetchRead b =>
      obtain ⟨bio, hb, -, rfl⟩ := step_prefetchRead.mp hs
      exact inv_prefetchRead h hb
  | prefetchEnd b ok lockFree nodeOk =>
      obtain ⟨bio, hb, -, rfl⟩ := step_prefetchEnd.mp hs
      exact inv_stepPrefetchEnd h k hb ok lockFree nodeOk
  | statStore input =>
      obtain rfl := Option.some.inj hs
      exact inv_tswapStatStore h input
  | quarantineTimeStore input =>
      obtain rfl := Option.some.inj hs
      exact inv_tswapQuarantineTimeStore h input
  | nrPromotedPageShow =>
      obtain rfl := Option.some.inj hs
      exact inv_stat h (fun st => by cases st <;> rfl) rfl
  | nrDiskPromotedPageShow =>
      obtain rfl := Option.some.inj hs
      exact inv_stat h (fun st => by cases st <;> rfl) rfl
  | tick jiffies =>
      obtain rfl := Option.some.inj hs
      exact h.quiet rfl rfl rfl rfl rfl rfl rfl (fun _ => rfl) rfl rfl (fun _ => rfl) rfl rfl
  | kernelWrite x page =>
      obtain ⟨-, -, rfl⟩ := step_kernelWrite.mp hs
      exact inv_disk h _

theorem inv_of_reachable {k : Kernel} (hs : (tswap P k).Reachable s) : Inv s := by
  refine hs.invariant ?_ ?_
  · rintro s ⟨disk, jiffies, rfl⟩
    exact inv_tswapInit disk jiffies
  · intro s a s' evs h hstep
    exact inv_step k (r := (s', evs)) a h hstep

end Memtrade.Tswap
