import Memtrade.Tswap.Slots

/-!
# The steps of one slot

For every operation: what it does to the slot it works on, and that it leaves
every other slot alone.
-/

namespace Memtrade.Tswap

variable {P : Type} {s s' : St P} {e : EntryId} {en : Entry} {t : TreeId} {tree : RadixTree}
  {p : PageId} {c : Option P} {x : Slot} {d : P}

/-! ## Giving up an entry -/

theorem slotFrame_dropEntry (h : Inv s) (hin : InTree s e en t tree p c) (hne : en.slot ≠ x) :
    SlotFrame s (dropEntry s e) x := by
  have hvalid := (h.lifecycle.tree hin.cell hin.root).1
  by_cases hst : en.state = .inMemory
  · rw [dropEntry_of_inMemory hin hst]
    refine slotFrame_of_entry h hin.cell hin.data (.inl hne) ?_ ?_ ?_ (fun _ _ hb _ => hb) rfl rfl
    · intro i hi
      exact (Heap.cell_free s.entries e i).trans (if_neg hi)
    · intro en' hen'
      simp [St.without, Heap.cell_free] at hen'
    · intro q hq
      exact (Heap.cell_free s.pages p q).trans (if_neg hq)
  · have hst' := h.outstanding_of_ne hin hst
    rw [dropEntry_of_outstanding hin hst']
    refine slotFrame_of_entry h hin.cell hin.data (.inl hne) ?_ ?_ (fun _ _ => rfl)
      (fun _ _ hb _ => hb) rfl rfl
    · intro i hi
      exact (Heap.cell_write hin.cell _ i).trans (if_neg hi)
    · intro en' hen'
      have := (Heap.cell_write hin.cell { en with state := .zombie } e).symm.trans hen'
      rw [if_pos rfl] at this
      obtain rfl := Option.some.inj this
      exact .inl hne

/-! ## Storing -/

theorem slotFrame_storeInto (h : Inv s) (hin : InTree s e en t tree p c) (hne : en.slot ≠ x)
    (page : P) (o : StoreOutcome) : SlotFrame s (storeInto s e true page o).1 x := by
  have hvalid := (h.lifecycle.tree hin.cell hin.root).1
  by_cases hk : o.kmapOk = true
  · obtain ⟨n, heq⟩ := storeInto_ok hin hvalid page o hk
    rw [heq]
    refine slotFrame_of_entry h hin.cell hin.data (.inl hne) ?_ ?_ ?_ ?_ rfl rfl
    · intro i hi
      exact (Heap.cell_write hin.cell _ i).trans (if_neg hi)
    · intro en' hen'
      have := (Heap.cell_write hin.cell
        { en with state := en.state.filled, timeStamp := s.jiffies } e).symm.trans hen'
      rw [if_pos rfl] at this
      obtain rfl := Option.some.inj this
      exact .inl hne
    · intro q hq
      exact (Heap.cell_write hin.page _ q).trans (if_neg hq)
    · intro b bio hb hbe
      -- a write that was marked is one of this entry
      simp only [Heap.cell_map] at hb
      cases hcell : s.writes.cell b with
      | none => simp [hcell] at hb
      | some bio' =>
          simp only [hcell, Option.map_some, Option.some.injEq] at hb
          by_cases hpage : bio'.page = p
          · have hentry := h.entry_of_page hin hcell hpage
            subst hb
            simp [markModified, hpage, hentry] at hbe
          · simpa [markModified, hpage] using hb
  · obtain ⟨n, heq⟩ := storeInto_kmapFail hin hvalid page o (by simpa using hk)
    rw [heq]
    have hq : Quiet s { s with
        stat.nrKmapFail := s.stat.nrKmapFail + 1
        stat.nrOverwriteStore := n } := ⟨rfl, rfl, rfl, rfl, rfl⟩
    have hinv : Inv { s with
        stat.nrKmapFail := s.stat.nrKmapFail + 1
        stat.nrOverwriteStore := n } := inv_stat h (fun st => by cases st <;> rfl) rfl
    exact (hq.slotFrame x).trans (slotFrame_dropEntry hinv (hin.stat _) hne)

theorem current_storeInto (h : Inv s) (hin : InTree s e en t tree p c)
    (harea : s.areas en.type = none) (page : P) {o : StoreOutcome} (hk : o.kmapOk = true) :
    Current (storeInto s e true page o).1 en.slot page := by
  obtain ⟨n, heq⟩ := storeInto_ok hin (h.lifecycle.tree hin.cell hin.root).1 page o hk
  rw [heq]
  refine ⟨harea, .inMemory e
    { en with state := en.state.filled, timeStamp := s.jiffies } ⟨⟨?_, rfl, ?_⟩, ?_, ?_, ?_⟩⟩
  · exact (Heap.cell_write hin.cell _ e).trans (if_pos rfl)
  · simp [hin.root]
  · simp [St.dataContents, hin.data, Heap.cell_write hin.page]
  · cases hs : en.state <;> simp [EntryState.filled]
  · cases hs : en.state <;> simp [EntryState.filled]

theorem Undone.slotFrame (hu : Undone s s') (x : Slot) : SlotFrame s s' x := by
  obtain ⟨entries, pages, stat, rfl, hentries, hpages, -⟩ := hu
  have hq : Quiet s { s with entries := entries, pages := pages, stat := stat } :=
    ⟨hentries, hpages, rfl, rfl, rfl⟩
  exact hq.slotFrame x

/-- A new entry with a new page, in the tree only for another slot. -/
theorem slotFrame_alloc (h : Inv s) {en₀ : Entry} {contents : Option P}
    (hentries : s'.entries = s.entries.alloc en₀) (hpages : s'.pages = s.pages.alloc contents)
    (hnew : en₀.slot ≠ x ∨ en₀.tswapTreeRoot = none) (hwrites : s'.writes = s.writes)
    (hdisk : s'.disk = s.disk) (harea : s'.areas = s.areas) : SlotFrame s s' x := by
  have hcell : ∀ i, s'.entries.cell i = if i = s.entries.next then some en₀
      else s.entries.cell i := by
    intro i
    rw [hentries, Heap.cell_alloc]
  refine ⟨by rw [harea], by rw [hdisk], ?_, ?_⟩
  · intro e en ho
    refine ⟨?_, ?_, ?_⟩
    · rw [hcell, if_neg (Nat.ne_of_lt (Heap.lt_next ho.cell))]
      exact ho.cell
    · obtain ⟨q, c, hq, hc⟩ := h.pages.owned e en ho.cell
      have hlt : q ≠ s.pages.next := Nat.ne_of_lt (Heap.lt_next hc)
      simp only [St.dataContents, hq, hpages, Heap.cell_alloc, if_neg hlt]
    · unfold Clean
      rw [hwrites]
      exact id
  · intro e en ho
    have hi := ho.cell
    rw [hcell] at hi
    split at hi
    · obtain rfl := Option.some.inj hi
      exact (hnew.elim (fun hs => hs ho.slot) ho.tree).elim
    · exact hi

theorem slotFrame_storeFresh (h : Inv s) {y : Slot} (hne : y ≠ x) (page : P) (entryOk : Bool)
    (o : StoreOutcome) : SlotFrame s (storeFresh s y page entryOk o).1 x := by
  rcases storeFresh_cases h y page entryOk o with ⟨t, tree, n, hroot, htree, hitem, heq⟩ | hu
  · rw [heq]
    exact slotFrame_alloc h rfl rfl (.inl hne) rfl rfl rfl
  · exact hu.state.slotFrame x

theorem current_storeFresh (h : Inv s) (page : P) (entryOk : Bool) (o : StoreOutcome) :
    (Current (storeFresh s x page entryOk o).1 x page ∧ (storeFresh s x page entryOk o).2 = 0) ∨
      StoreUndone s (storeFresh s x page entryOk o) := by
  rcases storeFresh_cases h x page entryOk o with ⟨t, tree, n, hroot, htree, hitem, heq⟩ | hu
  · left
    rw [heq]
    refine ⟨⟨(h.index.roots _ t hroot).2.2, .inMemory s.entries.next
      (storedEntry s x t) ⟨⟨?_, rfl, ?_⟩, ?_, ?_, ?_⟩⟩, rfl⟩
    · exact (Heap.cell_alloc _ _ _).trans (if_pos rfl)
    · simp [storedEntry]
    · simp [St.dataContents, storedEntry, Heap.cell_alloc]
    · simp [storedEntry]
    · simp [storedEntry]
  · exact .inr hu

/-! ## Write-back -/

theorem Current.copy_of_inTree (h : Inv s) (hc : Current s x d) (hin : InTree s e en t tree p c)
    (hslot : en.slot = x) : Copy s x d e en := by
  have ho : Occupies s x e en := hslot ▸ hin.occupies
  cases hc.holds with
  | onDisk hv _ => exact (hv e en ho).elim
  | inMemory e' en' hcopy =>
      obtain rfl := h.occupies_unique hc.area ho hcopy.toOccupies
      obtain rfl := Option.some.inj (hcopy.cell.symm.trans hin.cell)
      exact hcopy

section Settle

variable {w : Heap WriteBio} {pc : DischargePc} {dk : Slot → P} {st : Stat}

theorem slotFrame_settled (h : Inv s) (hin : InTree s e en t tree p c) (hne : en.slot ≠ x)
    (hw : ∀ b bio, w.cell b = some bio → bio.entry ≠ e → s.writes.cell b = some bio)
    (hdisk : dk x = s.disk x) :
    SlotFrame s ({ s with writes := w, discharge := pc, disk := dk, stat := st }.settled e en)
      x := by
  refine slotFrame_of_entry h hin.cell hin.data (.inl hne) ?_ ?_ (fun _ _ => rfl) hw hdisk rfl
  · intro i hi
    exact (Heap.cell_write hin.cell _ i).trans (if_neg hi)
  · intro en' hen'
    have := (Heap.cell_write hin.cell { en with state := .inMemory } e).symm.trans hen'
    rw [if_pos rfl] at this
    obtain rfl := Option.some.inj this
    exact .inl hne

theorem slotFrame_reaped (h : Inv s) (hin : InTree s e en t tree p c) (hne : en.slot ≠ x)
    (hw : ∀ b bio, w.cell b = some bio → bio.entry ≠ e → s.writes.cell b = some bio)
    (hdisk : dk x = s.disk x) :
    SlotFrame s
      ({ s with writes := w, discharge := pc, disk := dk, stat := st }.reaped e en p t tree) x := by
  refine slotFrame_of_entry h hin.cell hin.data (.inl hne) ?_ ?_ ?_ hw hdisk rfl
  · intro i hi
    exact (Heap.cell_free s.entries e i).trans (if_neg hi)
  · intro en' hen'
    simp [St.reaped, St.without, Heap.cell_free] at hen'
  · intro q hq
    exact (Heap.cell_free s.pages p q).trans (if_neg hq)

/-- A page that stays in memory keeps the slot's data, whatever the device holds. -/
theorem Current.settled (h : Inv s) (hc : Current s x d) (hin : InTree s e en t tree p c)
    (hslot : en.slot = x) :
    Current ({ s with writes := w, discharge := pc, disk := dk, stat := st }.settled e en) x d := by
  have hcopy := hc.copy_of_inTree h hin hslot
  refine ⟨hc.area, .inMemory e { en with state := .inMemory }
    ⟨⟨?_, hslot, hcopy.tree⟩, hcopy.contents, by simp, by simp⟩⟩
  exact (Heap.cell_write hin.cell _ e).trans (if_pos rfl)

theorem Current.reaped (h : Inv s) (hc : Current s x d) (hin : InTree s e en t tree p c)
    (hslot : en.slot = x) (hdisk : dk x = d) :
    Current
      ({ s with writes := w, discharge := pc, disk := dk, stat := st }.reaped e en p t tree) x
        d := by
  refine ⟨hc.area, .onDisk ?_ hdisk⟩
  intro i eni ho
  have hcell := ho.cell
  simp only [St.reaped, St.without, Heap.cell_free] at hcell
  split at hcell
  · cases hcell
  · rename_i hi
    exact hi (h.occupies_unique hc.area (hslot ▸ hin.occupies) ⟨hcell, ho.slot, ho.tree⟩)

end Settle

/-- A page is selected for write-back only while none of it is in progress. -/
theorem Current.selected (h : Inv s) (hc : Current s x d) (hin : InTree s e en t tree p c)
    (hslot : en.slot = x) (hst : en.state = .inMemory) {rest : List EntryId} {pc : DischargePc}
    {st : Stat} :
    Current { s with
      entries := s.entries.write e { en with state := .inFlight }
      quarantineList := rest
      discharge := pc
      stat := st } x d := by
  have hcopy := hc.copy_of_inTree h hin hslot
  refine ⟨hc.area, .inMemory e { en with state := .inFlight }
    ⟨⟨?_, hslot, hcopy.tree⟩, hcopy.contents, by simp, ?_⟩⟩
  · exact (Heap.cell_write hin.cell _ e).trans (if_pos rfl)
  · intro _ b bio hb hbe
    have hout := (h.lifecycle.tree hin.cell hin.root).2.1
    have hpos : 0 < s.writes.count fun b' => b'.entry == e := Heap.count_pos hb (by simp [hbe])
    rw [hst] at hout
    simp only [outstanding, EntryState.outstanding] at hout
    omega

theorem slotFrame_selected (h : Inv s) (hin : InTree s e en t tree p c) (hne : en.slot ≠ x)
    {rest : List EntryId} {pc : DischargePc} {st : Stat} :
    SlotFrame s { s with
      entries := s.entries.write e { en with state := .inFlight }
      quarantineList := rest
      discharge := pc
      stat := st } x := by
  refine slotFrame_of_entry h hin.cell hin.data (.inl hne) ?_ ?_ (fun _ _ => rfl)
    (fun _ _ hb _ => hb) rfl rfl
  · intro i hi
    exact (Heap.cell_write hin.cell _ i).trans (if_neg hi)
  · intro en' hen'
    have := (Heap.cell_write hin.cell { en with state := .inFlight } e).symm.trans hen'
    rw [if_pos rfl] at this
    obtain rfl := Option.some.inj this
    exact .inl hne

theorem Copy.deviceWritten (h : Inv s) {b : BioId} {bio : WriteBio}
    (hb : s.writes.cell b = some bio) (hc : Copy s x d bio.entry en) (hst : en.state = .inFlight)
    (junk : P) : deviceWritten s bio true junk = d := by
  have hclean := hc.clean hst b bio hb rfl
  have hdata := (h.bios.writes b bio en hb hc.cell).1
  have hcontents := hc.contents
  rw [hdata] at hcontents
  simp [Tswap.deviceWritten, hclean, hcontents]

/-! ## Prefetch -/

theorem slotFrame_prefetchSubmit (h : Inv s) (y : Slot) (seen : Nat) (o : PrefetchOutcome) :
    SlotFrame s (prefetchSubmit s y seen o) x := by
  rcases prefetchSubmit_cases h y seen o with hu | heq
  · exact hu.slotFrame x
  · rw [heq]
    exact slotFrame_alloc h rfl rfl (.inr rfl) rfl rfl rfl

theorem slotFrame_prefetchRead (h : Inv s) {b : BioId} {bio : ReadBio}
    (hb : s.reads.cell b = some bio) : SlotFrame s (stepPrefetchRead s b bio) x := by
  obtain ⟨en, c, hcell, hroot, -, hdata, -, hpage⟩ := h.of_read hb
  refine slotFrame_of_entry h hcell hdata (.inr hroot) (fun _ _ => rfl) ?_ ?_
    (fun _ _ hb _ => hb) rfl rfl
  · intro en' hen'
    obtain rfl := Option.some.inj (hcell.symm.trans hen')
    exact .inr hroot
  · intro q hq
    exact (Heap.cell_write hpage _ q).trans (if_neg hq)

/-- The completion of a prefetch read releases its entry, or makes it the entry
of its vacant slot. -/
theorem prefetchEnd_cases (h : Inv s) (k : Kernel) {b : BioId} {bio : ReadBio}
    (hb : s.reads.cell b = some bio) (ok lockFree nodeOk : Bool) (x : Slot) :
    let r := prefetchAsyncIoEnd k { s with reads := s.reads.free b } bio.entry ok lockFree nodeOk
    (SlotFrame s r.1 x ∧ (r.2 = false ∨ bio.slot ≠ x)) ∨
      (r.2 = true ∧ (ok = true ∧ lockFree = true ∧ nodeOk = true) ∧ bio.slot = x ∧
        (s.tswapTreeRoots x.type).isSome ∧ Vacant s x ∧ r.1.pages = s.pages ∧
          ∀ d, s.dataContents (some bio.page) = some d → Current r.1 x d) := by
  obtain ⟨en, c, hcell, hroot, hst, hdata, hslot, hpage⟩ := h.of_read hb
  have hroots : ∀ ty t, s.tswapTreeRoots ty = some t → (s.trees t).isSome := fun ty t ht =>
    (h.index.roots ty t ht).2.1
  rcases prefetchAsyncIoEnd_cases (s := { s with reads := s.reads.free b }) hroots hcell hroot
    hdata hpage k ok lockFree nodeOk with
    ⟨a, f, n, heq⟩ | ⟨t, tree, ts, a, hok, hr, htree, hitem, heq⟩
  · rw [heq]
    refine .inl ⟨?_, .inl rfl⟩
    refine slotFrame_of_entry h hcell hdata (.inr hroot) ?_ ?_ ?_ (fun _ _ hb _ => hb) rfl rfl
    · intro i hi
      exact (Heap.cell_free s.entries bio.entry i).trans (if_neg hi)
    · intro en' hen'
      simp [Heap.cell_free] at hen'
    · intro q hq
      exact (Heap.cell_free s.pages bio.page q).trans (if_neg hq)
  · rw [heq]
    have hw := Heap.cell_write hcell { en with timeStamp := ts, tswapTreeRoot := some t }
    by_cases hx : bio.slot = x
    · subst hx
      have htype : en.type = bio.slot.type := by rw [← hslot]; rfl
      have hoff : en.offset = bio.slot.offset := by rw [← hslot]; rfl
      have harea : s.areas bio.slot.type = none := by
        rw [← htype]
        exact (h.index.roots _ t hr).2.2
      refine .inr ⟨rfl, hok, rfl, ?_, ?_, rfl, ?_⟩
      · rw [← htype]
        exact Option.isSome_iff_exists.mpr ⟨t, hr⟩
      · intro i eni ho
        obtain ⟨t', tree', p', c', hin⟩ := h.of_occupies ho
        have htype' : eni.type = en.type := by rw [htype, ← ho.slot]; rfl
        have hoff' : eni.offset = en.offset := by rw [hoff, ← ho.slot]; rfl
        have hroot' := h.live_root hin (by rw [htype', htype]; exact harea)
        rw [htype'] at hroot'
        obtain rfl := Option.some.inj (hr.symm.trans hroot')
        obtain rfl := Option.some.inj (htree.symm.trans hin.trees)
        have := hin.item
        rw [hoff', hitem] at this
        cases this
      · intro d hd
        refine ⟨harea, .inMemory bio.entry
          { en with timeStamp := ts, tswapTreeRoot := some t }
          ⟨⟨(hw _).trans (if_pos rfl), hslot, by simp⟩, ?_, by simp [hst], by simp [hst]⟩⟩
        rw [hdata]
        exact hd
    · refine .inl ⟨?_, .inr hx⟩
      refine slotFrame_of_entry h hcell hdata (.inr hroot) ?_ ?_ (fun _ _ => rfl)
        (fun _ _ hb _ => hb) rfl rfl
      · intro i hi
        exact (hw i).trans (if_neg hi)
      · intro en' hen'
        have := (hw bio.entry).symm.trans hen'
        rw [if_pos rfl] at this
        obtain rfl := Option.some.inj this
        left
        change en.slot ≠ x
        rw [hslot]
        exact hx

/-! ## All steps -/

/-- The event puts data into the slot. -/
def Event.Fills (x : Slot) : Event P → Prop
  | .stored y _ ret => y = x ∧ ret = 0
  | .prefetched y _ => y = x
  | _ => False

/-- The event takes the slot's data away: a store or a load that gave up the
entry it had found, a successful load, an invalidation. -/
def Event.Clears (x : Slot) : Event P → Prop
  | .stored y _ ret => y = x ∧ ret = eNOMEM
  | .loaded y _ ret => y = x ∧ ret ≠ eINVAL
  | .invalidatedPage y => y = x
  | _ => False

/-- A step of a prefetch request, from the ring to its completion. -/
def Action.isPrefetch : Action P → Bool
  | .prefetchPop | .prefetchLookup _ | .prefetchSubmit _ _ | .prefetchRead _
  | .prefetchEnd _ _ _ _ => true
  | _ => false

inductive SlotStep (s s' : St P) (a : Action P) (evs : List (Event P)) (x : Slot) : Prop where
  | frame : SlotFrame s s' x → (∀ ev ∈ evs, ¬ ev.Fills x) → SlotStep s s' a evs x
  | filled (page : P) : evs = [.stored x page 0] → Current s' x page → SlotStep s s' a evs x
  | cleared : (∃ ev, evs = [ev] ∧ ev.Clears x) → SlotStep s s' a evs x
  | area : (s.areas x.type ≠ none ∧ evs = []) ∨ evs = [.invalidatedArea x.type] →
      SlotStep s s' a evs x
  | writeBack : ¬ Vacant s x → evs = [] → (∀ d, Current s x d → Current s' x d) →
      SlotStep s s' a evs x
  | prefetched (data : Option P) : a.isPrefetch = true → evs = [.prefetched x data] →
      Vacant s x → (∀ d, data = some d → Current s' x d) → SlotStep s s' a evs x
  | kernelWrite (page : P) : a = .kernelWrite x page → evs = [] → SlotStep s s' a evs x

theorem SlotStep.quiet {s₀ s₁ : St P} {a : Action P} {evs : List (Event P)} (hq : Quiet s₀ s)
    (hq' : Quiet s' s₁) (hs : SlotStep s s' a evs x) : SlotStep s₀ s₁ a evs x := by
  have hf := hq.slotFrame x
  have hf' := hq'.slotFrame x
  have hback := hq.symm.slotFrame x
  cases hs with
  | frame hsf hev => exact .frame ((hf.trans hsf).trans hf') hev
  | filled page hev hc => exact .filled page hev (hf'.current hc)
  | cleared hev => exact .cleared hev
  | area harea => exact .area (by rwa [← hq.areas])
  | writeBack hocc hev hkeep =>
      exact .writeBack (fun hv => hocc (hf.vacant hv)) hev
        (fun d hc => hf'.current (hkeep d (hf.current hc)))
  | prefetched data ha hev hv hc =>
      exact .prefetched data ha hev (hback.vacant hv) (fun d hd => hf'.current (hc d hd))
  | kernelWrite page ha hev => exact .kernelWrite page ha hev

section Actions

variable {k : Kernel} {a : Action P}

theorem quiet_setPending (s : St P) (y : Slot) (op : Option (PendingOp P)) :
    Quiet s (s.setPending y op) := ⟨rfl, rfl, rfl, rfl, rfl⟩

theorem quiet_touch (s : St P) (y : Slot) : Quiet s (s.touch y) := ⟨rfl, rfl, rfl, rfl, rfl⟩

theorem slotStep_of_quiet {evs : List (Event P)} (hq : Quiet s s')
    (hev : ∀ ev ∈ evs, ¬ ev.Fills x) : SlotStep s s' a evs x :=
  .frame (hq.slotFrame x) hev

theorem slotStep_stepStore (h : Inv s) (y : Slot) (page : P) (transHuge : Bool)
    (o : StoreOutcome) :
    SlotStep s (stepStore k s y page transHuge o).1 a (stepStore k s y page transHuge o).2 x := by
  have hr := inv_storeRecord (inv_touch h y) k y
  have hq : Quiet s (storeRecord k (s.touch y) y) := ⟨rfl, rfl, rfl, rfl, rfl⟩
  unfold stepStore
  simp only
  cases transHuge with
  | true =>
      exact slotStep_of_quiet ⟨rfl, rfl, rfl, rfl, rfl⟩
        (by simp [storeReturn, Event.Fills, eINVAL])
  | false =>
      simp only [Bool.false_eq_true, if_false]
      cases hl : atomicEntryLookupLock (storeRecord k (s.touch y) y) y with
      | none => exact slotStep_of_quiet ⟨rfl, rfl, rfl, rfl, rfl⟩ (by simp)
      | some e =>
          obtain ⟨en, t, tree, p, c, hin, hslot, hroot⟩ := hr.of_lookup hl
          refine SlotStep.quiet hq (quiet_setPending (storeInto _ e true page o).1 y _) ?_
          by_cases hyx : y = x
          · subst hyx
            by_cases hk : o.kmapOk = true
            · have harea := (hr.index.roots _ t hroot).2.2
              have htype : en.type = y.type := by rw [← hslot]; rfl
              have hcur := current_storeInto hr hin (by rw [htype]; exact harea) page hk
              obtain ⟨n, heq⟩ := storeInto_ok hin (hr.lifecycle.tree hin.cell hin.root).1 page o hk
              refine .filled page ?_ (hslot ▸ hcur)
              simp [storeReturn, heq]
            · obtain ⟨n, heq⟩ := storeInto_kmapFail hin
                (hr.lifecycle.tree hin.cell hin.root).1 page o (by simpa using hk)
              refine .cleared ⟨_, rfl, rfl, ?_⟩
              rw [heq]
          · refine .frame (slotFrame_storeInto hr hin (by rw [hslot]; exact hyx) page o) ?_
            simp [storeReturn, Event.Fills, hyx]

theorem slotStep_storeMissed (h : Inv s) (y : Slot) (page : P) (entryOk : Bool)
    (o : StoreOutcome) :
    SlotStep s (storeReturn (storeFresh (s.touch y) y page entryOk o) y page).1 a
      (storeReturn (storeFresh (s.touch y) y page entryOk o) y page).2 x := by
  have ht := inv_touch h y
  refine SlotStep.quiet (quiet_touch s y)
    (quiet_setPending (storeFresh (s.touch y) y page entryOk o).1 y _) ?_
  by_cases hyx : y = x
  · subst hyx
    rcases current_storeFresh ht page entryOk o with ⟨hcur, hret⟩ | hu
    · refine .filled page ?_ hcur
      simp [storeReturn, hret]
    · refine .frame (hu.state.slotFrame y) ?_
      have := hu.ret
      simp only [storeReturn, List.mem_singleton, forall_eq, Event.Fills, true_and]
      omega
  · refine .frame (slotFrame_storeFresh ht hyx page entryOk o) ?_
    simp [storeReturn, Event.Fills, hyx]

theorem quiet_loadMissed (s : St P) (y : Slot) :
    Quiet s ((loadMissRecord (loadRecord (s.touch y))).setPending y (some .loadMissed)) := by
  cases s
  exact ⟨rfl, rfl, rfl, rfl, rfl⟩

theorem slotStep_stepLoad (h : Inv s) (y : Slot) (kmapOk : Bool) :
    SlotStep s (stepLoad s y kmapOk).1 a (stepLoad s y kmapOk).2 x := by
  have hr := inv_loadRecord (inv_touch h y)
  have hq : Quiet s (loadRecord (s.touch y)) := ⟨rfl, rfl, rfl, rfl, rfl⟩
  unfold stepLoad
  simp only
  cases hl : atomicEntryLookupLock (loadRecord (s.touch y)) y with
  | none => exact slotStep_of_quiet (quiet_loadMissed s y) (by simp)
  | some e =>
      obtain ⟨en, t, tree, p, c, hin, hslot, -⟩ := hr.of_lookup hl
      refine SlotStep.quiet hq (quiet_setPending (loadFromEntry _ e kmapOk).1 y _) ?_
      unfold loadFromEntry
      simp only [hin.cell]
      by_cases hyx : y = x
      · subst hyx
        cases kmapOk with
        | false => exact .cleared ⟨_, rfl, rfl, by simp [eNOMEM, eINVAL]⟩
        | true => exact .cleared ⟨_, rfl, rfl, by simp [eINVAL]⟩
      · have hne : en.slot ≠ x := by rw [hslot]; exact hyx
        cases kmapOk with
        | false =>
            have hstat : Inv { loadRecord (s.touch y) with
                stat.nrKmapFail := (loadRecord (s.touch y)).stat.nrKmapFail + 1 } :=
              inv_stat hr (fun st => by cases st <;> rfl) rfl
            have hq' : Quiet (loadRecord (s.touch y)) { loadRecord (s.touch y) with
                stat.nrKmapFail := (loadRecord (s.touch y)).stat.nrKmapFail + 1 } :=
              ⟨rfl, rfl, rfl, rfl, rfl⟩
            have hf := (hq'.slotFrame x).trans (slotFrame_dropEntry hstat (hin.stat _) hne)
            refine .frame hf ?_
            simp [loadReturn, Event.Fills]
        | true =>
            refine .frame (slotFrame_dropEntry hr hin hne) ?_
            simp [loadReturn, Event.Fills]

theorem slotStep_loadMissed (y : Slot) (io : SyncIo P) :
    SlotStep s (loadReturn (loadFromDevice k (s.touch y) y io) y).1 a
      (loadReturn (loadFromDevice k (s.touch y) y io) y).2 x := by
  cases io with
  | bioAllocFailed =>
      exact slotStep_of_quiet ⟨rfl, rfl, rfl, rfl, rfl⟩ (by simp [loadReturn, Event.Fills])
  | readFailed =>
      exact slotStep_of_quiet ⟨rfl, rfl, rfl, rfl, rfl⟩ (by simp [loadReturn, Event.Fills])
  | readOk junk =>
      unfold loadFromDevice
      simp only
      by_cases hyx : y = x
      · subst hyx
        split <;> exact .cleared ⟨_, rfl, rfl, by simp [eINVAL]⟩
      · split
        · -- the hook frees another slot
          refine .frame ⟨rfl, ?_, fun e en ho => ⟨ho.cell, rfl, id⟩, fun e en ho => ho.cell⟩
            (by simp [loadReturn, Event.Fills])
          exact Function.update_of_ne (Ne.symm hyx) _ _
        · exact slotStep_of_quiet ⟨rfl, rfl, rfl, rfl, rfl⟩ (by simp [loadReturn, Event.Fills])

theorem slotStep_invalidatePage (h : Inv s) (y : Slot) (op : Option (PendingOp P)) :
    SlotStep s ((tswapFrontswapInvalidatePage (s.touch y) y).setPending y op) a
      [.invalidatedPage y] x := by
  by_cases hyx : y = x
  · exact .cleared ⟨_, rfl, hyx⟩
  · have hr : Inv { s.touch y with
        stat.nrInvalidatePage := (s.touch y).stat.nrInvalidatePage + 1 } :=
      inv_stat (inv_touch h y) (fun st => by cases st <;> rfl) rfl
    unfold tswapFrontswapInvalidatePage
    simp only
    split
    · exact slotStep_of_quiet ⟨rfl, rfl, rfl, rfl, rfl⟩ (by simp [Event.Fills])
    · rename_i e hl
      obtain ⟨en, t, tree, p, c, hin, hslot, -⟩ := hr.of_lookup hl
      have hq : Quiet s { s.touch y with
          stat.nrInvalidatePage := (s.touch y).stat.nrInvalidatePage + 1 } :=
        ⟨rfl, rfl, rfl, rfl, rfl⟩
      have hf := slotFrame_dropEntry hr hin (x := x) (by rw [hslot]; exact hyx)
      refine .frame ((hq.slotFrame x).trans (hf.trans ((quiet_setPending _ y op).slotFrame x))) ?_
      simp [Event.Fills]

theorem slotStep_invalidateArea (type : Nat) :
    SlotStep s (invalidateAreaDetach (s.touchType type) type) a [.invalidatedArea type] x := by
  by_cases htype : type = x.type
  · exact .area (.inr (by simp [htype]))
  · unfold invalidateAreaDetach
    simp only
    split
    · exact slotStep_of_quiet ⟨rfl, rfl, rfl, rfl, rfl⟩ (by simp [Event.Fills])
    · refine .frame ⟨?_, rfl, fun e en ho => ⟨ho.cell, rfl, id⟩, fun e en ho => ho.cell⟩
        (by simp [Event.Fills])
      exact Function.update_of_ne (Ne.symm htype) _ _

theorem slotStep_areaLooped (h : Inv s) {type : Nat} (harea : s.areas type = some t) :
    SlotStep s (areaLooped s type t) a [] x := by
  by_cases htype : type = x.type
  · exact .area (.inl ⟨by rw [← htype, harea]; simp, rfl⟩)
  · obtain ⟨htt, hsome⟩ := h.index.areas type t harea
    obtain ⟨tree, htree⟩ := Option.isSome_iff_exists.mp hsome
    have htree' : (s.touchType type).trees t = some tree := htree
    unfold areaLooped invalidateAreaStep
    simp only [htree']
    cases hg : radixTreeGangLookup tree with
    | none =>
        refine .frame ⟨?_, rfl, fun e en ho => ⟨ho.cell, rfl, id⟩, fun e en ho => ho.cell⟩
          (by simp)
        exact Function.update_of_ne (Ne.symm htype) _ _
    | some e =>
        obtain ⟨off, hitem⟩ := gangLookup_some hg
        have hi := inv_touchType h type
        obtain ⟨en, hcell, hroot, -⟩ := hi.index.sound t tree off e htree' hitem
        obtain ⟨tree', p, c, hin⟩ := hi.inTree hcell hroot
        have hne : en.slot ≠ x := by
          rintro rfl
          exact htype (htt.symm.trans (hi.index.type e en t hcell hroot).1)
        have hvalid := (hi.lifecycle.tree hcell hroot).1
        have hq : Quiet s (s.touchType type) := ⟨rfl, rfl, rfl, rfl, rfl⟩
        simp only [hcell, if_neg hvalid]
        exact .frame ((hq.slotFrame x).trans (slotFrame_dropEntry hi hin hne)) (by simp)

theorem slotStep_dischargeScan (h : Inv s) (n : Int) :
    SlotStep s (dischargeScan k s n) a [] x := by
  rcases dischargeScan_cases h k n with heq | ⟨e, rest, m, hlist, heq⟩ |
    ⟨e, rest, en, t, tree, p, c, hlist, hin, hst, -, heq⟩
  · rw [heq]
    exact slotStep_of_quiet ⟨rfl, rfl, rfl, rfl, rfl⟩ (by simp)
  · rw [heq]
    exact slotStep_of_quiet ⟨rfl, rfl, rfl, rfl, rfl⟩ (by simp)
  · rw [heq]
    by_cases hx : en.slot = x
    · exact .writeBack (fun hv => hv e en (hx ▸ hin.occupies)) rfl
        (fun d hc => hc.selected h hin hx hst)
    · exact .frame (slotFrame_selected h hin hx) (by simp)

theorem slotStep_settle (h : Inv s) (hin : InTree s e en t tree p c) {w : Heap WriteBio}
    {pc : DischargePc} {dk : Slot → P} {st : Stat}
    (hw : ∀ b bio, w.cell b = some bio → bio.entry ≠ e → s.writes.cell b = some bio)
    (hdisk : x ≠ en.slot → dk x = s.disk x) (gone : Prop) [Decidable gone]
    (hgone : ∀ d, Copy s x d e en → gone → dk x = d) :
    SlotStep s (if gone then
        { s with writes := w, discharge := pc, disk := dk, stat := st }.reaped e en p t tree
      else { s with writes := w, discharge := pc, disk := dk, stat := st }.settled e en) a []
        x := by
  by_cases hx : en.slot = x
  · refine .writeBack (fun hv => hv e en (hx ▸ hin.occupies)) rfl ?_
    intro d hc
    split
    · rename_i hg
      exact hc.reaped h hin hx (hgone d (hc.copy_of_inTree h hin hx) hg)
    · exact hc.settled h hin hx
  · refine .frame ?_ (by simp)
    split
    · exact slotFrame_reaped h hin hx hw (hdisk (Ne.symm hx))
    · exact slotFrame_settled h hin hx hw (hdisk (Ne.symm hx))

theorem slotStep_dischargeSubmit (h : Inv s) {n : Int} (hpc : s.discharge = .submit n e)
    (bioOk : Bool) : SlotStep s (dischargeSubmit s n e bioOk) a [] x := by
  obtain ⟨en, t, tree, p, c, hin, hst⟩ := h.of_outstanding (e := e) (by simp [outstanding, hpc])
  cases bioOk with
  | false =>
      rw [dischargeSubmit_fail hin hst n]
      have hq : ∀ s₁ : St P, Quiet s₁
          { s₁ with stat.nrAsyncIoFail := s₁.stat.nrAsyncIoFail + 1 } :=
        fun _ => ⟨rfl, rfl, rfl, rfl, rfl⟩
      refine SlotStep.quiet (s := s) ⟨rfl, rfl, rfl, rfl, rfl⟩ (hq _) ?_
      exact slotStep_settle h hin (fun b bio hb _ => hb) (fun _ => rfl) (en.state = .zombie)
        (fun d hc hz => (hc.alive hz).elim)
  | true =>
      rw [dischargeSubmit_ok hin n]
      refine .frame ⟨rfl, rfl, fun i eni ho => ⟨ho.cell, rfl, ?_⟩, fun i eni ho => ho.cell⟩
        (by simp)
      intro hc b bio hb hbe
      rw [Heap.cell_alloc] at hb
      split at hb
      · obtain rfl := Option.some.inj hb
        rfl
      · exact hc b bio hb hbe

theorem slotStep_dischargeEnd (h : Inv s) {b : BioId} {bio : WriteBio}
    (hb : s.writes.cell b = some bio) (ok : Bool) (junk : P) :
    SlotStep s (stepDischargeEnd s b bio ok junk) a [] x := by
  have hpos : 0 < s.writes.count fun b' => b'.entry == bio.entry := Heap.count_pos hb (by simp)
  obtain ⟨en, t, tree, p, c, hin, hst⟩ := h.of_outstanding (e := bio.entry) (by
    unfold outstanding
    omega)
  have hslot := (h.bios.writes b bio en hb hin.cell).2
  obtain ⟨m, heq⟩ := stepDischargeEnd_eq hin hst b ok junk
  rw [heq]
  refine slotStep_settle h hin ?_ ?_ (en.state = .zombie ∨ (en.state = .inFlight ∧ ok = true)) ?_
  · intro b' bio' hb' _
    rw [Heap.cell_free] at hb'
    split at hb'
    · cases hb'
    · exact hb'
  · intro hx
    exact Function.update_of_ne (by rw [← hslot]; exact hx) _ _
  · intro d hc hgone
    obtain ⟨hfl, rfl⟩ := hgone.resolve_left hc.alive
    have hx : bio.slot = x := hslot.symm.trans hc.slot
    rw [hx, Function.update_self]
    exact hc.deviceWritten h hb hfl junk

theorem slotStep_prefetchEnd (h : Inv s) {b : BioId} {bio : ReadBio}
    (hb : s.reads.cell b = some bio) (ok lockFree nodeOk : Bool) :
    SlotStep s (stepPrefetchEnd k s b bio ok lockFree nodeOk).1
      (.prefetchEnd b ok lockFree nodeOk)
      (stepPrefetchEnd k s b bio ok lockFree nodeOk).2 x := by
  unfold stepPrefetchEnd
  simp only
  rcases prefetchEnd_cases h k hb ok lockFree nodeOk x with ⟨hf, hnot⟩ |
    ⟨hins, -, hx, -, hv, hpages, hcur⟩
  · rcases hnot with hnot | hnot
    · rw [if_neg (by simp [hnot])]
      exact .frame hf (by simp)
    · split
      · refine .frame (hf.trans ((quiet_touch _ bio.slot).slotFrame x)) ?_
        simp [Event.Fills, hnot]
      · exact .frame hf (by simp)
  · rw [if_pos hins]
    refine .prefetched _ rfl (by rw [hx]) hv ?_
    intro d hd
    have hcontents : s.dataContents (some bio.page) = some d := by
      rw [← hd]
      simp only [St.dataContents, hpages]
    exact ((quiet_touch _ bio.slot).slotFrame x).current (hcur d hcontents)

/-- The list of possibilities is complete. -/
theorem slotStep_of_step {r : St P × List (Event P)} (h : Inv s) (hs : step k s a = some r)
    (x : Slot) : SlotStep s r.1 a r.2 x := by
  have hquiet : ∀ {s' : St P}, Quiet s s' → SlotStep s s' a [] x := fun hq =>
    slotStep_of_quiet hq (by simp)
  cases a with
  | frontswapInit type kmallocOk =>
      obtain ⟨-, rfl⟩ := step_frontswapInit.mp hs
      cases kmallocOk <;> exact hquiet ⟨rfl, rfl, rfl, rfl, rfl⟩
  | store y page transHuge o =>
      obtain ⟨-, rfl⟩ := step_store.mp hs
      exact slotStep_stepStore h y page transHuge o
  | storeMissed y entryOk o =>
      obtain ⟨page, -, rfl⟩ := step_storeMissed.mp hs
      exact slotStep_storeMissed h y page entryOk o
  | load y kmapOk =>
      obtain ⟨-, rfl⟩ := step_load.mp hs
      exact slotStep_stepLoad h y kmapOk
  | loadMissed y io =>
      obtain ⟨-, rfl⟩ := step_loadMissed.mp hs
      exact slotStep_loadMissed y io
  | invalidatePage y =>
      obtain ⟨-, rfl⟩ := step_invalidatePage.mp hs
      exact slotStep_invalidatePage h y _
  | frontswapMap y =>
      obtain ⟨mark, -, rfl⟩ := step_frontswapMap.mp hs
      exact hquiet ⟨rfl, rfl, rfl, rfl, rfl⟩
  | invalidateArea type =>
      obtain ⟨-, rfl⟩ := step_invalidateArea.mp hs
      exact slotStep_invalidateArea type
  | invalidateAreaStep type =>
      obtain ⟨t, harea, rfl⟩ := step_invalidateAreaStep.mp hs
      exact slotStep_areaLooped h harea
  | dischargeOuter =>
      obtain ⟨-, rfl⟩ := step_dischargeOuter.mp hs
      exact hquiet ⟨rfl, rfl, rfl, rfl, rfl⟩
  | dischargeScan =>
      obtain ⟨n, -, rfl⟩ := step_dischargeScan.mp hs
      exact slotStep_dischargeScan h n
  | dischargeSubmit bioOk =>
      obtain ⟨n, e, hpc, rfl⟩ := step_dischargeSubmit.mp hs
      exact slotStep_dischargeSubmit h hpc bioOk
  | dischargeEnd b ok junk =>
      obtain ⟨bio, hb, rfl⟩ := step_dischargeEnd.mp hs
      exact slotStep_dischargeEnd h hb ok junk
  | prefetchPop =>
      obtain ⟨y, ring, -, ⟨-, rfl⟩ | ⟨-, rfl⟩⟩ := step_prefetchPop.mp hs
      · exact hquiet ⟨rfl, rfl, rfl, rfl, rfl⟩
      · exact hquiet ⟨rfl, rfl, rfl, rfl, rfl⟩
  | prefetchLookup j =>
      obtain ⟨job, -, -, ⟨-, rfl⟩ | ⟨-, rfl⟩⟩ := step_prefetchLookup.mp hs
      · exact hquiet ⟨rfl, rfl, rfl, rfl, rfl⟩
      · exact hquiet ⟨rfl, rfl, rfl, rfl, rfl⟩
  | prefetchSubmit j o =>
      obtain ⟨job, -, -, rfl⟩ := step_prefetchSubmit.mp hs
      have hq : Quiet s { s with jobs := s.jobs.free j } := ⟨rfl, rfl, rfl, rfl, rfl⟩
      have hf := slotFrame_prefetchSubmit (x := x) (inv_jobs h (s.jobs.free j) s.ring) job.slot
        job.seen o
      exact .frame ((hq.slotFrame x).trans hf) (by simp)
  | prefetchRead b =>
      obtain ⟨bio, hb, -, rfl⟩ := step_prefetchRead.mp hs
      exact .frame (slotFrame_prefetchRead h hb) (by simp)
  | prefetchEnd b ok lockFree nodeOk =>
      obtain ⟨bio, hb, -, rfl⟩ := step_prefetchEnd.mp hs
      exact slotStep_prefetchEnd h hb ok lockFree nodeOk
  | statStore input =>
      obtain rfl := Option.some.inj hs
      unfold tswapStatStore
      split
      · exact hquiet ⟨rfl, rfl, rfl, rfl, rfl⟩
      · exact hquiet ⟨rfl, rfl, rfl, rfl, rfl⟩
  | quarantineTimeStore input =>
      obtain rfl := Option.some.inj hs
      unfold tswapQuarantineTimeStore
      split
      · exact hquiet ⟨rfl, rfl, rfl, rfl, rfl⟩
      · exact hquiet ⟨rfl, rfl, rfl, rfl, rfl⟩
  | nrPromotedPageShow =>
      obtain rfl := Option.some.inj hs
      exact hquiet ⟨rfl, rfl, rfl, rfl, rfl⟩
  | nrDiskPromotedPageShow =>
      obtain rfl := Option.some.inj hs
      exact hquiet ⟨rfl, rfl, rfl, rfl, rfl⟩
  | tick jiffies =>
      obtain rfl := Option.some.inj hs
      exact hquiet ⟨rfl, rfl, rfl, rfl, rfl⟩
  | kernelWrite y page =>
      obtain ⟨-, -, rfl⟩ := step_kernelWrite.mp hs
      by_cases hyx : y = x
      · exact .kernelWrite page (by rw [hyx]) rfl
      · refine .frame ⟨rfl, ?_, fun e en ho => ⟨ho.cell, rfl, id⟩, fun e en ho => ho.cell⟩
          (by simp)
        exact Function.update_of_ne (Ne.symm hyx) _ _

end Actions

end Memtrade.Tswap
