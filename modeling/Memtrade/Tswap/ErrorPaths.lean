import Memtrade.Tswap.Overtaking

/-!
# What a failed store or load leaves behind

A failed store should leave no older copy of the slot, no write to it and no
prefetch of it; a failed load should leave the slot's data where a later load
finds it, whatever goes on in between. The theorem at the end says in which
states and on which branches the code does so.
-/

namespace Memtrade.Tswap

variable {P : Type} {k : Kernel} {s s' : St P} {e : EntryId} {en : Entry} {t : TreeId}
  {tree : RadixTree} {p : PageId} {c : Option P} {x : Slot} {d : P}

/-! ## Failed stores -/

/-- The entry holds no data and no discharge of it is outstanding. -/
def Blank (s : St P) (e : EntryId) (en : Entry) : Prop :=
  s.dataContents en.data = none ∧ outstanding s e = 0

/-- No entry of the slot holds data or is written to the device. -/
def Emptied (s : St P) (x : Slot) : Prop :=
  ∀ e en, s.entries.cell e = some en → en.slot = x → Blank s e en

/-- No in-memory copy of the slot and no write to it remains, and no prefetch of it can
bring an older copy back. -/
def Released (k : Kernel) (s : St P) (x : Slot) : Prop := Emptied s x ∧ ¬ Prefetching k s x

/-- The entry is the in-memory one that a store of a small page finds. -/
def GivenUp (s : St P) (x : Slot) (e : EntryId) (en : Entry) : Action P → Prop
  | .store _ _ transHuge _ =>
      transHuge = false ∧ atomicEntryLookupLock s x = some e ∧ en.state = .inMemory
  | _ => False

/-- Every entry of the slot is blank, or is given up by the store. -/
def EntriesRecoverable (s : St P) (a : Action P) (x : Slot) : Prop :=
  ∀ e en, s.entries.cell e = some en → en.slot = x → Blank s e en ∨ GivenUp s x e en a

/-- The request that the store itself puts into the ring is there. -/
def requested (k : Kernel) (s : St P) : Action P → St P
  | .store x _ _ _ => { s with ring := s.ring.push k.prefetchBufferSize x }
  | _ => s

/-- Nothing of the slot is left if the store gives up its entry. -/
def StoreRecoverable (k : Kernel) (s : St P) (a : Action P) (x : Slot) : Prop :=
  EntriesRecoverable s a x ∧ ¬ Prefetching k (requested k s a) x

theorem blank_congr (hpages : s'.pages.cell = s.pages.cell) (hwrites : s'.writes = s.writes)
    (hpc : s'.discharge = s.discharge) : Blank s' e en ↔ Blank s e en := by
  unfold Blank St.dataContents outstanding
  rw [hpages, hwrites, hpc]

theorem emptied_congr (hcells : s'.entries.cell = s.entries.cell)
    (hpages : s'.pages.cell = s.pages.cell) (hwrites : s'.writes = s.writes)
    (hpc : s'.discharge = s.discharge) : Emptied s' x ↔ Emptied s x := by
  unfold Emptied
  simp only [hcells, blank_congr hpages hwrites hpc]

/-- Giving up a page under write-back leaves a zombie with its write. -/
theorem emptied_dropEntry_of_outstanding (h : Inv s) (hin : InTree s e en t tree p c)
    (hst : en.state.outstanding = 1) : ¬ Emptied (dropEntry s e) en.slot := by
  intro hr
  have hout := (h.lifecycle.tree hin.cell hin.root).2.1
  rw [dropEntry_of_outstanding hin hst] at hr
  have hblank := hr e { en with state := .zombie }
    ((Heap.cell_write hin.cell _ e).trans (if_pos rfl)) rfl
  have hzero : outstanding s e = 0 := hblank.2
  omega

/-- Giving up an in-memory page leaves the other entries of the slot. -/
theorem emptied_dropEntry_of_inMemory (h : Inv s) (hin : InTree s e en t tree p c)
    (hst : en.state = .inMemory) :
    Emptied (dropEntry s e) x ↔
      ∀ i eni, i ≠ e → s.entries.cell i = some eni → eni.slot = x → Blank s i eni := by
  rw [dropEntry_of_inMemory hin hst]
  have hblank : ∀ i eni, i ≠ e → s.entries.cell i = some eni →
      (Blank { s.without e p t (tree.erase en.offset) with
        quarantineList := s.quarantineList.erase e
        stat := { s.stat.dec .inMemory with lenQuarantineList := s.lenWithout e } } i eni ↔
          Blank s i eni) := by
    intro i eni hi hcell
    have hcontents : { s with pages := s.pages.free p }.dataContents eni.data =
        s.dataContents eni.data :=
      h.contents_of_ne hin.cell hin.data
        (fun q hq => (Heap.cell_free s.pages p q).trans (if_neg hq)) hcell hi
    exact and_congr_left' (by rw [← hcontents]; rfl)
  constructor
  · intro hr i eni hi hcell hslot
    exact (hblank i eni hi hcell).mp
      (hr i eni ((Heap.cell_free s.entries e i).trans (if_neg hi) |>.trans hcell) hslot)
  · intro hall i eni hcell hslot
    have hcell' : (s.entries.free e).cell i = some eni := hcell
    rw [Heap.cell_free] at hcell'
    split at hcell'
    · cases hcell'
    · rename_i hi
      exact (hblank i eni hi hcell').mpr (hall i eni hi hcell' hslot)

theorem entriesRecoverable_iff_of_noGiveUp {a : Action P}
    (hno : ∀ e en, s.entries.cell e = some en → ¬ GivenUp s x e en a) :
    EntriesRecoverable s a x ↔ Emptied s x := by
  constructor
  · intro hr e en hcell hslot
    exact (hr e en hcell hslot).resolve_right (hno e en hcell)
  · intro hr e en hcell hslot
    exact .inl (hr e en hcell hslot)

theorem emptied_stepStore_iff (h : Inv s) {page : P} {transHuge : Bool} {o : StoreOutcome}
    {ret : Int} (hev : .stored x page ret ∈ (stepStore k s x page transHuge o).2) (hret : ret < 0) :
    Emptied (stepStore k s x page transHuge o).1 x ↔
      EntriesRecoverable s (.store x page transHuge o) x := by
  have hr := inv_storeRecord (inv_touch h x) k x
  unfold stepStore at hev ⊢
  simp only at hev ⊢
  cases transHuge with
  | true =>
      rw [entriesRecoverable_iff_of_noGiveUp (by simp [GivenUp])]
      exact emptied_congr rfl rfl rfl rfl
  | false =>
      simp only [Bool.false_eq_true, if_false] at hev ⊢
      cases hl : atomicEntryLookupLock (storeRecord k (s.touch x) x) x with
      | none => simp [hl] at hev
      | some e =>
          obtain ⟨en, t, tree, p, c, hin, hslot, -⟩ := hr.of_lookup hl
          have hvalid := (hr.lifecycle.tree hin.cell hin.root).1
          have hl' : atomicEntryLookupLock s x = some e := hl
          simp only [hl, storeReturn, List.mem_singleton, Event.stored.injEq, true_and] at hev ⊢
          have hk : o.kmapOk = false := by
            by_contra hk
            obtain ⟨n, heq⟩ := storeInto_ok hin hvalid page o (by simpa using hk)
            rw [heq] at hev
            omega
          obtain ⟨n, heq⟩ := storeInto_kmapFail hin hvalid page o hk
          have hq : Inv { storeRecord k (s.touch x) x with
              stat.nrKmapFail := (storeRecord k (s.touch x) x).stat.nrKmapFail + 1
              stat.nrOverwriteStore := n } := inv_stat hr (fun st => by cases st <;> rfl) rfl
          rw [heq]
          have hcongr : ∀ s₁ : St P, ∀ op, Emptied (s₁.setPending x op) x ↔ Emptied s₁ x :=
            fun s₁ op => emptied_congr rfl rfl rfl rfl
          rw [hcongr]
          by_cases hst : en.state = .inMemory
          · rw [emptied_dropEntry_of_inMemory hq (hin.stat _) hst]
            constructor
            · intro hall i eni hcell hx
              by_cases hi : i = e
              · subst hi
                obtain rfl := Option.some.inj (hin.cell.symm.trans hcell)
                exact .inr ⟨rfl, hl', hst⟩
              · exact .inl (hall i eni hi hcell hx)
            · intro hrec i eni hi hcell hx
              refine (hrec i eni hcell hx).resolve_right ?_
              rintro ⟨-, hfound, -⟩
              exact hi (Option.some.inj (hfound.symm.trans hl'))
          · have hout := hr.outstanding_of_ne hin hst
            have hnot := emptied_dropEntry_of_outstanding hq (hin.stat _) hout
            rw [hslot] at hnot
            refine iff_of_false hnot ?_
            intro hrec
            rcases hrec e en hin.cell hslot with hblank | hgiven
            · have hone := (hr.lifecycle.tree hin.cell hin.root).2.1
              have hzero : outstanding s e = 0 := hblank.2
              change outstanding s e = _ at hone
              omega
            · exact hst hgiven.2.2

/-- A store takes part in the requests by its push on the ring only. -/
theorem unasked_of_stored {a : Action P} {r : St P × List (Event P)} {page : P} {ret : Int}
    (h : Inv s) (hs : step k s a = some r) (hev : .stored x page ret ∈ r.2) :
    Unasked (requested k s a) r.1 := by
  have hemits := emits_of_mem hs hev
  have hmap := map_of_event h hs hev
  cases a <;> simp only [Action.Emits] at hemits
  case store y page' transHuge o =>
    have haside := aside_of_step h hs rfl
    obtain ⟨-, rfl⟩ := step_store.mp hs
    exact ⟨ring_stepStore h y page' transHuge o, hmap, haside.jobs, haside.reads⟩
  case storeMissed y entryOk o =>
    have haside := aside_of_step h hs rfl
    obtain ⟨page', -, rfl⟩ := step_storeMissed.mp hs
    exact ⟨(book_storeFresh (inv_touch h y) y page' entryOk o).ring, hmap, haside.jobs,
      haside.reads⟩

theorem Unasked.prefetching_iff (h : Unasked s s') : Prefetching k s' x ↔ Prefetching k s x := by
  unfold Prefetching
  simp only [h.slot?]

/-- After a failed store: exactly the states and branches in which nothing of
the slot remains. -/
theorem released_iff_of_stored {a : Action P} {r : St P × List (Event P)} {page : P} {ret : Int}
    (h : Inv s) (hs : step k s a = some r) (hev : .stored x page ret ∈ r.2) (hret : ret < 0) :
    Released k r.1 x ↔ StoreRecoverable k s a x := by
  refine and_congr ?_ (not_congr (unasked_of_stored h hs hev).prefetching_iff)
  have hemits := emits_of_mem hs hev
  cases a <;> simp only [Action.Emits] at hemits
  case store y page' transHuge o =>
    obtain ⟨rfl, rfl⟩ := hemits
    obtain ⟨-, rfl⟩ := step_store.mp hs
    exact emptied_stepStore_iff h hev hret
  case storeMissed y entryOk o =>
    subst hemits
    obtain ⟨page', -, rfl⟩ := step_storeMissed.mp hs
    rw [entriesRecoverable_iff_of_noGiveUp (by simp [GivenUp])]
    simp only [storeReturn, List.mem_singleton, Event.stored.injEq, true_and] at hev
    rcases storeFresh_cases (inv_touch h y) y page' entryOk o with
      ⟨t, tree, n, -, -, -, heq⟩ | hu
    · rw [heq] at hev
      omega
    · obtain ⟨entries, pages, stat, heq, hcells, hpages, -⟩ := hu.state
      simp only [storeReturn, heq]
      exact emptied_congr hcells hpages rfl rfl

/-! ## Failed loads -/

/-- The data of a slot whose entry is a zombie is not retrievable: the write
that the zombie waits for may fail. -/
theorem not_retrievable_of_zombie [Nontrivial P] (h : Inv s) (harea : s.areas x.type = none)
    (ho : Occupies s x e en) (hst : en.state = .zombie) (d : P) : ¬ Retrievable k s x d := by
  intro hr
  obtain ⟨junk, hjunk⟩ := exists_ne d
  obtain ⟨t, tree, p, c, hin⟩ := h.of_occupies ho
  obtain ⟨s₁, b, bio, hd, hcell, hb, rfl⟩ := exists_bio (k := k) h hin (by rw [hst]; rfl)
  have hinv := hd.later.inv h
  have ho₁ : Occupies s₁ x bio.entry en := ⟨hcell, ho.slot, ho.tree⟩
  obtain ⟨t₁, tree₁, p₁, c₁, hin₁⟩ := hinv.of_occupies ho₁
  have hslot := (hinv.bios.writes b bio en hb hcell).2
  have hend : step k s₁ (.dischargeEnd b false junk) =
      some (stepDischargeEnd s₁ b bio false junk, []) := step_dischargeEnd.mpr ⟨bio, hb, rfl⟩
  have hl : Later k s (stepDischargeEnd s₁ b bio false junk) := .step hd.later rfl hend
  obtain ⟨m, heq⟩ := stepDischargeEnd_eq hin₁ (by rw [hst]; rfl) b false junk
  rw [if_pos (.inl hst)] at heq
  have harea₁ : s₁.areas x.type = none := by
    rw [hd.areas h]
    exact harea
  have hv : Vacant (stepDischargeEnd s₁ b bio false junk) x :=
    vacant_reaped hinv harea₁ ho₁ (by rw [heq]; rfl)
  have hload := hr _ hl junk
  rw [laterLoad_vacant (hl.inv h) hv, heq] at hload
  change (some (Function.update s₁.disk bio.slot (deviceWritten s₁ bio false junk) x), (0 : Int)) =
    (some d, 0) at hload
  rw [← hslot, ho.slot] at hload
  simp only [deviceWritten, Bool.false_eq_true, false_and, if_false, Function.update_self,
    Prod.mk.injEq, Option.some.injEq, and_true] at hload
  exact hjunk hload

/-- The page is still on the device, or the load never held it in its hands; and no
prefetch can bring another one. -/
def LoadRecoverable (k : Kernel) (s : St P) (x : Slot) (d : P) : Action P → Prop
  | .load _ _ =>
      (∃ e en, atomicEntryLookupLock s x = some e ∧ s.entries.cell e = some en ∧
        en.state = .inMemory ∧ s.disk x = d) ∧ Carries s x d ∧ Alone k s x
  | _ => s.tswapTreeRoots x.type = none ∨ Harmless k s x d

theorem unasked_of_loaded {a : Action P} {r : St P × List (Event P)} {ret : Int}
    (h : Inv s) (hs : step k s a = some r) (hev : .loaded x c ret ∈ r.2) :
    Unasked s r.1 ∧ (Carries r.1 x d ↔ Carries s x d) := by
  have hemits := emits_of_mem hs hev
  have hload : a.isPrefetch = false ∧ a.stackOp = none := by
    cases a <;> simp only [Action.Emits] at hemits <;> exact ⟨rfl, rfl⟩
  have haside := aside_of_step h hs hload.1
  have hring : r.1.ring = s.ring := by
    rcases ring_of_step h hs with ⟨-, hring⟩ | ⟨op, outs, hop, -⟩
    · exact hring
    · rw [hload.2] at hop
      cases hop
  refine ⟨⟨hring, map_of_event h hs hev, haside.jobs, haside.reads⟩, ?_⟩
  unfold Carries
  rw [haside.reads]
  refine forall_congr' fun b => forall_congr' fun bio => imp_congr_right fun hb => ?_
  obtain ⟨en, c', hcell, hroot, -, hdata, -, -⟩ := h.of_read hb
  have hkept : r.1.dataContents (some bio.page) = s.dataContents (some bio.page) := by
    simp only [St.dataContents, haside.outside _ en bio.page hcell hroot hdata]
  rw [hkept]

/-- Giving up an entry leaves the data where a load finds it only if the device has it
and no write is on its way. -/
theorem current_dropEntry_iff (h : Inv s) (hc : Current s x d) (hin : InTree s e en t tree p c)
    (hslot : en.slot = x) (hst : en.state = .inMemory) (op : Option (PendingOp P)) :
    Vacant ((dropEntry s e).setPending x op) x ∧
      (Current ((dropEntry s e).setPending x op) x d ↔ s.disk x = d) := by
  have harea : ((dropEntry s e).setPending x op).areas x.type = none := by
    have hareas : ((dropEntry s e).setPending x op).areas = s.areas := (book_dropEntry h hin).areas
    rw [hareas]
    exact hc.area
  have hdisk : ((dropEntry s e).setPending x op).disk = s.disk := by
    rw [dropEntry_of_inMemory hin hst]
    rfl
  have hv : Vacant ((dropEntry s e).setPending x op) x :=
    vacant_reaped h hc.area (hslot ▸ hin.occupies) (by rw [dropEntry_of_inMemory hin hst]; rfl)
  refine ⟨hv, ?_, ?_⟩
  · intro hc'
    cases hc'.holds with
    | inMemory i eni hcopy => exact (hv i eni hcopy.toOccupies).elim
    | onDisk _ hd => rw [← hd, hdisk]
  · exact fun hd => ⟨harea, .onDisk hv (by rw [hdisk, hd])⟩

theorem Retrievable.disk_eq (h : Inv s) (hr : Retrievable k s x d) (hv : Vacant s x) :
    s.disk x = d := by
  have hload := hr s .refl d
  rw [laterLoad_vacant h hv] at hload
  simpa using hload

theorem retrievable_stepLoad_iff [Nontrivial P] (h : Inv s) (hdel : Delivered s)
    (hc : Current s x d) (hp : s.pending x = none) {ret : Int}
    (hev : .loaded x c ret ∈ (stepLoad s x false).2) :
    Retrievable k (stepLoad s x false).1 x d ↔ LoadRecoverable k s x d (.load x false) := by
  have hs : step k s (.load x false) = some (stepLoad s x false) := step_load.mpr ⟨hp, rfl⟩
  have hinv := inv_step k _ h hs
  have hdel' := delivered_step h hdel hs
  obtain ⟨hu, hcarries⟩ := unasked_of_loaded (d := d) h hs hev
  obtain ⟨e, en, t, tree, p, c', hl, hin, hslot, -⟩ := loaded_of_stepLoad h hev
  let s₁ : St P := { loadRecord (s.touch x) with
    stat.nrKmapFail := (loadRecord (s.touch x)).stat.nrKmapFail + 1 }
  have hinv₁ : Inv s₁ := inv_stat (inv_loadRecord (inv_touch h x)) (fun st => by cases st <;> rfl) rfl
  have hq : Quiet s s₁ := ⟨rfl, rfl, rfl, rfl, rfl⟩
  have hc₁ : Current s₁ x d := (hq.slotFrame x).current hc
  have hin₁ : InTree s₁ e en t tree p c' := hin.stat _
  have hl' : atomicEntryLookupLock (loadRecord (s.touch x)) x = some e := hl
  have heq : (stepLoad s x false).1 = (dropEntry s₁ e).setPending x none := by
    simp only [stepLoad, hl', loadReturn, loadFromEntry, hin.cell, if_true]
    rfl
  have hfound : (∃ e en, atomicEntryLookupLock s x = some e ∧ s.entries.cell e = some en ∧
      en.state = .inMemory ∧ s.disk x = d) ↔ en.state = .inMemory ∧ s.disk x = d := by
    constructor
    · rintro ⟨e', en', hfound, hcell, hrest⟩
      obtain rfl := Option.some.inj (hfound.symm.trans hl)
      obtain rfl := Option.some.inj (hcell.symm.trans hin.cell)
      exact hrest
    · exact fun hrest => ⟨e, en, hl, hin.cell, hrest⟩
  simp only [LoadRecoverable, hfound]
  by_cases hst : en.state = .inMemory
  · obtain ⟨hv, hcur⟩ := current_dropEntry_iff hinv₁ hc₁ hin₁ hslot hst none
    rw [← heq] at hv hcur
    have hroot : (stepLoad s x false).1.tswapTreeRoots x.type ≠ none := by
      rw [heq, dropEntry_of_inMemory hin₁ hst]
      show s.tswapTreeRoots x.type ≠ none
      have htype : en.type = x.type := congrArg Slot.type hslot
      have hlive := hinv₁.live_root hin₁ (by rw [htype]; exact hc₁.area)
      rw [htype] at hlive
      exact fun hnone => by cases hlive.symm.trans hnone
    constructor
    · intro hr
      have hd : s.disk x = d := by
        have hd := hr.disk_eq hinv hv
        rw [heq, dropEntry_of_inMemory hin₁ hst] at hd
        exact hd
      have hset := (retrievable_iff_settled hinv (hcur.mpr hd) hdel').mp hr
      have hh := hset.harmless.resolve_left hroot
      exact ⟨⟨hst, hd⟩, hcarries.mp hh.carries, hu.alone_iff.mp hh.alone⟩
    · rintro ⟨⟨-, hd⟩, hcar, hal⟩
      have hset : Settled k (stepLoad s x false).1 x d :=
        ⟨hcur.mpr hd, .inr ⟨hcarries.mpr hcar, .inl hv, hu.alone_iff.mpr hal⟩⟩
      exact hset.retrievable hinv
  · refine iff_of_false ?_ fun hrec => hst hrec.1.1
    have hout := hinv₁.outstanding_of_ne hin₁ hst
    rw [heq] at hinv ⊢
    have hareas : ((dropEntry s₁ e).setPending x none).areas = s.areas :=
      (book_dropEntry hinv₁ hin₁).areas
    have hzombie : Occupies ((dropEntry s₁ e).setPending x none) x e { en with state := .zombie } := by
      refine ⟨?_, hslot, by simp [hin.root]⟩
      rw [dropEntry_of_outstanding hin₁ hout]
      exact (Heap.cell_write hin₁.cell _ e).trans (if_pos rfl)
    exact not_retrievable_of_zombie hinv (by rw [hareas]; exact hc.area) hzombie rfl d

/-- After a failed load: exactly the states in which the data stays retrievable. -/
theorem retrievable_iff_of_loaded [Nontrivial P] {a : Action P} {r : St P × List (Event P)}
    {ret : Int} (h : Inv s) (hdel : Delivered s) (hc : Current s x d) (hs : step k s a = some r)
    (hev : .loaded x c ret ∈ r.2) (hret : ret < 0) :
    Retrievable k r.1 x d ↔ LoadRecoverable k s x d a := by
  have hemits := emits_of_mem hs hev
  cases a <;> simp only [Action.Emits] at hemits
  case load y kmapOk =>
    subst hemits
    obtain ⟨hp, rfl⟩ := step_load.mp hs
    have hk : kmapOk = false := by
      obtain ⟨e, en, t, tree, p, c', -, -, -, hfail | hdone⟩ := loaded_of_stepLoad h hev
      · exact hfail.1
      · omega
    subst hk
    exact retrievable_stepLoad_iff h hdel hc hp hev
  case loadMissed y io =>
    subst hemits
    have hinv := inv_step k _ h hs
    have hdel' := delivered_step h hdel hs
    obtain ⟨hu, hcarries⟩ := unasked_of_loaded (d := d) h hs hev
    obtain ⟨-, rfl⟩ := step_loadMissed.mp hs
    have hq : Quiet s (loadReturn (loadFromDevice k (s.touch y) y io) y).1 ∧
        (loadReturn (loadFromDevice k (s.touch y) y io) y).1.tswapTreeRoots = s.tswapTreeRoots := by
      cases io with
      | bioAllocFailed => exact ⟨⟨rfl, rfl, rfl, rfl, rfl⟩, rfl⟩
      | readFailed => exact ⟨⟨rfl, rfl, rfl, rfl, rfl⟩, rfl⟩
      | readOk junk =>
          cases loaded_of_loadFromDevice hev with
          | inl hfail => exact (hfail.1 junk rfl).elim
          | inr hdone => omega
    have hv : Vacant (loadReturn (loadFromDevice k (s.touch y) y io) y).1 y ↔ Vacant s y :=
      ⟨(hq.1.symm.slotFrame y).vacant, (hq.1.slotFrame y).vacant⟩
    have hc' := (hq.1.slotFrame y).current hc
    rw [retrievable_iff_settled hinv hc' hdel']
    constructor
    · intro hset
      refine hset.harmless.imp (fun hroot => by rw [← hq.2, hroot]) fun hh => ?_
      exact ⟨hcarries.mp hh.carries, hh.ahead.imp hv.mp hu.noneAhead_iff.mp, hu.alone_iff.mp hh.alone⟩
    · intro hrec
      refine ⟨hc', hrec.imp (fun hroot => by rw [hq.2, hroot]) fun hh => ?_⟩
      exact ⟨hcarries.mpr hh.carries, hh.ahead.imp hv.mpr hu.noneAhead_iff.mpr,
        hu.alone_iff.mpr hh.alone⟩

/-! ## Both -/

/-- In every reachable state: a failed store leaves nothing of the slot behind
exactly if every entry of the slot was blank or was the in-memory entry that the
store gave up, and no prefetch of the slot is under way or can start; a failed
load leaves the slot's data retrievable exactly if it had missed, or had found the
page in memory and unwritten and the device holds the data too, and no prefetch of
the slot can bring other data. -/
theorem error_paths_iff [Nontrivial P] {a : Action P} {evs : List (Event P)}
    (hs : (tswap P k).Reachable s) (hstep : step k s a = some (s', evs)) :
    (∀ x page ret, .stored x page ret ∈ evs → ret < 0 →
      (Released k s' x ↔ StoreRecoverable k s a x)) ∧
    (∀ x c ret d, .loaded x c ret ∈ evs → ret < 0 → Current s x d →
      (Retrievable k s' x d ↔ LoadRecoverable k s x d a)) := by
  have h := inv_of_reachable hs
  constructor
  · intro x page ret hev hret
    exact released_iff_of_stored h hstep hev hret
  · intro x c ret d hev hret hc
    exact retrievable_iff_of_loaded h (delivered_of_reachable hs) hc hstep hev hret

/-! ## Runs into the failing branches -/

/-- The sample page is freed by the kernel while its write is in flight. -/
def sampleZombie : St Nat :=
  (tswap Nat sampleKernel).final sampleStart
    (sampleStore ++ sampleDischarge ++ [.invalidatePage sampleSlot, .frontswapMap sampleSlot])

theorem sampleZombie_reachable : (tswap Nat sampleKernel).Reachable sampleZombie :=
  System.reachable_final sampleStart_init _

/-- The slot is used again, for a huge page. -/
def sampleHuge : St Nat :=
  ((step sampleKernel sampleZombie (.store sampleSlot 9 true allOk)).map Prod.fst).getD sampleZombie

theorem sampleHuge_step :
    step sampleKernel sampleZombie (.store sampleSlot 9 true allOk) =
      some (sampleHuge, [.stored sampleSlot 9 eINVAL]) := rfl

theorem error_paths_sample :
    Released sampleKernel sampleHuge sampleSlot ↔
      StoreRecoverable sampleKernel sampleZombie (.store sampleSlot 9 true allOk) sampleSlot :=
  (error_paths_iff sampleZombie_reachable sampleHuge_step).1 sampleSlot 9 eINVAL
    (List.mem_singleton.mpr rfl) (by decide)

/-- The sample page is in memory and nowhere else. -/
def sampleStored : St Nat := (tswap Nat sampleKernel).final sampleStart sampleStore

theorem sampleStored_exec : (tswap Nat sampleKernel).Exec noPrefetch sampleStored
    ((tswap Nat sampleKernel).trace sampleStart sampleStore) := by
  have hno : ∀ a ∈ sampleStore, a.isPrefetch = false := by decide
  exact System.exec_final sampleStart_init (System.meets_of_forall (fun a ha _ => hno a ha) _)

/-- A failed store of a huge page leaves the write of the freed page
outstanding; a load that cannot map its page drops the only copy. -/
theorem error_paths_lose_slots :
    (¬ ∀ (s s' : St Nat) (a : Action Nat) (evs : List (Event Nat)) (x : Slot) (page : Nat)
        (ret : Int), (tswap Nat sampleKernel).Reachable s →
        step sampleKernel s a = some (s', evs) → .stored x page ret ∈ evs → ret < 0 →
        Released sampleKernel s' x) ∧
    ¬ ∀ (s s' : St Nat) (a : Action Nat) (evs : List (Event Nat)) (x : Slot) (c : Option Nat)
        (ret : Int) (d : Nat), (tswap Nat sampleKernel).Reachable s →
        step sampleKernel s a = some (s', evs) → .loaded x c ret ∈ evs → ret < 0 →
        Current s x d → Retrievable sampleKernel s' x d := by
  constructor
  · intro hall
    have hreleased := hall sampleZombie sampleHuge _ _ sampleSlot 9 eINVAL sampleZombie_reachable
      sampleHuge_step (List.mem_singleton.mpr rfl) (by decide)
    obtain ⟨en, hcell, hslot⟩ : ∃ en, sampleHuge.entries.cell 0 = some en ∧
        en.slot = sampleSlot := ⟨_, rfl, rfl⟩
    have hzero := (hreleased.1 0 en hcell hslot).2
    exact absurd hzero (by decide)
  · intro hall
    obtain ⟨r, hr⟩ : ∃ r, step sampleKernel sampleStored (.load sampleSlot false) =
        some (r, [.loaded sampleSlot none eNOMEM]) ∧
          laterLoad sampleKernel r sampleSlot 0 = (some 0, 0) := ⟨_, rfl, rfl⟩
    have hcur : Current sampleStored sampleSlot 5 := (stored_of_exec sampleStored_exec rfl).current
    have hload := hall sampleStored r _ _ sampleSlot none eNOMEM 5 sampleStored_exec.reachable hr.1
      (List.mem_singleton.mpr rfl) (by decide) hcur r .refl 0
    rw [hr.2] at hload
    exact absurd hload (by decide)

end Memtrade.Tswap
