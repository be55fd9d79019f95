import Memtrade.Tswap.SlotSteps

/-!
# The kernel's side of the calls

Which frontswap call is in progress on a slot, and the slot's bit in the
`frontswap_map`. The operations of tswap do not touch either; a step changes
them for one slot, or clears the bits of an area.
-/

namespace Memtrade.Tswap

variable {P : Type} {s s' : St P} {e : EntryId} {en : Entry} {t : TreeId} {tree : RadixTree}
  {p : PageId} {c : Option P} {x : Slot} {k : Kernel}

/-- The bookkeeping around tswap's own data is the same. -/
structure Book (s s' : St P) : Prop where
  pending : s'.pending = s.pending
  map : s'.frontswapMap = s.frontswapMap
  count : s'.opCount = s.opCount
  jobs : s'.jobs = s.jobs
  reads : s'.reads = s.reads
  areas : s'.areas = s.areas

theorem Book.trans {s₁ s₂ s₃ : St P} (h₁ : Book s₁ s₂) (h₂ : Book s₂ s₃) : Book s₁ s₃ :=
  ⟨h₂.pending.trans h₁.pending, h₂.map.trans h₁.map, h₂.count.trans h₁.count,
    h₂.jobs.trans h₁.jobs, h₂.reads.trans h₁.reads, h₂.areas.trans h₁.areas⟩

/-- The ring of the stored slots is the same too. -/
structure RingBook (s s' : St P) : Prop extends Book s s' where
  ring : s'.ring = s.ring

theorem RingBook.trans {s₁ s₂ s₃ : St P} (h₁ : RingBook s₁ s₂) (h₂ : RingBook s₂ s₃) :
    RingBook s₁ s₃ :=
  ⟨h₁.toBook.trans h₂.toBook, h₂.ring.trans h₁.ring⟩

theorem book_dropEntry (h : Inv s) (hin : InTree s e en t tree p c) :
    RingBook s (dropEntry s e) := by
  by_cases hst : en.state = .inMemory
  · rw [dropEntry_of_inMemory hin hst]
    exact ⟨⟨rfl, rfl, rfl, rfl, rfl, rfl⟩, rfl⟩
  · rw [dropEntry_of_outstanding hin (h.outstanding_of_ne hin hst)]
    exact ⟨⟨rfl, rfl, rfl, rfl, rfl, rfl⟩, rfl⟩

theorem book_storeInto (h : Inv s) (hin : InTree s e en t tree p c) (page : P)
    (o : StoreOutcome) : RingBook s (storeInto s e true page o).1 := by
  have hvalid := (h.lifecycle.tree hin.cell hin.root).1
  by_cases hk : o.kmapOk = true
  · obtain ⟨n, heq⟩ := storeInto_ok hin hvalid page o hk
    rw [heq]
    exact ⟨⟨rfl, rfl, rfl, rfl, rfl, rfl⟩, rfl⟩
  · obtain ⟨n, heq⟩ := storeInto_kmapFail hin hvalid page o (by simpa using hk)
    rw [heq]
    have hinv : Inv { s with
        stat.nrKmapFail := s.stat.nrKmapFail + 1
        stat.nrOverwriteStore := n } := inv_stat h (fun st => by cases st <;> rfl) rfl
    have hbook : RingBook s { s with
        stat.nrKmapFail := s.stat.nrKmapFail + 1
        stat.nrOverwriteStore := n } := ⟨⟨rfl, rfl, rfl, rfl, rfl, rfl⟩, rfl⟩
    exact hbook.trans (book_dropEntry hinv (hin.stat _))

theorem Undone.book (hu : Undone s s') : RingBook s s' := by
  obtain ⟨entries, pages, stat, rfl, -⟩ := hu
  exact ⟨⟨rfl, rfl, rfl, rfl, rfl, rfl⟩, rfl⟩

theorem book_storeFresh (h : Inv s) (y : Slot) (page : P) (entryOk : Bool) (o : StoreOutcome) :
    RingBook s (storeFresh s y page entryOk o).1 := by
  rcases storeFresh_cases h y page entryOk o with ⟨t, tree, n, -, -, -, heq⟩ | hu
  · rw [heq]
    exact ⟨⟨rfl, rfl, rfl, rfl, rfl, rfl⟩, rfl⟩
  · exact hu.state.book

theorem book_loadFromEntry (h : Inv s) (hin : InTree s e en t tree p c) (kmapOk : Bool) :
    RingBook s (loadFromEntry s e kmapOk).1 := by
  unfold loadFromEntry
  simp only [hin.cell]
  cases kmapOk with
  | false =>
      have hinv : Inv { s with stat.nrKmapFail := s.stat.nrKmapFail + 1 } :=
        inv_stat h (fun st => by cases st <;> rfl) rfl
      have hbook : RingBook s { s with stat.nrKmapFail := s.stat.nrKmapFail + 1 } :=
        ⟨⟨rfl, rfl, rfl, rfl, rfl, rfl⟩, rfl⟩
      exact hbook.trans (book_dropEntry hinv (hin.stat _))
  | true => exact book_dropEntry h hin

theorem book_loadFromDevice (y : Slot) (io : SyncIo P) :
    RingBook s (loadFromDevice k s y io).1 := by
  unfold loadFromDevice
  cases io with
  | bioAllocFailed => exact ⟨⟨rfl, rfl, rfl, rfl, rfl, rfl⟩, rfl⟩
  | readFailed => exact ⟨⟨rfl, rfl, rfl, rfl, rfl, rfl⟩, rfl⟩
  | readOk junk =>
      simp only
      split <;> exact ⟨⟨rfl, rfl, rfl, rfl, rfl, rfl⟩, rfl⟩

theorem book_invalidatePage (h : Inv s) (y : Slot) :
    RingBook s (tswapFrontswapInvalidatePage s y) := by
  have hr : Inv { s with stat.nrInvalidatePage := s.stat.nrInvalidatePage + 1 } :=
    inv_stat h (fun st => by cases st <;> rfl) rfl
  have hbook : RingBook s { s with stat.nrInvalidatePage := s.stat.nrInvalidatePage + 1 } :=
    ⟨⟨rfl, rfl, rfl, rfl, rfl, rfl⟩, rfl⟩
  unfold tswapFrontswapInvalidatePage
  simp only
  split
  · exact ⟨⟨rfl, rfl, rfl, rfl, rfl, rfl⟩, rfl⟩
  · rename_i e hl
    obtain ⟨en, t, tree, p, c, hin, -, -⟩ := hr.of_lookup hl
    exact hbook.trans (book_dropEntry hr hin)

/-- Area invalidation changes nothing of the bookkeeping but `areas`. -/
theorem book_invalidateAreaDetach (type : Nat) :
    RingBook s { invalidateAreaDetach s type with areas := s.areas } := by
  unfold invalidateAreaDetach
  simp only
  split <;> exact ⟨⟨rfl, rfl, rfl, rfl, rfl, rfl⟩, rfl⟩

theorem book_invalidateAreaStep (h : Inv s) {type : Nat} (harea : s.areas type = some t) :
    RingBook s { (invalidateAreaStep s type t).1 with areas := s.areas } ∧
      ((invalidateAreaStep s type t).2 = false → (invalidateAreaStep s type t).1.areas = s.areas) ∧
      ∀ ty, ty ≠ type → (invalidateAreaStep s type t).1.areas ty = s.areas ty := by
  obtain ⟨tree, htree⟩ := Option.isSome_iff_exists.mp (h.index.areas type t harea).2
  unfold invalidateAreaStep
  cases hg : radixTreeGangLookup tree with
  | none =>
      simp only [htree, hg]
      exact ⟨⟨⟨rfl, rfl, rfl, rfl, rfl, rfl⟩, rfl⟩, by simp,
        fun ty hty => Function.update_of_ne hty _ _⟩
  | some e =>
      obtain ⟨off, hitem⟩ := gangLookup_some hg
      obtain ⟨en, hcell, hroot, -⟩ := h.index.sound t tree off e htree hitem
      obtain ⟨tree', p, c, hin⟩ := h.inTree hcell hroot
      simp only [htree, hg, hcell, if_neg (h.lifecycle.tree hcell hroot).1]
      have hb := book_dropEntry h hin
      exact ⟨⟨⟨hb.pending, hb.map, hb.count, hb.jobs, hb.reads, rfl⟩, hb.ring⟩, fun _ => hb.areas,
        fun ty _ => by rw [hb.areas]⟩

theorem book_dischargeScan (h : Inv s) (n : Int) : RingBook s (dischargeScan k s n) := by
  rcases dischargeScan_cases h k n with heq | ⟨e, rest, m, -, heq⟩ |
    ⟨e, rest, en, t, tree, p, c, -, -, -, -, heq⟩ <;> rw [heq] <;>
      exact ⟨⟨rfl, rfl, rfl, rfl, rfl, rfl⟩, rfl⟩

theorem book_dischargeSubmit (h : Inv s) {n : Int} (hpc : s.discharge = .submit n e)
    (bioOk : Bool) : RingBook s (dischargeSubmit s n e bioOk) := by
  obtain ⟨en, t, tree, p, c, hin, hst⟩ := h.of_outstanding (e := e) (by simp [outstanding, hpc])
  cases bioOk with
  | false =>
      rw [dischargeSubmit_fail hin hst n]
      simp only
      split <;> exact ⟨⟨rfl, rfl, rfl, rfl, rfl, rfl⟩, rfl⟩
  | true =>
      rw [dischargeSubmit_ok hin n]
      exact ⟨⟨rfl, rfl, rfl, rfl, rfl, rfl⟩, rfl⟩

theorem book_dischargeEnd (h : Inv s) {b : BioId} {bio : WriteBio}
    (hb : s.writes.cell b = some bio) (ok : Bool) (junk : P) :
    RingBook s (stepDischargeEnd s b bio ok junk) := by
  have hpos : 0 < s.writes.count fun b' => b'.entry == bio.entry := Heap.count_pos hb (by simp)
  obtain ⟨en, t, tree, p, c, hin, hst⟩ := h.of_outstanding (e := bio.entry) (by
    unfold outstanding
    omega)
  obtain ⟨m, heq⟩ := stepDischargeEnd_eq hin hst b ok junk
  rw [heq]
  simp only
  split <;> exact ⟨⟨rfl, rfl, rfl, rfl, rfl, rfl⟩, rfl⟩

/-- The completion of a prefetch read, as the rest of the system sees it. -/
structure PrefetchEnded (s : St P) (b : BioId) (bio : ReadBio) (r : St P × List (Event P)) :
    Prop where
  pending : r.1.pending = s.pending
  map : r.1.frontswapMap = s.frontswapMap
  areas : r.1.areas = s.areas
  ring : r.1.ring = s.ring
  jobs : r.1.jobs = s.jobs
  reads : r.1.reads = s.reads.free b
  pages : ∀ q, q ≠ bio.page → r.1.pages.cell q = s.pages.cell q
  count : (r.2 = [] ∧ r.1.opCount = s.opCount) ∨
    ∃ data, r.2 = [.prefetched bio.slot data] ∧
      r.1.opCount = Function.update s.opCount bio.slot (s.opCount bio.slot + 1)

theorem prefetchEnded (h : Inv s) (k : Kernel) {b : BioId} {bio : ReadBio}
    (hb : s.reads.cell b = some bio) (ok lockFree nodeOk : Bool) :
    PrefetchEnded s b bio (stepPrefetchEnd k s b bio ok lockFree nodeOk) := by
  obtain ⟨en, c, hcell, hroot, -, hdata, -, hpage⟩ := h.of_read hb
  have hroots : ∀ ty t, s.tswapTreeRoots ty = some t → (s.trees t).isSome := fun ty t ht =>
    (h.index.roots ty t ht).2.1
  unfold stepPrefetchEnd
  simp only
  rcases prefetchAsyncIoEnd_cases (s := { s with reads := s.reads.free b }) hroots hcell hroot
    hdata hpage k ok lockFree nodeOk with ⟨i, f, n, heq⟩ | ⟨t, tree, ts, i, -, -, -, -, heq⟩
  · rw [heq]
    exact ⟨rfl, rfl, rfl, rfl, rfl, rfl, fun q hq => (Heap.cell_free _ _ q).trans (if_neg hq),
      .inl ⟨rfl, rfl⟩⟩
  · rw [heq]
    exact ⟨rfl, rfl, rfl, rfl, rfl, rfl, fun _ _ => rfl, .inr ⟨_, rfl, rfl⟩⟩

/-! ## The steps of a call -/

/-- The event is the return of a call on the slot. -/
def Event.returns (x : Slot) : Event P → Bool
  | .stored y _ _ | .loaded y _ _ | .invalidatedPage y => y == x
  | .invalidatedArea _ | .prefetched _ _ => false

/-- What the kernel still has to do after the return. -/
def Event.pendingAfter : Event P → Option (PendingOp P)
  | .stored _ _ ret => some (.returned (ret = 0))
  | .loaded _ _ ret => if ret = 0 then some (.returned false) else none
  | .invalidatedPage _ => some (.returned false)
  | .invalidatedArea _ | .prefetched _ _ => none

/-- The action starts a call on the slot. -/
def Action.starts (x : Slot) : Action P → Bool
  | .store y _ _ _ | .load y _ | .invalidatePage y => y == x
  | _ => false

/-- A call on the slot may return in this step. -/
def Returning (s : St P) (a : Action P) (x : Slot) : Prop :=
  (a.starts x = true ∧ s.pending x = none) ∨ s.pending x = some .loadMissed ∨
    ∃ page, s.pending x = some (.storeMissed page)

inductive CallStep (s s' : St P) (a : Action P) (evs : List (Event P)) (x : Slot) : Prop where
  | same : s'.pending x = s.pending x → s'.frontswapMap x = s.frontswapMap x →
      s.opCount x ≤ s'.opCount x → (∀ ev ∈ evs, ev.returns x = false) →
      (s'.areas x.type = s.areas x.type ∨
        (evs = [.invalidatedArea x.type] ∧ s.opCount x < s'.opCount x)) →
      CallStep s s' a evs x
  | missed (op : PendingOp P) : evs = [] → a.starts x = true → s.pending x = none →
      s'.pending x = some op →
      (op = .loadMissed ∧ atomicEntryLookupLock s x = none ∨ ∃ page, op = .storeMissed page) →
      s'.frontswapMap x = s.frontswapMap x → s.opCount x < s'.opCount x →
      s'.areas x.type = s.areas x.type → CallStep s s' a evs x
  | returned (ev : Event P) : evs = [ev] → ev.returns x = true → Returning s a x →
      s'.pending x = ev.pendingAfter → s'.frontswapMap x = s.frontswapMap x →
      s.opCount x < s'.opCount x → s'.areas x.type = s.areas x.type → CallStep s s' a evs x
  | mapped (mark : Bool) : evs = [] → s.pending x = some (.returned mark) → s'.pending x = none →
      s'.frontswapMap x = mark → s.opCount x < s'.opCount x →
      s'.areas x.type = s.areas x.type → CallStep s s' a evs x
  | area : evs = [] → s.areas x.type ≠ none → s'.pending x = s.pending x →
      (s'.frontswapMap x = s.frontswapMap x ∧ s'.areas x.type = s.areas x.type ∨
        s'.frontswapMap x = false) →
      s.opCount x < s'.opCount x → CallStep s s' a evs x

section Steps

variable {a : Action P}

theorem callStep_of_book {evs : List (Event P)} (hb : Book s s')
    (hev : ∀ ev ∈ evs, ev.returns x = false) : CallStep s s' a evs x :=
  .same (by rw [hb.pending]) (by rw [hb.map]) (by rw [hb.count]) hev (.inl (by rw [hb.areas]))

theorem callStep_call {y : Slot} {s₂ : St P} {op : Option (PendingOp P)} {evs : List (Event P)}
    (hb : Book (s.touch y) s₂) (hother : ∀ ev ∈ evs, ∀ x, x ≠ y → ev.returns x = false)
    (hself : (s₂.setPending y op).pending y = op →
      (s₂.setPending y op).frontswapMap y = s.frontswapMap y →
      s.opCount y < (s₂.setPending y op).opCount y →
      (s₂.setPending y op).areas y.type = s.areas y.type →
      CallStep s (s₂.setPending y op) a evs y)
    (x : Slot) : CallStep s (s₂.setPending y op) a evs x := by
  have hareas : (s₂.setPending y op).areas = s.areas := hb.areas
  by_cases hx : x = y
  · subst hx
    refine hself (by simp [St.setPending]) (by simp [St.setPending, hb.map, St.touch]) ?_
      (by rw [hareas])
    simp [St.setPending, hb.count, St.touch]
  · refine .same ?_ ?_ ?_ (fun ev hev => hother ev hev x hx) (.inl (by rw [hareas]))
    · simp [St.setPending, Function.update_of_ne hx, hb.pending, St.touch]
    · simp [St.setPending, hb.map, St.touch]
    · simp [St.setPending, hb.count, St.touch, Function.update_of_ne hx]

theorem returns_of_ne {y : Slot} {ev : Event P} (hev : ev.returns y = true) {x : Slot}
    (hx : x ≠ y) : ev.returns x = false := by
  cases ev <;> simp_all [Event.returns] <;> exact Ne.symm hx

theorem callStep_return {y : Slot} {s₂ : St P} (ev : Event P) (hb : Book (s.touch y) s₂)
    (hev : ev.returns y = true) (hret : Returning s a y) (x : Slot) :
    CallStep s (s₂.setPending y ev.pendingAfter) a [ev] x := by
  refine callStep_call hb ?_ ?_ x
  · intro ev' hev' z hz
    rw [List.mem_singleton.mp hev']
    exact returns_of_ne hev hz
  · intro hp hm hc ha
    exact .returned ev rfl hev hret hp hm hc ha

theorem callStep_missed {y : Slot} {s₂ : St P} {op : PendingOp P} (hb : Book (s.touch y) s₂)
    (hstart : a.starts y = true) (hp : s.pending y = none)
    (hop : op = .loadMissed ∧ atomicEntryLookupLock s y = none ∨ ∃ page, op = .storeMissed page)
    (x : Slot) : CallStep s (s₂.setPending y (some op)) a [] x := by
  refine callStep_call hb (by simp) ?_ x
  intro hp' hm hc ha
  exact .missed op rfl hstart hp hp' hop hm hc ha

theorem callStep_stepStore (h : Inv s) {y : Slot} (hstart : a.starts y = true)
    (hp : s.pending y = none) (page : P) (transHuge : Bool) (o : StoreOutcome) :
    CallStep s (stepStore k s y page transHuge o).1 a (stepStore k s y page transHuge o).2 x := by
  have hr := inv_storeRecord (inv_touch h y) k y
  have hb : Book (s.touch y) (storeRecord k (s.touch y) y) := ⟨rfl, rfl, rfl, rfl, rfl, rfl⟩
  unfold stepStore
  simp only
  cases transHuge with
  | true =>
      have hb' : Book (s.touch y) { storeRecord k (s.touch y) y with
          stat.nrThp := (storeRecord k (s.touch y) y).stat.nrThp + 1 } :=
        ⟨rfl, rfl, rfl, rfl, rfl, rfl⟩
      exact callStep_return (.stored y page eINVAL) hb' (by simp [Event.returns])
        (.inl ⟨hstart, hp⟩) x
  | false =>
      simp only [Bool.false_eq_true, if_false]
      cases hl : atomicEntryLookupLock (storeRecord k (s.touch y) y) y with
      | none => exact callStep_missed hb hstart hp (.inr ⟨page, rfl⟩) x
      | some e =>
          obtain ⟨en, t, tree, p, c, hin, -, -⟩ := hr.of_lookup hl
          exact callStep_return (.stored y page _) (hb.trans (book_storeInto hr hin page o).toBook)
            (by simp [Event.returns]) (.inl ⟨hstart, hp⟩) x

theorem callStep_stepLoad (h : Inv s) {y : Slot} (hstart : a.starts y = true)
    (hp : s.pending y = none) (kmapOk : Bool) :
    CallStep s (stepLoad s y kmapOk).1 a (stepLoad s y kmapOk).2 x := by
  have hr := inv_loadRecord (inv_touch h y)
  have hb : Book (s.touch y) (loadRecord (s.touch y)) := ⟨rfl, rfl, rfl, rfl, rfl, rfl⟩
  unfold stepLoad
  simp only
  cases hl : atomicEntryLookupLock (loadRecord (s.touch y)) y with
  | none =>
      have hb' : Book (s.touch y) (loadMissRecord (loadRecord (s.touch y))) :=
        ⟨rfl, rfl, rfl, rfl, rfl, rfl⟩
      exact callStep_missed hb' hstart hp (.inl ⟨rfl, hl⟩) x
  | some e =>
      obtain ⟨en, t, tree, p, c, hin, -, -⟩ := hr.of_lookup hl
      exact callStep_return (.loaded y _ _) (hb.trans (book_loadFromEntry hr hin kmapOk).toBook)
        (by simp [Event.returns]) (.inl ⟨hstart, hp⟩) x

theorem callStep_invalidateArea (type : Nat) :
    CallStep s (invalidateAreaDetach (s.touchType type) type) a [.invalidatedArea type] x := by
  have hb := book_invalidateAreaDetach (s := s.touchType type) type
  have hcount : (invalidateAreaDetach (s.touchType type) type).opCount =
      (s.touchType type).opCount := hb.count
  by_cases htype : x.type = type
  · have hlt : s.opCount x < (invalidateAreaDetach (s.touchType type) type).opCount x := by
      rw [hcount]
      simp [St.touchType, htype]
    exact .same (congrFun hb.pending x) (congrFun hb.map x) (Nat.le_of_lt hlt)
      (by simp [Event.returns]) (.inr ⟨by rw [htype], hlt⟩)
  · refine .same (congrFun hb.pending x) (congrFun hb.map x) ?_ (by simp [Event.returns])
      (.inl ?_)
    · rw [hcount]
      simp [St.touchType, htype]
    · unfold invalidateAreaDetach
      simp only
      split
      · rfl
      · exact Function.update_of_ne htype _ _

theorem callStep_areaLooped (h : Inv s) {type : Nat} (harea : s.areas type = some t) :
    CallStep s (areaLooped s type t) a [] x := by
  obtain ⟨hb, hsame, hother⟩ := book_invalidateAreaStep (inv_touchType h type) harea
  have hpending : (areaLooped s type t).pending = s.pending := by
    unfold areaLooped
    simp only
    split <;> exact hb.pending
  have hcount : (areaLooped s type t).opCount = (s.touchType type).opCount := by
    unfold areaLooped
    simp only
    split <;> exact hb.count
  have hareas : (areaLooped s type t).areas =
      (invalidateAreaStep (s.touchType type) type t).1.areas := by
    unfold areaLooped
    simp only
    split <;> rfl
  have hmap : (areaLooped s type t).frontswapMap x =
      if x.type = type ∧ (invalidateAreaStep (s.touchType type) type t).2 = true then false
      else s.frontswapMap x := by
    unfold areaLooped
    simp only
    split
    · rename_i hdone
      simp [hdone]
    · rename_i hdone
      rw [if_neg (fun hc => hdone hc.2)]
      exact congrFun hb.map x
  by_cases htype : x.type = type
  · refine .area rfl (by rw [htype, harea]; simp) (by rw [hpending]) ?_ ?_
    · rw [hmap, hareas]
      split
      · exact .inr rfl
      · rename_i hdone
        simp only [htype, true_and, Bool.not_eq_true] at hdone
        exact .inl ⟨rfl, by rw [hsame hdone]; rfl⟩
    · rw [hcount]
      simp [St.touchType, htype]
  · refine .same (by rw [hpending]) ?_ ?_ (by simp) (.inl ?_)
    · rw [hmap, if_neg (fun hc => htype hc.1)]
    · rw [hcount]
      simp [St.touchType, htype]
    · rw [hareas, hother x.type htype]
      rfl

theorem callStep_prefetchEnd (h : Inv s) {b : BioId} {bio : ReadBio}
    (hb : s.reads.cell b = some bio) (ok lockFree nodeOk : Bool) :
    CallStep s (stepPrefetchEnd k s b bio ok lockFree nodeOk).1 a
      (stepPrefetchEnd k s b bio ok lockFree nodeOk).2 x := by
  have he := prefetchEnded h k hb ok lockFree nodeOk
  refine .same (by rw [he.pending]) (by rw [he.map]) ?_ ?_ (.inl (by rw [he.areas]))
  · rcases he.count with ⟨-, hc⟩ | ⟨data, -, hc⟩
    · rw [hc]
    · rw [hc]
      by_cases hx : x = bio.slot
      · simp [hx]
      · simp [Function.update_of_ne hx]
  · rcases he.count with ⟨hev, -⟩ | ⟨data, hev, -⟩ <;> simp [hev, Event.returns]

theorem callStep_of_step {r : St P × List (Event P)} (h : Inv s)
    (hs : step k s a = some r) (x : Slot) : CallStep s r.1 a r.2 x := by
  have hquiet : ∀ {s' : St P}, s'.pending = s.pending → s'.frontswapMap = s.frontswapMap →
      s'.opCount = s.opCount → s'.areas = s.areas → CallStep s s' a [] x := fun hp hm hc ha =>
    .same (by rw [hp]) (by rw [hm]) (by rw [hc]) (by simp) (.inl (by rw [ha]))
  have htouch : ∀ type, s.opCount x ≤ (s.touchType type).opCount x := by
    intro type
    simp only [St.touchType]
    split <;> omega
  cases a with
  | frontswapInit type kmallocOk =>
      obtain ⟨-, rfl⟩ := step_frontswapInit.mp hs
      cases kmallocOk <;> exact .same rfl rfl (htouch type) (by simp) (.inl rfl)
  | store y page transHuge o =>
      obtain ⟨hp, rfl⟩ := step_store.mp hs
      exact callStep_stepStore h (by simp [Action.starts]) hp page transHuge o
  | storeMissed y entryOk o =>
      obtain ⟨page, hp, rfl⟩ := step_storeMissed.mp hs
      exact callStep_return (.stored y page _)
        (book_storeFresh (inv_touch h y) y page entryOk o).toBook (by simp [Event.returns])
        (.inr (.inr ⟨page, hp⟩)) x
  | load y kmapOk =>
      obtain ⟨hp, rfl⟩ := step_load.mp hs
      exact callStep_stepLoad h (by simp [Action.starts]) hp kmapOk
  | loadMissed y io =>
      obtain ⟨hp, rfl⟩ := step_loadMissed.mp hs
      exact callStep_return (.loaded y _ _) (book_loadFromDevice y io).toBook
        (by simp [Event.returns]) (.inr (.inl hp)) x
  | invalidatePage y =>
      obtain ⟨hp, rfl⟩ := step_invalidatePage.mp hs
      exact callStep_return (.invalidatedPage y) (book_invalidatePage (inv_touch h y) y).toBook
        (by simp [Event.returns]) (.inl ⟨by simp [Action.starts], hp⟩) x
  | frontswapMap y =>
      obtain ⟨mark, hp, rfl⟩ := step_frontswapMap.mp hs
      by_cases hx : x = y
      · subst hx
        exact .mapped mark rfl hp (by simp [St.setPending]) (by simp)
          (by simp [St.setPending, St.touch]) rfl
      · refine .same ?_ ?_ ?_ (by simp) (.inl rfl)
        · simp [St.setPending, St.touch, Function.update_of_ne hx]
        · simp [Function.update_of_ne hx]
        · simp [St.setPending, St.touch, Function.update_of_ne hx]
  | invalidateArea type =>
      obtain ⟨-, rfl⟩ := step_invalidateArea.mp hs
      exact callStep_invalidateArea type
  | invalidateAreaStep type =>
      obtain ⟨t, harea, rfl⟩ := step_invalidateAreaStep.mp hs
      exact callStep_areaLooped h harea
  | dischargeOuter =>
      obtain ⟨-, rfl⟩ := step_dischargeOuter.mp hs
      exact hquiet rfl rfl rfl rfl
  | dischargeScan =>
      obtain ⟨n, -, rfl⟩ := step_dischargeScan.mp hs
      exact callStep_of_book (book_dischargeScan h n).toBook (by simp)
  | dischargeSubmit bioOk =>
      obtain ⟨n, e, hpc, rfl⟩ := step_dischargeSubmit.mp hs
      exact callStep_of_book (book_dischargeSubmit h hpc bioOk).toBook (by simp)
  | dischargeEnd b ok junk =>
      obtain ⟨bio, hb, rfl⟩ := step_dischargeEnd.mp hs
      exact callStep_of_book (book_dischargeEnd h hb ok junk).toBook (by simp)
  | prefetchPop =>
      obtain ⟨y, ring, -, ⟨-, rfl⟩ | ⟨-, rfl⟩⟩ := step_prefetchPop.mp hs
      · exact hquiet rfl rfl rfl rfl
      · exact hquiet rfl rfl rfl rfl
  | prefetchLookup j =>
      obtain ⟨job, -, -, ⟨-, rfl⟩ | ⟨-, rfl⟩⟩ := step_prefetchLookup.mp hs
      · exact hquiet rfl rfl rfl rfl
      · exact hquiet rfl rfl rfl rfl
  | prefetchSubmit j o =>
      obtain ⟨job, -, -, rfl⟩ := step_prefetchSubmit.mp hs
      rcases prefetchSubmit_cases (inv_jobs h (s.jobs.free j) s.ring) job.slot job.seen o with
        hu | heq
      · exact hquiet hu.book.pending hu.book.map hu.book.count hu.book.areas
      · rw [heq]
        exact hquiet rfl rfl rfl rfl
  | prefetchRead b =>
      obtain ⟨bio, -, -, rfl⟩ := step_prefetchRead.mp hs
      exact hquiet rfl rfl rfl rfl
  | prefetchEnd b ok lockFree nodeOk =>
      obtain ⟨bio, hb, -, rfl⟩ := step_prefetchEnd.mp hs
      exact callStep_prefetchEnd h hb ok lockFree nodeOk
  | statStore input =>
      obtain rfl := Option.some.inj hs
      unfold tswapStatStore
      split <;> exact hquiet rfl rfl rfl rfl
  | quarantineTimeStore input =>
      obtain rfl := Option.some.inj hs
      unfold tswapQuarantineTimeStore
      split <;> exact hquiet rfl rfl rfl rfl
  | nrPromotedPageShow =>
      obtain rfl := Option.some.inj hs
      exact hquiet rfl rfl rfl rfl
  | nrDiskPromotedPageShow =>
      obtain rfl := Option.some.inj hs
      exact hquiet rfl rfl rfl rfl
  | tick jiffies =>
      obtain rfl := Option.some.inj hs
      exact hquiet rfl rfl rfl rfl
  | kernelWrite y page =>
      obtain ⟨-, -, rfl⟩ := step_kernelWrite.mp hs
      exact hquiet rfl rfl rfl rfl

end Steps

/-! ## Which steps emit which events -/

/-- The event can be that of the action. -/
def Action.Emits : Action P → Event P → Prop
  | .store y page _ _, .stored x page' _ => y = x ∧ page = page'
  | .storeMissed y _ _, .stored x _ _ => y = x
  | .load y _, .loaded x _ _ => y = x
  | .loadMissed y _, .loaded x _ _ => y = x
  | .invalidatePage y, .invalidatedPage x => y = x
  | .invalidateArea type, .invalidatedArea type' => type = type'
  | .prefetchEnd _ _ _ _, .prefetched _ _ => True
  | _, _ => False

theorem events_of_step {a : Action P} {r : St P × List (Event P)} (hs : step k s a = some r) :
    r.2 = [] ∨ ∃ ev, r.2 = [ev] ∧ a.Emits ev := by
  cases a with
  | store y page transHuge o =>
      obtain ⟨-, rfl⟩ := step_store.mp hs
      unfold stepStore storeReturn
      simp only
      split
      · exact .inr ⟨_, rfl, rfl, rfl⟩
      · split
        · exact .inl rfl
        · exact .inr ⟨_, rfl, rfl, rfl⟩
  | storeMissed y entryOk o =>
      obtain ⟨page, -, rfl⟩ := step_storeMissed.mp hs
      exact .inr ⟨_, rfl, rfl⟩
  | load y kmapOk =>
      obtain ⟨-, rfl⟩ := step_load.mp hs
      unfold stepLoad loadReturn
      simp only
      split
      · exact .inl rfl
      · exact .inr ⟨_, rfl, rfl⟩
  | loadMissed y io =>
      obtain ⟨-, rfl⟩ := step_loadMissed.mp hs
      exact .inr ⟨_, rfl, rfl⟩
  | invalidatePage y =>
      obtain ⟨-, rfl⟩ := step_invalidatePage.mp hs
      exact .inr ⟨_, rfl, rfl⟩
  | invalidateArea type =>
      obtain ⟨-, rfl⟩ := step_invalidateArea.mp hs
      exact .inr ⟨_, rfl, rfl⟩
  | prefetchEnd b ok lockFree nodeOk =>
      obtain ⟨bio, -, -, rfl⟩ := step_prefetchEnd.mp hs
      unfold stepPrefetchEnd
      simp only
      split
      · exact .inr ⟨_, rfl, trivial⟩
      · exact .inl rfl
  | prefetchPop =>
      obtain ⟨y, ring, -, ⟨-, rfl⟩ | ⟨-, rfl⟩⟩ := step_prefetchPop.mp hs <;> exact .inl rfl
  | prefetchLookup j =>
      obtain ⟨job, -, -, ⟨-, rfl⟩ | ⟨-, rfl⟩⟩ := step_prefetchLookup.mp hs <;> exact .inl rfl
  | frontswapInit type kmallocOk =>
      obtain ⟨-, rfl⟩ := step_frontswapInit.mp hs
      exact .inl rfl
  | frontswapMap y =>
      obtain ⟨mark, -, rfl⟩ := step_frontswapMap.mp hs
      exact .inl rfl
  | invalidateAreaStep type =>
      obtain ⟨t, -, rfl⟩ := step_invalidateAreaStep.mp hs
      exact .inl rfl
  | dischargeOuter =>
      obtain ⟨-, rfl⟩ := step_dischargeOuter.mp hs
      exact .inl rfl
  | dischargeScan =>
      obtain ⟨n, -, rfl⟩ := step_dischargeScan.mp hs
      exact .inl rfl
  | dischargeSubmit bioOk =>
      obtain ⟨n, e, -, rfl⟩ := step_dischargeSubmit.mp hs
      exact .inl rfl
  | dischargeEnd b ok junk =>
      obtain ⟨bio, -, rfl⟩ := step_dischargeEnd.mp hs
      exact .inl rfl
  | prefetchSubmit j o =>
      obtain ⟨job, -, -, rfl⟩ := step_prefetchSubmit.mp hs
      exact .inl rfl
  | prefetchRead b =>
      obtain ⟨bio, -, -, rfl⟩ := step_prefetchRead.mp hs
      exact .inl rfl
  | kernelWrite y page =>
      obtain ⟨-, -, rfl⟩ := step_kernelWrite.mp hs
      exact .inl rfl
  | statStore input =>
      obtain rfl := Option.some.inj hs
      exact .inl rfl
  | quarantineTimeStore input =>
      obtain rfl := Option.some.inj hs
      exact .inl rfl
  | nrPromotedPageShow =>
      obtain rfl := Option.some.inj hs
      exact .inl rfl
  | nrDiskPromotedPageShow =>
      obtain rfl := Option.some.inj hs
      exact .inl rfl
  | tick jiffies =>
      obtain rfl := Option.some.inj hs
      exact .inl rfl

theorem emits_of_mem {a : Action P} {r : St P × List (Event P)} (hs : step k s a = some r)
    {ev : Event P} (hev : ev ∈ r.2) : a.Emits ev := by
  rcases events_of_step hs with hnil | ⟨ev', hev', hemits⟩
  · simp [hnil] at hev
  · rw [hev', List.mem_singleton] at hev
    exact hev ▸ hemits

/-- A load that returns from an entry: with the contents of the entry, or without if
`kmap` has failed. -/
theorem loaded_of_stepLoad {y : Slot} {kmapOk : Bool} {c : Option P} {ret : Int} (h : Inv s)
    (hev : .loaded x c ret ∈ (stepLoad s y kmapOk).2) :
    ∃ e en t tree p count, atomicEntryLookupLock s y = some e ∧
      InTree (loadRecord (s.touch y)) e en t tree p count ∧ en.slot = y ∧
      ((kmapOk = false ∧ ret = eNOMEM) ∨
        (kmapOk = true ∧ ret = 0 ∧ c = s.dataContents en.data)) := by
  unfold stepLoad at hev
  simp only at hev
  cases hl : atomicEntryLookupLock (loadRecord (s.touch y)) y with
  | none => simp [hl] at hev
  | some e =>
      obtain ⟨en, t, tree, p, count, hin, hslot, -⟩ := (inv_loadRecord (inv_touch h y)).of_lookup hl
      refine ⟨e, en, t, tree, p, count, hl, hin, hslot, ?_⟩
      cases kmapOk with
      | false =>
          simp only [hl, loadReturn, loadFromEntry, hin.cell, if_true, List.mem_singleton,
            Event.loaded.injEq] at hev
          exact .inl ⟨rfl, hev.2.2⟩
      | true =>
          simp only [hl, loadReturn, loadFromEntry, hin.cell, Bool.true_eq_false, if_false,
            List.mem_singleton, Event.loaded.injEq] at hev
          exact .inr ⟨rfl, hev.2.2, hev.2.1⟩

theorem loaded_of_loadFromDevice {y : Slot} {io : SyncIo P} {c : Option P} {ret : Int}
    (hev : .loaded x c ret ∈ (loadReturn (loadFromDevice k s y io) y).2) :
    ((∀ junk, io ≠ .readOk junk) ∧ ret = eINVAL) ∨
      (∃ junk, io = .readOk junk) ∧ ret = 0 ∧ c = some (s.disk y) := by
  simp only [loadReturn, List.mem_singleton, Event.loaded.injEq] at hev
  cases io with
  | bioAllocFailed => exact .inl ⟨by simp, hev.2.2⟩
  | readFailed => exact .inl ⟨by simp, hev.2.2⟩
  | readOk junk =>
      right
      refine ⟨⟨junk, rfl⟩, ?_⟩
      unfold loadFromDevice at hev
      simp only at hev
      split at hev
      · exact ⟨hev.2.2, hev.2.1⟩
      · exact ⟨hev.2.2, hev.2.1⟩

end Memtrade.Tswap
