import Memtrade.Tswap.Calls
import Memtrade.Tswap.Safety

/-!
# Invalidating an area

A call of `tswap_frontswap_invalidate_area` detaches the tree of its type and then
drops one entry after the other, while stores, discharges and completions go on. The
detached tree is found by nobody but entries that still hang in it, so it can only
shrink, and the call returns when it is empty. An entry of the type that is left then
is one whose prefetch read is pending, outside every tree.
-/

namespace Memtrade.Tswap

variable {P : Type} {s s' : St P} {e : EntryId} {en : Entry} {t : TreeId} {tree : RadixTree}
  {p : PageId} {c : Option P} {k : Kernel} {type : Nat}

/-! ## Only the call ends itself -/

theorem areas_stepStore (h : Inv s) (y : Slot) (page : P) (transHuge : Bool) (o : StoreOutcome) :
    (stepStore k s y page transHuge o).1.areas = s.areas := by
  have hr := inv_storeRecord (inv_touch h y) k y
  unfold stepStore
  cases transHuge with
  | true => rfl
  | false =>
      simp only [Bool.false_eq_true, if_false]
      cases hl : atomicEntryLookupLock (storeRecord k (s.touch y) y) y with
      | none => rfl
      | some e =>
          obtain ⟨en, t, tree, p, c, hin, -, -⟩ := hr.of_lookup hl
          exact (book_storeInto hr hin page o).areas

theorem areas_stepLoad (h : Inv s) (y : Slot) (kmapOk : Bool) :
    (stepLoad s y kmapOk).1.areas = s.areas := by
  have hr := inv_loadRecord (inv_touch h y)
  unfold stepLoad
  cases hl : atomicEntryLookupLock (loadRecord (s.touch y)) y with
  | none =>
      simp only [hl]
      rfl
  | some e =>
      obtain ⟨en, t, tree, p, c, hin, -, -⟩ := hr.of_lookup hl
      simp only [hl]
      exact (book_loadFromEntry hr hin kmapOk).areas

theorem areas_of_step {a : Action P} {r : St P × List (Event P)} (h : Inv s)
    (hs : step k s a = some r) (harea : s.areas type = some t) :
    r.1.areas type = some t ∨ a = .invalidateAreaStep type := by
  have hsame : r.1.areas = s.areas → r.1.areas type = some t ∨ a = .invalidateAreaStep type := by
    intro heq
    rw [heq]
    exact .inl harea
  cases a with
  | frontswapInit ty kmallocOk =>
      obtain ⟨-, rfl⟩ := step_frontswapInit.mp hs
      cases kmallocOk with
      | false => exact hsame rfl
      | true => exact hsame rfl
  | store y page transHuge o =>
      obtain ⟨-, rfl⟩ := step_store.mp hs
      exact hsame (areas_stepStore h y page transHuge o)
  | storeMissed y entryOk o =>
      obtain ⟨page, -, rfl⟩ := step_storeMissed.mp hs
      exact hsame (book_storeFresh (inv_touch h y) y page entryOk o).areas
  | load y kmapOk =>
      obtain ⟨-, rfl⟩ := step_load.mp hs
      exact hsame (areas_stepLoad h y kmapOk)
  | loadMissed y io =>
      obtain ⟨-, rfl⟩ := step_loadMissed.mp hs
      exact hsame (book_loadFromDevice y io).areas
  | invalidatePage y =>
      obtain ⟨-, rfl⟩ := step_invalidatePage.mp hs
      exact hsame (book_invalidatePage (inv_touch h y) y).areas
  | frontswapMap y =>
      obtain ⟨mark, -, rfl⟩ := step_frontswapMap.mp hs
      exact hsame rfl
  | invalidateArea ty =>
      obtain ⟨hnone, rfl⟩ := step_invalidateArea.mp hs
      have hne : type ≠ ty := by
        intro heq
        rw [← heq, harea] at hnone
        cases hnone
      left
      unfold invalidateAreaDetach
      simp only
      split
      · exact harea
      · exact (Function.update_of_ne hne _ _).trans harea
  | invalidateAreaStep ty =>
      obtain ⟨u, hu, rfl⟩ := step_invalidateAreaStep.mp hs
      by_cases hty : type = ty
      · exact .inr (by rw [hty])
      · left
        have hother := (book_invalidateAreaStep (inv_touchType h ty) hu).2.2 type hty
        unfold areaLooped
        simp only
        split
        · exact hother.trans harea
        · exact hother.trans harea
  | dischargeOuter =>
      obtain ⟨-, rfl⟩ := step_dischargeOuter.mp hs
      exact hsame rfl
  | dischargeScan =>
      obtain ⟨n, -, rfl⟩ := step_dischargeScan.mp hs
      exact hsame (book_dischargeScan h n).areas
  | dischargeSubmit bioOk =>
      obtain ⟨n, e, hpc, rfl⟩ := step_dischargeSubmit.mp hs
      exact hsame (book_dischargeSubmit h hpc bioOk).areas
  | dischargeEnd b ok junk =>
      obtain ⟨bio, hb, rfl⟩ := step_dischargeEnd.mp hs
      exact hsame (book_dischargeEnd h hb ok junk).areas
  | prefetchPop =>
      obtain ⟨y, ring, -, ⟨-, rfl⟩ | ⟨-, rfl⟩⟩ := step_prefetchPop.mp hs
      · exact hsame rfl
      · exact hsame rfl
  | prefetchLookup j =>
      obtain ⟨job, -, -, ⟨-, rfl⟩ | ⟨-, rfl⟩⟩ := step_prefetchLookup.mp hs
      · exact hsame rfl
      · exact hsame rfl
  | prefetchSubmit j o =>
      obtain ⟨job, -, -, rfl⟩ := step_prefetchSubmit.mp hs
      cases prefetchSubmit_cases (inv_jobs h (s.jobs.free j) s.ring) job.slot job.seen o with
      | inl hu => exact hsame hu.book.areas
      | inr heq =>
          apply hsame
          rw [heq]
  | prefetchRead b =>
      obtain ⟨bio, -, -, rfl⟩ := step_prefetchRead.mp hs
      exact hsame rfl
  | prefetchEnd b ok lockFree nodeOk =>
      obtain ⟨bio, hb, -, rfl⟩ := step_prefetchEnd.mp hs
      exact hsame (prefetchEnded h k hb ok lockFree nodeOk).areas
  | statStore input =>
      obtain rfl := Option.some.inj hs
      apply hsame
      unfold tswapStatStore
      split <;> rfl
  | quarantineTimeStore input =>
      obtain rfl := Option.some.inj hs
      apply hsame
      unfold tswapQuarantineTimeStore
      split <;> rfl
  | nrPromotedPageShow =>
      obtain rfl := Option.some.inj hs
      exact hsame rfl
  | nrDiskPromotedPageShow =>
      obtain rfl := Option.some.inj hs
      exact hsame rfl
  | tick jiffies =>
      obtain rfl := Option.some.inj hs
      exact hsame rfl
  | kernelWrite y page =>
      obtain ⟨-, -, rfl⟩ := step_kernelWrite.mp hs
      exact hsame rfl

/-! ## What the call leaves alone -/

/-- The entry at the address belongs to another type. -/
def otherType (s : St P) (type : Nat) (e : EntryId) : Bool :=
  (s.entries.cell e).any fun en => en.type != type

/-- No entry of another type is changed: it stays as it is, with its page, its place on
the list, its tree and its bios. -/
structure OthersKept (type : Nat) (s s' : St P) : Prop where
  entries : ∀ e en, en.type ≠ type → (s'.entries.cell e = some en ↔ s.entries.cell e = some en)
  pages : ∀ e en p, en.type ≠ type → s.entries.cell e = some en → en.data = some p →
    s'.pages.cell p = s.pages.cell p
  list : s'.quarantineList.filter (otherType s type) = s.quarantineList.filter (otherType s type)
  trees : ∀ u, u.type ≠ type → s'.trees u = s.trees u
  roots : ∀ ty, ty ≠ type → s'.tswapTreeRoots ty = s.tswapTreeRoots ty
  writes : s'.writes = s.writes
  reads : s'.reads = s.reads
  discharge : s'.discharge = s.discharge

theorem filter_erase {l : List EntryId} {q : EntryId → Bool} (hq : q e = false) :
    (l.erase e).filter q = l.filter q := by
  induction l with
  | nil => rfl
  | cons a l ih =>
      rw [List.erase_cons]
      split
      · rename_i ha
        rw [beq_iff_eq.mp ha, List.filter_cons_of_neg (by simp [hq])]
      · rw [List.filter_cons, List.filter_cons, ih]

theorem othersKept_dropEntry (h : Inv s) (hin : InTree s e en t tree p c) (htype : en.type = type) :
    OthersKept type s (dropEntry s e) := by
  have htree : t.type = type := by rw [(h.index.type e en t hin.cell hin.root).1, htype]
  have hlist : (s.quarantineList.erase e).filter (otherType s type) =
      s.quarantineList.filter (otherType s type) := by
    apply filter_erase
    simp [otherType, hin.cell, htype]
  by_cases hst : en.state = .inMemory
  · rw [dropEntry_of_inMemory hin hst]
    constructor
    case entries =>
      intro i eni hi
      show (s.entries.free e).cell i = some eni ↔ _
      rw [Heap.cell_free]
      by_cases hie : i = e
      · rw [if_pos hie, hie, hin.cell, Option.some.injEq]
        constructor
        · intro hnone
          cases hnone
        · intro heq
          rw [← heq] at hi
          exact absurd htype hi
      · rw [if_neg hie]
    case pages =>
      intro i eni q hi hcell hdata
      show (s.pages.free p).cell q = _
      rw [Heap.cell_free, if_neg]
      intro hq
      have hie := h.pages.inj i e eni en hcell hin.cell (by rw [hdata, hin.data, hq])
      rw [hie, hin.cell, Option.some.injEq] at hcell
      rw [← hcell] at hi
      exact hi htype
    case list => exact hlist
    case trees =>
      intro u hu
      exact Function.update_of_ne (fun hut => hu (by rw [hut, htree])) _ _
    case roots => exact fun _ _ => rfl
    case writes => rfl
    case reads => rfl
    case discharge => rfl
  · rw [dropEntry_of_outstanding hin (h.outstanding_of_ne hin hst)]
    constructor
    case entries =>
      intro i eni hi
      show (s.entries.write e { en with state := .zombie }).cell i = some eni ↔ _
      rw [Heap.cell_write hin.cell]
      by_cases hie : i = e
      · rw [if_pos hie, hie, hin.cell, Option.some.injEq, Option.some.injEq]
        constructor
        · intro heq
          rw [← heq] at hi
          exact absurd htype hi
        · intro heq
          rw [← heq] at hi
          exact absurd htype hi
      · rw [if_neg hie]
    case pages => exact fun _ _ _ _ _ _ => rfl
    case list => exact hlist
    case trees => exact fun _ _ => rfl
    case roots => exact fun _ _ => rfl
    case writes => rfl
    case reads => rfl
    case discharge => rfl

theorem othersKept_invalidateAreaDetach (type : Nat) :
    OthersKept type s (invalidateAreaDetach (s.touchType type) type) := by
  unfold invalidateAreaDetach
  simp only
  split
  · exact ⟨fun _ _ _ => Iff.rfl, fun _ _ _ _ _ _ => rfl, rfl, fun _ _ => rfl, fun _ _ => rfl, rfl,
      rfl, rfl⟩
  · exact ⟨fun _ _ _ => Iff.rfl, fun _ _ _ _ _ _ => rfl, rfl, fun _ _ => rfl,
      fun _ hty => Function.update_of_ne hty _ _, rfl, rfl, rfl⟩

/-! ## An iteration of the loop -/

/-- The tree is empty and released, or an entry of it is dropped. An `INVALID` entry is
in no tree. -/
theorem areaLooped_cases (h : Inv s) (harea : s.areas type = some t) :
    (∃ map, areaLooped s type t = { s.touchType type with
      trees := Function.update s.trees t none
      areas := Function.update s.areas type none
      frontswapMap := map }) ∨
    ∃ e en tree p c, InTree (s.touchType type) e en t tree p c ∧
      areaLooped s type t = dropEntry (s.touchType type) e := by
  have hi := inv_touchType h type
  obtain ⟨tree, htree⟩ := Option.isSome_iff_exists.mp (hi.index.areas type t harea).2
  unfold areaLooped invalidateAreaStep
  cases hg : radixTreeGangLookup tree with
  | none =>
      left
      simp only [htree, hg]
      exact ⟨_, rfl⟩
  | some e =>
      right
      obtain ⟨off, hitem⟩ := gangLookup_some hg
      obtain ⟨en, hcell, hroot, -⟩ := hi.index.sound t tree off e htree hitem
      obtain ⟨tree', p, c, hin⟩ := hi.inTree hcell hroot
      refine ⟨e, en, tree', p, c, hin, ?_⟩
      simp only [htree, hg, hcell, if_neg (hi.lifecycle.tree hcell hroot).1]
      rfl

theorem othersKept_areaLooped (h : Inv s) (harea : s.areas type = some t) :
    OthersKept type s (areaLooped s type t) := by
  have htype : t.type = type := (h.index.areas type t harea).1
  cases areaLooped_cases h harea with
  | inl hreleased =>
      obtain ⟨map, heq⟩ := hreleased
      rw [heq]
      refine ⟨fun _ _ _ => Iff.rfl, fun _ _ _ _ _ _ => rfl, rfl, ?_, fun _ _ => rfl, rfl, rfl, rfl⟩
      intro u hu
      exact Function.update_of_ne (fun hut => hu (by rw [hut, htype])) _ _
  | inr hdropped =>
      obtain ⟨e, en, tree, p, c, hin, heq⟩ := hdropped
      have hi := inv_touchType h type
      have hen : en.type = type := by
        rw [← htype]
        exact (hi.index.type e en t hin.cell hin.root).1.symm
      have hkept := othersKept_dropEntry hi hin hen
      rw [heq]
      exact ⟨hkept.entries, hkept.pages, hkept.list, hkept.trees, hkept.roots, hkept.writes,
        hkept.reads, hkept.discharge⟩

/-! ## The return -/

/-- No entry of the type is in a tree or on the list, and none is being discharged. -/
structure AreaCleared (type : Nat) (s : St P) : Prop where
  trees : ∀ u (tree : RadixTree) (off : Nat) e en, s.trees u = some tree → tree[off]? = some e →
    s.entries.cell e = some en → en.type ≠ type
  list : ∀ e ∈ s.quarantineList, ∀ en, s.entries.cell e = some en → en.type ≠ type
  outstanding : ∀ e en, s.entries.cell e = some en → en.type = type → outstanding s e = 0
  writes : ∀ b bio, s.writes.cell b = some bio → bio.slot.type ≠ type

theorem areaCleared (h : Inv s) (hroot : s.tswapTreeRoots type = none)
    (harea : s.areas type = none) : AreaCleared type s := by
  have houtside : ∀ e en, s.entries.cell e = some en → en.type = type →
      en.tswapTreeRoot = none := by
    intro e en he htype
    cases hu : en.tswapTreeRoot with
    | none => rfl
    | some u =>
        have hreg := (h.index.type e en u he hu).2
        rw [htype, hroot, harea] at hreg
        simp at hreg
  have hzero : ∀ e en, s.entries.cell e = some en → en.type = type → outstanding s e = 0 := by
    intro e en he htype
    exact (h.lifecycle.prefetching he (houtside e en he htype)).2.1
  constructor
  case trees =>
    intro u tree off e en hu hitem he htype
    obtain ⟨en', he', hroot', -⟩ := h.index.sound u tree off e hu hitem
    rw [he, Option.some.injEq] at he'
    rw [← he', houtside e en he htype] at hroot'
    cases hroot'
  case list =>
    intro e hmem en he htype
    have hcount := (h.lifecycle.prefetching he (houtside e en he htype)).2.2.1
    exact List.count_eq_zero.mp hcount hmem
  case outstanding => exact hzero
  case writes =>
    intro b bio hb htype
    have hpos : 0 < outstanding s bio.entry := by
      have hcount : 0 < s.writes.count fun b' => b'.entry == bio.entry :=
        Heap.count_pos hb (by simp)
      unfold outstanding
      omega
    obtain ⟨en, u, tree, p, c, hin, -⟩ := h.of_outstanding hpos
    have hslot := (h.bios.writes b bio en hb hin.cell).2
    have hen : en.type = type := by
      rw [← htype, ← hslot]
      rfl
    rw [hzero bio.entry en hin.cell hen] at hpos
    cases hpos

/-- An iteration leaves the tree to the call, or it is the last one. -/
theorem areaLooped_returns (h : Inv s) (harea : s.areas type = some t) :
    (areaLooped s type t).areas type = some t ∨
      ((areaLooped s type t).areas type = none ∧ (areaLooped s type t).trees t = none ∧
        AreaCleared type (areaLooped s type t)) := by
  have hinv := inv_areaLooped h harea
  have hroot : s.tswapTreeRoots type = none := by
    cases hr : s.tswapTreeRoots type with
    | none => rfl
    | some u =>
        have hnone := (h.index.roots type u hr).2.2
        rw [harea] at hnone
        cases hnone
  cases areaLooped_cases h harea with
  | inl hreleased =>
      right
      obtain ⟨map, heq⟩ := hreleased
      have hnone : (areaLooped s type t).areas type = none := by
        rw [heq]
        exact Function.update_self ..
      refine ⟨hnone, ?_, areaCleared hinv ?_ hnone⟩
      · rw [heq]
        exact Function.update_self ..
      · rw [heq]
        exact hroot
  | inr hdropped =>
      left
      obtain ⟨e, en, tree, p, c, hin, heq⟩ := hdropped
      rw [heq, (book_dropEntry (inv_touchType h type) hin).areas]
      exact harea

/-- Among the actions taken from `s` is the step with which the call on `t` returns; it
releases the tree and leaves nothing of the area behind. -/
def Returns (k : Kernel) (type : Nat) (t : TreeId) (s : St P) (as : List (Action P)) : Prop :=
  ∃ before after u u' evs, as = before ++ .invalidateAreaStep type :: after ∧
    (tswap P k).run s before = some (u, evs) ∧ u.areas type = some t ∧
    step k u (.invalidateAreaStep type) = some (u', []) ∧ u'.areas type = none ∧
    u'.trees t = none ∧ AreaCleared type u'

/-- A running call, through any steps of anyone: its tree is there until it returns. -/
theorem area_run {as : List (Action P)} {evs : List (Event P)} (h : Inv s)
    (harea : s.areas type = some t) (hrun : (tswap P k).run s as = some (s', evs)) :
    (s'.areas type = some t ∧ (s'.trees t).isSome) ∨ Returns k type t s as := by
  induction as generalizing s evs with
  | nil =>
      simp only [System.run, Option.some.injEq, Prod.mk.injEq] at hrun
      rw [← hrun.1]
      exact .inl ⟨harea, (h.index.areas type t harea).2⟩
  | cons a as ih =>
      obtain ⟨s₁, evs₁, evs₂, hs, hrest, -⟩ := System.run_cons hrun
      have hinv : Inv s₁ := inv_step k a h hs
      -- the call goes on in the rest of the run, or this was its last step
      have hgoes : s₁.areas type = some t →
          (s'.areas type = some t ∧ (s'.trees t).isSome) ∨ Returns k type t s (a :: as) := by
        intro hrunning
        cases ih hinv hrunning hrest with
        | inl hstill => exact .inl hstill
        | inr hreturns =>
            obtain ⟨before, after, u, u', evs', heq, hbefore, hreturned⟩ := hreturns
            refine .inr ⟨a :: before, after, u, u', evs₁ ++ evs', by rw [heq]; rfl, ?_, hreturned⟩
            unfold System.run
            simp only [hs, hbefore]
      cases areas_of_step h hs harea with
      | inl hrunning => exact hgoes hrunning
      | inr hself =>
          rw [hself] at hs
          obtain ⟨u, hu, hlooped⟩ := (step_invalidateAreaStep (k := k)).mp hs
          rw [harea, Option.some.injEq] at hu
          rw [← hu, Prod.mk.injEq] at hlooped
          cases areaLooped_returns h harea with
          | inl hrunning =>
              rw [hlooped.1] at hrunning
              exact hgoes hrunning
          | inr hreturned =>
              rw [hlooped.1] at hreturned
              right
              refine ⟨[], as, s, s₁, [], by rw [hself]; rfl, rfl, harea, ?_, hreturned⟩
              rw [hlooped.2]
              exact hs

/-- A call that has detached the tree of its type: whatever steps follow, the tree is
there until the call returns, and then nothing of the area is left in a tree, on the
list or under discharge. No step of the call changes an entry of another type. -/
theorem invalidateArea_complete {as : List (Action P)} {s₀ s₁ s₂ : St P}
    {evs₁ evs₂ : List (Event P)} (hs : (tswap P k).Reachable s₀)
    (hroot : s₀.tswapTreeRoots type = some t)
    (hdetach : step k s₀ (.invalidateArea type) = some (s₁, evs₁))
    (hrun : (tswap P k).run s₁ as = some (s₂, evs₂)) :
    ((s₂.areas type = some t ∧ (s₂.trees t).isSome) ∨ Returns k type t s₁ as) ∧
      OthersKept type s₀ s₁ ∧
      ∀ u u' evs, (tswap P k).Reachable u → step k u (.invalidateAreaStep type) = some (u', evs) →
        OthersKept type u u' := by
  have h := inv_of_reachable hs
  have hinv : Inv s₁ := inv_step k (.invalidateArea type) h hdetach
  obtain ⟨-, heq⟩ := step_invalidateArea.mp hdetach
  rw [Prod.mk.injEq] at heq
  have harea : s₁.areas type = some t := by
    rw [← heq.1]
    unfold invalidateAreaDetach
    have hroot' : (s₀.touchType type).tswapTreeRoots type = some t := hroot
    simp only [hroot']
    exact Function.update_self ..
  refine ⟨area_run hinv harea hrun, ?_, ?_⟩
  · rw [← heq.1]
    exact othersKept_invalidateAreaDetach type
  · intro u u' evs hu hstep
    obtain ⟨t', ht', heq'⟩ := step_invalidateAreaStep.mp hstep
    rw [Prod.mk.injEq] at heq'
    rw [← heq'.1]
    exact othersKept_areaLooped (inv_of_reachable hu) ht'

/-- The tree of the area of the sample page. -/
def sampleTree : TreeId := ⟨0, 0⟩

/-- The call meets a page under write-back, waits for its completion and returns. -/
def sampleAreaRun : List (Action Nat) :=
  [.invalidateAreaStep 0, .dischargeEnd 0 true 9, .invalidateAreaStep 0]

theorem invalidateArea_sample :
    ∃ s₁ s₂ evs₁ evs₂,
      step sampleKernel sampleInFlight (.invalidateArea 0) = some (s₁, evs₁) ∧
      (tswap Nat sampleKernel).run s₁ sampleAreaRun = some (s₂, evs₂) ∧
      s₂.areas 0 = none ∧ Returns sampleKernel 0 sampleTree s₁ sampleAreaRun := by
  have hdetach : step sampleKernel sampleInFlight (.invalidateArea 0) =
      some (invalidateAreaDetach (sampleInFlight.touchType 0) 0, [.invalidatedArea 0]) :=
    step_invalidateArea.mpr ⟨rfl, rfl⟩
  have hsome : ((tswap Nat sampleKernel).run
      (invalidateAreaDetach (sampleInFlight.touchType 0) 0) sampleAreaRun).isSome = true := by
    decide +kernel
  have hdone : ((tswap Nat sampleKernel).final
      (invalidateAreaDetach (sampleInFlight.touchType 0) 0) sampleAreaRun).areas 0 = none := by
    decide +kernel
  obtain ⟨⟨s₂, evs₂⟩, hrun⟩ := Option.isSome_iff_exists.mp hsome
  have hreturned : s₂.areas 0 = none := by
    unfold System.final at hdone
    rw [hrun] at hdone
    exact hdone
  have hroot : sampleInFlight.tswapTreeRoots 0 = some sampleTree := by decide +kernel
  have hcall := (invalidateArea_complete sampleInFlight_reachable hroot hdetach hrun).1
  refine ⟨_, s₂, _, evs₂, hdetach, hrun, hreturned, hcall.resolve_left ?_⟩
  intro hstill
  rw [hreturned] at hstill
  cases hstill.1

end Memtrade.Tswap
