import Memtrade.Tswap.Calls
import Memtrade.Tswap.PrefetchStack

/-!
# The prefetch ring in the runs of the module

Stores push and prefetch requests pop; no other step touches the ring. So the ring of a
state is that of the pushes and pops of the run, and its contents are those of a bounded
stack under the same operations.
-/

namespace Memtrade.Tswap

variable {P : Type} {s s' : St P} {k : Kernel}

/-- What an action does to the ring. -/
def Action.stackOp : Action P → Option (StackOp Slot)
  | .store x _ _ _ => some (.push x)
  | .prefetchPop => some .pop
  | _ => none

theorem ring_stepStore (h : Inv s) (x : Slot) (page : P) (transHuge : Bool) (o : StoreOutcome) :
    (stepStore k s x page transHuge o).1.ring = s.ring.push k.prefetchBufferSize x := by
  have hr := inv_storeRecord (inv_touch h x) k x
  unfold stepStore
  cases transHuge with
  | true => rfl
  | false =>
      simp only [Bool.false_eq_true, if_false]
      cases hl : atomicEntryLookupLock (storeRecord k (s.touch x) x) x with
      | none => rfl
      | some e =>
          obtain ⟨en, t, tree, p, c, hin, -, -⟩ := hr.of_lookup hl
          exact (book_storeInto hr hin page o).ring

theorem ring_stepLoad (h : Inv s) (x : Slot) (kmapOk : Bool) :
    (stepLoad s x kmapOk).1.ring = s.ring := by
  have hr := inv_loadRecord (inv_touch h x)
  unfold stepLoad
  cases hl : atomicEntryLookupLock (loadRecord (s.touch x)) x with
  | none =>
      simp only [hl]
      rfl
  | some e =>
      obtain ⟨en, t, tree, p, c, hin, -, -⟩ := hr.of_lookup hl
      simp only [hl]
      exact (book_loadFromEntry hr hin kmapOk).ring

theorem ring_of_step {a : Action P} {r : St P × List (Event P)} (h : Inv s)
    (hs : step k s a = some r) :
    (a.stackOp = none ∧ r.1.ring = s.ring) ∨
      ∃ op outs, a.stackOp = some op ∧
        (PrefetchRing.system k.prefetchBufferSize).step s.ring op = some (r.1.ring, outs) := by
  cases a with
  | frontswapInit type kmallocOk =>
      obtain ⟨-, rfl⟩ := step_frontswapInit.mp hs
      cases kmallocOk with
      | false => exact .inl ⟨rfl, rfl⟩
      | true => exact .inl ⟨rfl, rfl⟩
  | store x page transHuge o =>
      obtain ⟨-, rfl⟩ := step_store.mp hs
      refine .inr ⟨.push x, [], rfl, ?_⟩
      rw [ring_stepStore h]
      rfl
  | storeMissed x entryOk o =>
      obtain ⟨page, -, rfl⟩ := step_storeMissed.mp hs
      exact .inl ⟨rfl, (book_storeFresh (inv_touch h x) x page entryOk o).ring⟩
  | load x kmapOk =>
      obtain ⟨-, rfl⟩ := step_load.mp hs
      exact .inl ⟨rfl, ring_stepLoad h x kmapOk⟩
  | loadMissed x io =>
      obtain ⟨-, rfl⟩ := step_loadMissed.mp hs
      exact .inl ⟨rfl, (book_loadFromDevice x io).ring⟩
  | invalidatePage x =>
      obtain ⟨-, rfl⟩ := step_invalidatePage.mp hs
      exact .inl ⟨rfl, (book_invalidatePage (inv_touch h x) x).ring⟩
  | frontswapMap x =>
      obtain ⟨mark, -, rfl⟩ := step_frontswapMap.mp hs
      exact .inl ⟨rfl, rfl⟩
  | invalidateArea type =>
      obtain ⟨-, rfl⟩ := step_invalidateArea.mp hs
      exact .inl ⟨rfl, (book_invalidateAreaDetach (s := s.touchType type) type).ring⟩
  | invalidateAreaStep type =>
      obtain ⟨t, harea, rfl⟩ := step_invalidateAreaStep.mp hs
      have hring := (book_invalidateAreaStep (inv_touchType h type) harea).1.ring
      refine .inl ⟨rfl, ?_⟩
      unfold areaLooped
      simp only
      split
      · exact hring
      · exact hring
  | dischargeOuter =>
      obtain ⟨-, rfl⟩ := step_dischargeOuter.mp hs
      exact .inl ⟨rfl, rfl⟩
  | dischargeScan =>
      obtain ⟨n, -, rfl⟩ := step_dischargeScan.mp hs
      exact .inl ⟨rfl, (book_dischargeScan h n).ring⟩
  | dischargeSubmit bioOk =>
      obtain ⟨n, e, hpc, rfl⟩ := step_dischargeSubmit.mp hs
      exact .inl ⟨rfl, (book_dischargeSubmit h hpc bioOk).ring⟩
  | dischargeEnd b ok junk =>
      obtain ⟨bio, hb, rfl⟩ := step_dischargeEnd.mp hs
      exact .inl ⟨rfl, (book_dischargeEnd h hb ok junk).ring⟩
  | prefetchPop =>
      obtain ⟨x, ring, hpop, hcase⟩ := step_prefetchPop.mp hs
      have hring : r.1.ring = ring := by
        cases hcase with
        | inl hmapped => rw [← hmapped.2]
        | inr hgone => rw [← hgone.2]
      refine .inr ⟨.pop, [some x], rfl, ?_⟩
      rw [hring]
      unfold PrefetchRing.system
      simp only [hpop]
  | prefetchLookup j =>
      obtain ⟨job, -, -, hcase⟩ := step_prefetchLookup.mp hs
      refine .inl ⟨rfl, ?_⟩
      cases hcase with
      | inl hfound => rw [← hfound.2]
      | inr hmissed => rw [← hmissed.2]
  | prefetchSubmit j o =>
      obtain ⟨job, -, -, rfl⟩ := step_prefetchSubmit.mp hs
      refine .inl ⟨rfl, ?_⟩
      cases prefetchSubmit_cases (inv_jobs h (s.jobs.free j) s.ring) job.slot job.seen o with
      | inl hu => exact hu.book.ring
      | inr heq => rw [heq]
  | prefetchRead b =>
      obtain ⟨bio, -, -, rfl⟩ := step_prefetchRead.mp hs
      exact .inl ⟨rfl, rfl⟩
  | prefetchEnd b ok lockFree nodeOk =>
      obtain ⟨bio, hb, -, rfl⟩ := step_prefetchEnd.mp hs
      exact .inl ⟨rfl, (prefetchEnded h k hb ok lockFree nodeOk).ring⟩
  | statStore input =>
      obtain rfl := Option.some.inj hs
      refine .inl ⟨rfl, ?_⟩
      unfold tswapStatStore
      split <;> rfl
  | quarantineTimeStore input =>
      obtain rfl := Option.some.inj hs
      refine .inl ⟨rfl, ?_⟩
      unfold tswapQuarantineTimeStore
      split <;> rfl
  | nrPromotedPageShow =>
      obtain rfl := Option.some.inj hs
      exact .inl ⟨rfl, rfl⟩
  | nrDiskPromotedPageShow =>
      obtain rfl := Option.some.inj hs
      exact .inl ⟨rfl, rfl⟩
  | tick jiffies =>
      obtain rfl := Option.some.inj hs
      exact .inl ⟨rfl, rfl⟩
  | kernelWrite x page =>
      obtain ⟨-, -, rfl⟩ := step_kernelWrite.mp hs
      exact .inl ⟨rfl, rfl⟩

theorem ring_of_run {as : List (Action P)} {evs : List (Event P)} (h : Inv s)
    (hrun : (tswap P k).run s as = some (s', evs)) :
    ∃ outs, (PrefetchRing.system k.prefetchBufferSize).run s.ring
      (as.filterMap Action.stackOp) = some (s'.ring, outs) := by
  induction as generalizing s evs with
  | nil =>
      cases hrun
      exact ⟨[], rfl⟩
  | cons a as ih =>
      obtain ⟨s₁, evs₁, evs₂, hs, hrest, -⟩ := System.run_cons hrun
      obtain ⟨outs, houts⟩ := ih (inv_step k a h hs) hrest
      cases ring_of_step h hs with
      | inl hsame =>
          refine ⟨outs, ?_⟩
          rw [List.filterMap_cons_none hsame.1, ← hsame.2]
          exact houts
      | inr hmoved =>
          obtain ⟨op, outs₁, hop, hstep⟩ := hmoved
          refine ⟨outs₁ ++ outs, ?_⟩
          rw [List.filterMap_cons_some hop]
          simp only [System.run, hstep, houts]

/-- After any run of the module, the slots that wait for a prefetch request are those of a
bounded stack under the stores and pops of the run, and both indices are in the array. -/
theorem contents_of_run (hsize : 2 ≤ k.prefetchBufferSize) {as : List (Action P)}
    {evs : List (Event P)} (hinit : (tswap P k).init s)
    (hrun : (tswap P k).run s as = some (s', evs)) :
    ∃ outs, (BoundedStack.system Slot (k.prefetchBufferSize - 1)).run []
        (as.filterMap Action.stackOp) = some (s'.ring.contents k.prefetchBufferSize, outs) ∧
      s'.ring.head < k.prefetchBufferSize ∧ s'.ring.tail < k.prefetchBufferSize := by
  have hinv : Inv s := inv_of_reachable ⟨[], .init hinit⟩
  have hempty : (PrefetchRing.system k.prefetchBufferSize).init s.ring := by
    obtain ⟨disk, jiffies, heq⟩ := hinit
    rw [heq]
    exact ⟨rfl, rfl⟩
  obtain ⟨outs, hring⟩ := ring_of_run hinv hrun
  obtain ⟨ring, st, outs', hring', hstack, hholds⟩ :=
    PrefetchRing.holds_run hsize hempty (as.filterMap Action.stackOp)
  rw [hring, Option.some.injEq, Prod.mk.injEq] at hring'
  rw [← hring'.1] at hholds
  rw [hholds.contents_eq]
  exact ⟨outs', hstack, hholds.head_lt, hholds.tail_lt⟩

end Memtrade.Tswap
