import Memtrade.Tswap.Requests

/-!
# What a completed prefetch inserts

`tswap_prefetch_store` tests the slot's bit in the `frontswap_map`, looks for an
entry and reads the slot from the device; the completion inserts what was read
without looking at the bit again. Over runs in which nothing happens to a slot
between the test and the insertion, the inserted data is the slot's data. The
run at the end of the module shows what happens otherwise.
-/

namespace Memtrade.Tswap

variable {P : Type} {k : Kernel} {s s' : St P} {x : Slot} {tr : List (Event P)}

def Event.storedPage (x : Slot) : Event P → Option P
  | .stored y page ret => if y = x ∧ ret = 0 then some page else none
  | _ => none

/-- The data of the last successful store on the slot. -/
def lastStored (tr : List (Event P)) (x : Slot) : Option P :=
  (tr.filterMap (Event.storedPage x)).getLast?

theorem lastStored_append_of_none {evs : List (Event P)}
    (hev : ∀ ev ∈ evs, ev.storedPage x = none) : lastStored (tr ++ evs) x = lastStored tr x := by
  have : evs.filterMap (Event.storedPage x) = [] := List.filterMap_eq_nil_iff.mpr hev
  simp [lastStored, List.filterMap_append, this]

theorem lastStored_append_store {p : P} : lastStored (tr ++ [Event.stored x p 0]) x = some p := by
  simp [lastStored, List.filterMap_append, Event.storedPage]

/-- Steps of runs in which no prefetch is overtaken: a completion that inserts
finds that no call has touched the slot since its map bit was tested, and that
none is in progress. No load loses its page in `kmap_atomic`, and the kernel
invalidates an area while no call runs on its slots. -/
def undisturbed (s : St P) : Action P → Prop
  | .prefetchEnd b ok lockFree nodeOk =>
      ∀ bio, s.reads.cell b = some bio → Inserts s bio ok lockFree nodeOk →
        bio.seen = s.opCount bio.slot ∧ s.pending bio.slot = none
  | .load x kmapOk =>
      s.areas x.type = none ∧ (atomicEntryLookupLock s x ≠ none → kmapOk = true)
  | .store x _ _ _ | .invalidatePage x => s.areas x.type = none
  | .invalidateArea type =>
      (s.tswapTreeRoots type).isSome ∧ ∀ x, x.type = type → s.pending x = none
  | _ => True

/-- Nothing has happened to the slot since its operation count was `seen`. -/
structure Calm (s : St P) (x : Slot) (seen : Nat) : Prop where
  count : seen = s.opCount x
  idle : s.pending x = none
  area : s.areas x.type = none

structure Fresh (s : St P) (tr : List (Event P)) : Prop where
  inv : Inv s
  marked : ∀ x, s.areas x.type = none → Kept s x →
    ∃ d, lastStored tr x = some d ∧ Current s x d
  idle : ∀ x, s.areas x.type ≠ none → s.pending x = none
  jobs : ∀ j job, s.jobs.cell j = some job → job.seen ≤ s.opCount job.slot ∧
    (Calm s job.slot job.seen → s.frontswapMap job.slot = true ∧
      (job.missed = true → Vacant s job.slot))
  reads : ∀ b bio, s.reads.cell b = some bio → bio.seen ≤ s.opCount bio.slot ∧
    (Calm s bio.slot bio.seen → s.frontswapMap bio.slot = true ∧ Vacant s bio.slot ∧
      (bio.done = true → s.dataContents (some bio.page) = some (s.disk bio.slot)))

/-! ## The insertion -/

theorem Fresh.prefetched {a : Action P} {r : St P × List (Event P)} {data : Option P}
    (hf : Fresh s tr) (hok : undisturbed s a) (hs : step k s a = some r)
    (hev : .prefetched x data ∈ r.2) :
    s.frontswapMap x = true ∧ ∃ d, data = some d ∧ lastStored tr x = some d := by
  obtain ⟨b, bio, ok, lockFree, nodeOk, rfl, hb, rfl, hdone, hins, rfl, -⟩ :=
    inserts_of_prefetched hf.inv hs hev
  obtain ⟨hseen, hidle⟩ := hok bio hb hins
  obtain ⟨t, ht⟩ := Option.isSome_iff_exists.mp hins.2.1
  have harea := (hf.inv.index.roots _ t ht).2.2
  obtain ⟨hmap, hv, hcontents⟩ := (hf.reads b bio hb).2 ⟨hseen, hidle, harea⟩
  refine ⟨hmap, s.disk bio.slot, hcontents hdone, ?_⟩
  obtain ⟨d, hlast, hcur⟩ := hf.marked bio.slot harea (.inr ⟨hmap, by simp [hidle]⟩)
  cases hcur.holds with
  | inMemory _ _ hcopy => exact (hv _ _ hcopy.toOccupies).elim
  | onDisk _ hd => rw [hd, hlast]

/-! ## The invariant survives -/

theorem opCount_lt_of_invalidatedArea {a : Action P} {r : St P × List (Event P)}
    (hs : step k s a = some r) (hev : r.2 = [.invalidatedArea x.type]) :
    s.opCount x < r.1.opCount x := by
  have hmem : .invalidatedArea x.type ∈ r.2 := by simp [hev]
  have hemits := emits_of_mem hs hmem
  cases a <;> simp only [Action.Emits] at hemits
  case invalidateArea type =>
    obtain ⟨-, rfl⟩ := step_invalidateArea.mp hs
    have hcount := (book_invalidateAreaDetach (s := s.touchType type) type).count
    change _ < (invalidateAreaDetach (s.touchType type) type).opCount x
    simp only at hcount
    rw [hcount]
    simp [St.touchType, hemits]

theorem calm_step {a : Action P} {r : St P × List (Event P)} {seen : Nat} (h : Inv s)
    (hs : step k s a = some r) (hle : seen ≤ s.opCount x) (hc : Calm r.1 x seen) :
    Calm s x seen ∧ r.1.frontswapMap x = s.frontswapMap x ∧
      (s.frontswapMap x = true → Vacant s x → Vacant r.1 x ∧ r.1.disk x = s.disk x) := by
  have hcount := hc.count
  cases callStep_of_step h hs x with
  | missed _ _ _ _ _ _ _ hlt => omega
  | returned _ _ _ _ _ _ hlt => omega
  | mapped _ _ _ _ _ hlt => omega
  | area _ _ _ _ hlt => omega
  | same hp hm hge hno harea =>
      have harea' : r.1.areas x.type = s.areas x.type := by
        rcases harea with harea | ⟨-, hlt⟩
        · exact harea
        · omega
      refine ⟨⟨by omega, hp ▸ hc.idle, harea' ▸ hc.area⟩, hm, ?_⟩
      intro hmap hv
      cases slotStep_of_step h hs x with
      | frame hf => exact ⟨hf.vacant hv, hf.disk⟩
      | filled page hev => simp [hev, Event.returns] at hno
      | cleared hcl =>
          obtain ⟨ev, hev, hclears⟩ := hcl
          have := hno ev (by simp [hev])
          cases ev <;> simp_all [Event.Clears, Event.returns]
      | area ha =>
          rcases ha with ⟨ha, -⟩ | ha
          · rw [← harea', hc.area] at ha
            cases ha rfl
          · have := opCount_lt_of_invalidatedArea hs ha
            omega
      | writeBack hocc => exact (hocc hv).elim
      | prefetched data _ hev =>
          have hmem : .prefetched x data ∈ r.2 := by simp [hev]
          obtain ⟨_, _, _, _, _, -, -, -, -, -, -, hlt⟩ := inserts_of_prefetched h hs hmem
          omega
      | kernelWrite page hw =>
          subst hw
          obtain ⟨-, hmap', -⟩ := step_kernelWrite.mp hs
          rw [hmap] at hmap'
          cases hmap'

theorem opCount_mono {a : Action P} {r : St P × List (Event P)} (h : Inv s)
    (hs : step k s a = some r) (x : Slot) : s.opCount x ≤ r.1.opCount x := by
  cases callStep_of_step h hs x with
  | same _ _ hle => exact hle
  | missed _ _ _ _ _ _ _ hlt => exact Nat.le_of_lt hlt
  | returned _ _ _ _ _ _ hlt => exact Nat.le_of_lt hlt
  | mapped _ _ _ _ _ hlt => exact Nat.le_of_lt hlt
  | area _ _ _ _ hlt => exact Nat.le_of_lt hlt

theorem Fresh.jobs_step {a : Action P} {r : St P × List (Event P)} (hf : Fresh s tr)
    (hs : step k s a = some r) {j : Nat} {job : PrefetchJob} (hj : r.1.jobs.cell j = some job) :
    job.seen ≤ r.1.opCount job.slot ∧
      (Calm r.1 job.slot job.seen → r.1.frontswapMap job.slot = true ∧
        (job.missed = true → Vacant r.1 job.slot)) := by
  have hmono := opCount_mono hf.inv hs job.slot
  rcases Tswap.jobs_step hf.inv hs hj with hold | ⟨hmap, hseen, hmiss⟩ |
    ⟨job', hold, hslot, hseen, hl⟩
  · obtain ⟨hle, hcalm⟩ := hf.jobs j job hold
    refine ⟨hle.trans hmono, fun hc => ?_⟩
    obtain ⟨hc', hm, hv⟩ := calm_step hf.inv hs hle hc
    obtain ⟨hmap, hmissed⟩ := hcalm hc'
    exact ⟨hm.trans hmap, fun hmi => (hv hmap (hmissed hmi)).1⟩
  · refine ⟨hseen ▸ hmono, fun hc => ?_⟩
    obtain ⟨-, hm, -⟩ := calm_step hf.inv hs (Nat.le_of_eq hseen) hc
    exact ⟨hm.trans hmap, by simp [hmiss]⟩
  · obtain ⟨hle, hcalm⟩ := hf.jobs j job' hold
    rw [hslot, hseen] at hle hcalm
    refine ⟨hle.trans hmono, fun hc => ?_⟩
    obtain ⟨hc', hm, hv⟩ := calm_step hf.inv hs hle hc
    have hmap := (hcalm hc').1
    exact ⟨hm.trans hmap, fun _ => (hv hmap (hf.inv.vacant_of_lookup hc'.area hl)).1⟩

theorem Fresh.reads_step {a : Action P} {r : St P × List (Event P)} (hf : Fresh s tr)
    (hs : step k s a = some r) {b : BioId} {bio : ReadBio} (hb : r.1.reads.cell b = some bio) :
    bio.seen ≤ r.1.opCount bio.slot ∧
      (Calm r.1 bio.slot bio.seen → r.1.frontswapMap bio.slot = true ∧ Vacant r.1 bio.slot ∧
        (bio.done = true → r.1.dataContents (some bio.page) = some (r.1.disk bio.slot))) := by
  have hmono := opCount_mono hf.inv hs bio.slot
  rcases Tswap.reads_step hf.inv hs hb with ⟨hold, hsame⟩ |
    ⟨hdone, j, job, hj, hslot, hseen, hmiss⟩ | ⟨bio', hold, hslot, hseen, -, hcontents⟩
  · obtain ⟨hle, hcalm⟩ := hf.reads b bio hold
    refine ⟨hle.trans hmono, fun hc => ?_⟩
    obtain ⟨hc', hm, hv⟩ := calm_step hf.inv hs hle hc
    obtain ⟨hmap, hvac, hdata⟩ := hcalm hc'
    obtain ⟨hvac', hdisk⟩ := hv hmap hvac
    exact ⟨hm.trans hmap, hvac', fun hd => by rw [hsame, hdisk]; exact hdata hd⟩
  · obtain ⟨hle, hcalm⟩ := hf.jobs j job hj
    rw [hslot, hseen] at hle hcalm
    refine ⟨hle.trans hmono, fun hc => ?_⟩
    obtain ⟨hc', hm, hv⟩ := calm_step hf.inv hs hle hc
    obtain ⟨hmap, hvac⟩ := hcalm hc'
    exact ⟨hm.trans hmap, (hv hmap (hvac hmiss)).1, by simp [hdone]⟩
  · obtain ⟨hle, hcalm⟩ := hf.reads b bio' hold
    rw [hslot, hseen] at hle hcalm
    refine ⟨hle.trans hmono, fun hc => ?_⟩
    obtain ⟨hc', hm, hv⟩ := calm_step hf.inv hs hle hc
    obtain ⟨hmap, hvac, -⟩ := hcalm hc'
    obtain ⟨hvac', hdisk⟩ := hv hmap hvac
    exact ⟨hm.trans hmap, hvac', fun _ => by rw [hcontents, hdisk]⟩

/-! ### Calls and areas -/

theorem area_of_starts {a : Action P} (hok : undisturbed s a) (hstart : a.starts x = true) :
    s.areas x.type = none := by
  cases a <;> simp only [Action.starts, beq_iff_eq, Bool.false_eq_true] at hstart
  case store => exact hstart ▸ hok
  case load => exact hstart ▸ hok.1
  case invalidatePage => exact hstart ▸ hok

/-- An area that is being invalidated is out of service, and no call runs on it. -/
theorem area_of_invalidated {a : Action P} {r : St P × List (Event P)} (hok : undisturbed s a)
    (hs : step k s a = some r) (hev : r.2 = [.invalidatedArea x.type]) :
    r.1.areas x.type ≠ none ∧ s.pending x = none := by
  have hmem : .invalidatedArea x.type ∈ r.2 := by simp [hev]
  have hemits := emits_of_mem hs hmem
  cases a <;> simp only [Action.Emits] at hemits
  case invalidateArea type =>
    subst hemits
    obtain ⟨-, rfl⟩ := step_invalidateArea.mp hs
    obtain ⟨t, ht⟩ := Option.isSome_iff_exists.mp hok.1
    refine ⟨?_, hok.2 x rfl⟩
    have ht' : (s.touchType x.type).tswapTreeRoots x.type = some t := ht
    simp [invalidateAreaDetach, ht']

theorem eINVAL_of_loaded {a : Action P} {r : St P × List (Event P)} {c : Option P} {ret : Int}
    (h : Inv s) (hok : undisturbed s a) (hs : step k s a = some r)
    (hev : .loaded x c ret ∈ r.2) (hret : ret ≠ 0) : ret = eINVAL := by
  have hemits := emits_of_mem hs hev
  cases a <;> simp only [Action.Emits] at hemits
  case load y kmapOk =>
    subst hemits
    obtain ⟨-, rfl⟩ := step_load.mp hs
    obtain ⟨e, en, t, tree, pg, c', hl, -, -, hcases⟩ := loaded_of_stepLoad h hev
    have hk := hok.2 (by simp [hl])
    cases hcases with
    | inl hfail => simp [hk] at hfail
    | inr hdone => exact (hret hdone.2.1).elim
  case loadMissed y io =>
    subst hemits
    obtain ⟨-, rfl⟩ := step_loadMissed.mp hs
    cases loaded_of_loadFromDevice hev with
    | inl hfail => exact hfail.2
    | inr hdone => exact (hret hdone.2.1).elim

theorem Fresh.idle_step {a : Action P} {r : St P × List (Event P)} (hf : Fresh s tr)
    (hok : undisturbed s a) (hs : step k s a = some r) (harea : r.1.areas x.type ≠ none) :
    r.1.pending x = none := by
  cases callStep_of_step hf.inv hs x with
  | same hp _ _ _ ha =>
      rcases ha with ha | ⟨hev, -⟩
      · exact hp.trans (hf.idle x (ha ▸ harea))
      · exact hp.trans (area_of_invalidated hok hs hev).2
  | missed _ _ hstart _ _ _ _ _ ha => exact (harea (ha.trans (area_of_starts hok hstart))).elim
  | returned _ _ _ hret _ _ _ ha =>
      have hidle := hf.idle x (ha ▸ harea)
      rcases hret with ⟨hstart, -⟩ | hp | ⟨page, hp⟩
      · exact (harea (ha.trans (area_of_starts hok hstart))).elim
      · simp [hidle] at hp
      · simp [hidle] at hp
  | mapped _ _ hp _ _ _ ha => simp [hf.idle x (ha ▸ harea)] at hp
  | area _ ha hp => exact hp.trans (hf.idle x ha)

/-- A step that is no return of a call on the slot carries its data along. -/
theorem Fresh.carry {a : Action P} {r : St P × List (Event P)} (hf : Fresh s tr)
    (hok : undisturbed s a) (hs : step k s a = some r) (harea : s.areas x.type = none)
    (hkept : Kept s x) (hclear : ∀ ev ∈ r.2, ¬ ev.Clears x)
    (hstore : ∀ ev ∈ r.2, ev.storedPage x = none) (hinv : r.2 ≠ [.invalidatedArea x.type]) :
    ∃ d, lastStored (tr ++ r.2) x = some d ∧ Current r.1 x d := by
  obtain ⟨d, hlast, hcur⟩ := hf.marked x harea hkept
  refine ⟨d, (lastStored_append_of_none hstore).trans hlast, ?_⟩
  cases slotStep_of_step hf.inv hs x with
  | frame hsf => exact hsf.current hcur
  | filled page hev => simp [hev, Event.storedPage] at hstore
  | cleared hcl =>
      obtain ⟨ev, hev, hclears⟩ := hcl
      exact (hclear ev (by simp [hev]) hclears).elim
  | area ha =>
      rcases ha with ⟨ha, -⟩ | ha
      · exact (ha harea).elim
      · exact (hinv ha).elim
  | writeBack _ _ hkeep => exact hkeep d hcur
  | prefetched data _ hev _ hc =>
      have hmem : .prefetched x data ∈ r.2 := by simp [hev]
      obtain ⟨-, d', hdata, hlast'⟩ := hf.prefetched hok hs hmem
      obtain rfl := Option.some.inj (hlast.symm.trans hlast')
      exact hc d hdata
  | kernelWrite page hw =>
      subst hw
      obtain ⟨hp, hm, -⟩ := step_kernelWrite.mp hs
      rcases hkept with hk | hk
      · simp [hp] at hk
      · simp [hm] at hk

theorem Fresh.marked_step {a : Action P} {r : St P × List (Event P)} (hf : Fresh s tr)
    (hok : undisturbed s a) (hs : step k s a = some r) (harea : r.1.areas x.type = none)
    (hkept : Kept r.1 x) : ∃ d, lastStored (tr ++ r.2) x = some d ∧ Current r.1 x d := by
  have hinv : r.2 ≠ [.invalidatedArea x.type] := fun hev =>
    (area_of_invalidated hok hs hev).1 harea
  cases callStep_of_step hf.inv hs x with
  | same hp hm _ hno ha =>
      have ha' := ha.resolve_right fun hev => hinv hev.1
      refine hf.carry hok hs (ha' ▸ harea) (by simpa only [Kept, hp, hm] using hkept) ?_ ?_ hinv
      · intro ev hev hclears
        have := hno ev hev
        cases ev <;> simp_all [Event.Clears, Event.returns]
      · intro ev hev
        have := hno ev hev
        cases ev <;> simp_all [Event.storedPage, Event.returns]
  | missed op hev _ hp hp' hop hm _ ha =>
      have hmap : r.1.frontswapMap x = true := by
        rcases hkept with hk | hk
        · rw [hp', Option.some.injEq] at hk
          rcases hop with ⟨rfl, -⟩ | ⟨page, rfl⟩ <;> cases hk
        · exact hk.1
      exact hf.carry hok hs (ha ▸ harea) (.inr ⟨hm ▸ hmap, by simp [hp]⟩) (by simp [hev])
        (by simp [hev]) hinv
  | mapped mark hev hp hp' hm _ ha =>
      have hmark : mark = true := by
        rcases hkept with hk | hk
        · simp [hp'] at hk
        · exact hm.symm.trans hk.1
      exact hf.carry hok hs (ha ▸ harea) (.inl (hmark ▸ hp)) (by simp [hev]) (by simp [hev]) hinv
  | area _ ha hp hm =>
      have hidle := hf.idle x ha
      rcases hkept with hk | hk
      · simp [hp, hidle] at hk
      · rcases hm with ⟨-, hsame⟩ | hm
        · exact (ha (hsame ▸ harea)).elim
        · simp [hm] at hk
  | returned ev hev hret hreturning hp hm _ ha =>
      have hnot : ∀ mark, s.pending x ≠ some (.returned mark) := by
        intro mark hmark
        rcases hreturning with ⟨-, hpend⟩ | hpend | ⟨page, hpend⟩ <;> simp [hmark] at hpend
      cases ev with
      | stored y page ret =>
          obtain rfl : y = x := by simpa [Event.returns] using hret
          by_cases hzero : ret = 0
          · subst hzero
            exact ⟨page, by rw [hev]; exact lastStored_append_store,
              (stored_of_event hf.inv hs hev).current⟩
          · simp [Kept, hp, Event.pendingAfter, hzero] at hkept
      | loaded y c ret =>
          obtain rfl : y = x := by simpa [Event.returns] using hret
          by_cases hzero : ret = 0
          · simp [Kept, hp, Event.pendingAfter, hzero] at hkept
          · have hmap : s.frontswapMap y = true := by
              rw [← hm]
              exact (hkept.resolve_left (by simp [hp, Event.pendingAfter, hzero])).1
            have hmem : .loaded y c ret ∈ r.2 := by simp [hev]
            have herr := eINVAL_of_loaded hf.inv hok hs hmem hzero
            exact hf.carry hok hs (ha ▸ harea) (.inr ⟨hmap, hnot⟩)
              (by simp [hev, Event.Clears, herr]) (by simp [hev, Event.storedPage]) hinv
      | invalidatedPage y => simp [Kept, hp, Event.pendingAfter] at hkept
      | invalidatedArea type => simp [Event.returns] at hret
      | prefetched y data => simp [Event.returns] at hret

theorem fresh_of_exec (hrun : (tswap P k).Exec undisturbed s tr) : Fresh s tr := by
  refine hrun.invariant ?_ ?_
  · rintro s ⟨disk, jiffies, rfl⟩
    refine ⟨inv_tswapInit disk jiffies, ?_, ?_, ?_, ?_⟩
    · intro x _ hk
      simp [Kept, tswapInit] at hk
    · intro x _
      rfl
    · intro j job hj
      simp [tswapInit] at hj
    · intro b bio hb
      simp [tswapInit] at hb
  · intro s tr a s' evs hf hok hstep
    exact ⟨inv_step k (r := (s', evs)) a hf.inv hstep,
      fun x harea hk => hf.marked_step hok hstep harea hk,
      fun x harea => hf.idle_step hok hstep harea,
      fun j job hj => hf.jobs_step hstep hj, fun b bio hb => hf.reads_step hstep hb⟩

/-- In every run in which no prefetch is overtaken, what a completed prefetch
inserts is the slot's data and the slot is still marked. -/
theorem prefetch_fresh_of_undisturbed {a : Action P} {evs : List (Event P)} {data : Option P}
    (hrun : (tswap P k).Exec undisturbed s tr) (hok : undisturbed s a)
    (hstep : step k s a = some (s', evs)) (hev : .prefetched x data ∈ evs) :
    s.frontswapMap x = true ∧ ∃ d, data = some d ∧ lastStored tr x = some d :=
  (fresh_of_exec hrun).prefetched hok hstep hev

/-! ## Two runs -/

/-- Enough for `undisturbed`, and executable. -/
def undisturbedCheck (s : St P) : Action P → Bool
  | .prefetchEnd b _ _ _ =>
      (s.reads.cell b).all fun bio =>
        bio.seen == s.opCount bio.slot && (s.pending bio.slot).isNone
  | .load x kmapOk => (s.areas x.type).isNone && kmapOk
  | .store x _ _ _ | .invalidatePage x => (s.areas x.type).isNone
  | .invalidateArea _ => false
  | _ => true

theorem undisturbed_of_check (s : St P) (a : Action P) (hc : undisturbedCheck s a = true) :
    undisturbed s a := by
  cases a with
  | prefetchEnd b ok lockFree nodeOk =>
      intro bio hb _
      simpa [undisturbedCheck, hb] using hc
  | load x kmapOk =>
      simp only [undisturbedCheck, Bool.and_eq_true, Option.isNone_iff_eq_none] at hc
      exact ⟨hc.1, fun _ => hc.2⟩
  | store x page transHuge o => exact Option.isNone_iff_eq_none.mp hc
  | invalidatePage x => exact Option.isNone_iff_eq_none.mp hc
  | invalidateArea type => cases hc
  | _ => trivial

/-- The sample page is written back and a prefetch reads it from the device. -/
def samplePrefetch : List (Action Nat) :=
  sampleStore ++ sampleDischarge ++ [.dischargeEnd 0 true 99, .prefetchPop, .prefetchLookup 0,
    .prefetchSubmit 0 ⟨true, true, true⟩, .prefetchRead 0]

def samplePrefetched : St Nat :=
  (tswap Nat sampleKernel).final sampleStart samplePrefetch

theorem samplePrefetched_exec : (tswap Nat sampleKernel).Exec undisturbed samplePrefetched
    ((tswap Nat sampleKernel).trace sampleStart samplePrefetch) :=
  System.exec_final sampleStart_init (System.meets_of_check undisturbed_of_check (by decide))

/-- The prefetch completes undisturbed. -/
theorem prefetch_fresh_sample :
    samplePrefetched.frontswapMap sampleSlot = true ∧
      ∃ d, samplePrefetched.dataContents (some 1) = some d ∧
        lastStored ((tswap Nat sampleKernel).trace sampleStart samplePrefetch) sampleSlot =
          some d := by
  have hok : undisturbed samplePrefetched (.prefetchEnd 0 true true true) :=
    undisturbed_of_check _ _ (by decide)
  have hdata : samplePrefetched.dataContents (some 1) = some 5 := by decide
  obtain ⟨r, hr⟩ : ∃ r, step sampleKernel samplePrefetched (.prefetchEnd 0 true true true) =
      some (r, [.prefetched sampleSlot (some 5)]) := ⟨_, rfl⟩
  rw [hdata]
  exact prefetch_fresh_of_undisturbed samplePrefetched_exec hok hr (List.mem_singleton.mpr rfl)

/-- While the read is in flight the page is loaded from the device, the slot is
stored to again, and the new page is written back. -/
def sampleOvertake : List (Action Nat) :=
  [.load sampleSlot true, .loadMissed sampleSlot (.readOk 0), .frontswapMap sampleSlot,
    .store sampleSlot 6 false allOk, .storeMissed sampleSlot true allOk, .frontswapMap sampleSlot,
    .tick 2000000, .dischargeScan, .dischargeOuter, .dischargeScan, .dischargeSubmit true,
    .dischargeEnd 1 true 99]

def sampleOvertaken : St Nat :=
  (tswap Nat sampleKernel).final sampleStart (samplePrefetch ++ sampleOvertake)

/-- The completion inserts the old page 5 although the last store was of page 6. -/
theorem prefetch_inserts_overtaken_page :
    ¬ ∀ (s s' : St Nat) (tr evs : List (Event Nat)) (a : Action Nat) (x : Slot)
      (data : Option Nat), (tswap Nat sampleKernel).Exec (fun _ _ => True) s tr →
      step sampleKernel s a = some (s', evs) → .prefetched x data ∈ evs →
      s.frontswapMap x = true ∧ ∃ d, data = some d ∧ lastStored tr x = some d := by
  intro hfresh
  obtain ⟨r, hr⟩ : ∃ r, step sampleKernel sampleOvertaken (.prefetchEnd 0 true true true) =
      some (r, [.prefetched sampleSlot (some 5)]) := ⟨_, rfl⟩
  obtain ⟨-, d, hd, hlast⟩ := hfresh sampleOvertaken r
    ((tswap Nat sampleKernel).trace sampleStart (samplePrefetch ++ sampleOvertake)) _ _ _ _
    (System.exec_final sampleStart_init (System.meets_of_forall (fun _ _ _ => trivial) _)) hr
    (List.mem_singleton.mpr rfl)
  have hsix : lastStored ((tswap Nat sampleKernel).trace sampleStart
      (samplePrefetch ++ sampleOvertake)) sampleSlot = some 6 := by decide
  rw [hsix, ← hd] at hlast
  exact absurd hlast (by decide)

end Memtrade.Tswap
