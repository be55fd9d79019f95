import Memtrade.Tswap.Calls

/-!
# A load returns what was last stored

Over runs without prefetch requests. The invariant follows one slot from a
successful store to the next call on it: the data stays with tswap or on the
device, the kernel's map keeps other writers off the slot, and a load that has
missed finds the data on the device.
-/

namespace Memtrade.Tswap

variable {P : Type} {k : Kernel} {s : St P} {x : Slot} {p : P}

/-- The event is a frontswap operation that concerns the slot. -/
def Event.concerns (x : Slot) : Event P → Bool
  | .invalidatedArea type => type == x.type
  | ev => ev.returns x

/-- The most recent operation on the slot in a trace. -/
def lastOp (tr : List (Event P)) (x : Slot) : Option (Event P) :=
  (tr.filter (Event.concerns x)).getLast?

theorem lastOp_append_of_none {tr evs : List (Event P)}
    (hev : ∀ ev ∈ evs, ev.concerns x = false) : lastOp (tr ++ evs) x = lastOp tr x := by
  have : evs.filter (Event.concerns x) = [] := by
    rw [List.filter_eq_nil_iff]
    intro ev hmem
    rw [hev ev hmem]
    simp
  simp [lastOp, List.filter_append, this]

theorem lastOp_append_singleton {tr : List (Event P)} {ev : Event P}
    (hev : ev.concerns x = true) : lastOp (tr ++ [ev]) x = some ev := by
  simp [lastOp, List.filter_append, hev]

/-- Steps of runs without prefetch requests. -/
def noPrefetch (_ : St P) (a : Action P) : Prop := a.isPrefetch = false

/-- The kernel knows, or is about to note, that frontswap holds the slot. -/
def Kept (s : St P) (x : Slot) : Prop :=
  s.pending x = some (.returned true) ∨
    (s.frontswapMap x = true ∧ ∀ mark, s.pending x ≠ some (.returned mark))

structure Stored (s : St P) (x : Slot) (p : P) : Prop where
  current : Current s x p
  kept : Kept s x
  missed : s.pending x = some .loadMissed → Vacant s x

theorem stored_of_event {a : Action P} {r : St P × List (Event P)} (h : Inv s)
    (hs : step k s a = some r) (hev : r.2 = [.stored x p 0]) : Stored r.1 x p := by
  have hpending : r.1.pending x = some (.returned true) := by
    cases callStep_of_step h hs x with
    | same _ _ _ hno => simp [hev, Event.returns] at hno
    | missed _ hnil => simp [hnil] at hev
    | mapped _ hnil => simp [hnil] at hev
    | area hnil => simp [hnil] at hev
    | returned ev hev' _ _ hp =>
        obtain rfl : ev = .stored x p 0 := by simpa [hev] using hev'.symm
        simpa [Event.pendingAfter] using hp
  refine ⟨?_, .inl hpending, by simp [hpending]⟩
  cases slotStep_of_step h hs x with
  | frame _ hno => simp [hev, Event.Fills] at hno
  | filled page hev' hc =>
      obtain rfl : p = page := by simpa [hev] using hev'
      exact hc
  | cleared hcl =>
      obtain ⟨ev, hev', hclears⟩ := hcl
      obtain rfl : ev = .stored x p 0 := by simpa [hev] using hev'.symm
      simp [Event.Clears, eNOMEM] at hclears
  | area harea => simp [hev] at harea
  | writeBack _ hnil => simp [hnil] at hev
  | prefetched _ _ hev' => simp [hev] at hev'
  | kernelWrite _ _ hnil => simp [hnil] at hev

theorem stored_step {a : Action P} {r : St P × List (Event P)} (h : Inv s)
    (hst : Stored s x p) (ha : noPrefetch s a) (hs : step k s a = some r)
    (hev : ∀ ev ∈ r.2, ev.concerns x = false) : Stored r.1 x p := by
  have hcall := callStep_of_step h hs x
  have hreturns : ∀ ev ∈ r.2, ev.returns x = false := by
    intro ev hmem
    have := hev ev hmem
    cases ev <;> simp_all [Event.concerns, Event.returns]
  have hkept : Kept r.1 x := by
    cases hcall with
    | same hp hm => simpa only [Kept, hp, hm] using hst.kept
    | missed op _ _ hp hp' hop hm =>
        right
        have hmap := hst.kept.resolve_left (by simp [hp])
        refine ⟨hm.trans hmap.1, ?_⟩
        rintro mark hmark
        rw [hp', Option.some.injEq] at hmark
        rcases hop with ⟨rfl, -⟩ | ⟨page, rfl⟩ <;> cases hmark
    | returned ev hev' hret =>
        rw [hreturns ev (by simp [hev'])] at hret
        cases hret
    | mapped mark _ hp hp' hm =>
        right
        refine ⟨?_, by simp [hp']⟩
        rcases hst.kept with hk | hk
        · rw [hk] at hp
          simp only [Option.some.injEq, PendingOp.returned.injEq] at hp
          rw [hm, ← hp]
        · exact (hk.2 mark hp).elim
    | area _ harea => exact (harea hst.current.area).elim
  -- the slot stays vacant while a load that missed is in progress
  have hvacant : ∀ hv : Vacant s x → Vacant r.1 x,
      r.1.pending x = some .loadMissed → Vacant r.1 x := by
    intro hv hp'
    cases hcall with
    | same hp => exact hv (hst.missed (hp.symm.trans hp'))
    | missed op _ _ _ hop' hop =>
        obtain rfl := Option.some.inj (hop'.symm.trans hp')
        rcases hop with ⟨-, hl⟩ | ⟨page, hpage⟩
        · exact hv (h.vacant_of_lookup hst.current.area hl)
        · cases hpage
    | returned ev hev' hret =>
        rw [hreturns ev (by simp [hev'])] at hret
        cases hret
    | mapped _ _ _ hp => simp [hp] at hp'
    | area _ harea => exact (harea hst.current.area).elim
  cases slotStep_of_step h hs x with
  | frame hf => exact ⟨hf.current hst.current, hkept, hvacant hf.vacant⟩
  | filled page hev' => simp [hev', Event.concerns, Event.returns] at hev
  | cleared hcl =>
      obtain ⟨ev, hev', hclears⟩ := hcl
      have := hreturns ev (by simp [hev'])
      cases ev <;> simp_all [Event.Clears, Event.returns]
  | area harea =>
      rcases harea with harea | harea
      · exact (harea.1 hst.current.area).elim
      · simp [harea, Event.concerns] at hev
  | writeBack hocc hnil hkeep =>
      refine ⟨hkeep p hst.current, hkept, hvacant fun hv => (hocc hv).elim⟩
  | prefetched _ hpre =>
      rw [noPrefetch, hpre] at ha
      cases ha
  | kernelWrite page hw =>
      -- the kernel does not write a slot that frontswap holds
      subst hw
      obtain ⟨hp, hm, -⟩ := step_kernelWrite.mp hs
      rcases hst.kept with hk | hk
      · rw [hp] at hk
        cases hk
      · rw [hm] at hk
        cases hk.1

/-! ## Runs -/

theorem lastOp_step {a : Action P} {r : St P × List (Event P)} (hs : step k s a = some r)
    (x : Slot) (tr : List (Event P)) :
    ((∀ ev ∈ r.2, ev.concerns x = false) ∧ lastOp (tr ++ r.2) x = lastOp tr x) ∨
      ∃ ev, r.2 = [ev] ∧ lastOp (tr ++ r.2) x = some ev := by
  rcases events_of_step hs with hnil | ⟨ev, hev, -⟩
  · exact .inl ⟨by simp [hnil], by simp [hnil]⟩
  · cases hc : ev.concerns x with
    | true => exact .inr ⟨ev, hev, by rw [hev]; exact lastOp_append_singleton hc⟩
    | false =>
        have hno : ∀ ev ∈ r.2, ev.concerns x = false := by simp [hev, hc]
        exact .inl ⟨hno, lastOp_append_of_none hno⟩

theorem stored_of_exec {tr : List (Event P)} (hrun : (tswap P k).Exec noPrefetch s tr)
    (hlast : lastOp tr x = some (.stored x p 0)) : Stored s x p := by
  have hinv : Inv s ∧ ∀ x p, lastOp tr x = some (.stored x p 0) → Stored s x p := by
    refine hrun.invariant (I := fun s tr => Inv s ∧ ∀ x p, lastOp tr x = some (.stored x p 0) →
      Stored s x p) ?_ ?_
    · rintro s ⟨disk, jiffies, rfl⟩
      refine ⟨inv_tswapInit disk jiffies, ?_⟩
      intro x p hl
      cases hl
    · rintro s tr a s' evs ⟨h, hst⟩ hok hstep
      refine ⟨inv_step k (r := (s', evs)) a h hstep, ?_⟩
      intro x p hl
      rcases lastOp_step hstep x tr with ⟨hno, heq⟩ | ⟨ev, hev, heq⟩
      · exact stored_step h (hst x p (heq.symm.trans hl)) hok hstep hno
      · obtain rfl := Option.some.inj (heq.symm.trans hl)
        exact stored_of_event h hstep hev
  exact hinv.2 x p hlast

theorem Stored.load {a : Action P} {r : St P × List (Event P)} {q : Option P} (h : Inv s)
    (hst : Stored s x p) (hs : step k s a = some r) (hev : .loaded x q 0 ∈ r.2) : q = some p := by
  have hemits := emits_of_mem hs hev
  cases a <;> simp only [Action.Emits] at hemits
  case load y kmapOk =>
    subst hemits
    obtain ⟨-, rfl⟩ := step_load.mp hs
    have hr := inv_loadRecord (inv_touch h y)
    have hq : Quiet s (loadRecord (s.touch y)) := ⟨rfl, rfl, rfl, rfl, rfl⟩
    have hcur := (hq.slotFrame y).current hst.current
    obtain ⟨e, en, t, tree, pg, c, -, hin, hslot, hcases⟩ := loaded_of_stepLoad h hev
    have hcopy := hcur.copy_of_inTree hr hin hslot
    cases hcases with
    | inl hfail => simp [eNOMEM] at hfail
    | inr hdone =>
        rw [hdone.2.2]
        exact hcopy.contents
  case loadMissed y io =>
    subst hemits
    obtain ⟨hp, rfl⟩ := step_loadMissed.mp hs
    have hv := hst.missed hp
    have hdisk : s.disk y = p := by
      cases hst.current.holds with
      | inMemory _ _ hcopy => exact (hv _ _ hcopy.toOccupies).elim
      | onDisk _ hd => exact hd
    cases loaded_of_loadFromDevice hev with
    | inl hfail => simp [eINVAL] at hfail
    | inr hdone =>
        have hdisk' : (s.touch y).disk y = p := hdisk
        rw [hdone.2.2, hdisk']

/-- Data coherence: a load that returns 0 on a slot whose most recent frontswap
operation was a store that returned 0 delivers the contents of that store. -/
theorem load_returns_last_store {tr : List (Event P)} {a : Action P} {s' : St P}
    {evs : List (Event P)} {q : Option P} (hrun : (tswap P k).Exec noPrefetch s tr)
    (hlast : lastOp tr x = some (.stored x p 0)) (hstep : step k s a = some (s', evs))
    (hload : .loaded x q 0 ∈ evs) : q = some p :=
  (stored_of_exec hrun hlast).load (inv_of_reachable hrun.reachable) hstep hload

/-- Store, write back, and read again from the device. -/
def sampleRoundTrip : List (Action Nat) :=
  sampleStore ++ sampleDischarge ++ [.dischargeEnd 0 true 99, .load sampleSlot true]

def sampleRead : St Nat :=
  (tswap Nat sampleKernel).final sampleStart sampleRoundTrip

theorem sampleRead_exec : (tswap Nat sampleKernel).Exec noPrefetch sampleRead
    ((tswap Nat sampleKernel).trace sampleStart sampleRoundTrip) := by
  have hno : ∀ a ∈ sampleRoundTrip, a.isPrefetch = false := by decide
  exact System.exec_final sampleStart_init (System.meets_of_forall (fun a ha _ => hno a ha) _)

def sampleLoaded : St Nat × List (Event Nat) :=
  (step sampleKernel sampleRead (.loadMissed sampleSlot (.readOk 0))).getD (sampleRead, [])

def Event.page : Event P → Option P
  | .loaded _ page _ => page
  | _ => none

theorem load_returns_sample_store : sampleLoaded.2.head?.bind Event.page = some 5 := by
  have hstep : step sampleKernel sampleRead (.loadMissed sampleSlot (.readOk 0)) =
      some (sampleLoaded.1, sampleLoaded.2) := rfl
  have hload : .loaded sampleSlot (sampleLoaded.2.head?.bind Event.page) 0 ∈ sampleLoaded.2 :=
    List.mem_singleton.mpr rfl
  exact load_returns_last_store sampleRead_exec rfl hstep hload

end Memtrade.Tswap
