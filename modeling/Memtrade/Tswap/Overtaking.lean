import Memtrade.Tswap.Background
import Memtrade.Tswap.DischargePass

/-!
# Prefetches that bring other data

A page in memory can be written back at any time, and the write may fail before it
succeeds. So a prefetch that is ahead of an entry can read what a failed write left
on the device and insert it once the page is gone. Every prefetch of a slot that is
not harmless can be made to do so.
-/

namespace Memtrade.Tswap

variable {P : Type} {k : Kernel} {s s' : St P} {e : EntryId} {en : Entry} {t : TreeId}
  {tree : RadixTree} {p : PageId} {c : Option P} {x : Slot} {d : P}

/-! ## Runs of the discharge thread -/

/-- The states that the discharge thread, its writes and the clock lead to. -/
inductive Discharging (k : Kernel) (s : St P) : St P → Prop where
  | refl : Discharging k s s
  | step {s₁ : St P} {a : Action P} {r : St P × List (Event P)} : Discharging k s s₁ →
      a.isBackground = true → a.isPrefetch = false → Tswap.step k s₁ a = some r →
      Discharging k s r.1

theorem Later.trans {s₁ s₂ : St P} (h : Later k s s₁) (h' : Later k s₁ s₂) : Later k s s₂ := by
  induction h' with
  | refl => exact h
  | step _ ha hs ih => exact .step ih ha hs

namespace Discharging

variable {s₁ s₂ : St P}

theorem later (h : Discharging k s s₁) : Later k s s₁ := by
  induction h with
  | refl => exact .refl
  | step _ ha _ hs ih => exact .step ih ha hs

theorem trans (h : Discharging k s s₁) (h' : Discharging k s₁ s₂) : Discharging k s s₂ := by
  induction h' with
  | refl => exact h
  | step _ ha hpre hs ih => exact .step ih ha hpre hs

theorem one {a : Action P} {evs : List (Event P)} (hs : Tswap.step k s a = some (s₁, evs))
    (ha : a.isBackground = true) (hpre : a.isPrefetch = false) : Discharging k s s₁ :=
  .step (r := (s₁, evs)) .refl ha hpre hs

theorem current (hd : Discharging k s s₁) (h : Inv s) (hc : Current s x d) : Current s₁ x d := by
  induction hd with
  | refl => exact hc
  | step hd ha hpre hs ih =>
      cases backgroundStep_of_step (hd.later.inv h) hs ha ih.area with
      | frame hf => exact hf.current ih
      | writeBack _ hkeep => exact hkeep d ih
      | prefetched data hev =>
          obtain ⟨b, bio, ok, lockFree, nodeOk, rfl, -⟩ :=
            inserts_of_prefetched (hd.later.inv h) hs hev
          cases hpre

theorem unasked (hd : Discharging k s s₁) (h : Inv s) : Unasked s s₁ := by
  induction hd with
  | refl => exact ⟨rfl, rfl, rfl, rfl⟩
  | step hd ha hpre hs ih =>
      have hu := unasked_of_background (hd.later.inv h) hs ha hpre
      exact ⟨hu.ring.trans ih.ring, hu.map.trans ih.map, hu.jobs.trans ih.jobs,
        hu.reads.trans ih.reads⟩

theorem roots (hd : Discharging k s s₁) (h : Inv s) : s₁.tswapTreeRoots = s.tswapTreeRoots := by
  induction hd with
  | refl => rfl
  | step hd ha _ hs ih => exact (roots_of_background (hd.later.inv h) hs ha).trans ih

theorem areas (hd : Discharging k s s₁) (h : Inv s) : s₁.areas = s.areas := by
  induction hd with
  | refl => rfl
  | step hd ha hpre hs ih => exact (areas_of_background (hd.later.inv h) hs ha hpre).trans ih

theorem contents (hd : Discharging k s s₁) (h : Inv s) {b : BioId} {bio : ReadBio}
    (hb : s.reads.cell b = some bio) :
    s₁.dataContents (some bio.page) = s.dataContents (some bio.page) := by
  induction hd with
  | refl => rfl
  | step hd ha hpre hs ih =>
      have hinv := hd.later.inv h
      have hb' := hb
      rw [← (hd.unasked h).reads] at hb'
      obtain ⟨en, c, hcell, hroot, -, hdata, -, -⟩ := hinv.of_read hb'
      have hkept := (aside_of_step hinv hs hpre).outside _ en bio.page hcell hroot hdata
      simp only [St.dataContents, hkept] at ih ⊢
      exact ih

end Discharging

/-! ## The way to the next pass -/

/-- The thread is between two passes, and the pages that were in memory still are. -/
structure BetweenPasses (s s' : St P) : Prop where
  discharge : s'.discharge = .outer
  jiffies : s'.jiffies = s.jiffies
  quarantineTime : s'.quarantineTime = s.quarantineTime
  entries : ∀ e en, s.entries.cell e = some en → en.state = .inMemory → s'.entries.cell e = some en

theorem BetweenPasses.trans {s₁ s₂ : St P} (hj : s₁.jiffies = s.jiffies)
    (hq : s₁.quarantineTime = s.quarantineTime)
    (he : ∀ e en, s.entries.cell e = some en → en.state = .inMemory → s₁.entries.cell e = some en)
    (h : BetweenPasses s₁ s₂) : BetweenPasses s s₂ :=
  ⟨h.discharge, h.jiffies.trans hj, h.quarantineTime.trans hq,
    fun e en hcell hst => h.entries e en (he e en hcell hst) hst⟩

theorem exists_iterated (h : Inv s) {n : Int} (hpc : s.discharge = .scan n) (hn : 0 < n)
    {rest : List EntryId} (hlist : s.quarantineList = e :: rest) :
    ∃ s₁, Discharging k s s₁ ∧ Iterated k (fun _ => false) s s₁ e rest n := by
  have hq := h.quarantineOk
  have hnot : e ∉ rest := by
    have hnodup := hq.nodup
    rw [hlist] at hnodup
    exact (List.nodup_cons.mp hnodup).1
  obtain ⟨en, hcell, hst⟩ := hq.members e (by simp [hlist])
  have hscan : step k s .dischargeScan = some (dischargeScan k s n, []) :=
    step_dischargeScan.mpr ⟨n, hpc, rfl⟩
  have hone : Discharging k s (dischargeScan k s n) := .one hscan rfl rfl
  by_cases hmarked : en.state = .inMemory ∧ timeAfter s.jiffies (dischargeTime k s en) = true
  · have hpc₁ := (dischargeScan_marks hn hlist hcell hmarked.1 hmarked.2).discharge
    have hsubmit : step k (dischargeScan k s n) (.dischargeSubmit false) =
        some (dischargeSubmit (dischargeScan k s n) (n - 1) e false, []) :=
      step_dischargeSubmit.mpr ⟨n - 1, e, hpc₁, rfl⟩
    exact ⟨_, hone.trans (.one hsubmit rfl rfl),
      iterated_marked hn hlist hnot hcell hmarked.1 hmarked.2⟩
  · refine ⟨_, hone, iterated_stays hn hlist hnot hcell hst ?_⟩
    intro hmem
    simpa [hmem] using hmarked

theorem exists_betweenPasses_of_scan (m : Nat) : ∀ {s : St P} {n : Int}, Inv s →
    s.discharge = .scan n → n.toNat ≤ m → ∃ s₁, Discharging k s s₁ ∧ BetweenPasses s s₁ := by
  induction m with
  | zero =>
      intro s n h hpc hn
      have hscan : step k s .dischargeScan = some ({ s with discharge := .outer }, []) := by
        refine step_dischargeScan.mpr ⟨n, hpc, ?_⟩
        rw [dischargeScan, if_pos (by omega)]
      exact ⟨_, .one hscan rfl rfl, rfl, rfl, rfl, fun _ _ hcell _ => hcell⟩
  | succ m ih =>
      intro s n h hpc hn
      have hstop : ¬ 0 < n ∨ s.quarantineList = [] →
          ∃ s₁, Discharging k s s₁ ∧ BetweenPasses s s₁ := by
        intro hstop
        have hscan : step k s .dischargeScan = some ({ s with discharge := .outer }, []) := by
          refine step_dischargeScan.mpr ⟨n, hpc, ?_⟩
          rcases hstop with hstop | hstop
          · rw [dischargeScan, if_pos hstop]
          · simp only [dischargeScan, hstop, ite_self]
        exact ⟨_, .one hscan rfl rfl, rfl, rfl, rfl, fun _ _ hcell _ => hcell⟩
      by_cases hpos : 0 < n
      · cases hlist : s.quarantineList with
        | nil => exact hstop (.inr hlist)
        | cons e rest =>
            obtain ⟨s₁, hd, hit⟩ := exists_iterated (k := k) h hpc hpos hlist
            obtain ⟨s₂, hd', hb⟩ := ih (hd.later.inv h) hit.discharge (by omega)
            refine ⟨s₂, hd.trans hd', hb.trans hit.jiffies hit.quarantineTime ?_⟩
            intro i eni hcell _
            have hkept : discharged k (fun _ => false) s e = false := by simp [discharged]
            rw [hit.entries, if_neg (by simp [hkept]), hcell]
      · exact hstop (.inl hpos)

/-- The thread comes to the end of its pass with failing submissions. -/
theorem exists_betweenPasses (h : Inv s) : ∃ s₁, Discharging k s s₁ ∧ BetweenPasses s s₁ := by
  cases hpc : s.discharge with
  | outer => exact ⟨s, .refl, hpc, rfl, rfl, fun _ _ hcell _ => hcell⟩
  | scan n => exact exists_betweenPasses_of_scan n.toNat h hpc (Nat.le_refl _)
  | submit n e =>
      obtain ⟨en, t, tree, p, c, hin, hst⟩ := h.of_outstanding (e := e) (by simp [outstanding, hpc])
      have hsubmit : step k s (.dischargeSubmit false) = some (dischargeSubmit s n e false, []) :=
        step_dischargeSubmit.mpr ⟨n, e, hpc, rfl⟩
      have hd : Discharging k s (dischargeSubmit s n e false) := .one hsubmit rfl rfl
      have hsame : (dischargeSubmit s n e false).discharge = .scan n ∧
          (dischargeSubmit s n e false).jiffies = s.jiffies ∧
          (dischargeSubmit s n e false).quarantineTime = s.quarantineTime ∧
          ∀ i, i ≠ e → (dischargeSubmit s n e false).entries.cell i = s.entries.cell i := by
        rw [dischargeSubmit_fail hin hst n]
        simp only
        split
        · exact ⟨rfl, rfl, rfl, fun i hi => (Heap.cell_free s.entries e i).trans (if_neg hi)⟩
        · exact ⟨rfl, rfl, rfl, fun i hi => (Heap.cell_write hin.cell _ i).trans (if_neg hi)⟩
      obtain ⟨s₂, hd', hb⟩ :=
        exists_betweenPasses_of_scan (k := k) n.toNat (hd.later.inv h) hsame.1 (Nat.le_refl _)
      refine ⟨s₂, hd.trans hd', hb.trans hsame.2.1 hsame.2.2.1 ?_⟩
      intro i eni hcell hmem
      rw [hsame.2.2.2 i, hcell]
      rintro rfl
      obtain rfl := Option.some.inj (hcell.symm.trans hin.cell)
      simp [hmem, EntryState.outstanding] at hst

/-! ## A write of the page -/

theorem discharging_of_runPass {bioOk : EntryId → Bool} {fuel : Nat} {l : List EntryId}
    (hrun : runPass k bioOk fuel s = some (s', l)) : Discharging k s s' := by
  induction fuel generalizing s l with
  | zero =>
      simp only [runPass] at hrun
      split at hrun
      · simp only [Option.some.injEq, Prod.mk.injEq] at hrun
        rw [← hrun.1]
        exact .refl
      · cases hrun
  | succ fuel ih =>
      unfold runPass at hrun
      cases ha : passAction bioOk s with
      | none =>
          simp only [ha, Option.some.injEq, Prod.mk.injEq] at hrun
          rw [← hrun.1]
          exact .refl
      | some a =>
          have hback : a.isBackground = true ∧ a.isPrefetch = false := by
            unfold passAction at ha
            split at ha <;> cases ha <;> exact ⟨rfl, rfl⟩
          cases hs : step k s a with
          | none => simp [ha, hs] at hrun
          | some r =>
              simp only [ha, hs, Option.map_eq_some_iff, Prod.mk.injEq] at hrun
              obtain ⟨q, hq, rfl, -⟩ := hrun
              have hone : Discharging k s r.1 := .step .refl hback.1 hback.2 hs
              exact hone.trans (ih hq)

theorem exists_marked (h : Inv s) (hin : InTree s e en t tree p c) (hst : en.state = .inMemory) :
    ∃ s₁, Discharging k s s₁ ∧ s₁.discharge = .outer ∧ s₁.entries.cell e = some en.toInFlight := by
  obtain ⟨s₁, hd₁, hb⟩ := exists_betweenPasses (k := k) h
  have hinv₁ := hd₁.later.inv h
  have hcell₁ := hb.entries e en hin.cell hst
  -- the clock shows one jiffy more than the entry's time
  let s₂ : St P := { s₁ with jiffies := dischargeTime k s₁ en + 1 }
  have htick : step k s₁ (.tick (dischargeTime k s₁ en + 1)) = some (s₂, []) := rfl
  have hd₂ : Discharging k s s₂ := hd₁.trans (.one htick rfl rfl)
  have hinv₂ := hd₂.later.inv h
  have hexpired : timeAfter s₂.jiffies (dischargeTime k s₂ en) = true := by
    have htime : dischargeTime k s₂ en = dischargeTime k s₁ en := rfl
    rw [htime]
    show (dischargeTime k s₁ en - (dischargeTime k s₁ en + 1)).msb = true
    generalize dischargeTime k s₁ en = v
    have hminus : v - (v + 1) = BitVec.allOnes 64 := by
      rw [← BitVec.sub_sub]
      simp
    rw [hminus]
    decide
  have houter : step k s₂ .dischargeOuter =
      some ({ s₂ with discharge := .scan s₂.stat.lenQuarantineList }, []) :=
    step_dischargeOuter.mpr ⟨hb.discharge, rfl⟩
  obtain ⟨s₃, hrun, -, hpc, -, -, hentries⟩ :=
    dischargePass (fun _ => true) hinv₂.quarantineOk houter (Nat.le_refl _)
  refine ⟨s₃, (hd₂.trans (.one houter rfl rfl)).trans (discharging_of_runPass hrun), hpc, ?_⟩
  have hcell₂ : s₂.entries.cell e = some en := hcell₁
  obtain ⟨tree₂, p₂, c₂, hin₂⟩ := hinv₂.inTree hcell₂ hin.root
  have hlisted : e ∈ s₂.quarantineList := by
    have hcount := (hinv₂.lifecycle.tree hcell₂ hin.root).2.2.1
    rw [hst] at hcount
    exact List.count_pos_iff.mp (by rw [hcount]; decide)
  rw [hentries, if_pos ⟨hlisted, by simp [discharged, hcell₂, hst, hexpired]⟩, hcell₂]
  rfl

/-- An outstanding discharge is a write in flight, or the thread submits it. -/
theorem exists_bio (h : Inv s) (hin : InTree s e en t tree p c) (hst : en.state.outstanding = 1) :
    ∃ s₁ b bio, Discharging k s s₁ ∧ s₁.entries.cell e = some en ∧
      s₁.writes.cell b = some bio ∧ bio.entry = e := by
  have hout := (h.lifecycle.tree hin.cell hin.root).2.1
  by_cases hw : ∃ b bio, s.writes.cell b = some bio ∧ bio.entry = e
  · obtain ⟨b, bio, hb, he⟩ := hw
    exact ⟨s, b, bio, .refl, hin.cell, hb, he⟩
  · have hcount : s.writes.count (fun b => b.entry == e) = 0 := by
      rw [Heap.count_eq_zero]
      intro b bio hb
      simpa using fun hbe => hw ⟨b, bio, hb, hbe⟩
    obtain ⟨n, hpc⟩ : ∃ n, s.discharge = .submit n e := by
      unfold outstanding at hout
      rw [hcount, hst] at hout
      cases hd : s.discharge with
      | outer => simp [hd] at hout
      | scan n => simp [hd] at hout
      | submit n i =>
          by_cases hi : i = e
          · exact ⟨n, by rw [hi]⟩
          · simp [hd, hi] at hout
    have hs : step k s (.dischargeSubmit true) = some (dischargeSubmit s n e true, []) :=
      step_dischargeSubmit.mpr ⟨n, e, hpc, rfl⟩
    refine ⟨_, s.writes.next, ⟨e, en.slot, p, false⟩, .one hs rfl rfl, ?_, ?_, rfl⟩
    · rw [dischargeSubmit_ok hin n]
      exact hin.cell
    · rw [dischargeSubmit_ok hin n]
      exact (Heap.cell_alloc _ _ _).trans (if_pos rfl)

/-- The write of the page in memory is in flight and will tell what the device holds. -/
structure Writing (s : St P) (x : Slot) (e : EntryId) (en : Entry) (b : BioId) (bio : WriteBio) :
    Prop where
  occupies : Occupies s x e en
  state : en.state = .inFlight
  write : s.writes.cell b = some bio
  entry : bio.entry = e

theorem exists_writing_of_inMemory (h : Inv s) (ho : Occupies s x e en)
    (hst : en.state = .inMemory) :
    ∃ s₁ en₁ b bio, Discharging k s s₁ ∧ Writing s₁ x e en₁ b bio := by
  obtain ⟨t, tree, p, c, hin⟩ := h.of_occupies ho
  obtain ⟨s₁, hd₁, -, hcell₁⟩ := exists_marked (k := k) h hin hst
  obtain ⟨tree₁, p₁, c₁, hin₁⟩ := (hd₁.later.inv h).inTree hcell₁ hin.root
  obtain ⟨s₂, b, bio, hd₂, hcell₂, hb, hentry⟩ :=
    exists_bio (k := k) (hd₁.later.inv h) hin₁ rfl
  exact ⟨s₂, en.toInFlight, b, bio, hd₁.trans hd₂, ⟨hcell₂, ho.slot, ho.tree⟩, rfl, hb, hentry⟩

/-- From any state in which the page is wanted its write can come to be in flight. -/
theorem exists_writing (h : Inv s) (ho : Occupies s x e en) (halive : en.state ≠ .zombie) (junk : P) :
    ∃ s₁ en₁ b bio, Discharging k s s₁ ∧ Writing s₁ x e en₁ b bio := by
  obtain ⟨t, tree, p, c, hin⟩ := h.of_occupies ho
  by_cases hst : en.state = .inMemory
  · exact exists_writing_of_inMemory h ho hst
  · have hout := h.outstanding_of_ne hin hst
    obtain ⟨s₁, b, bio, hd₁, hcell₁, hb, rfl⟩ := exists_bio (k := k) h hin hout
    have hinv₁ := hd₁.later.inv h
    have ho₁ : Occupies s₁ x bio.entry en := ⟨hcell₁, ho.slot, ho.tree⟩
    by_cases hflight : en.state = .inFlight
    · exact ⟨s₁, en, b, bio, hd₁, ho₁, hflight, hb, rfl⟩
    · -- the page was rewritten during its write-back, and is written back again
      obtain ⟨t₁, tree₁, p₁, c₁, hin₁⟩ := hinv₁.of_occupies ho₁
      have hend : step k s₁ (.dischargeEnd b true junk) =
          some (stepDischargeEnd s₁ b bio true junk, []) := step_dischargeEnd.mpr ⟨bio, hb, rfl⟩
      have hd₂ : Discharging k s (stepDischargeEnd s₁ b bio true junk) :=
        hd₁.trans (.one hend rfl rfl)
      obtain ⟨m, heq⟩ := stepDischargeEnd_eq hin₁ hout b true junk
      rw [if_neg (by simp [halive, hflight])] at heq
      have ho₂ : Occupies (stepDischargeEnd s₁ b bio true junk) x bio.entry
          { en with state := .inMemory } := by
        rw [heq]
        exact ⟨(Heap.cell_write hin₁.cell _ _).trans (if_pos rfl), ho.slot, ho.tree⟩
      obtain ⟨s₃, en₃, b₃, bio₃, hd₃, hw⟩ :=
        exists_writing_of_inMemory (k := k) (hd₂.later.inv h) ho₂ rfl
      exact ⟨s₃, en₃, b₃, bio₃, hd₂.trans hd₃, hw⟩

theorem vacant_reaped (h : Inv s) (harea : s.areas x.type = none) (ho : Occupies s x e en)
    (hcells : s'.entries.cell = (s.entries.free e).cell) : Vacant s' x := by
  intro i eni ho'
  have hcell := ho'.cell
  rw [hcells, Heap.cell_free] at hcell
  split at hcell
  · cases hcell
  · rename_i hi
    exact hi (h.occupies_unique harea ho ⟨hcell, ho'.slot, ho'.tree⟩)

theorem exists_drained (h : Inv s) (hc : Current s x d) :
    ∃ s₁, Discharging k s s₁ ∧ Vacant s₁ x := by
  cases hc.holds with
  | onDisk hv _ => exact ⟨s, .refl, hv⟩
  | inMemory e en hcopy =>
      obtain ⟨s₁, en₁, b, bio, hd, hw⟩ := exists_writing (k := k) h hcopy.toOccupies hcopy.alive d
      obtain ⟨ho, hst, hb, rfl⟩ := hw
      have hinv := hd.later.inv h
      obtain ⟨t, tree, p, c, hin⟩ := hinv.of_occupies ho
      have hend : step k s₁ (.dischargeEnd b true d) =
          some (stepDischargeEnd s₁ b bio true d, []) := step_dischargeEnd.mpr ⟨bio, hb, rfl⟩
      refine ⟨_, hd.trans (.one hend rfl rfl), ?_⟩
      obtain ⟨m, heq⟩ := stepDischargeEnd_eq hin (by rw [hst]; rfl) b true d
      rw [if_pos (.inr ⟨hst, rfl⟩)] at heq
      exact vacant_reaped hinv (hd.current h hc).area ho (by rw [heq]; rfl)

theorem exists_spoiled (h : Inv s) (hc : Current s x d) (hocc : ¬ Vacant s x) (junk : P) :
    ∃ s₁, Discharging k s s₁ ∧ ¬ Vacant s₁ x ∧ s₁.disk x = junk := by
  cases hc.holds with
  | onDisk hv _ => exact (hocc hv).elim
  | inMemory e en hcopy =>
      obtain ⟨s₁, en₁, b, bio, hd, hw⟩ := exists_writing (k := k) h hcopy.toOccupies hcopy.alive d
      obtain ⟨ho, hst, hb, rfl⟩ := hw
      have hinv := hd.later.inv h
      obtain ⟨t, tree, p, c, hin⟩ := hinv.of_occupies ho
      have hslot := (hinv.bios.writes b bio en₁ hb ho.cell).2
      have hend : step k s₁ (.dischargeEnd b false junk) =
          some (stepDischargeEnd s₁ b bio false junk, []) := step_dischargeEnd.mpr ⟨bio, hb, rfl⟩
      refine ⟨_, hd.trans (.one hend rfl rfl), ?_, ?_⟩
      · obtain ⟨m, heq⟩ := stepDischargeEnd_eq hin (by rw [hst]; rfl) b false junk
        rw [if_neg (by simp [hst])] at heq
        rw [heq]
        intro hv
        exact hv bio.entry { en₁ with state := .inMemory }
          ⟨(Heap.cell_write ho.cell _ _).trans (if_pos rfl), ho.slot, ho.tree⟩
      · obtain ⟨m, heq⟩ := stepDischargeEnd_eq hin (by rw [hst]; rfl) b false junk
        rw [if_neg (by simp [hst])] at heq
        rw [heq]
        change Function.update s₁.disk bio.slot (deviceWritten s₁ bio false junk) x = junk
        rw [← hslot, ho.slot]
        simp [deviceWritten]

/-! ## Insertions -/

theorem Retrievable.later (hr : Retrievable k s x d) {s₁ : St P} (hl : Later k s s₁) :
    Retrievable k s₁ x d :=
  fun s₂ hl' => hr s₂ (hl.trans hl')

theorem Retrievable.eq_of_current (h : Inv s) (hr : Retrievable k s x d) {s₁ : St P}
    (hl : Later k s s₁) {d' : P} (hc : Current s₁ x d') : d' = d := by
  have hload := (hc.laterLoad (k := k) (hl.inv h) d).symm.trans (hr s₁ hl d)
  simpa using hload

/-- The completion of a read inserts its entry while the slot is vacant. -/
theorem prefetchAsyncIoEnd_inserts (h : Inv s) {b : BioId} {bio : ReadBio}
    (hb : s.reads.cell b = some bio) (hroot : (s.tswapTreeRoots bio.slot.type).isSome)
    (hv : Vacant s bio.slot) :
    (prefetchAsyncIoEnd k { s with reads := s.reads.free b } bio.entry true true true).2 = true := by
  obtain ⟨en, c, hcell, hnone, -, hdata, hslot, hpage⟩ := h.of_read hb
  obtain ⟨t, ht⟩ := Option.isSome_iff_exists.mp hroot
  obtain ⟨tree, htree⟩ := Option.isSome_iff_exists.mp (h.index.roots _ t ht).2.1
  have htype : en.type = bio.slot.type := by rw [← hslot]; rfl
  have hoff : en.offset = bio.slot.offset := by rw [← hslot]; rfl
  have hitem : tree[en.offset]? = none := by
    cases hitem : tree[en.offset]? with
    | none => rfl
    | some i =>
        obtain ⟨eni, hcelli, hrooti, hoffi⟩ := h.index.sound t tree en.offset i htree hitem
        obtain ⟨htypei, -⟩ := h.index.type i eni t hcelli hrooti
        have hroots := (h.index.roots _ t ht).1
        refine (hv i eni ⟨hcelli, ?_, by simp [hrooti]⟩).elim
        simp only [Entry.slot, ← htypei, hroots, hoffi, hoff]
  rw [← htype] at ht
  rcases en with ⟨st, ty, off, root, ts, data⟩
  simp only at ht hitem hnone
  subst hnone
  simp [prefetchAsyncIoEnd, St.withEntry, hcell, St.setEntry, atomicEntryInsert,
    Heap.cell_write hcell, ht, htree, hitem]

/-- What a read has delivered can become the data of a vacant slot. -/
theorem exists_inserted (h : Inv s) (hv : Vacant s x) (hroot : (s.tswapTreeRoots x.type).isSome)
    {b : BioId} {bio : ReadBio} (hb : s.reads.cell b = some bio) (hslot : bio.slot = x)
    (hdone : bio.done = true) {d' : P} (hdata : s.dataContents (some bio.page) = some d') :
    ∃ s₁, Later k s s₁ ∧ Current s₁ x d' ∧ ¬ Vacant s₁ x ∧ s₁.jobs = s.jobs ∧
      s₁.reads = s.reads.free b := by
  subst hslot
  have hins := prefetchAsyncIoEnd_inserts (k := k) h hb hroot hv
  have hend : step k s (.prefetchEnd b true true true) =
      some (stepPrefetchEnd k s b bio true true true) :=
    step_prefetchEnd.mpr ⟨bio, hb, fun _ => hdone, rfl⟩
  have he := prefetchEnded h k hb true true true
  have hlater : Later k s (stepPrefetchEnd k s b bio true true true).1 := .step .refl rfl hend
  have hcur : Current (stepPrefetchEnd k s b bio true true true).1 bio.slot d' := by
    rcases prefetchEnd_cases h k hb true true true bio.slot with ⟨-, hno⟩ |
      ⟨-, -, -, -, -, -, hc⟩
    · simp [hins] at hno
    · unfold stepPrefetchEnd
      simp only [hins, if_true]
      exact ((quiet_touch _ _).slotFrame _).current (hc d' hdata)
  refine ⟨_, hlater, hcur, ?_, he.jobs, he.reads⟩
  obtain ⟨en, c, hcell, hnone, -, hdata', hslot, hpage⟩ := h.of_read hb
  have hroots : ∀ ty t, s.tswapTreeRoots ty = some t → (s.trees t).isSome := fun ty t ht =>
    (h.index.roots ty t ht).2.1
  rcases prefetchAsyncIoEnd_cases (s := { s with reads := s.reads.free b }) hroots hcell hnone
    hdata' hpage k true true true with ⟨i, f, n, heq⟩ | ⟨t, tree, ts, i, -, -, -, -, heq⟩
  · rw [heq] at hins
    cases hins
  · intro hv'
    refine hv' bio.entry { en with timeStamp := ts, tswapTreeRoot := some t } ⟨?_, hslot, by simp⟩
    unfold stepPrefetchEnd
    simp only [heq, if_true]
    exact (Heap.cell_write hcell _ _).trans (if_pos rfl)

theorem Inv.root_of_not_vacant (h : Inv s) (harea : s.areas x.type = none) (hocc : ¬ Vacant s x) :
    (s.tswapTreeRoots x.type).isSome := by
  unfold Vacant at hocc
  push Not at hocc
  obtain ⟨e, en, ho⟩ := hocc
  obtain ⟨t, tree, p, c, hin⟩ := h.of_occupies ho
  have htype : en.type = x.type := by rw [← ho.slot]; rfl
  have hroot := h.live_root hin (by rw [htype]; exact harea)
  rw [htype] at hroot
  simp [hroot]

/-- Reads that the device has served have contents. -/
def Delivered (s : St P) : Prop :=
  ∀ b bio, s.reads.cell b = some bio → bio.done = true →
    ∃ d, s.dataContents (some bio.page) = some d

theorem delivered_step {a : Action P} {r : St P × List (Event P)} (h : Inv s) (hdel : Delivered s)
    (hs : step k s a = some r) : Delivered r.1 := by
  intro b bio hb hdone
  rcases reads_step h hs hb with ⟨hold, hsame⟩ | ⟨hundone, -⟩ | ⟨-, -, -, -, -, hcontents⟩
  · rw [hsame]
    exact hdel b bio hold hdone
  · rw [hundone] at hdone
    cases hdone
  · exact ⟨_, hcontents⟩

theorem Retrievable.carries (h : Inv s) (hc : Current s x d)
    (hroot : (s.tswapTreeRoots x.type).isSome) (hdel : Delivered s) (hr : Retrievable k s x d) :
    Carries s x d := by
  intro b bio hb hslot hdone
  obtain ⟨d', hdata⟩ := hdel b bio hb hdone
  obtain ⟨s₁, hd, hv⟩ := exists_drained (k := k) h hc
  have hroot₁ := hroot
  rw [← hd.roots h] at hroot₁
  have hb₁ := hb
  rw [← (hd.unasked h).reads] at hb₁
  obtain ⟨s₂, hl, hc₂, -⟩ := exists_inserted (k := k) (hd.later.inv h) hv hroot₁ hb₁ hslot hdone
    ((hd.contents h hb).trans hdata)
  rw [hdata, hr.eq_of_current h (hd.later.trans hl) hc₂]

/-- A step that shows nothing keeps the data, and keeps the slot vacant. -/
theorem silent_step {a : Action P} {s₁ : St P} (h : Inv s) (hs : step k s a = some (s₁, []))
    (ha : a.isBackground = true) (harea : s.areas x.type = none) :
    (∀ d, Current s x d → Current s₁ x d) ∧ (Vacant s x → Vacant s₁ x) := by
  cases backgroundStep_of_step h hs ha harea with
  | frame hf => exact ⟨fun d hc => hf.current hc, hf.vacant⟩
  | writeBack hocc hkeep => exact ⟨hkeep, fun hv => (hocc hv).elim⟩
  | prefetched data hev => cases hev

/-- A read that has not happened yet while the page is in memory reads what a failed
write has left. -/
theorem Retrievable.read_done [Nontrivial P] (h : Inv s) (hc : Current s x d) (hocc : ¬ Vacant s x)
    (hr : Retrievable k s x d) {b : BioId} {bio : ReadBio} (hb : s.reads.cell b = some bio)
    (hslot : bio.slot = x) : bio.done = true := by
  by_contra hundone
  rw [Bool.not_eq_true] at hundone
  obtain ⟨junk, hjunk⟩ := exists_ne d
  obtain ⟨s₁, hd₁, -, hdisk⟩ := exists_spoiled (k := k) h hc hocc junk
  have hinv₁ := hd₁.later.inv h
  have hc₁ := hd₁.current h hc
  have hb₁ := hb
  rw [← (hd₁.unasked h).reads] at hb₁
  have hread : step k s₁ (.prefetchRead b) = some (stepPrefetchRead s₁ b bio, []) :=
    step_prefetchRead.mpr ⟨bio, hb₁, hundone, rfl⟩
  have hl₂ : Later k s (stepPrefetchRead s₁ b bio) := .step hd₁.later rfl hread
  have hc₂ := (silent_step hinv₁ hread rfl hc₁.area).1 d hc₁
  have hb₂ : (stepPrefetchRead s₁ b bio).reads.cell b = some { bio with done := true } :=
    (Heap.cell_write hb₁ _ b).trans (if_pos rfl)
  have hdata₂ : (stepPrefetchRead s₁ b bio).dataContents (some bio.page) = some junk := by
    obtain ⟨en, c, hcell, hnone, -, hdata, -, hpage⟩ := hinv₁.of_read hb₁
    rw [← hdisk, ← hslot]
    simp [stepPrefetchRead, St.dataContents, Heap.cell_write hpage]
  obtain ⟨s₃, hd₃, hv₃⟩ := exists_drained (k := k) (hl₂.inv h) hc₂
  have hroot₃ : (s₃.tswapTreeRoots x.type).isSome := by
    rw [hd₃.roots (hl₂.inv h)]
    show (s₁.tswapTreeRoots x.type).isSome
    rw [hd₁.roots h]
    exact h.root_of_not_vacant hc.area hocc
  have hb₃ := hb₂
  rw [← (hd₃.unasked (hl₂.inv h)).reads] at hb₃
  obtain ⟨s₄, hl₄, hc₄, -⟩ := exists_inserted (k := k) (hd₃.later.inv (hl₂.inv h)) hv₃ hroot₃ hb₃
    hslot rfl ((hd₃.contents (hl₂.inv h) hb₂).trans hdata₂)
  exact hjunk (hr.eq_of_current h ((hl₂.trans hd₃.later).trans hl₄) hc₄)

def prefetchOk : PrefetchOutcome := ⟨true, true, true⟩

theorem prefetchSubmit_ok (y : Slot) (seen : Nat) :
    prefetchSubmit s y seen prefetchOk =
      { s with
        entries := s.entries.alloc (prefetchEntry s y)
        pages := s.pages.alloc none
        reads := s.reads.alloc ⟨s.entries.next, y, s.pages.next, seen, false⟩
        stat := { s.stat.inc .inMemory with nrAsyncIo := s.stat.nrAsyncIo + 1 } } := by
  simp [prefetchSubmit, prefetchOk, St.setEntry, Heap.alloc_write, prefetchEntry, Stat.inc]

theorem Retrievable.job_not_missed [Nontrivial P] (h : Inv s) (hc : Current s x d)
    (hocc : ¬ Vacant s x) (hr : Retrievable k s x d) {j : Nat} {job : PrefetchJob}
    (hj : s.jobs.cell j = some job) (hslot : job.slot = x) : job.missed = false := by
  by_contra hmissed
  rw [Bool.not_eq_false] at hmissed
  have hsubmit : step k s (.prefetchSubmit j prefetchOk) =
      some (prefetchSubmit { s with jobs := s.jobs.free j } job.slot job.seen prefetchOk, []) :=
    step_prefetchSubmit.mpr ⟨job, hj, hmissed, rfl⟩
  have hl : Later k s (prefetchSubmit { s with jobs := s.jobs.free j } job.slot job.seen prefetchOk) :=
    .step .refl rfl hsubmit
  have hc₁ := (silent_step h hsubmit rfl hc.area).1 d hc
  rw [prefetchSubmit_ok] at hl hc₁
  have hdone := (hr.later hl).read_done (b := s.reads.next) (hl.inv h) hc₁ ?_
    ((Heap.cell_alloc _ _ _).trans (if_pos rfl)) hslot
  · cases hdone
  · intro hv
    apply hocc
    intro e en ho
    refine hv e en ⟨?_, ho.slot, ho.tree⟩
    exact (Heap.cell_alloc _ _ _).trans
      ((if_neg (Nat.ne_of_lt (Heap.lt_next ho.cell))).trans ho.cell)

theorem Retrievable.noneAhead [Nontrivial P] (h : Inv s) (hc : Current s x d)
    (hocc : ¬ Vacant s x) (hr : Retrievable k s x d) : NoneAhead s x :=
  ⟨fun _ _ hj hslot => hr.job_not_missed h hc hocc hj hslot,
    fun _ _ hb hslot => hr.read_done h hc hocc hb hslot⟩

/-! ## Two prefetches -/

/-- The slot is vacant, a prefetch of it can be inserted, and it has to keep its data. -/
structure Exposed (k : Kernel) (s : St P) (x : Slot) (d : P) : Prop where
  inv : Inv s
  current : Current s x d
  vacant : Vacant s x
  root : (s.tswapTreeRoots x.type).isSome
  delivered : Delivered s
  retrievable : Retrievable k s x d

theorem Exposed.silent {a : Action P} {s₁ : St P} (h : Exposed k s x d)
    (hs : step k s a = some (s₁, [])) (ha : a.isBackground = true) : Exposed k s₁ x d := by
  obtain ⟨hcurrent, hvacant⟩ := silent_step h.inv hs ha h.current.area
  have hl : Later k s s₁ := .step (r := (s₁, [])) .refl ha hs
  refine ⟨hl.inv h.inv, hcurrent d h.current, hvacant h.vacant, ?_, delivered_step h.inv h.delivered hs,
    h.retrievable.later hl⟩
  rw [show s₁.tswapTreeRoots = s.tswapTreeRoots from roots_of_background h.inv hs ha]
  exact h.root

/-- The request has found the slot vacant and is still to read it. -/
def Request.Ahead (s : St P) (x : Slot) : Request → Prop
  | .queued _ => False
  | .job j => ∃ job, s.jobs.cell j = some job ∧ job.slot = x ∧ job.missed = true
  | .read b => ∃ bio, s.reads.cell b = some bio ∧ bio.slot = x ∧ bio.done = false

theorem Exposed.lookup (h : Exposed k s x d) {j : Nat} {job : PrefetchJob} (hj : s.jobs.cell j = some job) (hslot : job.slot = x)
    (hmissed : job.missed = false) :
    step k s (.prefetchLookup j) =
      some ({ s with jobs := s.jobs.write j { job with missed := true } }, []) := by
  refine step_prefetchLookup.mpr ⟨job, hj, hmissed, .inr ⟨?_, rfl⟩⟩
  rw [hslot]
  exact h.inv.lookup_vacant h.vacant

section Other

variable [Nontrivial P] {q : Request} {b : BioId} {bio : ReadBio} {j : Nat} {job : PrefetchJob}

/-- The read is inserted, and the other request is ahead of the entry. -/
theorem Exposed.not_read_done (h : Exposed k s x d) (hq : q.Ahead s x)
    (hb : s.reads.cell b = some bio) (hslot : bio.slot = x) (hne : q ≠ .read b) :
    bio.done = false := by
  by_contra hdone
  rw [Bool.not_eq_false] at hdone
  obtain ⟨d', hdata⟩ := h.delivered b bio hb hdone
  obtain ⟨s₁, hl, hc, hocc, hjobs, hreads⟩ :=
    exists_inserted (k := k) h.inv h.vacant h.root hb hslot hdone hdata
  have heq := h.retrievable.eq_of_current h.inv hl hc
  rw [heq] at hc
  have hnone := (h.retrievable.later hl).noneAhead (hl.inv h.inv) hc hocc
  cases q with
  | queued i => exact hq
  | job i =>
      obtain ⟨job, hi, hislot, hmissed⟩ := hq
      rw [hnone.1 i job (hjobs ▸ hi) hislot] at hmissed
      cases hmissed
  | read i =>
      obtain ⟨bio', hi, hislot, hundone⟩ := hq
      have hib : i ≠ b := fun hib => hne (by rw [hib])
      rw [hnone.2 i bio' ?_ hislot] at hundone
      · cases hundone
      · rw [hreads, Heap.cell_free, if_neg hib, hi]

theorem Exposed.not_read (h : Exposed k s x d) (hq : q.Ahead s x)
    (hb : s.reads.cell b = some bio) (hslot : bio.slot = x) : q = .read b := by
  by_contra hne
  have hundone := h.not_read_done hq hb hslot hne
  have hread : step k s (.prefetchRead b) = some (stepPrefetchRead s b bio, []) :=
    step_prefetchRead.mpr ⟨bio, hb, hundone, rfl⟩
  have hb₁ : (stepPrefetchRead s b bio).reads.cell b = some { bio with done := true } :=
    (Heap.cell_write hb _ b).trans (if_pos rfl)
  have hq₁ : q.Ahead (stepPrefetchRead s b bio) x := by
    cases q with
    | queued i => exact hq
    | job i => exact hq
    | read i =>
        obtain ⟨bio', hi, hrest⟩ := hq
        refine ⟨bio', ?_, hrest⟩
        exact (Heap.cell_write hb _ i).trans ((if_neg fun hib => hne (by rw [hib])).trans hi)
  have hfalse := (h.silent hread rfl).not_read_done hq₁ hb₁ hslot hne
  cases hfalse

theorem Exposed.not_job_missed (h : Exposed k s x d) (hq : q.Ahead s x)
    (hj : s.jobs.cell j = some job) (hslot : job.slot = x) (hmissed : job.missed = true) :
    q = .job j := by
  by_contra hne
  have hsubmit : step k s (.prefetchSubmit j prefetchOk) =
      some (prefetchSubmit { s with jobs := s.jobs.free j } job.slot job.seen prefetchOk, []) :=
    step_prefetchSubmit.mpr ⟨job, hj, hmissed, rfl⟩
  have h₁ := h.silent hsubmit rfl
  rw [prefetchSubmit_ok] at h₁
  have heq := h₁.not_read (q := q) (b := s.reads.next) ?_
    ((Heap.cell_alloc _ _ _).trans (if_pos rfl)) hslot
  · rw [heq] at hq
    obtain ⟨bio, hb, -⟩ := hq
    have hlt := Heap.lt_next hb
    omega
  · cases q with
    | queued i => exact hq
    | job i =>
        obtain ⟨job', hi, hrest⟩ := hq
        refine ⟨job', ?_, hrest⟩
        exact (Heap.cell_free _ _ i).trans ((if_neg fun hij => hne (by rw [hij])).trans hi)
    | read i =>
        obtain ⟨bio', hi, hrest⟩ := hq
        refine ⟨bio', ?_, hrest⟩
        exact (Heap.cell_alloc _ _ i).trans ((if_neg (Nat.ne_of_lt (Heap.lt_next hi))).trans hi)

theorem Exposed.not_job (h : Exposed k s x d) (hq : q.Ahead s x) (hj : s.jobs.cell j = some job)
    (hslot : job.slot = x) : q = .job j := by
  cases hmissed : job.missed with
  | true => exact h.not_job_missed hq hj hslot hmissed
  | false =>
      by_contra hne
      have hlookup := h.lookup hj hslot hmissed
      have hj₁ := (Heap.cell_write hj { job with missed := true } j).trans (if_pos rfl)
      refine hne ((h.silent hlookup rfl).not_job_missed (q := q) ?_ hj₁ hslot rfl)
      cases q with
      | queued i => exact hq
      | read i => exact hq
      | job i =>
          obtain ⟨job', hi, hrest⟩ := hq
          refine ⟨job', ?_, hrest⟩
          exact (Heap.cell_write hj _ i).trans ((if_neg fun hij => hne (by rw [hij])).trans hi)

theorem Exposed.eq_of_ahead (h : Exposed k s x d) (hq : q.Ahead s x) {q' : Request}
    (hq' : q'.slot? k s = some x) (hring : ∀ i, q' ≠ .queued i) : q = q' := by
  cases q' with
  | queued i => exact (hring i rfl).elim
  | job j =>
      obtain ⟨job, hj, hslot⟩ := Option.map_eq_some_iff.mp hq'
      exact h.not_job hq hj hslot
  | read b =>
      obtain ⟨bio, hb, hslot⟩ := Option.map_eq_some_iff.mp hq'
      exact h.not_read hq hb hslot

theorem Exposed.eq_outside (h : Exposed k s x d) (hq : q.slot? k s = some x) {q' : Request}
    (hq' : q'.slot? k s = some x) (hopen : q.delivered s = false) (hring : ∀ i, q ≠ .queued i)
    (hring' : ∀ i, q' ≠ .queued i) : q = q' := by
  cases q with
  | queued i => exact (hring i rfl).elim
  | read b =>
      obtain ⟨bio, hb, hslot⟩ := Option.map_eq_some_iff.mp hq
      refine h.eq_of_ahead (q := .read b) ⟨bio, hb, hslot, ?_⟩ hq' hring'
      simpa [Request.delivered, hb] using hopen
  | job j =>
      obtain ⟨job, hj, hslot⟩ := Option.map_eq_some_iff.mp hq
      cases hmissed : job.missed with
      | true => exact h.eq_of_ahead (q := .job j) ⟨job, hj, hslot, hmissed⟩ hq' hring'
      | false =>
          have hlookup := h.lookup hj hslot hmissed
          have hcells := Heap.cell_write hj { job with missed := true }
          refine (h.silent hlookup rfl).eq_of_ahead (q := .job j)
            ⟨{ job with missed := true }, (hcells j).trans (if_pos rfl), hslot, rfl⟩ ?_ hring'
          cases q' with
          | queued i => exact hq'
          | read b => exact hq'
          | job i =>
              obtain ⟨job', hi, hslot'⟩ := Option.map_eq_some_iff.mp hq'
              show Option.map _ ((s.jobs.write j _).cell i) = some x
              rw [hcells]
              split
              · exact congrArg some hslot
              · rw [hi, Option.map_some, hslot']

end Other

/-- How many pops it takes until the request is out of the ring. -/
def Request.depth : Request → Nat
  | .queued i => i + 1
  | .job _ | .read _ => 0

/-- The request after a pop. -/
def Request.popped (s : St P) : Request → Request
  | .queued 0 => .job s.jobs.next
  | .queued (i + 1) => .queued i
  | q => q

theorem Request.popped_ne {q q' : Request} (hq : q.slot? k s = some x) (hq' : q'.slot? k s = some x)
    (hne : q ≠ q') : q.popped s ≠ q'.popped s := by
  have hfresh : ∀ j, (Request.job j).slot? k s = some x → j ≠ s.jobs.next := by
    rintro j hj rfl
    simp [Request.slot?, Heap.cell_next] at hj
  cases q with
  | queued i =>
      cases q' with
      | queued i' => cases i <;> cases i' <;> simp_all [Request.popped]
      | job j =>
          have hj := hfresh j hq'
          cases i <;> simp [Request.popped, hj.symm]
      | read b => cases i <;> simp [Request.popped]
  | job j =>
      cases q' with
      | queued i' =>
          have hj := hfresh j hq
          cases i' <;> simp [Request.popped, hj]
      | job j' => exact hne
      | read b => exact hne
  | read b =>
      cases q' with
      | queued i' => cases i' <;> simp [Request.popped]
      | job j => exact hne
      | read b' => exact hne

theorem Request.popped_spec {y : Slot} {ring : PrefetchRing}
    (hpop : s.ring.pop k.prefetchBufferSize = some (y, ring)) {q : Request}
    (hq : q.slot? k s = some x) :
    ∃ s₁, step k s .prefetchPop = some (s₁, []) ∧ (q.popped s).slot? k s₁ = some x ∧
      (q.delivered s = false → (q.popped s).delivered s₁ = false) := by
  cases hmap : s.frontswapMap y with
  | true =>
      refine ⟨_, step_prefetchPop.mpr ⟨y, ring, hpop, .inl ⟨hmap, rfl⟩⟩, ?_, ?_⟩
      · cases q with
        | read b => exact hq
        | job j =>
            have hj := hq
            simp only [Request.slot?, Request.popped, Heap.cell_alloc] at hj ⊢
            rw [if_neg]
            · exact hj
            · rintro rfl
              simp [Heap.cell_next] at hj
        | queued i =>
            cases i with
            | zero =>
                simp only [Request.slot?, PrefetchRing.request, hpop, Option.map_some,
                  Option.filter, hmap, if_true] at hq
                simpa [Request.popped, Request.slot?, Heap.cell_alloc] using hq
            | succ i => simpa [Request.slot?, Request.popped, PrefetchRing.request, hpop] using hq
      · intro hopen
        cases q with
        | read b => exact hopen
        | job j => rfl
        | queued i => cases i <;> rfl
  | false =>
      refine ⟨_, step_prefetchPop.mpr ⟨y, ring, hpop, .inr ⟨hmap, rfl⟩⟩, ?_, ?_⟩
      · cases q with
        | read b => exact hq
        | job j => exact hq
        | queued i =>
            cases i with
            | zero =>
                simp [Request.slot?, PrefetchRing.request, hpop, Option.filter, hmap] at hq
            | succ i => simpa [Request.slot?, Request.popped, PrefetchRing.request, hpop] using hq
      · intro hopen
        cases q with
        | read b => exact hopen
        | job j => rfl
        | queued i => cases i <;> rfl

theorem Request.depth_popped (q : Request) : (q.popped s).depth = q.depth - 1 := by
  cases q with
  | queued i => cases i <;> rfl
  | _ => rfl

theorem Request.pop_of_queued {i : Nat} (hq : (Request.queued i).slot? k s = some x) :
    ∃ y ring, s.ring.pop k.prefetchBufferSize = some (y, ring) := by
  cases hpop : s.ring.pop k.prefetchBufferSize with
  | some r => exact ⟨r.1, r.2, rfl⟩
  | none => cases i <;> simp [Request.slot?, PrefetchRing.request, hpop] at hq

/-- By induction on the pops that it takes until both requests are out of the ring. -/
theorem Exposed.alone [Nontrivial P] (n : Nat) : ∀ {s : St P} {q q' : Request}, Exposed k s x d →
    q.slot? k s = some x → q'.slot? k s = some x → q.delivered s = false →
    q.depth + q'.depth ≤ n → q = q' := by
  induction n with
  | zero =>
      intro s q q' h hq hq' hopen hn
      refine h.eq_outside hq hq' hopen ?_ ?_
      · rintro i rfl
        simp [Request.depth] at hn
      · rintro i rfl
        simp [Request.depth] at hn
  | succ n ih =>
      intro s q q' h hq hq' hopen hn
      by_cases hring : ∃ i, q = .queued i ∨ q' = .queued i
      · obtain ⟨y, ring, hpop⟩ : ∃ y ring, s.ring.pop k.prefetchBufferSize = some (y, ring) := by
          obtain ⟨i, rfl | rfl⟩ := hring
          · exact Request.pop_of_queued hq
          · exact Request.pop_of_queued hq'
        obtain ⟨s₁, hs, hq₁, hopen₁⟩ := Request.popped_spec hpop hq
        obtain ⟨s₂, hs₂, hq₂, -⟩ := Request.popped_spec hpop hq'
        obtain rfl : s₁ = s₂ := by simpa using hs.symm.trans hs₂
        have hdepth : (q.popped s).depth + (q'.popped s).depth ≤ n := by
          rw [Request.depth_popped, Request.depth_popped]
          obtain ⟨i, rfl | rfl⟩ := hring <;> simp only [Request.depth] at hn ⊢ <;> omega
        by_contra hne
        exact Request.popped_ne hq hq' hne (ih (h.silent hs rfl) hq₁ hq₂ (hopen₁ hopen) hdepth)
      · exact h.eq_outside hq hq' hopen (fun i hi => hring ⟨i, .inl hi⟩)
          fun i hi => hring ⟨i, .inr hi⟩

theorem Later.delivered (h : Inv s) (hdel : Delivered s) {s₁ : St P} (hl : Later k s s₁) :
    Delivered s₁ := by
  induction hl with
  | refl => exact hdel
  | step hl _ hs ih => exact delivered_step (hl.inv h) ih hs

theorem Retrievable.harmless [Nontrivial P] (h : Inv s) (hc : Current s x d)
    (hroot : (s.tswapTreeRoots x.type).isSome) (hdel : Delivered s) (hr : Retrievable k s x d) :
    Harmless k s x d := by
  refine ⟨hr.carries h hc hroot hdel, ?_, ?_⟩
  · by_cases hv : Vacant s x
    · exact .inl hv
    · exact .inr (hr.noneAhead h hc hv)
  · intro q q' hq hq' hopen
    obtain ⟨s₁, hd, hv⟩ := exists_drained (k := k) h hc
    have hu := hd.unasked h
    have hexposed : Exposed k s₁ x d := by
      refine ⟨hd.later.inv h, hd.current h hc, hv, ?_, hd.later.delivered h hdel,
        hr.later hd.later⟩
      rw [hd.roots h]
      exact hroot
    rw [← hu.slot?] at hq hq'
    rw [← delivered_congr hu.reads] at hopen
    exact Exposed.alone _ hexposed hq hq' hopen (Nat.le_refl _)

/-- The data of a slot is retrievable exactly if no prefetch can bring other data. -/
theorem retrievable_iff_settled [Nontrivial P] (h : Inv s) (hc : Current s x d)
    (hdel : Delivered s) : Retrievable k s x d ↔ Settled k s x d := by
  constructor
  · intro hr
    refine ⟨hc, ?_⟩
    cases hroot : s.tswapTreeRoots x.type with
    | none => exact .inl rfl
    | some t => exact .inr (hr.harmless h hc (by simp [hroot]) hdel)
  · exact fun hset => hset.retrievable h

theorem delivered_of_reachable (h : (tswap P k).Reachable s) : Delivered s := by
  have hboth : Inv s ∧ Delivered s := by
    refine h.invariant (I := fun s => Inv s ∧ Delivered s) ?_ ?_
    · rintro s ⟨disk, jiffies, rfl⟩
      exact ⟨inv_tswapInit disk jiffies, fun b bio hb => by simp [tswapInit] at hb⟩
    · intro s a s' evs hinv hs
      exact ⟨inv_step k (r := (s', evs)) a hinv.1 hs, delivered_step hinv.1 hinv.2 hs⟩
  exact hboth.2

end Memtrade.Tswap
