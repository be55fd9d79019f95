import Memtrade.Tswap.Reachable

/-!
# Safety of tswap in every reachable state

The three accounts a run of tswap has to keep: discharges outstanding per entry,
membership of the quarantine list, and the census counters with the page buffers
behind them.
-/

namespace Memtrade.Tswap

variable {P : Type} {k : Kernel} {s : St P}

instance : Fintype EntryState where
  elems := {.invalid, .zombie, .inMemory, .inMemoryFollowedByZombie, .inFlight}
  complete a := by cases a <;> decide

theorem Inv.of_item (h : Inv s) {t : TreeId} {tree : RadixTree} {off : Nat} {e : EntryId}
    (htree : s.trees t = some tree) (hitem : tree[off]? = some e) :
    ∃ en, s.entries.cell e = some en ∧ en.state ≠ .invalid ∧
      outstanding s e = en.state.outstanding ∧ s.quarantineList.count e = en.state.listed := by
  obtain ⟨en, hcell, hroot, -⟩ := h.index.sound t tree off e htree hitem
  obtain ⟨hvalid, hout, hlist, -⟩ := h.lifecycle.tree hcell hroot
  exact ⟨en, hcell, hvalid, hout, hlist⟩

theorem Inv.not_fault (h : Inv s) {f : Fault} (hf : f ≠ .bugOnInvalidateArea) : f ∉ s.faults :=
  fun hmem => hf (h.faults f hmem)

/-! ## Outstanding discharges -/

/-- A tree entry has one discharge outstanding in the states that stand for a
write in progress and none in memory; an entry with a discharge outstanding is
never released; the handlers of a discharge never meet a state they do not
expect. -/
theorem outstanding_of_reachable (hs : (tswap P k).Reachable s) :
    (∀ t (tree : RadixTree) (off : Nat) e, s.trees t = some tree → tree[off]? = some e →
      ∃ en, s.entries.cell e = some en ∧
        ((en.state = .inMemory ∧ outstanding s e = 0) ∨
          ((en.state = .inFlight ∨ en.state = .zombie ∨
            en.state = .inMemoryFollowedByZombie) ∧ outstanding s e = 1))) ∧
    (∀ e, 0 < outstanding s e → (s.entries.cell e).isSome) ∧
    Fault.bugDischargeEnd ∉ s.faults ∧ Fault.bugDischargeFail ∉ s.faults ∧
    Fault.useAfterFree ∉ s.faults := by
  have h := inv_of_reachable hs
  refine ⟨?_, ?_, h.not_fault (by simp), h.not_fault (by simp), h.not_fault (by simp)⟩
  · intro t tree off e htree hitem
    obtain ⟨en, hcell, hvalid, hout, -⟩ := h.of_item htree hitem
    refine ⟨en, hcell, ?_⟩
    cases hst : en.state <;> simp_all [EntryState.outstanding]
  · intro e he
    obtain ⟨en, t, tree, p, c, hin, -⟩ := h.of_outstanding he
    rw [hin.cell]
    rfl

/-- The sample page after its write has been submitted. -/
def sampleInFlight : St Nat :=
  (tswap Nat sampleKernel).final sampleStart (sampleStore ++ sampleDischarge)

theorem sampleInFlight_reachable : (tswap Nat sampleKernel).Reachable sampleInFlight :=
  System.reachable_final sampleStart_init _

theorem outstanding_sampleInFlight :
    outstanding sampleInFlight 0 = 1 ∧ Fault.bugDischargeEnd ∉ sampleInFlight.faults :=
  ⟨by decide, (outstanding_of_reachable sampleInFlight_reachable).2.2.1⟩

/-! ## The quarantine list -/

/-- The in-memory states stand on the list once, the others never; every member
is such a tree entry; the length counter is exact; the discharge thread never
meets a member it must not select. -/
theorem quarantine_of_reachable (hs : (tswap P k).Reachable s) :
    (∀ t (tree : RadixTree) (off : Nat) e, s.trees t = some tree → tree[off]? = some e →
      ∃ en, s.entries.cell e = some en ∧
        (((en.state = .inMemory ∨ en.state = .inMemoryFollowedByZombie) ∧
            s.quarantineList.count e = 1) ∨
          ((en.state = .zombie ∨ en.state = .inFlight) ∧ e ∉ s.quarantineList))) ∧
    (∀ e ∈ s.quarantineList, ∃ en t tree, s.entries.cell e = some en ∧
      s.trees t = some tree ∧ tree[en.offset]? = some e ∧
      (en.state = .inMemory ∨ en.state = .inMemoryFollowedByZombie)) ∧
    s.stat.lenQuarantineList = s.quarantineList.length ∧
    Fault.bugDischargeSelect ∉ s.faults := by
  have h := inv_of_reachable hs
  refine ⟨?_, ?_, h.len, h.not_fault (by simp)⟩
  · intro t tree off e htree hitem
    obtain ⟨en, hcell, hvalid, -, hlist⟩ := h.of_item htree hitem
    refine ⟨en, hcell, ?_⟩
    cases hst : en.state <;> simp_all [EntryState.listed, List.count_eq_zero]
  · intro e he
    obtain ⟨en, t, tree, p, c, hin, hst⟩ := h.listed he
    exact ⟨en, t, tree, hin.cell, hin.trees, hin.item, hst⟩

theorem quarantine_sampleInFlight :
    sampleInFlight.stat.nrInFlightPage = 1 ∧
      sampleInFlight.stat.lenQuarantineList = sampleInFlight.quarantineList.length :=
  ⟨by decide, (quarantine_of_reachable sampleInFlight_reachable).2.2.1⟩

/-! ## The census -/

/-- No live entry is invalid between two steps. -/
theorem Inv.count_invalid (h : Inv s) : s.entries.count (fun en => en.state == .invalid) = 0 := by
  have := h.census .invalid
  simp only [Stat.census] at this
  omega

/-- The four counters partition the live entries, and each of these owns one
page buffer. -/
theorem Inv.census_sum (h : Inv s) :
    s.stat.nrZombiePage + s.stat.nrInMemoryPage + s.stat.nrInMemoryZombiePage +
      s.stat.nrInFlightPage = s.pages.count fun _ => true := by
  have hz : s.stat.nrZombiePage = _ := h.census .zombie
  have hm : s.stat.nrInMemoryPage = _ := h.census .inMemory
  have hmz : s.stat.nrInMemoryZombiePage = _ := h.census .inMemoryFollowedByZombie
  have hf : s.stat.nrInFlightPage = _ := h.census .inFlight
  have hall : (Finset.univ : Finset EntryState) =
      {.invalid, .zombie, .inMemory, .inMemoryFollowedByZombie, .inFlight} := rfl
  have hsplit := s.entries.count_fibers fun en => en.state
  simp only [hall, Finset.mem_insert, Finset.mem_singleton, reduceCtorEq, or_self,
    not_false_eq_true, Finset.sum_insert, Finset.sum_singleton, h.count_invalid] at hsplit
  rw [hz, hm, hmz, hf, h.pages.count, hsplit]
  omega

/-- The counters are the numbers of live entries per state, their sum is the
number of allocated page buffers, and no buffer is released twice or lost. -/
theorem census_of_reachable (hs : (tswap P k).Reachable s) :
    s.stat.nrZombiePage = s.entries.count (fun en => en.state == .zombie) ∧
    s.stat.nrInMemoryPage = s.entries.count (fun en => en.state == .inMemory) ∧
    s.stat.nrInMemoryZombiePage =
      s.entries.count (fun en => en.state == .inMemoryFollowedByZombie) ∧
    s.stat.nrInFlightPage = s.entries.count (fun en => en.state == .inFlight) ∧
    s.stat.nrZombiePage + s.stat.nrInMemoryPage + s.stat.nrInMemoryZombiePage +
      s.stat.nrInFlightPage = s.pages.count (fun _ => true) ∧
    s.pages.FreedOnce ∧ Fault.doubleFree ∉ s.faults := by
  have h := inv_of_reachable hs
  exact ⟨h.census .zombie, h.census .inMemory, h.census .inMemoryFollowedByZombie,
    h.census .inFlight, h.census_sum, h.pages.freed, h.not_fault (by simp)⟩

theorem census_sampleInFlight :
    sampleInFlight.pages.count (fun _ => true) = 1 ∧ sampleInFlight.pages.FreedOnce :=
  ⟨by decide, (census_of_reachable sampleInFlight_reachable).2.2.2.2.2.1⟩

end Memtrade.Tswap
