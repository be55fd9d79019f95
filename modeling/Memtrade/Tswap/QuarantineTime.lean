import Memtrade.Tswap.Calls
import Memtrade.Tswap.DischargePass

/-!
# How long a page is kept in memory

A quarantine time of `v` seconds goes through the 32 bits of an `atomic_t`, a product
with 1000 modulo 2^32 and `msecs_to_jiffies`, which takes an argument with the sign bit
for an unbounded wait. The wait that comes out is compared with the `v` seconds meant.
-/

namespace Memtrade.Tswap

variable {P : Type} {s : St P} {a : Action P} {x : Slot} {e : EntryId} {en : Entry} {k : Kernel}
  {hz v : Nat}

/-- `MAX_JIFFY_OFFSET`: `(LONG_MAX >> 1) - 1`. -/
def maxJiffyOffset : Nat := 2 ^ 62 - 2

/-- The clock of the kernel, `hz` ticks a second; the bounds are those of `jiffies.h`. -/
structure Clock (k : Kernel) (hz : Nat) : Prop where
  lower : 12 ≤ hz
  upper : hz < 12288
  msecs : ∀ m, m.toNat < 2 ^ 31 → (k.msecsToJiffies m).toNat = (m.toNat * hz + 999) / 1000
  negative : ∀ m, 2 ^ 31 ≤ m.toNat → (k.msecsToJiffies m).toNat = maxJiffyOffset

/-- A page is stored at the time `stored` and after some steps, at the time `now` and
under the quarantine time `v`, the thread marks its entry. Both times are ticks since
the start, before the clock wraps. -/
structure Marking (P : Type) (k : Kernel) (v stored now : Nat) where
  s₀ : St P
  s₁ : St P
  s₂ : St P
  s₃ : St P
  reachable : (tswap P k).Reachable s₀
  a : Action P
  evs₁ : List (Event P)
  store : step k s₀ a = some (s₁, evs₁)
  x : Slot
  page : P
  event : .stored x page 0 ∈ evs₁
  storedAt : s₀.jiffies = BitVec.ofNat 64 stored
  e : EntryId
  found : atomicEntryLookupLock s₁ x = some e
  as : List (Action P)
  evs₂ : List (Event P)
  later : (tswap P k).run s₁ as = some (s₂, evs₂)
  quarantineTime : s₂.quarantineTime = (tswapQuarantineTimeStore s₂ v).quarantineTime
  jiffies : s₂.jiffies = BitVec.ofNat 64 now
  /-- The page has not been stored again. -/
  unstamped : (s₂.entries.cell e).map Entry.timeStamp = (s₁.entries.cell e).map Entry.timeStamp
  inMemory : (s₂.entries.cell e).map Entry.state = some .inMemory
  evs₃ : List (Event P)
  scan : step k s₂ .dischargeScan = some (s₃, evs₃)
  inFlight : (s₃.entries.cell e).map Entry.state = some .inFlight
  ordered : stored ≤ now
  unwrapped : now < 2 ^ 63

/-- No page is marked before it has been in memory for more than `v` seconds. -/
def Honoured (P : Type) (k : Kernel) (hz v : Nat) : Prop :=
  ∀ stored now, Marking P k v stored now → v * hz < now - stored

/-! ## The wait in ticks -/

/-- The wait of the thread for the quarantine time `v`. -/
def waitTicks (k : Kernel) (v : Nat) : BitVec 64 := k.msecsToJiffies (BitVec.ofInt 32 v * 1000)

theorem dischargeTime_eq (hv : s.quarantineTime = (tswapQuarantineTimeStore s v).quarantineTime) :
    dischargeTime k s en = en.timeStamp + waitTicks k v := by
  have hstored : s.quarantineTime = BitVec.ofInt 32 v := by
    rw [hv, tswapQuarantineTimeStore, if_pos (Int.natCast_nonneg v)]
  unfold dischargeTime waitTicks
  rw [hstored]

/-- Before the clock wraps the signed comparison is the one of the times. -/
theorem timeAfter_iff {stored now : Nat} {w : BitVec 64} (hle : stored ≤ now) (hnow : now < 2 ^ 63)
    (hw : w.toNat < 2 ^ 63) :
    timeAfter (BitVec.ofNat 64 now) (BitVec.ofNat 64 stored + w) = true ↔
      w.toNat < now - stored := by
  unfold timeAfter
  rw [BitVec.msb_eq_decide, BitVec.toNat_sub, BitVec.toNat_add, BitVec.toNat_ofNat,
    BitVec.toNat_ofNat, decide_eq_true_iff]
  omega

theorem toNat_milliseconds (v : Nat) : (BitVec.ofInt 32 v * 1000).toNat = 1000 * v % 2 ^ 32 := by
  rw [BitVec.ofInt_natCast, BitVec.toNat_mul, BitVec.toNat_ofNat]
  change v % 2 ^ 32 * 1000 % 2 ^ 32 = _
  omega

theorem Clock.waitTicks_lt (hc : Clock k hz) (v : Nat) : (waitTicks k v).toNat < 2 ^ 63 - 1 := by
  have hupper := hc.upper
  unfold waitTicks
  by_cases hm : (BitVec.ofInt 32 (v : Int) * 1000).toNat < 2 ^ 31
  · rw [hc.msecs _ hm]
    have hmul := Nat.mul_le_mul hm.le hupper.le
    omega
  · rw [hc.negative _ (by omega)]
    decide

/-- The values for which the wait is long enough. A product that wraps to a positive
`int` is too small by at least 2^32 milliseconds. -/
theorem Clock.waitTicks_ge_iff (hc : Clock k hz) (v : Nat) :
    v * hz ≤ (waitTicks k v).toNat ↔
      1000 * v < 2 ^ 31 ∨ (2 ^ 31 ≤ 1000 * v % 2 ^ 32 ∧ v * hz ≤ maxJiffyOffset) := by
  have hlower := hc.lower
  unfold waitTicks
  by_cases hm : 1000 * v % 2 ^ 32 < 2 ^ 31
  · have hwait := hc.msecs (BitVec.ofInt 32 v * 1000) (by rw [toNat_milliseconds]; exact hm)
    rw [hwait, toNat_milliseconds]
    by_cases hv : 1000 * v < 2 ^ 31
    · have hmod : 1000 * v % 2 ^ 32 = 1000 * v := Nat.mod_eq_of_lt (by omega)
      have hexact : 1000 * v * hz = 1000 * (v * hz) := Nat.mul_assoc ..
      rw [hmod, hexact]
      simp only [hv, true_or, iff_true]
      omega
    · have hwrap : 1000 * v % 2 ^ 32 + 2 ^ 32 ≤ 1000 * v := by omega
      have hscaled := Nat.mul_le_mul_right hz hwrap
      rw [Nat.add_mul, Nat.mul_assoc] at hscaled
      have hlost : 2 ^ 32 * 12 ≤ 2 ^ 32 * hz := Nat.mul_le_mul_left _ hlower
      omega
  · have hwait := hc.negative (BitVec.ofInt 32 v * 1000) (by rw [toNat_milliseconds]; omega)
    have hv : ¬ 1000 * v < 2 ^ 31 := fun hv => hm ((Nat.mod_le ..).trans_lt hv)
    rw [hwait]
    simp only [hv, false_or, not_lt.mp hm, true_and]

/-! ## Marked pages -/

theorem eq_of_lookup {t : TreeId} {tree : RadixTree} {i : EntryId}
    (hfound : atomicEntryLookupLock s x = some e) (hroot : s.tswapTreeRoots x.type = some t)
    (htree : s.trees t = some tree) (hitem : tree[x.offset]? = some i) : i = e := by
  unfold atomicEntryLookupLock St.radixTreeLookup at hfound
  simp only [hroot, htree, hitem] at hfound
  cases hcell : s.entries.cell i with
  | none => simpa [hcell] using hfound
  | some en =>
      simp only [hcell] at hfound
      split at hfound
      · cases hfound
      · exact Option.some.inj hfound

theorem stamped_of_stepStore {page : P} {transHuge : Bool} {o : StoreOutcome} (h : Inv s)
    (hev : .stored x page 0 ∈ (stepStore k s x page transHuge o).2)
    (hfound : atomicEntryLookupLock (stepStore k s x page transHuge o).1 x = some e) :
    ((stepStore k s x page transHuge o).1.entries.cell e).map Entry.timeStamp =
      some s.jiffies := by
  have hr := inv_storeRecord (inv_touch h x) k x
  unfold stepStore at hev hfound ⊢
  simp only at hev hfound ⊢
  cases transHuge with
  | true => simp [storeReturn, eINVAL] at hev
  | false =>
      simp only [Bool.false_eq_true, if_false] at hev hfound ⊢
      cases hl : atomicEntryLookupLock (storeRecord k (s.touch x) x) x with
      | none => simp [hl] at hev
      | some i =>
          obtain ⟨en, t, tree, p, c, hin, hslot, hroot⟩ := hr.of_lookup hl
          have hvalid := (hr.lifecycle.tree hin.cell hin.root).1
          simp only [hl, storeReturn, List.mem_singleton, Event.stored.injEq, true_and]
            at hev hfound ⊢
          cases hk : o.kmapOk with
          | false =>
              obtain ⟨n, heq⟩ := storeInto_kmapFail hin hvalid page o hk
              simp [heq, eNOMEM] at hev
          | true =>
              obtain ⟨n, heq⟩ := storeInto_ok hin hvalid page o hk
              rw [heq] at hfound ⊢
              have hitem : tree[x.offset]? = some i := by
                rw [← hslot]
                exact hin.item
              have hi : i = e := eq_of_lookup hfound hroot hin.trees hitem
              rw [← hi]
              change ((storeRecord k (s.touch x) x).entries.write i _ |>.cell i).map _ = _
              rw [Heap.cell_write hin.cell, if_pos rfl]
              rfl

theorem stamped_of_storeFresh {page : P} {entryOk : Bool} {o : StoreOutcome} (h : Inv s)
    (hret : (storeFresh s x page entryOk o).2 = 0)
    (hfound : atomicEntryLookupLock (storeFresh s x page entryOk o).1 x = some e) :
    ((storeFresh s x page entryOk o).1.entries.cell e).map Entry.timeStamp = some s.jiffies := by
  cases storeFresh_cases h x page entryOk o with
  | inl hok =>
      obtain ⟨t, tree, n, hroot, htree, -, heq⟩ := hok
      rw [heq] at hfound ⊢
      have hi : s.entries.next = e := by
        apply eq_of_lookup hfound hroot (Function.update_self ..)
        simp
      rw [← hi]
      change ((s.entries.alloc (storedEntry s x t)).cell s.entries.next).map _ = _
      rw [Heap.cell_alloc, if_pos rfl]
      rfl
  | inr hu =>
      have herr := hu.ret
      omega

/-- A store that succeeds stamps the entry of its slot with the clock. -/
theorem stamped_of_stored {r : St P × List (Event P)} {page : P} (h : Inv s)
    (hs : step k s a = some r) (hev : .stored x page 0 ∈ r.2)
    (hfound : atomicEntryLookupLock r.1 x = some e) :
    (r.1.entries.cell e).map Entry.timeStamp = some s.jiffies := by
  have hemits := emits_of_mem hs hev
  cases a <;> simp only [Action.Emits] at hemits
  case store y page' transHuge o =>
    obtain ⟨rfl, rfl⟩ := hemits
    obtain ⟨-, rfl⟩ := step_store.mp hs
    exact stamped_of_stepStore h hev hfound
  case storeMissed y entryOk o =>
    subst hemits
    obtain ⟨page', -, rfl⟩ := step_storeMissed.mp hs
    simp only [storeReturn, List.mem_singleton, Event.stored.injEq, true_and] at hev
    exact stamped_of_storeFresh (inv_touch h y) hev.2.symm hfound

theorem expired_of_marked {r : St P × List (Event P)} (h : Inv s)
    (hs : step k s .dischargeScan = some r) (hcell : s.entries.cell e = some en)
    (hst : en.state = .inMemory) (hmarked : (r.1.entries.cell e).map Entry.state = some .inFlight) :
    timeAfter s.jiffies (dischargeTime k s en) = true := by
  obtain ⟨n, -, rfl⟩ := step_dischargeScan.mp hs
  have hkept : s.entries.cell e = (dischargeScan k s n).entries.cell e → False := by
    intro hsame
    rw [← hsame, hcell, Option.map_some, hst] at hmarked
    cases hmarked
  rcases dischargeScan_cases h k n with heq | ⟨i, rest, m, -, heq⟩ | hsel
  · rw [heq] at hkept
    exact (hkept rfl).elim
  · rw [heq] at hkept
    exact (hkept rfl).elim
  · obtain ⟨i, rest, eni, t, tree, p, c, -, hin, -, hexpired, heq⟩ := hsel
    by_cases hi : e = i
    · subst hi
      obtain rfl := Option.some.inj (hin.cell.symm.trans hcell)
      exact hexpired
    · rw [heq] at hkept
      refine (hkept ?_).elim
      change _ = (s.entries.write i _).cell e
      rw [Heap.cell_write hin.cell, if_neg hi]

theorem Marking.waited {stored now : Nat} (hc : Clock k hz) (m : Marking P k v stored now) :
    (waitTicks k v).toNat < now - stored := by
  obtain ⟨tr, hexec⟩ := m.reachable
  have h₂ : Inv m.s₂ := by
    have hexec₁ := hexec.step trivial m.store
    apply inv_of_reachable
    exact ⟨_, hexec₁.append_run (System.meets_of_forall (fun _ _ _ => trivial) _) m.later⟩
  have hstamp := stamped_of_stored (inv_of_reachable m.reachable) m.store m.event m.found
  rw [← m.unstamped, m.storedAt] at hstamp
  obtain ⟨en, hcell, hst⟩ := Option.map_eq_some_iff.mp m.inMemory
  rw [hcell, Option.map_some, Option.some.injEq] at hstamp
  have hexpired := expired_of_marked h₂ m.scan hcell hst m.inFlight
  rw [dischargeTime_eq m.quarantineTime, m.jiffies, hstamp] at hexpired
  have hlt := hc.waitTicks_lt v
  exact (timeAfter_iff m.ordered m.unwrapped (by omega)).mp hexpired

/-! ## A page that is marked as soon as possible -/

/-- The entry that the store leaves. -/
def earliestEntry : Entry := ⟨.inMemory, 0, 7, some ⟨0, 0⟩, 0, some 0⟩

/-- The quarantine time is set, one tick more than the wait passes and the thread starts. -/
def dueActions (P : Type) (k : Kernel) (v : Nat) : List (Action P) :=
  [.quarantineTimeStore v, .tick (waitTicks k v + 1), .dischargeOuter]

def due (k : Kernel) (v : Nat) (s : St P) : St P :=
  { s with
    quarantineTime := BitVec.ofInt 32 v
    jiffies := waitTicks k v + 1
    discharge := .scan 1 }

theorem due_quarantineTime :
    (due k v s).quarantineTime = (tswapQuarantineTimeStore (due k v s) v).quarantineTime := by
  rw [tswapQuarantineTimeStore, if_pos (Int.natCast_nonneg v)]
  rfl

theorem due_jiffies : (due k v s).jiffies = BitVec.ofNat 64 ((waitTicks k v).toNat + 1) := by
  apply BitVec.eq_of_toNat_eq
  change (waitTicks k v + 1).toNat = _
  rw [BitVec.toNat_ofNat, BitVec.toNat_add]
  rfl

theorem due_expired (hc : Clock k hz) (v : Nat) (s : St P) :
    timeAfter (due k v s).jiffies (dischargeTime k (due k v s) earliestEntry) = true := by
  have hlt := hc.waitTicks_lt v
  have hstamp : earliestEntry.timeStamp = BitVec.ofNat 64 0 := rfl
  rw [dischargeTime_eq due_quarantineTime, due_jiffies, hstamp]
  apply (timeAfter_iff (Nat.zero_le _) (by omega) (by omega)).mpr
  omega

section Earliest

variable (P) [Inhabited P] (k)

/-- The type of the sample slot has been set up, at the time 0. -/
def earliestInit : St P :=
  tswapFrontswapInit ((tswapInit (fun _ => default) 0).touchType 0) 0 true

/-- A store of the slot has got past its lookup. -/
def earliestStart : St P :=
  (storeRecord k ((earliestInit P).touch sampleSlot) sampleSlot).setPending sampleSlot
    (some (.storeMissed default))

theorem earliestStart_reachable : (tswap P k).Reachable (earliestStart P k) := by
  have hstep₁ : step k (tswapInit (fun _ => default) 0) (.frontswapInit 0 true) =
      some (earliestInit P, []) := step_frontswapInit.mpr ⟨⟨rfl, rfl⟩, rfl⟩
  have hmissed : atomicEntryLookupLock
      (storeRecord k ((earliestInit P).touch sampleSlot) sampleSlot) sampleSlot = none := rfl
  have hstep₂ : step k (earliestInit P) (.store sampleSlot default false allOk) =
      some (earliestStart P k, []) := by
    apply step_store.mpr
    refine ⟨rfl, ?_⟩
    simp [stepStore, hmissed, earliestStart]
  have hfinal : (tswap P k).final (tswapInit (fun _ => default) 0)
      [.frontswapInit 0 true, .store sampleSlot default false allOk] = earliestStart P k := by
    simp only [System.final, System.run, tswap, hstep₁, hstep₂]
    rfl
  have hinit : (tswap P k).init (tswapInit (fun _ => default) 0) := ⟨_, _, rfl⟩
  rw [← hfinal]
  exact System.reachable_final hinit _

theorem earliest_storeFresh :
    ∃ stat, storeFresh ((earliestStart P k).touch sampleSlot) sampleSlot default true allOk =
      ({ (earliestStart P k).touch sampleSlot with
          entries := Heap.empty.alloc earliestEntry
          pages := Heap.empty.alloc (some default)
          trees := Function.update (earliestStart P k).trees ⟨0, 0⟩ (some (Std.TreeMap.insert ∅ 7 0))
          quarantineList := [0]
          stat := stat }, 0) ∧ stat.lenQuarantineList = 1 := by
  have h : Inv ((earliestStart P k).touch sampleSlot) :=
    inv_touch (inv_of_reachable (earliestStart_reachable P k)) sampleSlot
  have hroot : ((earliestStart P k).touch sampleSlot).tswapTreeRoots 0 = some ⟨0, 0⟩ := rfl
  have htree : ((earliestStart P k).touch sampleSlot).trees ⟨0, 0⟩ = some ∅ := rfl
  have hitem : (∅ : RadixTree)[sampleSlot.offset]? = none := Std.TreeMap.getElem?_emptyc
  have hok : allOk.pageOk = true ∧ allOk.kmapOk = true ∧ allOk.nodeOk = true := by decide
  obtain ⟨n, heq⟩ := storeFresh_ok h hroot htree hitem default hok.1 hok.2.1 hok.2.2
  exact ⟨_, heq, rfl⟩

/-- What the store leaves: a list of one member, which the lookup finds. -/
structure EarliestStored (s : St P) : Prop where
  step : step k (earliestStart P k) (.storeMissed sampleSlot true allOk) =
    some (s, [.stored sampleSlot default 0])
  cell : s.entries.cell 0 = some earliestEntry
  found : atomicEntryLookupLock s sampleSlot = some 0
  list : s.quarantineList = [0]
  len : s.stat.lenQuarantineList = 1
  discharge : s.discharge = .outer

theorem earliestStored : ∃ s : St P, EarliestStored P k s := by
  obtain ⟨stat, heq, hlen⟩ := earliest_storeFresh P k
  refine ⟨(storeReturn (storeFresh ((earliestStart P k).touch sampleSlot) sampleSlot default true
    allOk) sampleSlot default).1, ?_⟩
  rw [heq]
  refine ⟨?_, rfl, rfl, rfl, hlen, rfl⟩
  apply step_storeMissed.mpr
  refine ⟨default, rfl, ?_⟩
  rw [heq]
  rfl

variable {P k}

theorem EarliestStored.run (h : EarliestStored P k s) (v : Nat) :
    (tswap P k).run s (dueActions P k v) = some (due k v s, []) := by
  simp [System.run, tswap, dueActions, Tswap.step, tswapQuarantineTimeStore, h.discharge, h.len, due]

def EarliestStored.marking (h : EarliestStored P k s) (hc : Clock k hz) (v : Nat) :
    Marking P k v 0 ((waitTicks k v).toNat + 1) where
  s₀ := earliestStart P k
  s₁ := s
  s₂ := due k v s
  s₃ := dischargeScan k (due k v s) 1
  reachable := earliestStart_reachable P k
  a := .storeMissed sampleSlot true allOk
  evs₁ := [.stored sampleSlot default 0]
  store := h.step
  x := sampleSlot
  page := default
  event := List.mem_singleton_self _
  storedAt := rfl
  e := 0
  found := h.found
  as := dueActions P k v
  evs₂ := []
  later := h.run v
  quarantineTime := due_quarantineTime
  jiffies := due_jiffies
  unstamped := rfl
  inMemory := by
    change (s.entries.cell 0).map Entry.state = _
    rw [h.cell]
    rfl
  evs₃ := []
  scan := rfl
  inFlight := by
    have hcell : (due k v s).entries.cell 0 = some earliestEntry := h.cell
    have hlist : (due k v s).quarantineList = [0] := h.list
    have hmarks := dischargeScan_marks one_pos hlist hcell rfl (due_expired hc v s)
    rw [hmarks.entries, Heap.cell_write hcell, if_pos rfl]
    rfl
  ordered := Nat.zero_le _
  unwrapped := by
    have hlt := hc.waitTicks_lt v
    omega

theorem marking_earliest (P : Type) [Inhabited P] (hc : Clock k hz) (v : Nat) :
    Nonempty (Marking P k v 0 ((waitTicks k v).toNat + 1)) := by
  obtain ⟨s, h⟩ := earliestStored P k
  exact ⟨h.marking hc v⟩

end Earliest

/-- A quarantine time is honoured exactly if its milliseconds are a positive `int`, or if
they wrap to a negative one and the unbounded wait is long enough. -/
theorem honoured_iff [Inhabited P] (hc : Clock k hz) (v : Nat) :
    Honoured P k hz v ↔
      1000 * v < 2 ^ 31 ∨ (2 ^ 31 ≤ 1000 * v % 2 ^ 32 ∧ v * hz ≤ maxJiffyOffset) := by
  rw [← hc.waitTicks_ge_iff v]
  constructor
  · intro hall
    obtain ⟨m⟩ := marking_earliest P hc v
    have hearly := hall 0 _ m
    omega
  · intro hwait stored now m
    have hmarked := m.waited hc
    omega

/-- The clock of a kernel with 250 ticks a second. -/
def hz250Kernel : Kernel where
  prefetchBufferSize := 4
  msecsToJiffies := fun m =>
    if m.toNat < 2 ^ 31 then BitVec.ofNat 64 ((m.toNat * 250 + 999) / 1000)
    else BitVec.ofNat 64 maxJiffyOffset
  swapSlotFreeNotify := fun _ => false

theorem hz250Kernel_clock : Clock hz250Kernel 250 where
  lower := by decide
  upper := by decide
  msecs m hm := by
    unfold hz250Kernel
    simp only [hm, if_true, BitVec.toNat_ofNat]
    omega
  negative m hm := by
    unfold hz250Kernel
    simp only [not_lt.mpr hm, if_false]
    rfl

theorem honoured_default : Honoured Nat hz250Kernel 250 300 :=
  (honoured_iff hz250Kernel_clock 300).mpr (.inl (by decide))

/-- 4294968 seconds are some 50 days. Their milliseconds wrap to 704, so a page is marked
177 ticks after it was stored. -/
theorem quarantineTime_wraps : ¬ ∀ v : Nat, v < 2 ^ 63 → Honoured Nat hz250Kernel 250 v := by
  intro hall
  obtain ⟨m⟩ := marking_earliest Nat hz250Kernel_clock 4294968
  have hearly := hall 4294968 (by decide) 0 _ m
  have hwait : (waitTicks hz250Kernel 4294968).toNat = 176 := by decide
  rw [hwait] at hearly
  omega

end Memtrade.Tswap
