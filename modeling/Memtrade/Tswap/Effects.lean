import Memtrade.Tswap.Preservation

/-!
# What each critical section does

The exact result of every operation on an entry. The census counters move by one
decrement and one increment, the quarantine list by one removal and at most one
append, whatever branch the code takes; the equations below say so, and later
proofs use them instead of looking into the operations.
-/

namespace Memtrade.Tswap

variable {P : Type} {s : St P} {e : EntryId} {en : Entry} {t : TreeId} {tree : RadixTree}
  {p : PageId} {c : Option P}

/-! ## Counters and list length -/

def Stat.dec (st : Stat) : EntryState → Stat
  | .invalid => st
  | .zombie => { st with nrZombiePage := st.nrZombiePage - 1 }
  | .inMemory => { st with nrInMemoryPage := st.nrInMemoryPage - 1 }
  | .inMemoryFollowedByZombie => { st with nrInMemoryZombiePage := st.nrInMemoryZombiePage - 1 }
  | .inFlight => { st with nrInFlightPage := st.nrInFlightPage - 1 }

def Stat.inc (st : Stat) : EntryState → Stat
  | .invalid => st
  | .zombie => { st with nrZombiePage := st.nrZombiePage + 1 }
  | .inMemory => { st with nrInMemoryPage := st.nrInMemoryPage + 1 }
  | .inMemoryFollowedByZombie => { st with nrInMemoryZombiePage := st.nrInMemoryZombiePage + 1 }
  | .inFlight => { st with nrInFlightPage := st.nrInFlightPage + 1 }

theorem Stat.census_dec (st : Stat) {a : EntryState} (ha : a ≠ .invalid) (b : EntryState) :
    (st.dec a).census b + a.mark b = st.census b := by
  cases a <;> cases b <;> simp_all [Stat.dec, Stat.census, EntryState.mark]

theorem Stat.census_inc (st : Stat) {a : EntryState} (ha : a ≠ .invalid) (b : EntryState) :
    (st.inc a).census b = st.census b + a.mark b := by
  cases a <;> cases b <;> simp_all [Stat.inc, Stat.census, EntryState.mark]

@[simp] theorem Stat.dec_len (st : Stat) (a : EntryState) :
    (st.dec a).lenQuarantineList = st.lenQuarantineList := by
  cases a <;> rfl

/-- The list length after taking `e` off the list. -/
def St.lenWithout (s : St P) (e : EntryId) : Int :=
  if e ∈ s.quarantineList then s.stat.lenQuarantineList - 1 else s.stat.lenQuarantineList

/-- The list length after moving or putting `e` at the end. -/
def St.lenWith (s : St P) (e : EntryId) : Int :=
  if e ∈ s.quarantineList then s.stat.lenQuarantineList else s.stat.lenQuarantineList + 1

theorem atomicEntryQuarantine_eq (s : St P) (e : EntryId) :
    atomicEntryQuarantine s e =
      { s with
        quarantineList := s.quarantineList.erase e ++ [e]
        stat.lenQuarantineList := s.lenWith e } := by
  by_cases he : e ∈ s.quarantineList
  · simp [atomicEntryQuarantine, St.lenWith, he]
  · simp [atomicEntryQuarantine, St.lenWith, he, List.erase_of_not_mem he]

theorem atomicEntryDequarantine_eq (s : St P) (e : EntryId) :
    atomicEntryDequarantine s e =
      { s with
        quarantineList := s.quarantineList.erase e
        stat.lenQuarantineList := s.lenWithout e } := by
  by_cases he : e ∈ s.quarantineList
  · simp [atomicEntryDequarantine, St.lenWithout, he]
  · simp [atomicEntryDequarantine, St.lenWithout, he, List.erase_of_not_mem he]

theorem count_requeue {l : List EntryId} (hl : l.count e ≤ 1) (i : EntryId) :
    (l.erase e ++ [e]).count i = if i = e then 1 else l.count i := by
  rw [List.count_append]
  by_cases hi : i = e
  · subst hi
    rw [if_pos rfl, List.count_erase_self, List.count_singleton_self]
    omega
  · rw [if_neg hi, List.count_erase_of_ne hi, List.count_singleton]
    simp [Ne.symm hi]

theorem lenWith_eq (hlen : s.stat.lenQuarantineList = s.quarantineList.length) :
    s.lenWith e = (s.quarantineList.erase e ++ [e]).length := by
  unfold St.lenWith
  rw [List.length_append, List.length_erase, hlen]
  split
  · rename_i hmem
    have := List.length_pos_of_mem hmem
    simp only [List.length_singleton]
    omega
  · simp

theorem lenWithout_eq (hlen : s.stat.lenQuarantineList = s.quarantineList.length) :
    s.lenWithout e = (s.quarantineList.erase e).length := by
  unfold St.lenWithout
  rw [List.length_erase, hlen]
  split
  · rename_i hmem
    have := List.length_pos_of_mem hmem
    omega
  · rfl

/-! ## Giving up an entry -/

/-- The state in which a tree entry and its page are gone. -/
def St.without (s : St P) (e : EntryId) (p : PageId) (t : TreeId) (tree : RadixTree) : St P :=
  { s with
    entries := s.entries.free e
    pages := s.pages.free p
    trees := Function.update s.trees t (some tree) }

theorem reapEntry_eq (hin : InTree s e en t tree p c) :
    reapEntry s e en = s.without e p t (tree.erase en.offset) := by
  rcases en with ⟨st, ty, off, root, ts, data⟩
  obtain ⟨hcell, rfl, htree, hitem, rfl, hpage⟩ := hin
  simp only at hitem
  simp [reapEntry, St.setEntry, St.kfreeData, deleteCounted, atomicEntryDelete, St.kfreeEntry,
    htree, hitem, hpage, Heap.cell_write hcell, Heap.write_write, Heap.free_write, St.without]

theorem dropEntry_of_inMemory (hin : InTree s e en t tree p c) (hst : en.state = .inMemory) :
    dropEntry s e =
      { s.without e p t (tree.erase en.offset) with
        quarantineList := s.quarantineList.erase e
        stat := { s.stat.dec .inMemory with lenQuarantineList := s.lenWithout e } } := by
  rcases en with ⟨st, ty, off, root, ts, data⟩
  obtain ⟨hcell, rfl, htree, hitem, rfl, hpage⟩ := hin
  simp only at hitem hst
  subst hst
  simp [dropEntry, invalidateEntryStruct, St.setEntry, St.kfreeData, atomicEntryDequarantine_eq,
    St.withEntry, deleteCounted, atomicEntryDelete, St.kfreeEntry, hcell, htree, hitem, hpage,
    Heap.cell_write hcell, Heap.write_write, Heap.free_write, St.without, St.lenWithout, Stat.dec]

theorem dropEntry_of_outstanding (hin : InTree s e en t tree p c)
    (hst : en.state.outstanding = 1) :
    dropEntry s e =
      { s with
        entries := s.entries.write e { en with state := .zombie }
        quarantineList := s.quarantineList.erase e
        stat := { (s.stat.dec en.state).inc .zombie with lenQuarantineList := s.lenWithout e } } := by
  rcases en with ⟨st, ty, off, root, ts, data⟩
  have hcell := hin.cell
  cases st <;> simp only [EntryState.outstanding] at hst <;> try omega
  all_goals
    simp [dropEntry, invalidateEntryStruct, St.setEntry, atomicEntryDequarantine_eq, St.withEntry,
      hcell, Heap.cell_write hcell, Heap.write_self hcell, St.lenWithout, Stat.dec, Stat.inc]

/-! ## Storing into an entry of the tree -/

/-- The state after new contents were copied in. -/
def EntryState.filled : EntryState → EntryState
  | .inMemory => .inMemory
  | _ => .inMemoryFollowedByZombie

/-- A write of page `p` in flight no longer determines the device. -/
def markModified (p : PageId) (b : WriteBio) : WriteBio :=
  if b.page = p then { b with modified := true } else b

theorem storeInto_ok (hin : InTree s e en t tree p c) (hst : en.state ≠ .invalid) (page : P)
    (o : StoreOutcome) (hk : o.kmapOk = true) :
    ∃ n, storeInto s e true page o =
      ({ s with
          entries := s.entries.write e { en with state := en.state.filled, timeStamp := s.jiffies }
          pages := s.pages.write p (some page)
          writes := s.writes.map (markModified p)
          quarantineList := s.quarantineList.erase e ++ [e]
          stat := { (s.stat.dec en.state).inc en.state.filled with
            lenQuarantineList := s.lenWith e
            nrOverwriteStore := n } }, 0) := by
  rcases en with ⟨st, ty, off, root, ts, data⟩
  obtain ⟨hcell, rfl, htree, hitem, rfl, hpage⟩ := hin
  refine ⟨if st = .zombie then s.stat.nrOverwriteStore else s.stat.nrOverwriteStore + 1, ?_⟩
  cases st <;> simp only [ne_eq, not_true_eq_false] at hst
  all_goals
    simp [storeInto, invalidateEntryStruct, St.setEntry, storeRevive, storeCopy, St.memcpyToData,
      atomicEntryQuarantine_eq, St.withEntry, hcell, hk, Heap.cell_write hcell, Heap.write_write,
      St.lenWith, Stat.dec, Stat.inc, EntryState.filled]
    rfl

/-- A store that cannot map its page gives the entry up like a load does. -/
theorem storeInto_kmapFail (hin : InTree s e en t tree p c) (hst : en.state ≠ .invalid) (page : P)
    (o : StoreOutcome) (hk : o.kmapOk = false) :
    ∃ n, storeInto s e true page o =
      (dropEntry { s with
        stat.nrKmapFail := s.stat.nrKmapFail + 1
        stat.nrOverwriteStore := n } e, eNOMEM) := by
  rcases en with ⟨st, ty, off, root, ts, data⟩
  obtain ⟨hcell, rfl, htree, hitem, rfl, hpage⟩ := hin
  simp only at hitem
  refine ⟨if st = .zombie then s.stat.nrOverwriteStore else s.stat.nrOverwriteStore + 1, ?_⟩
  cases st <;> simp only [ne_eq, not_true_eq_false] at hst
  all_goals
    simp [storeInto, invalidateEntryStruct, St.setEntry, storeFreeMem, storeFreeEntry, dropEntry,
      St.kfreeData, deleteCounted, atomicEntryDelete, St.kfreeEntry, htree, hitem, hpage,
      atomicEntryDequarantine_eq, St.withEntry, hcell, hk, Heap.cell_write hcell,
      Heap.write_write, Heap.free_write, St.lenWithout]

/-! ## Storing into a new entry -/

/-- The entry a successful fresh store leaves in the tree `t`. -/
def storedEntry (s : St P) (x : Slot) (t : TreeId) : Entry where
  state := .inMemory
  type := x.type
  offset := x.offset
  tswapTreeRoot := some t
  timeStamp := s.jiffies
  data := some s.pages.next

theorem Inv.writes_page_ne (h : Inv s) {b : BioId} {bio : WriteBio}
    (hb : s.writes.cell b = some bio) : bio.page ≠ s.pages.next := by
  have hpos : 0 < s.writes.count fun b' => b'.entry == bio.entry := Heap.count_pos hb (by simp)
  cases he : s.entries.cell bio.entry with
  | none =>
      have := (h.lifecycle.dead he).1
      unfold outstanding at this
      omega
  | some en =>
      obtain ⟨q, d, hq, hd⟩ := h.pages.owned _ en he
      have hpage := (h.bios.writes b bio en hb he).1
      obtain rfl := Option.some.inj (hpage.symm.trans hq)
      exact Nat.ne_of_lt (Heap.lt_next hd)

theorem Inv.map_markModified_next (h : Inv s) :
    s.writes.map (markModified s.pages.next) = s.writes := by
  apply Heap.map_eq_self
  intro b bio hb
  simp [markModified, h.writes_page_ne hb]

theorem storeFresh_ok (h : Inv s) {x : Slot} (hroot : s.tswapTreeRoots x.type = some t)
    (htree : s.trees t = some tree) (hitem : tree[x.offset]? = none) (page : P)
    {o : StoreOutcome} (hp : o.pageOk = true) (hk : o.kmapOk = true) (hn : o.nodeOk = true) :
    ∃ n, storeFresh s x page true o =
      ({ s with
          entries := s.entries.alloc (storedEntry s x t)
          pages := s.pages.alloc (some page)
          trees := Function.update s.trees t (some (tree.insert x.offset s.entries.next))
          quarantineList := s.quarantineList.erase s.entries.next ++ [s.entries.next]
          stat := { s.stat.inc .inMemory with
            lenQuarantineList := s.lenWith s.entries.next
            nrOverwriteStore := n } }, 0) := by
  refine ⟨s.stat.nrOverwriteStore, ?_⟩
  have hmap : s.writes.map (fun b =>
      if b.page = s.pages.next then { b with modified := true } else b) = s.writes :=
    h.map_markModified_next
  simp [storeFresh, storeInto, newEntry, invalidateEntryStruct, Heap.cell_alloc, hp, hk, hn,
    kmallocData, St.withEntry, St.setEntry, Heap.alloc_write, storeCopy, storeRevive,
    St.memcpyToData, atomicEntryInsert, hroot, htree, hitem, atomicEntryQuarantine_eq, St.lenWith,
    Stat.inc, storedEntry, hmap]

theorem Inv.next_not_listed (h : Inv s) : s.entries.next ∉ s.quarantineList := by
  have := (h.lifecycle.dead (Heap.cell_next s.entries)).2.1
  exact List.count_eq_zero.mp this

/-- What is left of allocations that were undone: used-up addresses and event
counters. -/
def Undone (s s' : St P) : Prop :=
  ∃ entries pages stat, s' = { s with entries := entries, pages := pages, stat := stat } ∧
    entries.cell = s.entries.cell ∧ pages.cell = s.pages.cell ∧ Pages s.entries pages ∧
    (∀ st, stat.census st = s.stat.census st) ∧
    stat.lenQuarantineList = s.stat.lenQuarantineList

/-- How a fresh store fails. -/
structure StoreUndone (s : St P) (r : St P × Int) : Prop where
  ret : r.2 < 0
  state : Undone s r.1

theorem storeFresh_entryFail (h : Inv s) (x : Slot) (page : P) (o : StoreOutcome) :
    StoreUndone s (storeFresh s x page false o) :=
  ⟨by simp [storeFresh, eNOMEM], s.entries, s.pages, _, rfl, rfl, rfl, h.pages,
    fun st => by cases st <;> rfl, rfl⟩

theorem storeFresh_pageFail (h : Inv s) (x : Slot) (page : P) {o : StoreOutcome}
    (hp : o.pageOk = false) : StoreUndone s (storeFresh s x page true o) := by
  have heq : storeFresh s x page true o =
      ({ s with
          entries := s.entries.burn
          stat.nrMallocFail := s.stat.nrMallocFail + 1 }, eNOMEM) := by
    simp [storeFresh, storeInto, newEntry, invalidateEntryStruct, Heap.cell_alloc, hp,
      St.withEntry, storeFreeEntry, St.kfreeEntry, atomicEntryDequarantine, h.next_not_listed,
      Heap.alloc_free]
  rw [heq]
  exact ⟨by simp [eNOMEM], s.entries.burn, s.pages, _, rfl, rfl, rfl, h.pages,
    fun st => by cases st <;> rfl, rfl⟩

theorem storeFresh_kmapFail (h : Inv s) (x : Slot) (page : P) {o : StoreOutcome}
    (hp : o.pageOk = true) (hk : o.kmapOk = false) :
    StoreUndone s (storeFresh s x page true o) := by
  have heq : storeFresh s x page true o =
      ({ s with
          entries := s.entries.burn
          pages := s.pages.burn
          stat.nrKmapFail := s.stat.nrKmapFail + 1 }, eNOMEM) := by
    simp [storeFresh, storeInto, newEntry, invalidateEntryStruct, Heap.cell_alloc, hp, hk,
      kmallocData, St.withEntry, St.setEntry, Heap.alloc_write, storeFreeMem, storeFreeEntry,
      St.kfreeData, St.kfreeEntry, atomicEntryDequarantine, h.next_not_listed, Heap.alloc_free]
  rw [heq]
  exact ⟨by simp [eNOMEM], s.entries.burn, s.pages.burn, _, rfl, rfl, rfl, h.pages.burn,
    fun st => by cases st <;> rfl, rfl⟩

/-- The insertion fails without a tree, on an occupied offset, or in the
allocation of a tree node. -/
theorem storeFresh_insertFail (h : Inv s) (x : Slot) (page : P) {o : StoreOutcome}
    (hp : o.pageOk = true) (hk : o.kmapOk = true)
    (hne : ∀ t tree, s.tswapTreeRoots x.type = some t → s.trees t = some tree →
      tree[x.offset]? = none → o.nodeOk = false) :
    StoreUndone s (storeFresh s x page true o) := by
  have hmap : s.writes.map (fun b =>
      if b.page = s.pages.next then { b with modified := true } else b) = s.writes :=
    h.map_markModified_next
  have heq : storeFresh s x page true o =
      ({ s with
          entries := s.entries.burn
          pages := s.pages.burn
          stat.nrRadixTreeInsertFail := s.stat.nrRadixTreeInsertFail + 1 }, eINVAL) := by
    cases hroot : s.tswapTreeRoots x.type with
    | none =>
        simp [storeFresh, storeInto, newEntry, invalidateEntryStruct, Heap.cell_alloc, hp, hk,
          kmallocData, St.withEntry, St.setEntry, Heap.alloc_write, storeCopy, storeRevive,
          St.memcpyToData, atomicEntryInsert, hroot, hmap, eINVAL, storeInvalidateEntry,
          storeFreeMem, storeFreeEntry, St.kfreeData, St.kfreeEntry, atomicEntryDequarantine,
          h.next_not_listed, Heap.alloc_free]
    | some t =>
        obtain ⟨tree, htree⟩ := Option.isSome_iff_exists.mp (h.index.roots _ t hroot).2.1
        cases hitem : tree[x.offset]? with
        | none =>
            have hn := hne t tree hroot htree hitem
            simp [storeFresh, storeInto, newEntry, invalidateEntryStruct, Heap.cell_alloc, hp, hk,
              kmallocData, St.withEntry, St.setEntry, Heap.alloc_write, storeCopy, storeRevive,
              St.memcpyToData, atomicEntryInsert, hroot, htree, hitem, hn, hmap, eINVAL, eNOMEM,
              storeInvalidateEntry, storeFreeMem, storeFreeEntry, St.kfreeData, St.kfreeEntry,
              atomicEntryDequarantine, h.next_not_listed, Heap.alloc_free]
        | some i =>
            simp [storeFresh, storeInto, newEntry, invalidateEntryStruct, Heap.cell_alloc, hp, hk,
              kmallocData, St.withEntry, St.setEntry, Heap.alloc_write, storeCopy, storeRevive,
              St.memcpyToData, atomicEntryInsert, hroot, htree, hitem, hmap, eINVAL, eEXIST,
              storeInvalidateEntry, storeFreeMem, storeFreeEntry, St.kfreeData, St.kfreeEntry,
              atomicEntryDequarantine, h.next_not_listed, Heap.alloc_free]
  rw [heq]
  exact ⟨by simp [eINVAL], s.entries.burn, s.pages.burn, _, rfl, rfl, rfl, h.pages.burn,
    fun st => by cases st <;> rfl, rfl⟩

/-- A fresh store either hangs a new entry into an empty place of the live tree
of its type, or leaves nothing behind. -/
theorem storeFresh_cases (h : Inv s) (x : Slot) (page : P) (entryOk : Bool) (o : StoreOutcome) :
    (∃ t tree n, s.tswapTreeRoots x.type = some t ∧ s.trees t = some tree ∧
      tree[x.offset]? = none ∧ storeFresh s x page entryOk o =
        ({ s with
          entries := s.entries.alloc (storedEntry s x t)
          pages := s.pages.alloc (some page)
          trees := Function.update s.trees t (some (tree.insert x.offset s.entries.next))
          quarantineList := s.quarantineList.erase s.entries.next ++ [s.entries.next]
          stat := { s.stat.inc .inMemory with
            lenQuarantineList := s.lenWith s.entries.next
            nrOverwriteStore := n } }, 0)) ∨
      StoreUndone s (storeFresh s x page entryOk o) := by
  cases entryOk with
  | false => exact .inr (storeFresh_entryFail h x page o)
  | true =>
      by_cases hp : o.pageOk = true
      · by_cases hk : o.kmapOk = true
        · by_cases hne : ∀ t tree, s.tswapTreeRoots x.type = some t → s.trees t = some tree →
            tree[x.offset]? = none → o.nodeOk = false
          · exact .inr (storeFresh_insertFail h x page hp hk hne)
          · simp only [not_forall, Bool.not_eq_false] at hne
            obtain ⟨t, tree, hroot, htree, hitem, hn⟩ := hne
            obtain ⟨n, heq⟩ := storeFresh_ok h hroot htree hitem page hp hk hn
            exact .inl ⟨t, tree, n, hroot, htree, hitem, heq⟩
        · exact .inr (storeFresh_kmapFail h x page hp (by simpa using hk))
      · exact .inr (storeFresh_pageFail h x page (by simpa using hp))

/-! ## The discharge thread and its completions -/

/-- Every member of the quarantine list is a tree entry in one of the two
in-memory states. -/
theorem Inv.listed (h : Inv s) (he : e ∈ s.quarantineList) :
    ∃ en t tree p c, InTree s e en t tree p c ∧
      (en.state = .inMemory ∨ en.state = .inMemoryFollowedByZombie) := by
  have hpos : 0 < s.quarantineList.count e := List.count_pos_iff.mpr he
  cases hcell : s.entries.cell e with
  | none =>
      have := (h.lifecycle.dead hcell).2.1
      omega
  | some en =>
      cases hroot : en.tswapTreeRoot with
      | none =>
          have := (h.lifecycle.prefetching hcell hroot).2.2.1
          omega
      | some t =>
          obtain ⟨tree, p, c, hin⟩ := h.inTree hcell hroot
          have hcount := (h.lifecycle.tree hcell hroot).2.2.1
          refine ⟨en, t, tree, p, c, hin, ?_⟩
          cases hst : en.state <;> simp [hst, EntryState.listed] at hcount ⊢ <;> omega

theorem Inv.of_outstanding (h : Inv s) (he : 0 < outstanding s e) :
    ∃ en t tree p c, InTree s e en t tree p c ∧ en.state.outstanding = 1 := by
  cases hcell : s.entries.cell e with
  | none =>
      have := (h.lifecycle.dead hcell).1
      omega
  | some en =>
      cases hroot : en.tswapTreeRoot with
      | none =>
          have := (h.lifecycle.prefetching hcell hroot).2.1
          omega
      | some t =>
          obtain ⟨tree, p, c, hin⟩ := h.inTree hcell hroot
          have hout := (h.lifecycle.tree hcell hroot).2.1
          refine ⟨en, t, tree, p, c, hin, ?_⟩
          cases hst : en.state <;> simp [hst, EntryState.outstanding] at hout ⊢ <;> omega

theorem Inv.count_le_one (h : Inv s) (e : EntryId) : s.quarantineList.count e ≤ 1 := by
  by_cases he : e ∈ s.quarantineList
  · obtain ⟨en, t, tree, p, c, hin, hst⟩ := h.listed he
    have hcount := (h.lifecycle.tree hin.cell hin.root).2.2.1
    rcases hst with hst | hst <;> simp [hcount, hst, EntryState.listed]
  · simp [List.count_eq_zero_of_not_mem he]

theorem dischargeScan_cases (h : Inv s) (k : Kernel) (n : Int) :
    dischargeScan k s n = { s with discharge := .outer } ∨
    (∃ e rest m, s.quarantineList = e :: rest ∧ dischargeScan k s n =
      { s with
        quarantineList := rest ++ [e]
        discharge := .scan (n - 1)
        stat.nrQuarantineSkipMemZombie := m }) ∨
    (∃ e rest en t tree p c, s.quarantineList = e :: rest ∧ InTree s e en t tree p c ∧
      en.state = .inMemory ∧ timeAfter s.jiffies (dischargeTime k s en) = true ∧
      dischargeScan k s n =
        { s with
          entries := s.entries.write e { en with state := .inFlight }
          quarantineList := rest
          discharge := .submit (n - 1) e
          stat := { (s.stat.dec .inMemory).inc .inFlight with
            lenQuarantineList := s.stat.lenQuarantineList - 1 } }) := by
  unfold dischargeScan
  split
  · exact .inl rfl
  · cases hlist : s.quarantineList with
    | nil => exact .inl rfl
    | cons e rest =>
        obtain ⟨en, t, tree, p, c, hin, hst⟩ := h.listed (e := e) (by simp [hlist])
        have hnot : e ∉ rest := by
          have hcount := h.count_le_one e
          rw [hlist, List.count_cons_self] at hcount
          exact List.count_eq_zero.mp (by omega)
        have htime' : ∀ q st pc, dischargeTime k
            { s with quarantineList := q, stat := st, discharge := pc } en =
              dischargeTime k s en := fun _ _ _ => rfl
        rcases hst with hst | hst
        · by_cases htime : timeAfter s.jiffies (dischargeTime k s en) = true
          · refine .inr (.inr ⟨e, rest, en, t, tree, p, c, rfl, hin, hst, htime, ?_⟩)
            simp [St.withEntry, hin.cell, hst, htime', htime, St.setEntry, Stat.dec, Stat.inc]
          · refine .inr (.inl ⟨e, rest, s.stat.nrQuarantineSkipMemZombie, rfl, ?_⟩)
            simp [St.withEntry, hin.cell, hst, htime', htime, atomicEntryQuarantine, hnot]
        · refine .inr (.inl ⟨e, rest, s.stat.nrQuarantineSkipMemZombie + 1, rfl, ?_⟩)
          simp [St.withEntry, hin.cell, hst, atomicEntryQuarantine, hnot]

theorem dischargeSubmit_ok (hin : InTree s e en t tree p c) (n : Int) :
    dischargeSubmit s n e true =
      { s with
        discharge := .scan n
        writes := s.writes.alloc ⟨e, en.slot, p, false⟩
        stat.nrAsyncIo := s.stat.nrAsyncIo + 1 } := by
  simp [dischargeSubmit, dischargeAsyncIo, hin.cell, hin.data]

/-- The page stays: the settlement of a failed write-back or of a rewritten page. -/
def St.settled (s : St P) (e : EntryId) (en : Entry) : St P :=
  { s with
    entries := s.entries.write e { en with state := .inMemory }
    quarantineList :=
      if en.state = .inFlight then s.quarantineList.erase e ++ [e] else s.quarantineList
    stat := { (s.stat.dec en.state).inc .inMemory with
      lenQuarantineList :=
        if en.state = .inFlight then s.lenWith e else s.stat.lenQuarantineList } }

theorem settleRewritten_eq (hst : en.state = .inMemoryFollowedByZombie) :
    settleRewritten s e en = s.settled e en := by
  simp [settleRewritten, St.settled, St.setEntry, hst, Stat.dec, Stat.inc]

theorem settleFailed_eq (hst : en.state = .inFlight) : settleFailed s e en = s.settled e en := by
  simp [settleFailed, St.settled, St.setEntry, hst, Stat.dec, Stat.inc,
    atomicEntryQuarantine_eq, St.lenWith]

/-- The page goes, with the entry. -/
def St.reaped (s : St P) (e : EntryId) (en : Entry) (p : PageId) (t : TreeId) (tree : RadixTree) :
    St P :=
  { s.without e p t (tree.erase en.offset) with stat := s.stat.dec en.state }

theorem settleZombie_eq (hin : InTree s e en t tree p c) (hst : en.state = .zombie) :
    settleZombie s e en = s.reaped e en p t tree := by
  have hin' : InTree { s with stat.nrZombiePage := s.stat.nrZombiePage - 1 } e en t tree p c :=
    ⟨hin.cell, hin.root, hin.trees, hin.item, hin.data, hin.page⟩
  rw [settleZombie, reapEntry_eq hin']
  simp [St.reaped, St.without, hst, Stat.dec]

/-- A failed submission keeps the page in memory, except for a zombie. -/
theorem dischargeSubmit_fail (hin : InTree s e en t tree p c) (hst : en.state.outstanding = 1)
    (n : Int) :
    dischargeSubmit s n e false =
      let s₀ := { s with
        discharge := .scan n
        stat.nrAsyncIo := s.stat.nrAsyncIo + 1
        stat.nrMallocFail := s.stat.nrMallocFail + 1 }
      let s₁ := if en.state = .zombie then s₀.reaped e en p t tree else s₀.settled e en
      { s₁ with stat.nrAsyncIoFail := s₁.stat.nrAsyncIoFail + 1 } := by
  have hin' : InTree { s with
        discharge := .scan n
        stat.nrAsyncIo := s.stat.nrAsyncIo + 1
        stat.nrMallocFail := s.stat.nrMallocFail + 1 } e en t tree p c :=
    ⟨hin.cell, hin.root, hin.trees, hin.item, hin.data, hin.page⟩
  cases hs : en.state <;> simp only [hs, EntryState.outstanding] at hst <;> try omega
  · simp [dischargeSubmit, dischargeAsyncIo, eNOMEM, dischargeSubmitFailed, St.withEntry, hin.cell,
      hs, settleZombie_eq hin' hs]
  · simp [dischargeSubmit, dischargeAsyncIo, eNOMEM, dischargeSubmitFailed, St.withEntry, hin.cell,
      hs, settleRewritten_eq hs]
  · simp [dischargeSubmit, dischargeAsyncIo, eNOMEM, dischargeSubmitFailed, St.withEntry, hin.cell,
      hs, settleFailed_eq hs]

/-- The completion of a write-back: a page that is still wanted goes from memory
only when the write succeeded, a zombie in any case. -/
theorem dischargeAsyncIoEnd_eq (hin : InTree s e en t tree p c) (hst : en.state.outstanding = 1)
    (ok : Bool) :
    ∃ m, dischargeAsyncIoEnd s e ok =
      let s₀ := { s with
        stat.nrAsyncEndIo := s.stat.nrAsyncEndIo + 1
        stat.nrAsyncEndIoFail := m }
      if en.state = .zombie ∨ (en.state = .inFlight ∧ ok = true) then s₀.reaped e en p t tree
      else s₀.settled e en := by
  refine ⟨if ok = false then s.stat.nrAsyncEndIoFail + 1 else s.stat.nrAsyncEndIoFail, ?_⟩
  have hin' : ∀ m, InTree { s with
        stat.nrAsyncEndIo := s.stat.nrAsyncEndIo + 1
        stat.nrAsyncEndIoFail := m } e en t tree p c :=
    fun m => ⟨hin.cell, hin.root, hin.trees, hin.item, hin.data, hin.page⟩
  have hin'' : InTree { s with
        stat.nrAsyncEndIo := s.stat.nrAsyncEndIo + 1
        stat.nrInFlightPage := s.stat.nrInFlightPage - 1 } e en t tree p c :=
    ⟨hin.cell, hin.root, hin.trees, hin.item, hin.data, hin.page⟩
  cases hs : en.state <;> simp only [hs, EntryState.outstanding] at hst <;> try omega
  · cases ok
    · simp [dischargeAsyncIoEnd, St.withEntry, hin.cell, hs, settleZombie_eq (hin' _) hs]
    · have h0 := settleZombie_eq (hin' s.stat.nrAsyncEndIoFail) hs
      simp [dischargeAsyncIoEnd, St.withEntry, hin.cell, hs, h0]
  · cases ok <;>
      simp [dischargeAsyncIoEnd, St.withEntry, hin.cell, hs, settleRewritten_eq hs]
  · cases ok
    · simp [dischargeAsyncIoEnd, St.withEntry, hin.cell, hs, settleFailed_eq hs]
    · simp [dischargeAsyncIoEnd, St.withEntry, hin.cell, hs, reapEntry_eq hin'', St.reaped,
        St.without, Stat.dec]

theorem stepDischargeEnd_eq {bio : WriteBio} (hin : InTree s bio.entry en t tree p c)
    (hst : en.state.outstanding = 1) (b : BioId) (ok : Bool) (junk : P) :
    ∃ m, stepDischargeEnd s b bio ok junk =
      let s₀ := { s with
        disk := Function.update s.disk bio.slot (deviceWritten s bio ok junk)
        writes := s.writes.free b
        stat.nrAsyncEndIo := s.stat.nrAsyncEndIo + 1
        stat.nrAsyncEndIoFail := m }
      if en.state = .zombie ∨ (en.state = .inFlight ∧ ok = true) then
        s₀.reaped bio.entry en p t tree
      else s₀.settled bio.entry en := by
  have hin' : InTree { s with
      disk := Function.update s.disk bio.slot (deviceWritten s bio ok junk)
      writes := s.writes.free b } bio.entry en t tree p c :=
    ⟨hin.cell, hin.root, hin.trees, hin.item, hin.data, hin.page⟩
  exact dischargeAsyncIoEnd_eq hin' hst ok

/-! ## Prefetch -/

/-- The entry of a prefetch read in flight. -/
def prefetchEntry (s : St P) (x : Slot) : Entry :=
  { newEntry x with state := .inMemory, data := some s.pages.next }

theorem prefetchSubmit_cases (h : Inv s) (x : Slot) (seen : Nat) (o : PrefetchOutcome) :
    Undone s (prefetchSubmit s x seen o) ∨
    prefetchSubmit s x seen o =
      { s with
        entries := s.entries.alloc (prefetchEntry s x)
        pages := s.pages.alloc none
        reads := s.reads.alloc ⟨s.entries.next, x, s.pages.next, seen, false⟩
        stat := { s.stat.inc .inMemory with nrAsyncIo := s.stat.nrAsyncIo + 1 } } := by
  by_cases he : o.entryOk = true
  · by_cases hp : o.pageOk = true
    · by_cases hb : o.bioOk = true
      · right
        simp [prefetchSubmit, he, hp, hb, St.setEntry, Heap.alloc_write, prefetchEntry, Stat.inc]
      · left
        refine ⟨s.entries.burn, s.pages.burn, { s.stat with
          nrMallocFail := s.stat.nrMallocFail + 1
          nrAsyncIo := s.stat.nrAsyncIo + 1 }, ?_, rfl, rfl, h.pages.burn,
          fun st => by cases st <;> rfl, rfl⟩
        simp [prefetchSubmit, he, hp, hb, St.setEntry, Heap.alloc_write, St.kfreeData,
          St.kfreeEntry, Heap.cell_alloc, Heap.alloc_free]
    · left
      refine ⟨s.entries.burn, s.pages, { s.stat with nrMallocFail := s.stat.nrMallocFail + 1 },
        ?_, rfl, rfl, h.pages, fun st => by cases st <;> rfl, rfl⟩
      simp [prefetchSubmit, he, hp, St.kfreeEntry, Heap.cell_alloc, Heap.alloc_free]
  · left
    refine ⟨s.entries, s.pages, { s.stat with nrMallocFail := s.stat.nrMallocFail + 1 },
      ?_, rfl, rfl, h.pages, fun st => by cases st <;> rfl, rfl⟩
    simp [prefetchSubmit, he]

/-- A completed prefetch either hangs its entry into an empty place of the live
tree, or releases entry and page. -/
theorem prefetchAsyncIoEnd_cases
    (hroots : ∀ ty t, s.tswapTreeRoots ty = some t → (s.trees t).isSome)
    (hcell : s.entries.cell e = some en)
    (hroot : en.tswapTreeRoot = none) (hdata : en.data = some p) (hpage : s.pages.cell p = some c)
    (k : Kernel) (ok lockFree nodeOk : Bool) :
    (∃ a b n, prefetchAsyncIoEnd k s e ok lockFree nodeOk =
      ({ s with
          entries := s.entries.free e
          pages := s.pages.free p
          stat := { s.stat.dec .inMemory with
            nrAsyncEndIo := a
            nrAsyncEndIoFail := b
            nrRadixTreeInsertFail := n } }, false)) ∨
    (∃ t tree ts a, (ok = true ∧ lockFree = true ∧ nodeOk = true) ∧
      s.tswapTreeRoots en.type = some t ∧ s.trees t = some tree ∧ tree[en.offset]? = none ∧
      prefetchAsyncIoEnd k s e ok lockFree nodeOk =
        ({ s with
            entries := s.entries.write e { en with timeStamp := ts, tswapTreeRoot := some t }
            trees := Function.update s.trees t (some (tree.insert en.offset e))
            quarantineList := s.quarantineList.erase e ++ [e]
            stat := { s.stat with
              nrAsyncEndIo := a
              lenQuarantineList := s.lenWith e } }, true)) := by
  rcases en with ⟨st, ty, off, root, ts, data⟩
  simp only at hroot hdata
  subst hroot hdata
  cases ok with
  | false =>
      refine .inl ⟨s.stat.nrAsyncEndIo + 1, s.stat.nrAsyncEndIoFail + 1,
        s.stat.nrRadixTreeInsertFail, ?_⟩
      simp [prefetchAsyncIoEnd, prefetchInvalidateEntry, St.withEntry, hcell, St.setEntry,
        St.kfreeData, hpage, St.kfreeEntry, Heap.cell_write hcell, Heap.free_write, Stat.dec]
  | true =>
      by_cases hin : ∃ t tree, s.tswapTreeRoots ty = some t ∧ s.trees t = some tree ∧
          tree[off]? = none ∧ lockFree = true ∧ nodeOk = true
      · obtain ⟨t, tree, hr, htree, hitem, hl, hn⟩ := hin
        refine .inr ⟨t, tree, s.jiffies + k.msecsToJiffies (prefetchGraceTime * 1000),
          s.stat.nrAsyncEndIo + 1, ⟨rfl, hl, hn⟩, hr, htree, hitem, ?_⟩
        simp [prefetchAsyncIoEnd, St.withEntry, hcell, St.setEntry, atomicEntryInsert,
          Heap.cell_write hcell, Heap.write_write, hr, htree, hitem, hl, hn,
          atomicEntryQuarantine_eq, St.lenWith]
      · refine .inl ⟨s.stat.nrAsyncEndIo + 1, s.stat.nrAsyncEndIoFail,
          s.stat.nrRadixTreeInsertFail + 1, ?_⟩
        cases hr : s.tswapTreeRoots ty with
        | none =>
            simp [prefetchAsyncIoEnd, prefetchInvalidateEntry, St.withEntry, hcell, St.setEntry,
              atomicEntryInsert, St.kfreeData, hpage, St.kfreeEntry, Heap.cell_write hcell,
              Heap.write_write, Heap.free_write, Stat.dec, hr, eINVAL]
        | some t =>
            obtain ⟨tree, htree⟩ := Option.isSome_iff_exists.mp (hroots _ t hr)
            cases lockFree with
            | false =>
                simp [prefetchAsyncIoEnd, prefetchInvalidateEntry, St.withEntry, hcell,
                  St.setEntry, atomicEntryInsert, St.kfreeData, hpage, St.kfreeEntry,
                  Heap.cell_write hcell, Heap.write_write, Heap.free_write, Stat.dec, hr, eINVAL]
            | true =>
                cases hitem : tree[off]? with
                | some i =>
                    simp [prefetchAsyncIoEnd, prefetchInvalidateEntry, St.withEntry, hcell,
                      St.setEntry, atomicEntryInsert, St.kfreeData, hpage, St.kfreeEntry,
                      Heap.cell_write hcell, Heap.write_write, Heap.free_write, Stat.dec, hr,
                      htree, hitem, eEXIST]
                | none =>
                    have hn : nodeOk = false := by
                      cases nodeOk with
                      | false => rfl
                      | true => exact (hin ⟨t, tree, hr, htree, hitem, rfl, rfl⟩).elim
                    simp [prefetchAsyncIoEnd, prefetchInvalidateEntry, St.withEntry, hcell,
                      St.setEntry, atomicEntryInsert, St.kfreeData, hpage, St.kfreeEntry,
                      Heap.cell_write hcell, Heap.write_write, Heap.free_write, Stat.dec, hr,
                      htree, hitem, hn, eNOMEM]

end Memtrade.Tswap
