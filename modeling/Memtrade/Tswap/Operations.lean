import Memtrade.Tswap.State

/-!
# Frontswap calls, discharge thread and prefetch

The bodies of the interface functions, cut where the code gives up the entry
lock or has not yet taken one. A frontswap call whose lookup finds an entry is
one critical section; a call whose lookup finds none goes on in a second piece
(`storeFresh`, `loadFromDevice`), between which anything else may run.
Outcomes the code does not choose (allocations, mappings, trylocks, device
results) are arguments.
-/

namespace Memtrade.Tswap

variable {P : Type}

/-- Which of the fallible calls inside a store succeed. -/
structure StoreOutcome where
  pageOk : Bool
  kmapOk : Bool
  nodeOk : Bool
deriving DecidableEq, Repr

structure PrefetchOutcome where
  entryOk : Bool
  pageOk : Bool
  bioOk : Bool
deriving DecidableEq, Repr

def newEntry (x : Slot) : Entry where
  state := .invalid
  type := x.type
  offset := x.offset
  tswapTreeRoot := none
  timeStamp := 0
  data := none

/-- The sequence ending the life of a discharged or zombie entry: mark it, free
its page, delete it, release it. It is on no list, so nothing is dequarantined. -/
def reapEntry (s : St P) (e : EntryId) (en : Entry) : St P :=
  let s := s.setEntry e { en with state := .invalid }
  let s := s.kfreeData en.data
  (deleteCounted s e).kfreeEntry e

/-- The tail shared by load, page invalidation and area invalidation: a page
under write-back stays as a zombie, any other entry is deleted and released. -/
def dropEntry (s : St P) (e : EntryId) : St P :=
  let s := (invalidateEntryStruct s e true).1
  let s := atomicEntryDequarantine s e
  s.withEntry e fun en =>
    if en.state = .invalid then (deleteCounted s e).kfreeEntry e else s

/-! ## tswap_frontswap_store -/

/-- Label `free_entry`. -/
def storeFreeEntry (s : St P) (e : EntryId) (prevEntry : Bool) : St P :=
  let s := atomicEntryDequarantine s e
  s.withEntry e fun en =>
    if en.state = .invalid then
      let s := if prevEntry then deleteCounted s e else s
      s.kfreeEntry e
    else s

/-- Label `free_mem`. -/
def storeFreeMem (s : St P) (e : EntryId) (prevEntry : Bool) : St P :=
  let s := s.withEntry e fun en => if en.state = .invalid then s.kfreeData en.data else s
  storeFreeEntry s e prevEntry

/-- Label `invalidate_entry`. -/
def storeInvalidateEntry (s : St P) (e : EntryId) (prevEntry : Bool) : St P :=
  storeFreeMem (invalidateEntryStruct s e false).1 e prevEntry

/-- `entry->data = kmalloc(PAGE_SIZE, GFP_NOIO)`. -/
def kmallocData (s : St P) (e : EntryId) : St P :=
  s.withEntry e fun en =>
    { s with pages := s.pages.alloc none }.setEntry e { en with data := some s.pages.next }

/-- Leave `INVALID` or `ZOMBIE` after the copy. -/
def storeRevive (s : St P) (e : EntryId) : St P :=
  s.withEntry e fun en =>
    match en.state with
    | .invalid =>
        { s with stat.nrInMemoryPage := s.stat.nrInMemoryPage + 1 }.setEntry
          e { en with state := .inMemory }
    | .zombie =>
        { s with
          stat.nrZombiePage := s.stat.nrZombiePage - 1
          stat.nrInMemoryZombiePage := s.stat.nrInMemoryZombiePage + 1 }.setEntry
          e { en with state := .inMemoryFollowedByZombie }
    | _ => s.fault .bugStore

/-- `memcpy(entry->data, page_addr, PAGE_SIZE)` and the new time stamp. -/
def storeCopy (s : St P) (e : EntryId) (page : P) : St P :=
  s.withEntry e fun en =>
    (s.memcpyToData en.data page).setEntry e { en with timeStamp := s.jiffies }

/-- The store from `invalidate_entry_struct` on, with the entry lock held. -/
def storeInto (s : St P) (e : EntryId) (prevEntry : Bool) (page : P) (o : StoreOutcome) :
    St P × Int :=
  let (s, oldState) := invalidateEntryStruct s e false
  if oldState = .invalid ∧ o.pageOk = false then
    let s := { s with stat.nrMallocFail := s.stat.nrMallocFail + 1 }
    (storeFreeEntry s e prevEntry, eNOMEM)
  else
    let s := if oldState = .invalid then kmallocData s e else s
    let s := s.withEntry e fun en =>
      if oldState ≠ en.state then
        { s with stat.nrOverwriteStore := s.stat.nrOverwriteStore + 1 }
      else s
    if o.kmapOk = false then
      let s := { s with stat.nrKmapFail := s.stat.nrKmapFail + 1 }
      (storeFreeMem s e prevEntry, eNOMEM)
    else
      let s := storeRevive (storeCopy s e page) e
      if prevEntry then (atomicEntryQuarantine s e, 0)
      else
        let (s, ret) := atomicEntryInsert s e false true o.nodeOk
        if ret < 0 then
          let s := { s with stat.nrRadixTreeInsertFail := s.stat.nrRadixTreeInsertFail + 1 }
          (storeInvalidateEntry s e prevEntry, eINVAL)
        else (atomicEntryQuarantine s e, 0)

/-- The store's statistics and its push on the prefetch ring. -/
def storeRecord (k : Kernel) (s : St P) (x : Slot) : St P :=
  { s with
    stat.nrStore := s.stat.nrStore + 1
    ring := s.ring.push k.prefetchBufferSize x }

/-- The store after a failed lookup: allocate an entry and fill it. -/
def storeFresh (s : St P) (x : Slot) (page : P) (entryOk : Bool) (o : StoreOutcome) : St P × Int :=
  if entryOk = false then
    ({ s with stat.nrMallocFail := s.stat.nrMallocFail + 1 }, eNOMEM)
  else
    storeInto { s with entries := s.entries.alloc (newEntry x) } s.entries.next false page o

/-! ## tswap_frontswap_load and the invalidations -/

def loadRecord (s : St P) : St P :=
  { s with
    stat.nrLoad := s.stat.nrLoad + 1
    stat.nrPromotedPage := s.stat.nrPromotedPage + 1 }

/-- The load of an entry found in the tree: the contents copied, if any, and
the return value. The entry is given up whether or not the mapping succeeded. -/
def loadFromEntry (s : St P) (e : EntryId) (kmapOk : Bool) : St P × Option P × Int :=
  match s.entries.cell e with
  | none => (s.fault .useAfterFree, none, eINVAL)
  | some en =>
      if kmapOk = false then
        (dropEntry { s with stat.nrKmapFail := s.stat.nrKmapFail + 1 } e, none, eNOMEM)
      else (dropEntry s e, s.dataContents en.data, 0)

def loadMissRecord (s : St P) : St P :=
  { s with
    stat.nrInvalidLoad := s.stat.nrInvalidLoad + 1
    stat.nrDiskPromotedPage := s.stat.nrDiskPromotedPage + 1 }

/-- How the synchronous read of the device path ends. After a successful read a
device with a `swap_slot_free_notify` hook may forget the slot: `junk` is what
it holds then. -/
inductive SyncIo (P : Type) where
  | bioAllocFailed
  | readFailed
  | readOk (junk : P)

/-- The load of an in-disk page. -/
def loadFromDevice (k : Kernel) (s : St P) (x : Slot) : SyncIo P → St P × Option P × Int
  | .bioAllocFailed => ({ s with stat.nrMallocFail := s.stat.nrMallocFail + 1 }, none, eINVAL)
  | .readFailed => (s, none, eINVAL)
  | .readOk junk =>
      let page := s.disk x
      if k.swapSlotFreeNotify x.type then
        ({ s with disk := Function.update s.disk x junk }, some page, 0)
      else (s, some page, 0)

def tswapFrontswapInvalidatePage (s : St P) (x : Slot) : St P :=
  let s := { s with stat.nrInvalidatePage := s.stat.nrInvalidatePage + 1 }
  match atomicEntryLookupLock s x with
  | none => { s with stat.nrInvalidInvalidatePage := s.stat.nrInvalidInvalidatePage + 1 }
  | some e => dropEntry s e

/-- `tswap_frontswap_invalidate_area` up to the first lookup: detach the tree. -/
def invalidateAreaDetach (s : St P) (type : Nat) : St P :=
  let s := { s with stat.nrInvalidateArea := s.stat.nrInvalidateArea + 1 }
  match s.tswapTreeRoots type with
  | none => s.fault .bugOnInvalidateArea
  | some t =>
      { s with
        tswapTreeRoots := Function.update s.tswapTreeRoots type none
        areas := Function.update s.areas type (some t) }

/-- `radix_tree_gang_lookup(root, &entry, 0, 1)`: the entry of lowest offset. -/
def radixTreeGangLookup (tree : RadixTree) : Option EntryId :=
  (tree.toList.head?).map (·.2)

/-- One iteration of the area loop on the detached tree `t`; the flag says that
the tree was empty and has been released. -/
def invalidateAreaStep (s : St P) (type : Nat) (t : TreeId) : St P × Bool :=
  match s.trees t with
  | none => (s.fault .useAfterFree, false)
  | some tree =>
      match radixTreeGangLookup tree with
      | none =>
          ({ s with
              trees := Function.update s.trees t none
              areas := Function.update s.areas type none }, true)
      | some e =>
          match s.entries.cell e with
          | none => (s.fault .useAfterFree, false)
          | some en => if en.state = .invalid then (s, false) else (dropEntry s e, false)

def tswapFrontswapInit (s : St P) (type : Nat) (kmallocOk : Bool) : St P :=
  let s := { s with stat.nrInit := s.stat.nrInit + 1 }
  if kmallocOk = false then s
  else
    let t : TreeId := ⟨type, s.nextTree⟩
    { s with
      trees := Function.update s.trees t (some ∅)
      nextTree := s.nextTree + 1
      tswapTreeRoots := Function.update s.tswapTreeRoots type (some t) }

/-! ## The discharge thread -/

/-- `time_after(a, b)`: the signed difference `b - a` is negative. -/
def timeAfter (a b : BitVec 64) : Bool := (b - a).msb

/-- The time after which an entry may be discharged. -/
def dischargeTime (k : Kernel) (s : St P) (en : Entry) : BitVec 64 :=
  en.timeStamp + k.msecsToJiffies (s.quarantineTime * 1000)

/-- One iteration of the inner loop up to the release of the entry lock. -/
def dischargeScan (k : Kernel) (s : St P) (nrScan : Int) : St P :=
  if ¬ 0 < nrScan then { s with discharge := .outer }
  else
    match s.quarantineList with
    | [] => { s with discharge := .outer }
    | e :: rest =>
        let s := { s with
          quarantineList := rest
          stat.lenQuarantineList := s.stat.lenQuarantineList - 1
          discharge := .scan (nrScan - 1) }
        s.withEntry e fun en =>
          match en.state with
          | .invalid | .zombie | .inFlight => s.fault .bugDischargeSelect
          | .inMemoryFollowedByZombie =>
              let s := atomicEntryQuarantine s e
              { s with stat.nrQuarantineSkipMemZombie := s.stat.nrQuarantineSkipMemZombie + 1 }
          | .inMemory =>
              if timeAfter s.jiffies (dischargeTime k s en) then
                { s with
                  stat.nrInMemoryPage := s.stat.nrInMemoryPage - 1
                  stat.nrInFlightPage := s.stat.nrInFlightPage + 1
                  discharge := .submit (nrScan - 1) e }.setEntry e { en with state := .inFlight }
              else atomicEntryQuarantine s e

def dischargeAsyncIo (s : St P) (e : EntryId) (bioOk : Bool) : St P × Int :=
  let s := { s with stat.nrAsyncIo := s.stat.nrAsyncIo + 1 }
  if bioOk = false then
    ({ s with stat.nrMallocFail := s.stat.nrMallocFail + 1 }, eNOMEM)
  else
    match s.entries.cell e with
    | none => (s.fault .useAfterFree, 0)
    | some en =>
        match en.data with
        | none => (s.fault .useAfterFree, 0)
        | some p => ({ s with writes := s.writes.alloc ⟨e, en.slot, p, false⟩ }, 0)

/-- A page that was rewritten during its write-back stays in memory. -/
def settleRewritten (s : St P) (e : EntryId) (en : Entry) : St P :=
  { s with
    stat.nrInMemoryZombiePage := s.stat.nrInMemoryZombiePage - 1
    stat.nrInMemoryPage := s.stat.nrInMemoryPage + 1 }.setEntry e { en with state := .inMemory }

/-- A page whose write-back failed goes back to quarantine. -/
def settleFailed (s : St P) (e : EntryId) (en : Entry) : St P :=
  let s := { s with
    stat.nrInFlightPage := s.stat.nrInFlightPage - 1
    stat.nrInMemoryPage := s.stat.nrInMemoryPage + 1 }.setEntry e { en with state := .inMemory }
  atomicEntryQuarantine s e

/-- A zombie is released with its write-back. -/
def settleZombie (s : St P) (e : EntryId) (en : Entry) : St P :=
  reapEntry { s with stat.nrZombiePage := s.stat.nrZombiePage - 1 } e en

/-- The branch of `tswap_discharge_threadfn` for a failed submission. -/
def dischargeSubmitFailed (s : St P) (e : EntryId) : St P :=
  let s := s.withEntry e fun en =>
    match en.state with
    | .inMemoryFollowedByZombie => settleRewritten s e en
    | .inFlight => settleFailed s e en
    | .zombie => settleZombie s e en
    | .invalid | .inMemory => s.fault .bugDischargeFail
  { s with stat.nrAsyncIoFail := s.stat.nrAsyncIoFail + 1 }

/-- From the release of the entry lock to the next iteration. -/
def dischargeSubmit (s : St P) (nrScan : Int) (e : EntryId) (bioOk : Bool) : St P :=
  let s := { s with discharge := .scan nrScan }
  let (s, ret) := dischargeAsyncIo s e bioOk
  if ret < 0 then dischargeSubmitFailed s e else s

/-- What the device holds when a write completes: the page if the write
succeeded and the page stayed untouched meanwhile, anything otherwise. -/
def deviceWritten (s : St P) (bio : WriteBio) (ok : Bool) (junk : P) : P :=
  if ok = true ∧ bio.modified = false then (s.dataContents (some bio.page)).getD junk else junk

def dischargeAsyncIoEnd (s : St P) (e : EntryId) (ok : Bool) : St P :=
  let s := { s with stat.nrAsyncEndIo := s.stat.nrAsyncEndIo + 1 }
  let s :=
    if ok = false then { s with stat.nrAsyncEndIoFail := s.stat.nrAsyncEndIoFail + 1 } else s
  s.withEntry e fun en =>
    match en.state with
    | .inMemoryFollowedByZombie => settleRewritten s e en
    | .inFlight =>
        if ok = false then settleFailed s e en
        else reapEntry { s with stat.nrInFlightPage := s.stat.nrInFlightPage - 1 } e en
    | .zombie => settleZombie s e en
    | .invalid | .inMemory => s.fault .bugDischargeEnd

/-! ## Prefetch -/

def prefetchGraceTime : BitVec 32 := 600

/-- `tswap_prefetch_store` from the allocation of the entry to the submission. -/
def prefetchSubmit (s : St P) (x : Slot) (seen : Nat) (o : PrefetchOutcome) : St P :=
  if o.entryOk = false then { s with stat.nrMallocFail := s.stat.nrMallocFail + 1 }
  else
    let e := s.entries.next
    let s := { s with entries := s.entries.alloc (newEntry x) }
    if o.pageOk = false then
      { s with stat.nrMallocFail := s.stat.nrMallocFail + 1 }.kfreeEntry e
    else
      let p := s.pages.next
      let s := { s with
        pages := s.pages.alloc none
        stat.nrInMemoryPage := s.stat.nrInMemoryPage + 1
        stat.nrAsyncIo := s.stat.nrAsyncIo + 1 }.setEntry
          e { newEntry x with state := .inMemory, data := some p }
      if o.bioOk = false then
        let s := { s with
          stat.nrMallocFail := s.stat.nrMallocFail + 1
          stat.nrInMemoryPage := s.stat.nrInMemoryPage - 1 }
        (s.kfreeData (some p)).kfreeEntry e
      else { s with reads := s.reads.alloc ⟨e, x, p, seen, false⟩ }

/-- Label `invalidate_entry` of `prefetch_async_io_end`. -/
def prefetchInvalidateEntry (s : St P) (e : EntryId) : St P :=
  let s := { s with stat.nrInMemoryPage := s.stat.nrInMemoryPage - 1 }
  s.withEntry e fun en =>
    let s := s.setEntry e { en with state := .invalid }
    (s.kfreeData en.data).kfreeEntry e

/-- `prefetch_async_io_end`, with a flag that says whether the entry was inserted. -/
def prefetchAsyncIoEnd (k : Kernel) (s : St P) (e : EntryId) (ok lockFree nodeOk : Bool) :
    St P × Bool :=
  let s := { s with stat.nrAsyncEndIo := s.stat.nrAsyncEndIo + 1 }
  if ok = false then
    (prefetchInvalidateEntry
      { s with stat.nrAsyncEndIoFail := s.stat.nrAsyncEndIoFail + 1 } e, false)
  else
    let s := s.withEntry e fun en =>
      s.setEntry e
        { en with timeStamp := s.jiffies + k.msecsToJiffies (prefetchGraceTime * 1000) }
    let (s, err) := atomicEntryInsert s e true lockFree nodeOk
    if err < 0 then
      (prefetchInvalidateEntry
        { s with stat.nrRadixTreeInsertFail := s.stat.nrRadixTreeInsertFail + 1 } e, false)
    else (atomicEntryQuarantine s e, true)

/-! ## Sysfs files -/

/-- `tswap_stat_store`: a zero resets the event counters and leaves the census
counters, the list length and the promotion counters alone. -/
def tswapStatStore (s : St P) (input : Int) : St P :=
  if input = 0 then
    { s with
      stat.nrAsyncIo := 0
      stat.nrAsyncEndIo := 0
      stat.nrAsyncIoFail := 0
      stat.nrAsyncEndIoFail := 0
      stat.nrThp := 0
      stat.nrMallocFail := 0
      stat.nrKmapFail := 0
      stat.nrRadixTreeInsertFail := 0
      stat.nrRadixTreeDeleteFail := 0
      stat.nrStore := 0
      stat.nrLoad := 0
      stat.nrInvalidLoad := 0
      stat.nrOverwriteStore := 0
      stat.nrInvalidatePage := 0
      stat.nrInvalidInvalidatePage := 0
      stat.nrInvalidateArea := 0
      stat.nrInit := 0
      stat.nrQuarantineDeleteStale := 0
      stat.nrQuarantineSkipMemZombie := 0 }
  else s

/-- `tswap_quarantine_time_store`; the `long` is cut down to the `atomic_t`. -/
def tswapQuarantineTimeStore (s : St P) (input : Int) : St P :=
  if 0 ≤ input then { s with quarantineTime := BitVec.ofInt 32 input } else s

/-- `tswap_nr_promoted_page_show` resets the counter it reports. -/
def tswapNrPromotedPageShow (s : St P) : St P × Int :=
  ({ s with stat.nrPromotedPage := 0 }, s.stat.nrPromotedPage)

def tswapNrDiskPromotedPageShow (s : St P) : St P × Int :=
  ({ s with stat.nrDiskPromotedPage := 0 }, s.stat.nrDiskPromotedPage)

end Memtrade.Tswap
