import Memtrade.Lib.Heap
import Memtrade.Tswap.PrefetchRing
import Std.Data.TreeMap.Lemmas

/-!
# The data of tswap and its helper functions

Entries, pages and bios live on heaps; a radix tree maps offsets to entry
addresses. Each function below is run with the lock of its entry held, so it is
one transformation of the whole state. `BUG()` and the use of released memory
are recorded in `faults` and execution goes on, so "this branch is never taken"
is a statement about `faults`.

The page contents `P` are arbitrary. A page that was allocated and not yet
written holds `none`.
-/

namespace Memtrade.Tswap

abbrev EntryId := Nat
abbrev PageId := Nat
abbrev BioId := Nat

/-- The address of one `struct radix_tree_root`, tagged with the swap type it
was allocated for. -/
structure TreeId where
  type : Nat
  serial : Nat
deriving DecidableEq, Repr

abbrev RadixTree := Std.TreeMap Nat EntryId

/-- `enum tswap_entry_state`. -/
inductive EntryState where
  | invalid
  | zombie
  | inMemory
  | inMemoryFollowedByZombie
  | inFlight
deriving DecidableEq, Repr

/-- `struct tswap_entry` without its lock and its list link; the link is the
position of the entry in `quarantineList`. -/
structure Entry where
  state : EntryState
  type : Nat
  offset : Nat
  tswapTreeRoot : Option TreeId
  timeStamp : BitVec 64
  data : Option PageId
deriving DecidableEq, Repr

def Entry.slot (en : Entry) : Slot := ⟨en.type, en.offset⟩

/-- `struct tswap_stat`. -/
structure Stat where
  nrZombiePage : Int
  nrInMemoryPage : Int
  nrInMemoryZombiePage : Int
  nrInFlightPage : Int
  lenQuarantineList : Int
  nrAsyncIo : Int
  nrAsyncEndIo : Int
  nrAsyncIoFail : Int
  nrAsyncEndIoFail : Int
  nrThp : Int
  nrMallocFail : Int
  nrKmapFail : Int
  nrRadixTreeInsertFail : Int
  nrRadixTreeDeleteFail : Int
  nrStore : Int
  nrLoad : Int
  nrInvalidLoad : Int
  nrOverwriteStore : Int
  nrInvalidatePage : Int
  nrInvalidInvalidatePage : Int
  nrInvalidateArea : Int
  nrInit : Int
  nrQuarantineDeleteStale : Int
  nrQuarantineSkipMemZombie : Int
  nrPromotedPage : Int
  nrDiskPromotedPage : Int
deriving DecidableEq, Repr

def initStat : Stat :=
  ⟨0, 0, 0, 0, 0, 0, 0, 0, 0, 0, 0, 0, 0, 0, 0, 0, 0, 0, 0, 0, 0, 0, 0, 0, 0, 0⟩

inductive Fault where
  | bugStore
  | bugDischargeEnd
  | bugDischargeSelect
  | bugDischargeFail
  | bugOnInvalidateArea
  | useAfterFree
  | doubleFree
  | nullTreeRoot
deriving DecidableEq, Repr

/-- A submitted discharge write. `modified` records that the page was written
after the submission. -/
structure WriteBio where
  entry : EntryId
  slot : Slot
  page : PageId
  modified : Bool
deriving DecidableEq, Repr

/-- A submitted prefetch read. `done` records that the device has delivered the
contents; `seen` is the operation count of the slot when its map bit was tested. -/
structure ReadBio where
  entry : EntryId
  slot : Slot
  page : PageId
  seen : Nat
  done : Bool
deriving DecidableEq, Repr

/-- A prefetch request between the test of the map bit and its submission. -/
structure PrefetchJob where
  slot : Slot
  seen : Nat
  missed : Bool
deriving DecidableEq, Repr

/-- Where the discharge thread stands: before it reads the list length, before
it takes the next member, or between marking an entry and the outcome of
`discharge_async_io`. -/
inductive DischargePc where
  | outer
  | scan (nrScan : Int)
  | submit (nrScan : Int) (entry : EntryId)
deriving DecidableEq, Repr

/-- A frontswap call in progress on a slot: after a failed lookup, or returned
and waiting for the kernel to update the map bit. -/
inductive PendingOp (P : Type) where
  | storeMissed (page : P)
  | loadMissed
  | returned (mark : Bool)

/-- What tswap takes from the kernel it is built into. -/
structure Kernel where
  prefetchBufferSize : Nat
  msecsToJiffies : BitVec 32 → BitVec 64
  swapSlotFreeNotify : Nat → Bool

structure St (P : Type) where
  entries : Heap Entry
  pages : Heap (Option P)
  trees : TreeId → Option RadixTree
  tswapTreeRoots : Nat → Option TreeId
  nextTree : Nat
  /-- The detached tree of a running `tswap_frontswap_invalidate_area`. -/
  areas : Nat → Option TreeId
  quarantineList : List EntryId
  stat : Stat
  quarantineTime : BitVec 32
  jiffies : BitVec 64
  discharge : DischargePc
  writes : Heap WriteBio
  reads : Heap ReadBio
  jobs : Heap PrefetchJob
  ring : PrefetchRing
  pending : Slot → Option (PendingOp P)
  frontswapMap : Slot → Bool
  disk : Slot → P
  /-- History only, read by no function: how many steps of frontswap calls and
  prefetch insertions have touched the slot. -/
  opCount : Slot → Nat
  faults : List Fault

namespace St

variable {P : Type}

def fault (s : St P) (f : Fault) : St P := { s with faults := f :: s.faults }

/-- Continue with the entry at `e`, reporting a dangling address. -/
def withEntry (s : St P) (e : EntryId) (k : Entry → St P) : St P :=
  match s.entries.cell e with
  | some en => k en
  | none => s.fault .useAfterFree

def setEntry (s : St P) (e : EntryId) (en : Entry) : St P :=
  { s with entries := s.entries.write e en }

def radixTreeLookup (s : St P) (t : TreeId) (offset : Nat) : Option EntryId :=
  match s.trees t with
  | some tree => tree[offset]?
  | none => none

/-- `kfree` of an entry's page; `kfree(NULL)` does nothing. -/
def kfreeData (s : St P) (data : Option PageId) : St P :=
  match data with
  | none => s
  | some p =>
      if (s.pages.cell p).isSome then { s with pages := s.pages.free p } else s.fault .doubleFree

/-- `kfree` and `kfree_rcu` of an entry. -/
def kfreeEntry (s : St P) (e : EntryId) : St P :=
  if (s.entries.cell e).isSome then { s with entries := s.entries.free e } else s.fault .doubleFree

/-- `memcpy` into an entry's page. A write of that page still in flight may now
put anything on the device. -/
def memcpyToData (s : St P) (data : Option PageId) (contents : P) : St P :=
  match data with
  | none => s.fault .useAfterFree
  | some p =>
      { s with
        pages := s.pages.write p (some contents)
        writes := s.writes.map fun b => if b.page = p then { b with modified := true } else b }

/-- The contents of an entry's page. -/
def dataContents (s : St P) (data : Option PageId) : Option P :=
  match data with
  | none => none
  | some p => (s.pages.cell p).join

end St

variable {P : Type}

/-! ## Helper functions of the module -/

def eINVAL : Int := -22
def eNOMEM : Int := -12
def eEXIST : Int := -17

/-- `atomic_entry_lookup_lock`. An entry found in state `INVALID` is about to be
deleted and counts as absent. -/
def atomicEntryLookupLock (s : St P) (x : Slot) : Option EntryId :=
  match s.tswapTreeRoots x.type with
  | none => none
  | some t =>
      match s.radixTreeLookup t x.offset with
      | none => none
      | some e =>
          match s.entries.cell e with
          | some en => if en.state = .invalid then none else some e
          | none => some e

/-- `atomic_entry_delete`: remove the entry from its tree, do not release it. -/
def atomicEntryDelete (s : St P) (e : EntryId) : St P × Int :=
  match s.entries.cell e with
  | none => (s.fault .useAfterFree, eINVAL)
  | some en =>
      match en.tswapTreeRoot with
      | none => (s.fault .nullTreeRoot, eINVAL)
      | some t =>
          match s.trees t with
          | none => (s.fault .useAfterFree, eINVAL)
          | some tree =>
              match tree[en.offset]? with
              | none => (s, eINVAL)
              | some _ =>
                  ({ s with trees := Function.update s.trees t (some (tree.erase en.offset)) }.setEntry
                    e { en with tswapTreeRoot := none }, 0)

/-- `atomic_entry_insert`. `lockFree` is the outcome of the trylock, `nodeOk`
that of the allocation inside `radix_tree_insert`. -/
def atomicEntryInsert (s : St P) (e : EntryId) (tryLock lockFree nodeOk : Bool) : St P × Int :=
  match s.entries.cell e with
  | none => (s.fault .useAfterFree, eINVAL)
  | some en =>
      match s.tswapTreeRoots en.type with
      | none => (s, eINVAL)
      | some t =>
          if tryLock && !lockFree then (s, eINVAL)
          else
            match s.trees t with
            | none => (s.fault .useAfterFree, eINVAL)
            | some tree =>
                if tree[en.offset]?.isSome then
                  (s.setEntry e { en with tswapTreeRoot := none }, eEXIST)
                else if !nodeOk then (s.setEntry e { en with tswapTreeRoot := none }, eNOMEM)
                else
                  ({ s with
                      trees := Function.update s.trees t (some (tree.insert en.offset e)) }.setEntry
                    e { en with tswapTreeRoot := some t }, 0)

/-- `atomic_entry_quarantine`: append, moving an entry that is already listed. -/
def atomicEntryQuarantine (s : St P) (e : EntryId) : St P :=
  if e ∉ s.quarantineList then
    { s with
      quarantineList := s.quarantineList ++ [e]
      stat.lenQuarantineList := s.stat.lenQuarantineList + 1 }
  else { s with quarantineList := s.quarantineList.erase e ++ [e] }

def atomicEntryDequarantine (s : St P) (e : EntryId) : St P :=
  if e ∈ s.quarantineList then
    { s with
      quarantineList := s.quarantineList.erase e
      stat.lenQuarantineList := s.stat.lenQuarantineList - 1 }
  else s

/-- The deletion every caller performs: count a failed `atomic_entry_delete`. -/
def deleteCounted (s : St P) (e : EntryId) : St P :=
  let (s, err) := atomicEntryDelete s e
  if err < 0 then { s with stat.nrRadixTreeDeleteFail := s.stat.nrRadixTreeDeleteFail + 1 } else s

/-- `invalidate_entry_struct`, with the state it found. -/
def invalidateEntryStruct (s : St P) (e : EntryId) (freePage : Bool) : St P × EntryState :=
  match s.entries.cell e with
  | none => (s.fault .useAfterFree, .invalid)
  | some en =>
      match en.state with
      | .inMemory =>
          let s := { s with stat.nrInMemoryPage := s.stat.nrInMemoryPage - 1 }
          let s := if freePage then s.kfreeData en.data else s
          (s.setEntry e { en with state := .invalid }, .inMemory)
      | .inMemoryFollowedByZombie =>
          ({ s with
              stat.nrInMemoryZombiePage := s.stat.nrInMemoryZombiePage - 1
              stat.nrZombiePage := s.stat.nrZombiePage + 1 }.setEntry
            e { en with state := .zombie }, .inMemoryFollowedByZombie)
      | .inFlight =>
          ({ s with
              stat.nrInFlightPage := s.stat.nrInFlightPage - 1
              stat.nrZombiePage := s.stat.nrZombiePage + 1 }.setEntry
            e { en with state := .zombie }, .inFlight)
      | .zombie => (s, .zombie)
      | .invalid => (s, .invalid)

end Memtrade.Tswap
