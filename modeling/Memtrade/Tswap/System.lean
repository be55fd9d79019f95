import Memtrade.Lib.System
import Memtrade.Tswap.Operations

/-!
# tswap as a system

One action is one entry-lock critical section, or one piece of a call that runs
without a lock. The kernel runs at most one frontswap call on a slot at a time
(`pending`) and updates its `frontswap_map` after a call has returned: the bit
is set after a successful store and cleared after a failed one, after a
successful (exclusive) load and after an invalidation. A load that fails leaves
the bit alone. The block layer completes bios in any order.
-/

namespace Memtrade.Tswap

variable {P : Type}

inductive Action (P : Type) where
  | frontswapInit (type : Nat) (kmallocOk : Bool)
  | store (x : Slot) (page : P) (transHuge : Bool) (o : StoreOutcome)
  | storeMissed (x : Slot) (entryOk : Bool) (o : StoreOutcome)
  | load (x : Slot) (kmapOk : Bool)
  | loadMissed (x : Slot) (io : SyncIo P)
  | invalidatePage (x : Slot)
  | frontswapMap (x : Slot)
  | invalidateArea (type : Nat)
  | invalidateAreaStep (type : Nat)
  | dischargeOuter
  | dischargeScan
  | dischargeSubmit (bioOk : Bool)
  | dischargeEnd (b : BioId) (ok : Bool) (junk : P)
  | prefetchPop
  | prefetchLookup (j : Nat)
  | prefetchSubmit (j : Nat) (o : PrefetchOutcome)
  | prefetchRead (b : BioId)
  | prefetchEnd (b : BioId) (ok lockFree nodeOk : Bool)
  | statStore (input : Int)
  | quarantineTimeStore (input : Int)
  | nrPromotedPageShow
  | nrDiskPromotedPageShow
  | tick (jiffies : BitVec 64)
  | kernelWrite (x : Slot) (page : P)

/-- What an observer of the calls sees. -/
inductive Event (P : Type) where
  | stored (x : Slot) (page : P) (ret : Int)
  | loaded (x : Slot) (page : Option P) (ret : Int)
  | invalidatedPage (x : Slot)
  | invalidatedArea (type : Nat)
  | prefetched (x : Slot) (data : Option P)

def St.touch (s : St P) (x : Slot) : St P :=
  { s with opCount := Function.update s.opCount x (s.opCount x + 1) }

def St.touchType (s : St P) (type : Nat) : St P :=
  { s with opCount := fun x => if x.type = type then s.opCount x + 1 else s.opCount x }

def St.setPending (s : St P) (x : Slot) (op : Option (PendingOp P)) : St P :=
  { s with pending := Function.update s.pending x op }

/-- A store returns: the kernel will set the bit after success and clear it after failure. -/
def storeReturn (r : St P × Int) (x : Slot) (page : P) : St P × List (Event P) :=
  (r.1.setPending x (some (.returned (r.2 = 0))), [.stored x page r.2])

/-- A load returns; the bit is cleared after success only. -/
def loadReturn (r : St P × Option P × Int) (x : Slot) : St P × List (Event P) :=
  (r.1.setPending x (if r.2.2 = 0 then some (.returned false) else none),
    [.loaded x r.2.1 r.2.2])

/-- `tswap_frontswap_store` up to its return or its failed lookup. -/
def stepStore (k : Kernel) (s : St P) (x : Slot) (page : P) (transHuge : Bool)
    (o : StoreOutcome) : St P × List (Event P) :=
  let s := storeRecord k (s.touch x) x
  if transHuge then
    storeReturn ({ s with stat.nrThp := s.stat.nrThp + 1 }, eINVAL) x page
  else
    match atomicEntryLookupLock s x with
    | none => (s.setPending x (some (.storeMissed page)), [])
    | some e => storeReturn (storeInto s e true page o) x page

/-- `tswap_frontswap_load` up to its return or its failed lookup. -/
def stepLoad (s : St P) (x : Slot) (kmapOk : Bool) : St P × List (Event P) :=
  let s := loadRecord (s.touch x)
  match atomicEntryLookupLock s x with
  | none => ((loadMissRecord s).setPending x (some .loadMissed), [])
  | some e => loadReturn (loadFromEntry s e kmapOk) x

/-- The completion of a discharge write: the device, the handler, `bio_put`. -/
def stepDischargeEnd (s : St P) (b : BioId) (bio : WriteBio) (ok : Bool) (junk : P) : St P :=
  let s := { s with disk := Function.update s.disk bio.slot (deviceWritten s bio ok junk) }
  let s := { s with writes := s.writes.free b }
  dischargeAsyncIoEnd s bio.entry ok

/-- The completion of a prefetch read. -/
def stepPrefetchEnd (k : Kernel) (s : St P) (b : BioId) (bio : ReadBio)
    (ok lockFree nodeOk : Bool) : St P × List (Event P) :=
  let s := { s with reads := s.reads.free b }
  let r := prefetchAsyncIoEnd k s bio.entry ok lockFree nodeOk
  if r.2 then
    (r.1.touch bio.slot, [.prefetched bio.slot (r.1.dataContents (some bio.page))])
  else (r.1, [])

/-- The device delivers the contents of the slot into the page of a read. -/
def stepPrefetchRead (s : St P) (b : BioId) (bio : ReadBio) : St P :=
  { s with
    pages := s.pages.write bio.page (some (s.disk bio.slot))
    reads := s.reads.write b { bio with done := true } }

def step (k : Kernel) (s : St P) : Action P → Option (St P × List (Event P))
  -- a type is set up only while it has no tree and no invalidation of it runs
  | .frontswapInit type kmallocOk =>
      if s.tswapTreeRoots type = none ∧ s.areas type = none then
        some (tswapFrontswapInit (s.touchType type) type kmallocOk, [])
      else none
  | .store x page transHuge o =>
      match s.pending x with
      | none => some (stepStore k s x page transHuge o)
      | some _ => none
  | .storeMissed x entryOk o =>
      match s.pending x with
      | some (.storeMissed page) =>
          some (storeReturn (storeFresh (s.touch x) x page entryOk o) x page)
      | _ => none
  | .load x kmapOk =>
      match s.pending x with
      | none => some (stepLoad s x kmapOk)
      | some _ => none
  | .loadMissed x io =>
      match s.pending x with
      | some .loadMissed => some (loadReturn (loadFromDevice k (s.touch x) x io) x)
      | _ => none
  | .invalidatePage x =>
      match s.pending x with
      | none =>
          some ((tswapFrontswapInvalidatePage (s.touch x) x).setPending x (some (.returned false)),
            [.invalidatedPage x])
      | some _ => none
  | .frontswapMap x =>
      match s.pending x with
      | some (.returned mark) =>
          some ({ (s.touch x).setPending x none with
            frontswapMap := Function.update s.frontswapMap x mark }, [])
      | _ => none
  -- "assume no concurrent invalidator"
  | .invalidateArea type =>
      match s.areas type with
      | none => some (invalidateAreaDetach (s.touchType type) type, [.invalidatedArea type])
      | some _ => none
  | .invalidateAreaStep type =>
      match s.areas type with
      | none => none
      | some t =>
          let r := invalidateAreaStep (s.touchType type) type t
          if r.2 then
            -- the kernel zeroes the map of the area after the call
            some ({ r.1 with
              frontswapMap := fun x => if x.type = type then false else s.frontswapMap x }, [])
          else some (r.1, [])
  | .dischargeOuter =>
      match s.discharge with
      | .outer => some ({ s with discharge := .scan s.stat.lenQuarantineList }, [])
      | _ => none
  | .dischargeScan =>
      match s.discharge with
      | .scan nrScan => some (dischargeScan k s nrScan, [])
      | _ => none
  | .dischargeSubmit bioOk =>
      match s.discharge with
      | .submit nrScan e => some (dischargeSubmit s nrScan e bioOk, [])
      | _ => none
  | .dischargeEnd b ok junk =>
      match s.writes.cell b with
      | some bio => some (stepDischargeEnd s b bio ok junk, [])
      | none => none
  | .prefetchPop =>
      match s.ring.pop k.prefetchBufferSize with
      | none => none
      | some (x, ring) =>
          if s.frontswapMap x then
            some ({ s with ring := ring, jobs := s.jobs.alloc ⟨x, s.opCount x, false⟩ }, [])
          else some ({ s with ring := ring }, [])
  | .prefetchLookup j =>
      match s.jobs.cell j with
      | some job =>
          if job.missed then none
          else
            match atomicEntryLookupLock s job.slot with
            | some _ => some ({ s with jobs := s.jobs.free j }, [])
            | none => some ({ s with jobs := s.jobs.write j { job with missed := true } }, [])
      | none => none
  | .prefetchSubmit j o =>
      match s.jobs.cell j with
      | some job =>
          if job.missed then
            some (prefetchSubmit { s with jobs := s.jobs.free j } job.slot job.seen o, [])
          else none
      | none => none
  | .prefetchRead b =>
      match s.reads.cell b with
      | some bio => if bio.done then none else some (stepPrefetchRead s b bio, [])
      | none => none
  -- a read that succeeds has delivered its contents
  | .prefetchEnd b ok lockFree nodeOk =>
      match s.reads.cell b with
      | some bio =>
          if ok = true ∧ bio.done = false then none
          else some (stepPrefetchEnd k s b bio ok lockFree nodeOk)
      | none => none
  | .statStore input => some (tswapStatStore s input, [])
  | .quarantineTimeStore input => some (tswapQuarantineTimeStore s input, [])
  | .nrPromotedPageShow => some ((tswapNrPromotedPageShow s).1, [])
  | .nrDiskPromotedPageShow => some ((tswapNrDiskPromotedPageShow s).1, [])
  | .tick jiffies => some ({ s with jiffies := jiffies }, [])
  -- the kernel writes a slot itself only while frontswap does not hold it
  | .kernelWrite x page =>
      match s.pending x with
      | none =>
          if s.frontswapMap x then none
          else some ({ s with disk := Function.update s.disk x page }, [])
      | some _ => none

/-! ## When an action is enabled, and its result -/

section Enabled

variable {k : Kernel} {s : St P} {r : St P × List (Event P)}

theorem step_frontswapInit {type : Nat} {kmallocOk : Bool} :
    step k s (.frontswapInit type kmallocOk) = some r ↔
      (s.tswapTreeRoots type = none ∧ s.areas type = none) ∧
        (tswapFrontswapInit (s.touchType type) type kmallocOk, []) = r := by
  simp [step]

theorem step_store {x : Slot} {page : P} {transHuge : Bool} {o : StoreOutcome} :
    step k s (.store x page transHuge o) = some r ↔
      s.pending x = none ∧ stepStore k s x page transHuge o = r := by
  cases h : s.pending x <;> simp [step, h]

theorem step_storeMissed {x : Slot} {entryOk : Bool} {o : StoreOutcome} :
    step k s (.storeMissed x entryOk o) = some r ↔
      ∃ page, s.pending x = some (.storeMissed page) ∧
        storeReturn (storeFresh (s.touch x) x page entryOk o) x page = r := by
  cases h : s.pending x with
  | none => simp [step, h]
  | some op => cases op <;> simp [step, h]

theorem step_load {x : Slot} {kmapOk : Bool} :
    step k s (.load x kmapOk) = some r ↔ s.pending x = none ∧ stepLoad s x kmapOk = r := by
  cases h : s.pending x <;> simp [step, h]

theorem step_loadMissed {x : Slot} {io : SyncIo P} :
    step k s (.loadMissed x io) = some r ↔
      s.pending x = some .loadMissed ∧ loadReturn (loadFromDevice k (s.touch x) x io) x = r := by
  cases h : s.pending x with
  | none => simp [step, h]
  | some op => cases op <;> simp [step, h]

theorem step_invalidatePage {x : Slot} :
    step k s (.invalidatePage x) = some r ↔
      s.pending x = none ∧
        ((tswapFrontswapInvalidatePage (s.touch x) x).setPending x (some (.returned false)),
          [.invalidatedPage x]) = r := by
  cases h : s.pending x <;> simp [step, h]

theorem step_frontswapMap {x : Slot} :
    step k s (.frontswapMap x) = some r ↔
      ∃ mark, s.pending x = some (.returned mark) ∧
        ({ (s.touch x).setPending x none with
            frontswapMap := Function.update s.frontswapMap x mark }, []) = r := by
  cases h : s.pending x with
  | none => simp [step, h]
  | some op => cases op <;> simp [step, h]

theorem step_invalidateArea {type : Nat} :
    step k s (.invalidateArea type) = some r ↔
      s.areas type = none ∧
        (invalidateAreaDetach (s.touchType type) type, [.invalidatedArea type]) = r := by
  cases h : s.areas type <;> simp [step, h]

/-- The state after an iteration of the area loop; the kernel zeroes the map of
the area once the call has returned. -/
def areaLooped (s : St P) (type : Nat) (t : TreeId) : St P :=
  let r := invalidateAreaStep (s.touchType type) type t
  if r.2 then
    { r.1 with frontswapMap := fun x => if x.type = type then false else s.frontswapMap x }
  else r.1

theorem step_invalidateAreaStep {type : Nat} :
    step k s (.invalidateAreaStep type) = some r ↔
      ∃ t, s.areas type = some t ∧ (areaLooped s type t, []) = r := by
  cases h : s.areas type with
  | none => simp [step, h]
  | some t =>
      simp only [step, h, Option.some.injEq, exists_eq_left', areaLooped]
      split <;> simp

theorem step_dischargeOuter :
    step k s .dischargeOuter = some r ↔
      s.discharge = .outer ∧ ({ s with discharge := .scan s.stat.lenQuarantineList }, []) = r := by
  cases h : s.discharge <;> simp [step, h]

theorem step_dischargeScan :
    step k s .dischargeScan = some r ↔
      ∃ n, s.discharge = .scan n ∧ (dischargeScan k s n, []) = r := by
  cases h : s.discharge <;> simp [step, h]

theorem step_dischargeSubmit {bioOk : Bool} :
    step k s (.dischargeSubmit bioOk) = some r ↔
      ∃ n e, s.discharge = .submit n e ∧ (dischargeSubmit s n e bioOk, []) = r := by
  cases h : s.discharge <;> simp [step, h]

theorem step_dischargeEnd {b : BioId} {ok : Bool} {junk : P} :
    step k s (.dischargeEnd b ok junk) = some r ↔
      ∃ bio, s.writes.cell b = some bio ∧ (stepDischargeEnd s b bio ok junk, []) = r := by
  cases h : s.writes.cell b <;> simp [step, h]

theorem step_prefetchPop :
    step k s .prefetchPop = some r ↔
      ∃ x ring, s.ring.pop k.prefetchBufferSize = some (x, ring) ∧
        ((s.frontswapMap x = true ∧
            ({ s with ring := ring, jobs := s.jobs.alloc ⟨x, s.opCount x, false⟩ }, []) = r) ∨
          (s.frontswapMap x = false ∧ ({ s with ring := ring }, []) = r)) := by
  cases h : s.ring.pop k.prefetchBufferSize with
  | none => simp [step, h]
  | some q =>
      obtain ⟨x, ring⟩ := q
      cases hx : s.frontswapMap x <;> simp [step, h, hx]

theorem step_prefetchLookup {j : Nat} :
    step k s (.prefetchLookup j) = some r ↔
      ∃ job, s.jobs.cell j = some job ∧ job.missed = false ∧
        (((∃ e, atomicEntryLookupLock s job.slot = some e) ∧
            ({ s with jobs := s.jobs.free j }, []) = r) ∨
          (atomicEntryLookupLock s job.slot = none ∧
            ({ s with jobs := s.jobs.write j { job with missed := true } }, []) = r)) := by
  cases h : s.jobs.cell j with
  | none => simp [step, h]
  | some job =>
      cases hm : job.missed with
      | true => simp [step, h, hm]
      | false => cases hl : atomicEntryLookupLock s job.slot <;> simp [step, h, hm, hl]

theorem step_prefetchSubmit {j : Nat} {o : PrefetchOutcome} :
    step k s (.prefetchSubmit j o) = some r ↔
      ∃ job, s.jobs.cell j = some job ∧ job.missed = true ∧
        (prefetchSubmit { s with jobs := s.jobs.free j } job.slot job.seen o, []) = r := by
  cases h : s.jobs.cell j with
  | none => simp [step, h]
  | some job => cases hm : job.missed <;> simp [step, h, hm]

theorem step_prefetchRead {b : BioId} :
    step k s (.prefetchRead b) = some r ↔
      ∃ bio, s.reads.cell b = some bio ∧ bio.done = false ∧
        (stepPrefetchRead s b bio, []) = r := by
  cases h : s.reads.cell b with
  | none => simp [step, h]
  | some bio => cases hd : bio.done <;> simp [step, h, hd]

theorem step_prefetchEnd {b : BioId} {ok lockFree nodeOk : Bool} :
    step k s (.prefetchEnd b ok lockFree nodeOk) = some r ↔
      ∃ bio, s.reads.cell b = some bio ∧ (ok = true → bio.done = true) ∧
        stepPrefetchEnd k s b bio ok lockFree nodeOk = r := by
  cases h : s.reads.cell b with
  | none => simp [step, h]
  | some bio => cases ok <;> cases hd : bio.done <;> simp [step, h, hd]

theorem step_kernelWrite {x : Slot} {page : P} :
    step k s (.kernelWrite x page) = some r ↔
      s.pending x = none ∧ s.frontswapMap x = false ∧
        ({ s with disk := Function.update s.disk x page }, []) = r := by
  cases h : s.pending x <;> cases hx : s.frontswapMap x <;> simp [step, h, hx]

end Enabled

def defaultQuarantineTime : BitVec 32 := 300

/-- `tswap_init`, over any contents of the swap devices. -/
def tswapInit (disk : Slot → P) (jiffies : BitVec 64) : St P where
  entries := .empty
  pages := .empty
  trees := fun _ => none
  tswapTreeRoots := fun _ => none
  nextTree := 0
  areas := fun _ => none
  quarantineList := []
  stat := initStat
  quarantineTime := defaultQuarantineTime
  jiffies := jiffies
  discharge := .outer
  writes := .empty
  reads := .empty
  jobs := .empty
  ring := .empty
  pending := fun _ => none
  frontswapMap := fun _ => false
  disk := disk
  opCount := fun _ => 0
  faults := []

def tswap (P : Type) (k : Kernel) : System (St P) (Action P) (Event P) where
  init s := ∃ disk jiffies, s = tswapInit disk jiffies
  step := step k

/-! ## A small instance, for runs on concrete inputs -/

def sampleKernel : Kernel where
  prefetchBufferSize := 4
  msecsToJiffies := fun ms => ms.setWidth 64
  swapSlotFreeNotify := fun _ => false

/-- Every slot of the devices holds the page 0. -/
def sampleStart : St Nat := tswapInit (fun _ => 0) 0

theorem sampleStart_init : (tswap Nat sampleKernel).init sampleStart := ⟨_, _, rfl⟩

def sampleSlot : Slot := ⟨0, 7⟩

def allOk : StoreOutcome := ⟨true, true, true⟩

/-- Set up the type of the sample slot and store the page 5. -/
def sampleStore : List (Action Nat) :=
  [.frontswapInit 0 true, .store sampleSlot 5 false allOk, .storeMissed sampleSlot true allOk,
    .frontswapMap sampleSlot]

/-- The quarantine time passes and the discharge thread submits the write. -/
def sampleDischarge : List (Action Nat) :=
  [.tick 1000000, .dischargeOuter, .dischargeScan, .dischargeSubmit true]

end Memtrade.Tswap
