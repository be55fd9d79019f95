import Memtrade.ControlLoop.KsDistance

/-!
# One iteration of the control loop

The measurement part of `main`: each window is kept as a list in arrival order
and as a tree. At every iteration expired samples leave, the new one may enter,
and the drop detector compares the recent windows with the baseline.

A measured performance is `none` when it is not finite.
-/

namespace Memtrade.ControlLoop

open AvlTree

/-! ## Configuration and state -/

structure BaselineEstimation where
  windowSize : Int
  minimalBaselineSize : Int
deriving DecidableEq, Repr

structure PerformanceDropDetection where
  recentWindowSize : Int
deriving DecidableEq, Repr

structure PrefetchConfig where
  size : Int
  windowSize : Int
  ksDistance : ℚ
deriving DecidableEq, Repr

/-- The part of `control_config` that the measurements depend on. -/
structure ControlConfig where
  higherBetter : Bool
  baselineEstimation : BaselineEstimation
  performanceDropDetection : PerformanceDropDetection
  prefetch : PrefetchConfig
deriving DecidableEq, Repr

abbrev ControlConfig.key (config : ControlConfig) : PerfPoint → ℚ :=
  PerfPoint.key config.higherBetter

structure ControlContext where
  timestamp : Int
  baselineTree : AvlTree PerfPoint
  baselineList : List PerfPoint
  recentTree : AvlTree PerfPoint
  recentList : List PerfPoint
  prefetchTree : AvlTree PerfPoint
  prefetchList : List PerfPoint

namespace ControlContext

def init : ControlContext := ⟨0, .empty, [], .empty, [], .empty, []⟩

def setBaseline (ctx : ControlContext) (list : List PerfPoint) (tree : AvlTree PerfPoint) :
    ControlContext :=
  { ctx with baselineList := list, baselineTree := tree }

def setRecent (ctx : ControlContext) (list : List PerfPoint) (tree : AvlTree PerfPoint) :
    ControlContext :=
  { ctx with recentList := list, recentTree := tree }

def setPrefetch (ctx : ControlContext) (list : List PerfPoint) (tree : AvlTree PerfPoint) :
    ControlContext :=
  { ctx with prefetchList := list, prefetchTree := tree }

end ControlContext

/-- What one iteration measures. `garbage` is what `baseline_list.front()` would
read if the list were empty; not finite is `none`. -/
structure Sample where
  performance : Option ℚ
  promotionRate : Int
  garbage : Option ℚ
deriving DecidableEq, Repr

/-- What one iteration computes: the two detector values and the size passed to
`silo_prefetch`, if it is called. -/
structure Detection where
  validBaseline : Bool
  outlierProb : ℚ
  ksDistance : ℚ
  siloPrefetch : Option Int
deriving DecidableEq, Repr

/-- A signed 64-bit value compared with a `size_t`. -/
def toSizeT (n : Int) : Int := if n < 0 then n + 2 ^ 64 else n

/-! ## Windows -/

section Windows

variable (key : PerfPoint → ℚ) (expiry : Int)

/-- The expiry loop of the baseline and the prefetch window. -/
def expire : List PerfPoint → AvlTree PerfPoint → Option (List PerfPoint × AvlTree PerfPoint)
  | [], tree => some ([], tree)
  | front :: list, tree =>
      if front.timestamp ≤ expiry then do
        let tree ← remove key tree front
        expire list tree
      else
        some (front :: list, tree)

/-- The expiry loop of the recent window. The sample taken out of the tree is
`expired`, the front of the baseline list, and not the one that left the list.
A value that is not finite compares equal to no sample. -/
def expireRecent (expired : Option PerfPoint) :
    List PerfPoint → AvlTree PerfPoint → Option (List PerfPoint × AvlTree PerfPoint)
  | [], tree => some ([], tree)
  | front :: list, tree =>
      if front.timestamp ≤ expiry then do
        let tree ← match expired with
          | none => some tree
          | some p => remove key tree p
        expireRecent expired list tree
      else
        some (front :: list, tree)

/-- `push_back` into the list and `insert` into the tree, for a sample that
meets the window's condition. -/
def pushSample (curPerf : Option PerfPoint) (list : List PerfPoint) (tree : AvlTree PerfPoint) :
    Option (List PerfPoint × AvlTree PerfPoint) :=
  match curPerf with
  | none => some (list, tree)
  | some curPerf => do
      let tree ← insert key tree curPerf
      some (list ++ [curPerf], tree)

end Windows

section Loop

variable (config : ControlConfig)

/-- The sample as a `perf_point`, if its performance is finite. -/
def Sample.curPerf (s : Sample) (timestamp : Int) : Option PerfPoint :=
  s.performance.map fun p => ⟨timestamp, p⟩

def updateBaseline (ctx : ControlContext) (s : Sample) : Option ControlContext := do
  let (list, tree) ←
    expire config.key (ctx.timestamp - config.baselineEstimation.windowSize) ctx.baselineList
      ctx.baselineTree
  let (list, tree) ←
    pushSample config.key (if s.promotionRate = 0 then s.curPerf ctx.timestamp else none) list tree
  some (ctx.setBaseline list tree)

/-- `baseline_list.front()`, also of an empty list. -/
def baselineFront (ctx : ControlContext) (s : Sample) : Option PerfPoint :=
  match ctx.baselineList with
  | front :: _ => some front
  | [] => s.garbage.map fun p => ⟨0, p⟩

def updateRecent (ctx : ControlContext) (s : Sample) : Option ControlContext := do
  let (list, tree) ←
    expireRecent config.key (ctx.timestamp - config.performanceDropDetection.recentWindowSize)
      (baselineFront ctx s) ctx.recentList ctx.recentTree
  let (list, tree) ← pushSample config.key (s.curPerf ctx.timestamp) list tree
  some (ctx.setRecent list tree)

def updatePrefetch (ctx : ControlContext) (s : Sample) : Option ControlContext := do
  let (list, tree) ←
    expire config.key (ctx.timestamp - config.prefetch.windowSize) ctx.prefetchList
      ctx.prefetchTree
  let (list, tree) ← pushSample config.key (s.curPerf ctx.timestamp) list tree
  some (ctx.setPrefetch list tree)

def percentLess (tree : AvlTree PerfPoint) (value : PerfPoint) (withEqual : Bool) : Option ℚ := do
  let count ← countLess config.key tree value withEqual
  some ((count : ℚ) / (tree.numNodes : ℚ))

def percentGreater (tree : AvlTree PerfPoint) (value : PerfPoint) (withEqual : Bool) :
    Option ℚ := do
  some (1 - (← percentLess config tree value !withEqual))

/-- The outlier probability; what the source computes for a performance that is
not finite is overwritten by `0`. -/
def outlierProb (ctx : ControlContext) (s : Sample) (validBaseline : Bool) : Option ℚ :=
  match s.curPerf ctx.timestamp with
  | none => some 0
  | some curPerf =>
      if s.promotionRate = 0 then some 0
      else if validBaseline then percentGreater config ctx.baselineTree curPerf false
      else some 1

/-- The detector and the prefetch decision, after the windows are up to date. -/
def detect (ctx : ControlContext) (s : Sample) : Option Detection := do
  let validBaseline : Bool :=
    toSizeT config.baselineEstimation.minimalBaselineSize ≤ (ctx.baselineList.length : Int)
  let outlierProb ← outlierProb config ctx s validBaseline
  let ksDistance ←
    if validBaseline then getKsDistance config.higherBetter ctx.baselineTree ctx.recentTree
    else some 1
  if validBaseline ∧ (ctx.prefetchList.length : Int) = toSizeT config.prefetch.windowSize then
    let prefetchDistance ← getKsDistance config.higherBetter ctx.baselineTree ctx.prefetchTree
    if prefetchDistance ≥ config.prefetch.ksDistance then
      some ⟨validBaseline, outlierProb, ksDistance, some config.prefetch.size⟩
    else
      some ⟨validBaseline, outlierProb, ksDistance, none⟩
  else
    some ⟨validBaseline, outlierProb, ksDistance, none⟩

/-- One iteration of the loop of `main`. -/
def iteration (ctx : ControlContext) (s : Sample) : Option (ControlContext × Detection) := do
  let ctx ← updateBaseline config ctx s
  let ctx ← updateRecent config ctx s
  let ctx ← updatePrefetch config ctx s
  let detection ← detect config ctx s
  some ({ ctx with timestamp := ctx.timestamp + 1 }, detection)

/-- The state after the listed measurements. -/
def runLoop (samples : List Sample) : Option ControlContext :=
  samples.foldlM (fun ctx s => (iteration config ctx s).map Prod.fst) .init

/-- What the last iteration of a run computes. -/
def lastDetection (samples : List Sample) (s : Sample) : Option Detection := do
  let ctx ← runLoop config samples
  let (_, detection) ← iteration config ctx s
  some detection

end Loop

/-- A configuration for concrete runs. -/
def sampleConfig : ControlConfig where
  higherBetter := true
  baselineEstimation := ⟨10, 1⟩
  performanceDropDetection := ⟨1⟩
  prefetch := ⟨4096, 2, 1 / 2⟩

/-- A finite measurement, `rate` pages promoted. -/
def measured (performance : ℚ) (rate : Int) : Sample := ⟨some performance, rate * 4096, none⟩

end Memtrade.ControlLoop
