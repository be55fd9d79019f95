import Memtrade.ControlLoop.Detector
import Memtrade.Lib.Conversion
import Memtrade.Lib.System

/-!
# The state machine of the control loop and its threads

Three threads share the control state under `state_lock`: the main loop moves
between `HARVEST` and `RECOVERY`, the harvest thread lowers the cgroup limit and
the recovery thread raises it. One action is one section under the lock. A
harvest or recovery thread takes the lock after its sleep or when it is woken in
`wait`; either way it tests its predicate first. It may sleep through any number
of actions of the others, and a wakeup needs no notification.

The two control loops differ only in how an iteration assesses its measurements.
Floating-point values are exact rationals, times are in nanoseconds.
-/

namespace Memtrade.ControlLoop

inductive StateType where
  | harvest
  | recovery
deriving DecidableEq, Repr

structure HarvestConfig where
  stepSize : Int
deriving DecidableEq, Repr

structure RecoveryConfig where
  stepSize : Int
  stepMi : ℚ
deriving DecidableEq, Repr

structure RecoveryTimeConfig where
  ad : ℚ
  mi : ℚ
  min : Int
  max : Int
deriving DecidableEq, Repr

/-- The part of `control_config::control_loop` that the threads read. -/
structure LoopConfig where
  enable : Bool
  harvest : HarvestConfig
  recovery : RecoveryConfig
  recoveryTime : RecoveryTimeConfig
deriving DecidableEq, Repr

/-- What the state transition takes from an iteration: whether performance has
dropped, and whether so far that the recovery time is multiplied. -/
structure Assessment where
  perfDropped : Bool
  multiply : Bool
deriving DecidableEq, Repr

structure DropThresholds where
  outlierProb : ℚ
  ksDistance : ℚ
deriving DecidableEq, Repr

/-- `control_loop`: from the detector values. -/
def assessDetection (t : DropThresholds) (d : Detection) : Assessment where
  perfDropped := !d.validBaseline || d.outlierProb ≥ t.outlierProb || d.ksDistance ≥ t.ksDistance
  multiply := d.validBaseline && d.ksDistance ≥ t.ksDistance

/-- The shared control state and the local `cur_step_size` of the recovery
thread. -/
structure ThreadState where
  state : StateType
  cgroupLimit : Int
  recoveryStartTime : Int
  recoveryTime : Int
  curStepSize : Int
  /-- The last reading of the clock. -/
  now : Int
  /-- History only, read by no thread: when the present or last stay in
  `RECOVERY` began. -/
  recoverySince : Int
  /-- History only: the recovery thread has raised the limit since it started or
  last found the state to be `HARVEST`. -/
  raised : Bool
deriving DecidableEq, Repr

inductive LoopEvent where
  | toRecovery
  | toHarvest
  | raised (amount : Int)
deriving DecidableEq, Repr

section Model

variable (config : LoopConfig)

/-- `init_ctx`, on a machine with `memorySize` bytes. -/
def initCtx (memorySize : Nat) (now : Int) : ThreadState where
  state := .recovery
  cgroupLimit := memorySize
  recoveryStartTime := now
  recoveryTime := config.recoveryTime.min
  curStepSize := config.recovery.stepSize
  now := now
  recoverySince := now
  raised := false

/-- `recovery_time *= mi`, up to the maximum. -/
def multiplyRecoveryTime (s : ThreadState) : ThreadState :=
  { s with
    recoveryTime := Min.min config.recoveryTime.max (trunc (s.recoveryTime * config.recoveryTime.mi)) }

/-- The state transition of an iteration of `main`. In `RECOVERY` the clock is
read a second time when the recovery time starts anew: that reading is `again`. -/
def transition (a : Assessment) (now again : Int) (s : ThreadState) :
    ThreadState × List LoopEvent :=
  if config.enable = false then (s, [])
  else
    match s.state with
    | .harvest =>
        if a.perfDropped then
          let s := { s with state := .recovery, recoveryStartTime := now, recoverySince := now }
          (if a.multiply then multiplyRecoveryTime config s else s, [.toRecovery])
        else (s, [])
    | .recovery =>
        if now ≥ s.recoveryStartTime + seconds s.recoveryTime then
          if a.perfDropped = false then ({ s with state := .harvest }, [.toHarvest])
          else
            let s := { s with recoveryStartTime := again }
            (if a.multiply then multiplyRecoveryTime config s else s, [])
        else (s, [])

/-- One turn of `harvest_thread_fn` with the lock held. -/
def harvestTurn (rss : Int) (s : ThreadState) : ThreadState :=
  match s.state with
  | .recovery => s
  | .harvest =>
      { s with
        cgroupLimit := max (rss - config.harvest.stepSize) 0
        recoveryTime :=
          max config.recoveryTime.min (trunc (s.recoveryTime - config.recoveryTime.ad)) }

/-- One turn of `recovery_thread_fn` with the lock held. The step is reset inside
the wait predicate, when the predicate is false. -/
def recoveryTurn (rss : Int) (s : ThreadState) : ThreadState × List LoopEvent :=
  match s.state with
  | .harvest => ({ s with curStepSize := config.recovery.stepSize, raised := false }, [])
  | .recovery =>
      if s.cgroupLimit - rss < config.recovery.stepSize then
        ({ s with
            cgroupLimit := s.cgroupLimit + s.curStepSize
            curStepSize := trunc (s.curStepSize * config.recovery.stepMi)
            raised := true }, [.raised s.curStepSize])
      else (s, [])

/-- An action; `μ` is what an iteration of the main loop measures. -/
inductive LoopAction (μ : Type) where
  | main (m : μ) (now again : Int)
  | harvestThread (rss : Int)
  | recoveryThread (rss : Int)
deriving DecidableEq, Repr

/-- The clock never runs backwards. -/
def loopStep {μ : Type} (assess : μ → Assessment) (s : ThreadState) :
    LoopAction μ → Option (ThreadState × List LoopEvent)
  | .main m now again =>
      if s.now ≤ now ∧ now ≤ again then
        some (transition config (assess m) now again { s with now := again })
      else none
  | .harvestThread rss => some (harvestTurn config rss s, [])
  | .recoveryThread rss => some (recoveryTurn config rss s)

def controlThreads {μ : Type} (assess : μ → Assessment) :
    System ThreadState (LoopAction μ) LoopEvent where
  init s := ∃ memorySize now, s = initCtx config memorySize now
  step := loopStep config assess

end Model

/-- A configuration for concrete runs: recover in steps of 10, doubled each time. -/
def sampleLoop : LoopConfig where
  enable := true
  harvest := ⟨10⟩
  recovery := ⟨10, 2⟩
  recoveryTime := ⟨1, 2, 1, 60⟩

def sampleThresholds : DropThresholds := ⟨1 / 2, 1 / 2⟩

/-- Detector values without and with a drop. -/
def steady : Detection := ⟨true, 0, 0, none⟩
def dropped : Detection := ⟨true, 1, 0, none⟩

end Memtrade.ControlLoop
