import Memtrade.Lib.Conversion
import Memtrade.Lib.FloatFormat
import Memtrade.Lib.System
import Mathlib.Tactic.Linarith
import Mathlib.Tactic.NormNum

/-!
# The two loops of cmanager

The decrease loop of `main` and the increase loop of the warrior thread share the
cgroup limit and the bottom line, each under a lock of its own. One action is one
section under one of the locks; the decrease loop updates the bottom line while
it holds the lock of the limit, so its section is cut there. The tests on
performance (`cmanager`), latency (`cmanager_latency`) and promotion rates
(`rcmanager`) enter as booleans; all constants below are the same in the three
programs. Products are computed in a floating-point format, which is `float` in the
programs; times are in nanoseconds.
-/

namespace Memtrade.Cmanager

/-! ## Constants -/

def unitSize : Int := 64 * 2 ^ 20
def minCgroupLimit : Int := 0
def ad : Int := unitSize
def mdThreshold : ℚ := 2
def md : ℚ := 19 / 20
def miRssThreshold : Int := 2 * ad
def mi : ℚ := 2
def touchRssBottomLineTtl : Int := 3 * 300
def touchRssBottomLineThreshold : Int := 2 * ad

/-- `g_performance_drop_bottom_line_ttl`, `g_latency_increase_bottom_line_ttl`
and `g_promo_bottom_line_ttl`. -/
def dropBottomLineTtl : Int := 900

/-! ## State -/

/-- Where the decrease loop stands in its round: asleep, after reading the bottom
line, holding the lock of the limit, and still holding it after the bottom line
has been updated if need be. `bottomLine` is its local variable. -/
inductive DecPc where
  | idle
  | read (rss : Nat) (bottomLine : Int)
  | locked (rss : Nat) (proposed bottomLine : Int)
  | ready (proposed bottomLine : Int)
deriving DecidableEq, Repr

def DecPc.holdsLimitLock : DecPc → Bool
  | .idle | .read _ _ => false
  | .locked _ _ _ | .ready _ _ => true

/-- The warrior thread: asleep, before and after it may set the bottom line. -/
inductive WarriorPc where
  | idle
  | read (rss : Nat)
  | lined (rss : Nat)
deriving DecidableEq, Repr

structure LimitState where
  physicalMemorySize : Nat
  cgroupLimit : Int
  bottomLine : Int
  bottomLineExpireTime : Int
  /-- The last reading of the clock. -/
  now : Int
  dec : DecPc
  warrior : WarriorPc
deriving DecidableEq, Repr

inductive LimitEvent where
  | updated (bottomLine ttl now : Int)
  | applied (limit now : Int)
deriving DecidableEq, Repr

/-! ## The bottom line -/

/-- `atomic_get_bottom_line`: a line is dropped when somebody reads it after its
expiry. -/
def atomicGetBottomLine (now : Int) (s : LimitState) : LimitState × Int :=
  let s :=
    if s.bottomLine ≥ 0 ∧ now > s.bottomLineExpireTime then { s with bottomLine := -1 } else s
  (s, s.bottomLine)

def atomicUpdateBottomLine (bottomLine ttl : Int) (extendCurrent : Bool) (now : Int)
    (s : LimitState) : LimitState × Int :=
  let s :=
    if bottomLine ≥ s.bottomLine then
      { s with bottomLine := bottomLine, bottomLineExpireTime := now + seconds ttl }
    else if extendCurrent ∧ s.bottomLine ≥ 0 then
      { s with bottomLineExpireTime := now + seconds ttl }
    else s
  (s, s.bottomLine)

/-! ## The decrease loop -/

section Float

variable (F : FloatFormat)

/-- The test of MD compares two values of the format. -/
def performsMd (cgroupLimit : Int) (rss : Nat) : Prop := F.round cgroupLimit > F.times rss mdThreshold

instance (cgroupLimit : Int) (rss : Nat) : Decidable (performsMd F cgroupLimit rss) :=
  inferInstanceAs (Decidable (_ > _))

/-- The limit proposed by AD or MD, before the bottom line. -/
def proposedLimit (cgroupLimit : Int) (rss : Nat) : Int :=
  if performsMd F cgroupLimit rss then
    max (max minCgroupLimit (trunc (F.times rss mdThreshold))) (trunc (F.times cgroupLimit md))
  else max minCgroupLimit (cgroupLimit - ad)

/-- `apply bottom line`. -/
def applyBottomLine (proposed bottomLine : Int) : Int :=
  if bottomLine ≥ 0 then max proposed bottomLine else proposed

/-- The multiplicative increase of the limit. -/
def increasedLimit (s : LimitState) (limit : Int) : Int :=
  min s.physicalMemorySize (trunc (F.times limit mi))

/-- The line that a round which comes near the resident size asks for. -/
def touchLine (rss : Nat) : Int := max minCgroupLimit (rss - ad)

/-- `update bottom line`. -/
def decUpdate (s : LimitState) (rss : Nat) (proposed bottomLine now : Int) :
    LimitState × List LimitEvent :=
  if proposed < rss + touchRssBottomLineThreshold then
    let (s, line) := atomicUpdateBottomLine (touchLine rss) touchRssBottomLineTtl false now s
    ({ s with dec := .ready (max proposed line) line },
      [.updated (touchLine rss) touchRssBottomLineTtl now])
  else ({ s with dec := .ready proposed bottomLine }, [])

/-- The limit is set; if the kernel refuses it, it is increased again. -/
def decApply (s : LimitState) (proposed : Int) (setOk : Bool) (now : Int) :
    LimitState × List LimitEvent :=
  let limit := if setOk then proposed else increasedLimit F s proposed
  ({ s with cgroupLimit := limit, dec := .idle }, [.applied limit now])

/-! ## The warrior thread -/

/-- `set bottom line`. -/
def warriorLine (s : LimitState) (rss : Nat) (low : Bool) (now : Int) :
    LimitState × List LimitEvent :=
  if low then
    let line := min (s.physicalMemorySize : Int) (trunc (F.times rss mi))
    let s := (atomicUpdateBottomLine line dropBottomLineTtl true now s).1
    ({ s with warrior := .lined rss }, [.updated line dropBottomLineTtl now])
  else ({ s with warrior := .lined rss }, [])

/-- `perform MI`, skipped while the resident size is far below the limit. -/
def warriorLimit (s : LimitState) (rss : Nat) (drop : Bool) : LimitState :=
  if drop = true ∧ ¬ (rss : Int) < s.cgroupLimit - miRssThreshold then
    { s with warrior := .idle, cgroupLimit := increasedLimit F s s.cgroupLimit }
  else { s with warrior := .idle }

/-! ## The system -/

inductive LimitAction where
  | decGet (rss : Nat) (now : Int)
  | decPropose (skip : Bool)
  | decUpdate (now : Int)
  | decApply (setOk : Bool) (now : Int)
  | warriorGet (rss : Nat) (now : Int)
  | warriorLine (low : Bool) (now : Int)
  | warriorLimit (drop : Bool)
  /-- `atomic_get_bottom_line` for a log line. -/
  | logGet (now : Int)
deriving DecidableEq, Repr

/-- Run an action at a time that is not before the last one. -/
def atTime (s : LimitState) (now : Int) (r : LimitState → LimitState × List LimitEvent) :
    Option (LimitState × List LimitEvent) :=
  if s.now ≤ now then some (r { s with now := now }) else none

def limitStep (s : LimitState) : LimitAction → Option (LimitState × List LimitEvent)
  | .decGet rss now =>
      match s.dec with
      | .idle =>
          atTime s now fun s =>
            let (s, line) := atomicGetBottomLine now s
            ({ s with dec := .read rss line }, [])
      | _ => none
  | .decPropose skip =>
      match s.dec with
      | .read rss line =>
          if skip then some ({ s with dec := .idle }, [])
          else
            let proposed := applyBottomLine (proposedLimit F s.cgroupLimit rss) line
            some ({ s with dec := .locked rss proposed line }, [])
      | _ => none
  | .decUpdate now =>
      match s.dec with
      | .locked rss proposed line => atTime s now fun s => decUpdate s rss proposed line now
      | _ => none
  | .decApply setOk now =>
      match s.dec with
      | .ready proposed _ => atTime s now fun s => decApply F s proposed setOk now
      | _ => none
  | .warriorGet rss now =>
      match s.warrior with
      | .idle =>
          atTime s now fun s => ({ (atomicGetBottomLine now s).1 with warrior := .read rss }, [])
      | _ => none
  | .warriorLine low now =>
      match s.warrior with
      | .read rss => atTime s now fun s => warriorLine F s rss low now
      | _ => none
  | .warriorLimit drop =>
      match s.warrior with
      | .lined rss =>
          if drop = true ∧ s.dec.holdsLimitLock = true then none
          else some (warriorLimit F s rss drop, [])
      | _ => none
  | .logGet now => atTime s now fun s => ((atomicGetBottomLine now s).1, [])

/-- `main` up to the start of the loops, with the initial size in MB, which is shifted as a `long`. -/
def initLimit (physicalMemorySize : Nat) (initialSize now : Int) : LimitState where
  physicalMemorySize := physicalMemorySize
  cgroupLimit := min physicalMemorySize (wrapLong (initialSize * 2 ^ 20))
  bottomLine := -1
  bottomLineExpireTime := 0
  now := now
  dec := .idle
  warrior := .idle

def cmanager : System LimitState LimitAction LimitEvent where
  init s := ∃ physicalMemorySize initialSize now, s = initLimit physicalMemorySize initialSize now
  step := limitStep F

end Float

/-! ## What a step does -/

section Fields

variable (s : LimitState) (line ttl now : Int) (extend : Bool)

@[simp] theorem get_physicalMemorySize :
    (atomicGetBottomLine now s).1.physicalMemorySize = s.physicalMemorySize := by
  unfold atomicGetBottomLine
  simp only
  split <;> rfl

@[simp] theorem get_cgroupLimit : (atomicGetBottomLine now s).1.cgroupLimit = s.cgroupLimit := by
  unfold atomicGetBottomLine
  simp only
  split <;> rfl

@[simp] theorem get_dec : (atomicGetBottomLine now s).1.dec = s.dec := by
  unfold atomicGetBottomLine
  simp only
  split <;> rfl

theorem get_bottomLine :
    (atomicGetBottomLine now s).1.bottomLine = -1 ∨
      (atomicGetBottomLine now s).1.bottomLine = s.bottomLine := by
  unfold atomicGetBottomLine
  simp only
  split
  · exact Or.inl rfl
  · exact Or.inr rfl

@[simp] theorem update_physicalMemorySize :
    (atomicUpdateBottomLine line ttl extend now s).1.physicalMemorySize =
      s.physicalMemorySize := by
  unfold atomicUpdateBottomLine
  simp only
  split
  · rfl
  · split <;> rfl

@[simp] theorem update_cgroupLimit :
    (atomicUpdateBottomLine line ttl extend now s).1.cgroupLimit = s.cgroupLimit := by
  unfold atomicUpdateBottomLine
  simp only
  split
  · rfl
  · split <;> rfl

@[simp] theorem update_dec : (atomicUpdateBottomLine line ttl extend now s).1.dec = s.dec := by
  unfold atomicUpdateBottomLine
  simp only
  split
  · rfl
  · split <;> rfl

@[simp] theorem update_snd :
    (atomicUpdateBottomLine line ttl extend now s).2 =
      (atomicUpdateBottomLine line ttl extend now s).1.bottomLine := rfl

@[simp] theorem update_bottomLine :
    (atomicUpdateBottomLine line ttl extend now s).1.bottomLine = max line s.bottomLine := by
  unfold atomicUpdateBottomLine
  simp only
  split
  · rename_i h
    exact (max_eq_left h).symm
  · rename_i h
    have hmax : max line s.bottomLine = s.bottomLine := max_eq_right (by omega)
    rw [hmax]
    split <;> rfl

end Fields

variable {F : FloatFormat}

theorem proposedLimit_nonneg (cgroupLimit : Int) (rss : Nat) :
    0 ≤ proposedLimit F cgroupLimit rss := by
  unfold proposedLimit minCgroupLimit
  split <;> omega

/-! ## Products -/

theorem round_md : (9 / 10 : ℚ) ≤ F.round md ∧ F.round md ≤ 24 / 25 := by
  have herr := FloatFormat.round_error (F := F) (q := md) (by unfold md; norm_num)
  have hmd : md = 19 / 20 := rfl
  rw [hmd] at herr ⊢
  constructor <;> linarith [herr.1, herr.2]

theorem times_twice {n : Int} (h : 0 ≤ n) : (n : ℚ) - n / 2 ^ 24 ≤ F.times n mi / 2 + n / 2 ^ 24 := by
  have hcast : (0 : ℚ) ≤ n := by exact_mod_cast h
  have hround := FloatFormat.round_error (F := F) hcast
  have hpos := FloatFormat.round_nonneg (F := F) hcast
  have hprod := FloatFormat.round_error (F := F) (q := F.round n * 2) (by linarith)
  unfold FloatFormat.times mi
  rw [FloatFormat.round_two]
  linarith [hround.1, hround.2, hprod.1]

theorem lt_trunc_times {n : Int} (h : 0 < n) : n < trunc (F.times n mi) := by
  by_cases hone : n = 1
  · subst hone
    have hround : F.round (1 : Int) = 1 := by simpa using F.round_natCast 1 (by norm_num)
    have htimes : F.times 1 mi = ((2 : Int) : ℚ) := by
      unfold FloatFormat.times mi
      rw [hround, FloatFormat.round_two, one_mul, FloatFormat.round_two]
      norm_num
    rw [htimes]
    exact lt_of_lt_of_le (by norm_num) (le_trunc le_rfl)
  · have htwo : (2 : ℚ) ≤ n := by exact_mod_cast (by omega : (2 : Int) ≤ n)
    have htimes := times_twice (F := F) h.le
    apply Int.lt_of_add_one_le
    apply le_trunc
    push_cast
    linarith

theorem trunc_times_nonneg {n : Int} {c : ℚ} (hn : 0 ≤ n) (hc : 0 ≤ c) : 0 ≤ trunc (F.times n c) :=
  trunc_nonneg (FloatFormat.times_nonneg hn hc)

theorem mdThreshold_nonneg : 0 ≤ mdThreshold := by
  unfold mdThreshold
  norm_num

theorem mi_nonneg : 0 ≤ mi := by
  unfold mi
  norm_num

theorem le_trunc_times {n : Int} (h : 0 ≤ n) : n ≤ trunc (F.times n mi) := by
  rcases h.lt_or_eq with hpos | rfl
  · exact (lt_trunc_times hpos).le
  · exact trunc_times_nonneg le_rfl mi_nonneg

theorem times_md_le {n : Int} (h : 0 ≤ n) : F.times n md ≤ n := by
  have hcast : (0 : ℚ) ≤ n := by exact_mod_cast h
  have hround := FloatFormat.round_error (F := F) hcast
  have hpos := FloatFormat.round_nonneg (F := F) hcast
  have hmd := round_md (F := F)
  have hle := mul_le_mul_of_nonneg_left hmd.2 hpos
  have hnonneg : 0 ≤ F.round n * F.round md := mul_nonneg hpos (by linarith [hmd.1])
  have hprod := FloatFormat.round_error (F := F) hnonneg
  unfold FloatFormat.times
  linarith [hround.2, hprod.2]

theorem one_le_times_md {n : Int} (h : 2 ≤ n) : 1 ≤ F.times n md := by
  have hcast : (2 : ℚ) ≤ n := by exact_mod_cast h
  have hround := FloatFormat.round_error (F := F) (q := n) (by linarith)
  have hpos := FloatFormat.round_nonneg (F := F) (q := n) (by linarith)
  have hmd := round_md (F := F)
  have hle := mul_le_mul_of_nonneg_left hmd.1 hpos
  have hprod := FloatFormat.round_error (F := F) (q := F.round n * F.round md)
    (mul_nonneg hpos (by linarith [hmd.1]))
  unfold FloatFormat.times
  linarith [hround.1, hprod.1]

/-! ## The ways in which an action can be taken -/

inductive Taken (F : FloatFormat) (s : LimitState) : LimitAction → LimitState → List LimitEvent → Prop where
  | decGet {rss : Nat} {now : Int} : s.dec = .idle → s.now ≤ now →
      Taken F s (.decGet rss now)
        { (atomicGetBottomLine now { s with now := now }).1 with
          dec := .read rss (atomicGetBottomLine now { s with now := now }).2 } []
  | decSkip {rss : Nat} {line : Int} : s.dec = .read rss line →
      Taken F s (.decPropose true) { s with dec := .idle } []
  | decPropose {rss : Nat} {line : Int} : s.dec = .read rss line →
      Taken F s (.decPropose false)
        { s with
          dec := .locked rss (applyBottomLine (proposedLimit F s.cgroupLimit rss) line) line } []
  | decUpdate {rss : Nat} {proposed line now : Int} : s.dec = .locked rss proposed line →
      s.now ≤ now →
      Taken F s (.decUpdate now) (decUpdate { s with now := now } rss proposed line now).1
        (decUpdate { s with now := now } rss proposed line now).2
  | decApply {proposed line now : Int} {setOk : Bool} : s.dec = .ready proposed line →
      s.now ≤ now →
      Taken F s (.decApply setOk now) (decApply F { s with now := now } proposed setOk now).1
        (decApply F { s with now := now } proposed setOk now).2
  | warriorGet {rss : Nat} {now : Int} : s.warrior = .idle → s.now ≤ now →
      Taken F s (.warriorGet rss now)
        { (atomicGetBottomLine now { s with now := now }).1 with warrior := .read rss } []
  | warriorLine {rss : Nat} {low : Bool} {now : Int} : s.warrior = .read rss → s.now ≤ now →
      Taken F s (.warriorLine low now) (warriorLine F { s with now := now } rss low now).1
        (warriorLine F { s with now := now } rss low now).2
  | warriorLimit {rss : Nat} {drop : Bool} : s.warrior = .lined rss →
      ¬ (drop = true ∧ s.dec.holdsLimitLock = true) →
      Taken F s (.warriorLimit drop) (warriorLimit F s rss drop) []
  | logGet {now : Int} : s.now ≤ now →
      Taken F s (.logGet now) (atomicGetBottomLine now { s with now := now }).1 []

theorem atTime_eq {s s' : LimitState} {evs : List LimitEvent} {now : Int}
    {r : LimitState → LimitState × List LimitEvent} (hs : atTime s now r = some (s', evs)) :
    s.now ≤ now ∧ r { s with now := now } = (s', evs) := by
  unfold atTime at hs
  split at hs
  · rename_i hnow
    exact ⟨hnow, Option.some.inj hs⟩
  · cases hs

theorem limitStep_taken {s s' : LimitState} {a : LimitAction} {evs : List LimitEvent}
    (hs : limitStep F s a = some (s', evs)) : Taken F s a s' evs := by
  cases a with
  | decGet rss now =>
      simp only [limitStep] at hs
      split at hs
      · rename_i hdec
        obtain ⟨hnow, hr⟩ := atTime_eq hs
        cases hr
        exact .decGet hdec hnow
      · cases hs
  | decPropose skip =>
      simp only [limitStep] at hs
      split at hs
      · rename_i hdec
        cases skip
        · cases hs
          exact .decPropose hdec
        · cases hs
          exact .decSkip hdec
      · cases hs
  | decUpdate now =>
      simp only [limitStep] at hs
      split at hs
      · rename_i hdec
        obtain ⟨hnow, hr⟩ := atTime_eq hs
        have htaken := Taken.decUpdate (F := F) hdec hnow
        rw [hr] at htaken
        exact htaken
      · cases hs
  | decApply setOk now =>
      simp only [limitStep] at hs
      split at hs
      · rename_i hdec
        obtain ⟨hnow, hr⟩ := atTime_eq hs
        have htaken : Taken F s (.decApply setOk now) _ _ := .decApply hdec hnow
        rw [hr] at htaken
        exact htaken
      · cases hs
  | warriorGet rss now =>
      simp only [limitStep] at hs
      split at hs
      · rename_i hwarrior
        obtain ⟨hnow, hr⟩ := atTime_eq hs
        cases hr
        exact .warriorGet hwarrior hnow
      · cases hs
  | warriorLine low now =>
      simp only [limitStep] at hs
      split at hs
      · rename_i hwarrior
        obtain ⟨hnow, hr⟩ := atTime_eq hs
        have htaken : Taken F s (.warriorLine low now) _ _ := .warriorLine hwarrior hnow
        rw [hr] at htaken
        exact htaken
      · cases hs
  | warriorLimit drop =>
      simp only [limitStep] at hs
      split at hs
      · rename_i hwarrior
        split at hs
        · cases hs
        · rename_i hfree
          cases hs
          exact .warriorLimit hwarrior hfree
      · cases hs
  | logGet now =>
      simp only [limitStep] at hs
      obtain ⟨hnow, hr⟩ := atTime_eq hs
      cases hr
      exact .logGet hnow

end Memtrade.Cmanager
