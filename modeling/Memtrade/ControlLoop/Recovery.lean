import Memtrade.ControlLoop.Threads
import Mathlib.Tactic.Linarith

/-!
# Recovery times, limits and recovery steps over whole runs

The first part is a joint invariant of the three threads: whatever their
interleaving, the recovery time stays in its bounds, the limit only grows during
recovery, and recovery is never left early. The second part is about the step by
which the limit grows.
-/

namespace Memtrade.ControlLoop

variable {μ : Type} {config : LoopConfig} {assess : μ → Assessment} {s s' : ThreadState}
  {evs tr : List LoopEvent}

/-! ## What a transition can do -/

/-- The recovery time is left alone or multiplied. -/
def Lengthened (config : LoopConfig) (s t : ThreadState) : Prop :=
  t = s ∨ t = multiplyRecoveryTime config s

/-- The results of `transition`, with the conditions they are reached under. -/
inductive Transitioned (config : LoopConfig) (a : Assessment) (now again : Int)
    (s : ThreadState) : ThreadState × List LoopEvent → Prop where
  | same : Transitioned config a now again s (s, [])
  | entered {t : ThreadState} : s.state = .harvest → config.enable = true →
      a.perfDropped = true →
      Lengthened config
        { s with state := .recovery, recoveryStartTime := now, recoverySince := now } t →
      Transitioned config a now again s (t, [.toRecovery])
  | left : s.state = .recovery → s.recoveryStartTime + seconds s.recoveryTime ≤ now →
      Transitioned config a now again s ({ s with state := .harvest }, [.toHarvest])
  | rearmed {t : ThreadState} : s.state = .recovery →
      Lengthened config { s with recoveryStartTime := again } t →
      Transitioned config a now again s (t, [])

theorem lengthened_ite (config : LoopConfig) (multiply : Bool) (s : ThreadState) :
    Lengthened config s (if multiply then multiplyRecoveryTime config s else s) := by
  cases multiply
  · exact .inl rfl
  · exact .inr rfl

theorem transition_cases (config : LoopConfig) (a : Assessment) (now again : Int)
    (s : ThreadState) : Transitioned config a now again s (transition config a now again s) := by
  unfold transition
  cases hen : config.enable with
  | false => exact .same
  | true =>
      rw [if_neg (by simp)]
      split
      · rename_i hst
        split
        · rename_i hdrop
          exact .entered hst hen hdrop (lengthened_ite config a.multiply _)
        · exact .same
      · rename_i hst
        split
        · rename_i htime
          split
          · exact .left hst htime
          · exact .rearmed hst (lengthened_ite config a.multiply _)
        · exact .same

/-- An action of the main loop: the clock has advanced, then the transition. -/
theorem main_cases {m : μ} {now again : Int}
    (hs : loopStep config assess s (.main m now again) = some (s', evs)) :
    s.now ≤ now ∧ now ≤ again ∧
      Transitioned config (assess m) now again { s with now := again } (s', evs) := by
  simp only [loopStep] at hs
  split at hs
  · rename_i hclock
    have hcases := transition_cases config (assess m) now again { s with now := again }
    rw [Option.some.inj hs] at hcases
    exact ⟨hclock.1, hclock.2, hcases⟩
  · cases hs

theorem harvestThread_eq {rss : Int}
    (hs : loopStep config assess s (.harvestThread rss) = some (s', evs)) :
    s' = harvestTurn config rss s ∧ evs = [] := by
  simp only [loopStep, Option.some.injEq, Prod.mk.injEq] at hs
  exact ⟨hs.1.symm, hs.2.symm⟩

theorem recoveryThread_eq {rss : Int}
    (hs : loopStep config assess s (.recoveryThread rss) = some (s', evs)) :
    recoveryTurn config rss s = (s', evs) := by
  simpa only [loopStep, Option.some.injEq] using hs

/-! ## Bounds -/

/-- What a configuration has to satisfy. -/
structure LoopConfig.Valid (config : LoopConfig) : Prop where
  min_nonneg : 0 ≤ config.recoveryTime.min
  min_le_max : config.recoveryTime.min ≤ config.recoveryTime.max
  ad : 0 ≤ config.recoveryTime.ad
  mi : 1 ≤ config.recoveryTime.mi
  harvestStep : 0 ≤ config.harvest.stepSize
  recoveryStep : 0 ≤ config.recovery.stepSize
  stepMi : 1 ≤ config.recovery.stepMi

/-- The readings of `get_cgroup_rss` are not negative. -/
def rssNonneg (_ : ThreadState) : LoopAction μ → Prop
  | .main _ _ _ => True
  | .harvestThread rss => 0 ≤ rss
  | .recoveryThread rss => 0 ≤ rss

structure Bounded (config : LoopConfig) (s : ThreadState) : Prop where
  min_le : config.recoveryTime.min ≤ s.recoveryTime
  le_max : s.recoveryTime ≤ config.recoveryTime.max
  limit : 0 ≤ s.cgroupLimit
  step : 0 ≤ s.curStepSize
  since : s.recoverySince ≤ s.recoveryStartTime
  started : s.recoveryStartTime ≤ s.now

theorem bounded_initCtx (hc : config.Valid) (memorySize : Nat) (now : Int) :
    Bounded config (initCtx config memorySize now) :=
  ⟨le_rfl, hc.min_le_max, Int.natCast_nonneg memorySize, hc.recoveryStep, le_rfl, le_rfl⟩

/-- Multiplying by a factor of at least 1 cannot fall below the minimum. -/
theorem Bounded.multiplyRecoveryTime (hc : config.Valid) (h : Bounded config s) :
    Bounded config (multiplyRecoveryTime config s) := by
  have hnonneg : 0 ≤ s.recoveryTime := le_trans hc.min_nonneg h.min_le
  have hgrow : (s.recoveryTime : ℚ) ≤ s.recoveryTime * config.recoveryTime.mi :=
    le_mul_of_one_le_right (by exact_mod_cast hnonneg) hc.mi
  have hle : s.recoveryTime ≤ trunc (s.recoveryTime * config.recoveryTime.mi) :=
    le_trunc hgrow
  have hmin := h.min_le
  have hmax := hc.min_le_max
  constructor
  · show config.recoveryTime.min ≤
      min config.recoveryTime.max (trunc (s.recoveryTime * config.recoveryTime.mi))
    omega
  · exact min_le_left _ _
  · exact h.limit
  · exact h.step
  · exact h.since
  · exact h.started

theorem Bounded.lengthened (hc : config.Valid) {t : ThreadState} (h : Bounded config s)
    (ht : Lengthened config s t) : Bounded config t := by
  rcases ht with rfl | rfl
  · exact h
  · exact h.multiplyRecoveryTime hc

theorem Bounded.transitioned (hc : config.Valid) {a : Assessment} {now again : Int}
    (h : Bounded config s) (hnow : s.now ≤ now) (hagain : now ≤ again)
    (ht : Transitioned config a now again { s with now := again } (s', evs)) :
    Bounded config s' := by
  have hsince := h.since
  have hstarted := h.started
  have hlate : s.recoveryStartTime ≤ again := by omega
  cases ht with
  | same => exact ⟨h.min_le, h.le_max, h.limit, h.step, hsince, hlate⟩
  | entered _ _ _ ht =>
      apply Bounded.lengthened hc _ ht
      exact ⟨h.min_le, h.le_max, h.limit, h.step, le_rfl, hagain⟩
  | left _ _ => exact ⟨h.min_le, h.le_max, h.limit, h.step, hsince, hlate⟩
  | rearmed _ ht =>
      apply Bounded.lengthened hc _ ht
      exact ⟨h.min_le, h.le_max, h.limit, h.step, le_trans hsince hlate, le_rfl⟩

theorem Bounded.harvestTurn (hc : config.Valid) (h : Bounded config s) (rss : Int) :
    Bounded config (harvestTurn config rss s) := by
  unfold ControlLoop.harvestTurn
  cases hst : s.state with
  | recovery => exact h
  | harvest =>
      have hshrink : (s.recoveryTime : ℚ) - config.recoveryTime.ad ≤ s.recoveryTime :=
        sub_le_self _ hc.ad
      have hle : trunc (s.recoveryTime - config.recoveryTime.ad) ≤ s.recoveryTime :=
        trunc_le hshrink
      have hmax := h.le_max
      have hminmax := hc.min_le_max
      refine ⟨le_max_left _ _, ?_, le_max_right _ _, h.step, h.since, h.started⟩
      show max config.recoveryTime.min (trunc (s.recoveryTime - config.recoveryTime.ad)) ≤
        config.recoveryTime.max
      omega

theorem Bounded.recoveryTurn (hc : config.Valid) (h : Bounded config s) (rss : Int) :
    Bounded config (recoveryTurn config rss s).1 := by
  unfold ControlLoop.recoveryTurn
  cases hst : s.state with
  | harvest => exact ⟨h.min_le, h.le_max, h.limit, hc.recoveryStep, h.since, h.started⟩
  | recovery =>
      simp only
      split
      · have hprod : (0 : ℚ) ≤ s.curStepSize * config.recovery.stepMi :=
          mul_nonneg (by exact_mod_cast h.step) (by linarith [hc.stepMi])
        exact ⟨h.min_le, h.le_max, add_nonneg h.limit h.step, trunc_nonneg hprod, h.since,
          h.started⟩
      · exact h

theorem Bounded.loopStep (hc : config.Valid) (h : Bounded config s) {a : LoopAction μ}
    (hs : loopStep config assess s a = some (s', evs)) : Bounded config s' := by
  cases a with
  | main m now again =>
      obtain ⟨hnow, hagain, ht⟩ := main_cases hs
      exact h.transitioned hc hnow hagain ht
  | harvestThread rss =>
      rw [(harvestThread_eq hs).1]
      exact h.harvestTurn hc rss
  | recoveryThread rss =>
      have hb := h.recoveryTurn hc rss
      rwa [recoveryThread_eq hs] at hb

theorem bounded_of_exec (hc : config.Valid) {ok : ThreadState → LoopAction μ → Prop}
    (hrun : (controlThreads config assess).Exec ok s tr) : Bounded config s := by
  refine hrun.invariant (I := fun s _ => Bounded config s) ?_ ?_
  · rintro s ⟨memorySize, now, rfl⟩
    exact bounded_initCtx hc memorySize now
  · intro s _ a s' evs h _ hs
    exact h.loopStep hc hs

theorem limit_mono_of_recovery (h : Bounded config s) (hst : s.state = .recovery)
    {a : LoopAction μ} (hs : loopStep config assess s a = some (s', evs)) :
    s.cgroupLimit ≤ s'.cgroupLimit := by
  cases a with
  | main m now again =>
      obtain ⟨-, -, hcases⟩ := main_cases hs
      cases hcases with
      | same => exact le_rfl
      | entered hharvest => exact absurd (hst.symm.trans hharvest) (by decide)
      | left => exact le_rfl
      | rearmed _ ht => rcases ht with rfl | rfl <;> exact le_rfl
  | harvestThread rss =>
      rw [(harvestThread_eq hs).1]
      simp [harvestTurn, hst]
  | recoveryThread rss =>
      have hturn := recoveryThread_eq hs
      have hstep := h.step
      simp only [recoveryTurn, hst] at hturn
      split at hturn
      · rw [← congrArg (fun r => r.1.cgroupLimit) hturn]
        show s.cgroupLimit ≤ s.cgroupLimit + s.curStepSize
        omega
      · rw [← congrArg (fun r => r.1.cgroupLimit) hturn]

theorem min_le_of_left (h : Bounded config s) (hst : s.state = .recovery)
    (hst' : s'.state = .harvest) {a : LoopAction μ}
    (hs : loopStep config assess s a = some (s', evs)) :
    s.recoverySince + seconds config.recoveryTime.min ≤ s'.now := by
  cases a with
  | main m now again =>
      obtain ⟨hnow, hagain, hcases⟩ := main_cases hs
      cases hcases with
      | same => exact absurd (hst.symm.trans hst') (by decide)
      | entered hharvest => exact absurd (hst.symm.trans hharvest) (by decide)
      | left _ htime =>
          have htime : s.recoveryStartTime + seconds s.recoveryTime ≤ now := htime
          have hmin := h.min_le
          have hsince := h.since
          show s.recoverySince + seconds config.recoveryTime.min ≤ again
          unfold seconds at htime ⊢
          omega
      | rearmed _ ht =>
          rcases ht with rfl | rfl
          · exact absurd (hst.symm.trans hst') (by decide)
          · exact absurd (hst.symm.trans hst') (by decide)
  | harvestThread rss =>
      rw [(harvestThread_eq hs).1] at hst'
      simp [harvestTurn, hst] at hst'
  | recoveryThread rss =>
      have hturn := recoveryThread_eq hs
      simp only [recoveryTurn, hst] at hturn
      split at hturn
      · rw [← congrArg (fun r => r.1.state) hturn] at hst'
        cases hst'
      · rw [← congrArg (fun r => r.1.state) hturn, hst] at hst'
        cases hst'

/-- In every state of every run: the recovery time is within its bounds, the
limit is not negative, no step lowers it during recovery, and a step that leaves
recovery comes no earlier than the minimal recovery time after its begin. -/
theorem control_state_safe (hc : config.Valid)
    (hrun : (controlThreads config assess).Exec rssNonneg s tr) :
    (config.recoveryTime.min ≤ s.recoveryTime ∧ s.recoveryTime ≤ config.recoveryTime.max) ∧
    0 ≤ s.cgroupLimit ∧
    (∀ a s' evs, loopStep config assess s a = some (s', evs) → s.state = .recovery →
      s.cgroupLimit ≤ s'.cgroupLimit) ∧
    (∀ a s' evs, loopStep config assess s a = some (s', evs) → s.state = .recovery →
      s'.state = .harvest → s.recoverySince + seconds config.recoveryTime.min ≤ s'.now) := by
  have h := bounded_of_exec hc hrun
  refine ⟨⟨h.min_le, h.le_max⟩, h.limit, ?_, ?_⟩
  · intro a s' evs hs hst
    exact limit_mono_of_recovery h hst hs
  · intro a s' evs hs hst hst'
    exact min_le_of_left h hst hst' hs

/-- Harvesting starts after two seconds, the limit is lowered, and a drop begins
a second recovery. -/
def sampleEpisode : List (LoopAction Detection) :=
  [.main steady (seconds 2) (seconds 2), .harvestThread 50,
    .main dropped (seconds 3) (seconds 3), .recoveryThread 40]

theorem sampleLoop_valid : sampleLoop.Valid := by
  constructor <;> decide +kernel

/-- The limit of 40 that the harvest thread has set and the 10 of the first
recovery step. -/
theorem control_state_sample :
    0 ≤ ((controlThreads sampleLoop (assessDetection sampleThresholds)).final
      (initCtx sampleLoop 100 0) sampleEpisode).cgroupLimit := by
  have hok : ∀ a ∈ sampleEpisode, ∀ s, rssNonneg s a := by
    simp [sampleEpisode, rssNonneg]
  have hrun := System.exec_final (M := controlThreads sampleLoop (assessDetection sampleThresholds))
    ⟨100, 0, rfl⟩ (System.meets_of_forall hok _)
  exact (control_state_safe sampleLoop_valid hrun).2.1

/-! ## The recovery step -/

/-- After every transition to recovery, the next time the limit is raised it is
raised by `stepSize`. -/
def FreshSteps (stepSize : Int) (tr : List LoopEvent) : Prop :=
  ∀ before between after n, tr = before ++ .toRecovery :: (between ++ .raised n :: after) →
    (∀ m, .raised m ∉ between) → n = stepSize

/-- The last transition to recovery has not been followed by a raise yet. -/
def Unraised (tr : List LoopEvent) : Prop :=
  ∃ before between, tr = before ++ .toRecovery :: between ∧ ∀ m, .raised m ∉ between

/-- Whenever the main loop enters recovery, the recovery thread has raised nothing since it
last reset its step, or the step is the configured one all the same. -/
def stepReset (config : LoopConfig) (assess : μ → Assessment) (s : ThreadState) :
    LoopAction μ → Prop
  | .main m _ _ =>
      config.enable = true → s.state = .harvest → (assess m).perfDropped = true →
        s.raised = false ∨ s.curStepSize = config.recovery.stepSize
  | _ => True

instance (config : LoopConfig) (assess : μ → Assessment) (s : ThreadState) (a : LoopAction μ) :
    Decidable (stepReset config assess s a) :=
  match a with
  | .main m _ _ => inferInstanceAs (Decidable (config.enable = true → s.state = .harvest →
      (assess m).perfDropped = true →
        s.raised = false ∨ s.curStepSize = config.recovery.stepSize))
  | .harvestThread _ | .recoveryThread _ => isTrue trivial

theorem freshSteps_append {stepSize : Int} {ev : LoopEvent} (h : FreshSteps stepSize tr)
    (hev : ∀ n, ev = .raised n → Unraised tr → n = stepSize) :
    FreshSteps stepSize (tr ++ [ev]) := by
  intro before between after n heq hbetween
  have hsplit : tr ++ [ev] = (before ++ .toRecovery :: between) ++ .raised n :: after := by
    rw [heq, List.append_assoc, List.cons_append]
  cases split_concat hsplit with
  | inl hnew => exact hev n hnew.2 ⟨before, between, hnew.1, hbetween⟩
  | inr hold =>
      obtain ⟨rest, hrest⟩ := hold
      refine h before between rest n ?_ hbetween
      rw [hrest, List.append_assoc, List.cons_append]

theorem unraised_append {ev : LoopEvent} (h : Unraised (tr ++ [ev])) :
    ev = .toRecovery ∨ (Unraised tr ∧ ∀ n, ev ≠ .raised n) := by
  obtain ⟨before, between, heq, hbetween⟩ := h
  rcases List.eq_nil_or_concat between with rfl | ⟨between, last, rfl⟩
  · exact .inl (List.singleton_inj.mp (List.append_inj' heq rfl).2)
  · have hsplit : tr ++ [ev] = (before ++ .toRecovery :: between) ++ [last] := by
      rw [heq]
      simp
    obtain ⟨htr, hlast⟩ := List.append_inj' hsplit rfl
    obtain rfl := List.singleton_inj.mp hlast
    refine .inr ⟨⟨before, between, htr, ?_⟩, ?_⟩
    · intro m hm
      exact hbetween m (by simp [hm])
    · rintro n rfl
      exact hbetween n (by simp)

/-- The step is the configured one until the first raise of an episode. -/
structure StepFresh (config : LoopConfig) (s : ThreadState) (tr : List LoopEvent) : Prop where
  reset : s.raised = false → s.curStepSize = config.recovery.stepSize
  unraised : Unraised tr → s.curStepSize = config.recovery.stepSize
  fresh : FreshSteps config.recovery.stepSize tr

/-- A step that emits nothing and leaves the recovery thread's step alone. -/
theorem StepFresh.silent (h : StepFresh config s tr) (hstep : s'.curStepSize = s.curStepSize)
    (hraised : s'.raised = s.raised) : StepFresh config s' (tr ++ []) := by
  rw [List.append_nil]
  exact ⟨fun hr => hstep.trans (h.reset (hraised.symm.trans hr)),
    fun hu => hstep.trans (h.unraised hu), h.fresh⟩

/-- The fields of the recovery thread survive a change of the recovery time. -/
theorem Lengthened.thread {t : ThreadState} (h : Lengthened config s t) :
    t.curStepSize = s.curStepSize ∧ t.raised = s.raised := by
  rcases h with rfl | rfl
  · exact ⟨rfl, rfl⟩
  · exact ⟨rfl, rfl⟩

theorem StepFresh.main (h : StepFresh config s tr) {m : μ} {now again : Int}
    (hok : stepReset config assess s (.main m now again))
    (hs : loopStep config assess s (.main m now again) = some (s', evs)) :
    StepFresh config s' (tr ++ evs) := by
  obtain ⟨-, -, hcases⟩ := main_cases hs
  cases hcases with
  | same => exact h.silent rfl rfl
  | entered hst hen hdrop ht =>
      -- the only place where a raise becomes owed: the step must be reset by now
      have hreset : s.curStepSize = config.recovery.stepSize := (hok hen hst hdrop).elim h.reset id
      have hstep : s'.curStepSize = config.recovery.stepSize := ht.thread.1.trans hreset
      exact ⟨fun _ => hstep, fun _ => hstep, freshSteps_append h.fresh (by simp)⟩
  | left _ _ =>
      refine ⟨h.reset, ?_, freshSteps_append h.fresh (by simp)⟩
      intro hu
      rcases unraised_append hu with hev | ⟨hu, -⟩
      · cases hev
      · exact h.unraised hu
  | rearmed _ ht => exact h.silent ht.thread.1 ht.thread.2

theorem StepFresh.recoveryThread (h : StepFresh config s tr) {rss : Int}
    (hs : loopStep config assess s (.recoveryThread rss) = some (s', evs)) :
    StepFresh config s' (tr ++ evs) := by
  have hturn := recoveryThread_eq hs
  unfold recoveryTurn at hturn
  split at hturn
  · obtain ⟨rfl, rfl⟩ := Prod.mk.inj hturn
    rw [List.append_nil]
    exact ⟨fun _ => rfl, fun _ => rfl, h.fresh⟩
  · split at hturn
    · obtain ⟨rfl, rfl⟩ := Prod.mk.inj hturn
      refine ⟨?_, ?_, ?_⟩
      · intro hr
        cases hr
      · intro hu
        rcases unraised_append hu with hev | ⟨-, hno⟩
        · cases hev
        · exact absurd rfl (hno s.curStepSize)
      · apply freshSteps_append h.fresh
        intro n hn hu
        rw [← LoopEvent.raised.inj hn]
        exact h.unraised hu
    · obtain ⟨rfl, rfl⟩ := Prod.mk.inj hturn
      exact h.silent rfl rfl

/-- In every run in which the recovery thread never sleeps through a whole stay
in `HARVEST` after it has changed its step, every recovery begins with the
configured step. -/
theorem freshSteps_of_stepReset
    (hrun : (controlThreads config assess).Exec (stepReset config assess) s tr) :
    FreshSteps config.recovery.stepSize tr := by
  suffices h : StepFresh config s tr from h.fresh
  refine hrun.invariant ?_ ?_
  · rintro s ⟨memorySize, now, rfl⟩
    refine ⟨fun _ => rfl, fun _ => rfl, ?_⟩
    intro before between after n heq
    simp at heq
  · intro s tr a s' evs h hok hs
    change loopStep config assess s a = some (s', evs) at hs
    cases a with
    | main m now again => exact h.main hok hs
    | harvestThread rss =>
        obtain ⟨rfl, rfl⟩ := harvestThread_eq hs
        refine h.silent ?_ ?_ <;> (unfold harvestTurn; split <;> rfl)
    | recoveryThread rss => exact h.recoveryThread hs

theorem freshSteps_sample :
    FreshSteps 10 ((controlThreads sampleLoop (assessDetection sampleThresholds)).trace
      (initCtx sampleLoop 100 0) sampleEpisode) := by
  let M := controlThreads sampleLoop (assessDetection sampleThresholds)
  have hmeets : M.Meets (stepReset sampleLoop (assessDetection sampleThresholds))
      (initCtx sampleLoop 100 0) sampleEpisode :=
    System.meets_of_check (fun _ _ h => of_decide_eq_true h) (by decide +kernel)
  exact freshSteps_of_stepReset (System.exec_final (M := M) ⟨100, 0, rfl⟩ hmeets)

/-- The recovery thread raises the limit and sleeps while the main loop goes to
`HARVEST` and back. -/
def sampleOversleep : List (LoopAction Detection) :=
  [.recoveryThread 95, .main steady (seconds 2) (seconds 2), .main dropped (seconds 3) (seconds 3),
    .recoveryThread 105]

/-- The second recovery begins with the doubled step of the first. -/
theorem stale_step_carried_over :
    ¬ FreshSteps 10 ((controlThreads sampleLoop (assessDetection sampleThresholds)).trace
      (initCtx sampleLoop 100 0) sampleOversleep) := by
  intro h
  have htrace : (controlThreads sampleLoop (assessDetection sampleThresholds)).trace
      (initCtx sampleLoop 100 0) sampleOversleep =
        [.raised 10, .toHarvest, .toRecovery, .raised 20] := by
    decide +kernel
  rw [htrace] at h
  have hstep := h [.raised 10, .toHarvest] [] [] 20 rfl (by simp)
  omega

end Memtrade.ControlLoop
