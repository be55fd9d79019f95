import Memtrade.ControlLoop.Windows

/-!
# The distance the drop detector uses

The recent tree follows the recent window only as long as each sample that
leaves the window compares equal to the front of the baseline list, because it
is that front which is removed from the tree. On runs where this always holds
the detector computes the distance between the two windows; a single sample
left in the tree shows up in it.
-/

namespace Memtrade.ControlLoop

open AvlTree

section Run

variable (config : ControlConfig)

/-- If a sample leaves the recent window in the iteration that measures `s`, the
oldest baseline sample has the same performance. -/
def Aligned (samples : List Sample) (s : Sample) : Prop :=
  ∀ p ∈ admitted anySample samples,
    p.timestamp = samples.length - config.performanceDropDetection.recentWindowSize →
      (window noPromotion config.baselineEstimation.windowSize (samples ++ [s])).head?.map
        PerfPoint.performance = some p.performance

instance (samples : List Sample) (s : Sample) : Decidable (Aligned config samples s) :=
  inferInstanceAs (Decidable (∀ p ∈ admitted anySample samples,
    p.timestamp = samples.length - config.performanceDropDetection.recentWindowSize →
      (window noPromotion config.baselineEstimation.windowSize (samples ++ [s])).head?.map
        PerfPoint.performance = some p.performance))

/-- In the iteration that measures `s`, if the baseline is large enough, the
detector works with the distance between the samples of the two windows. -/
def KsExact (samples : List Sample) (s : Sample) : Prop :=
  ∃ detection, lastDetection config samples s = some detection ∧
    (config.baselineEstimation.minimalBaselineSize ≤
        ((window noPromotion config.baselineEstimation.windowSize (samples ++ [s])).length : Int) →
      IsKsDistance
        (keysOf config (window noPromotion config.baselineEstimation.windowSize (samples ++ [s])))
        (keysOf config (window anySample config.performanceDropDetection.recentWindowSize
          (samples ++ [s])))
        detection.ksDistance)

end Run

variable {config : ControlConfig} {samples : List Sample}

/-- Both copies of the recent window are what the measurements say. -/
def FollowsRecent (config : ControlConfig) (samples : List Sample) (ctx : ControlContext) : Prop :=
  ctx.recentList = window anySample config.performanceDropDetection.recentWindowSize samples ∧
    Tracks config.key ctx.recentTree ctx.recentList

theorem key_congr {p q : PerfPoint} (h : p.performance = q.performance) :
    config.key p = config.key q := by
  simp [PerfPoint.key, h]

theorem updateRecent_aligned {mid : ControlContext} {s : Sample}
    (hsize : 1 ≤ config.performanceDropDetection.recentWindowSize)
    (htime : mid.timestamp = samples.length)
    (hbase : mid.baselineList =
      window noPromotion config.baselineEstimation.windowSize (samples ++ [s]))
    (h : FollowsRecent config samples mid) (hal : Aligned config samples s) :
    ∃ tree, updateRecent config mid s = some (mid.setRecent
        (window anySample config.performanceDropDetection.recentWindowSize (samples ++ [s])) tree) ∧
      Tracks config.key tree
        (window anySample config.performanceDropDetection.recentWindowSize (samples ++ [s])) := by
  obtain ⟨hlist, htree⟩ := h
  rw [hlist] at htree
  have hsame : ∀ p ∈ window anySample config.performanceDropDetection.recentWindowSize samples,
      p.timestamp ≤ samples.length - config.performanceDropDetection.recentWindowSize →
        ∃ q, baselineFront mid s = some q ∧ config.key q = config.key p := by
    intro p hp hexp
    obtain ⟨hadm, hlo⟩ := List.mem_filter.mp hp
    simp only [decide_eq_true_eq] at hlo
    -- only the oldest sample of the window can have expired
    have hhead := hal p hadm (by omega)
    rw [← hbase, Option.map_eq_some_iff] at hhead
    obtain ⟨q, hq, hperf⟩ := hhead
    refine ⟨q, ?_, key_congr hperf⟩
    unfold baselineFront
    cases hlist : mid.baselineList with
    | nil => simp [hlist] at hq
    | cons front rest => simpa [hlist] using hq
  obtain ⟨tree₁, heq₁, h₁⟩ := htree.expireRecent _ hsame
  obtain ⟨tree₂, heq₂, h₂⟩ := h₁.pushSample (stamped anySample s samples.length)
  rw [← window_append anySample hsize] at heq₂ h₂
  refine ⟨tree₂, ?_, h₂⟩
  simp only [stamped, anySample, if_true] at heq₂
  simp only [updateRecent, htime, hlist, heq₁, heq₂, Option.bind_eq_bind, Option.bind_some]

/-- One aligned iteration: the detector is exact and the recent tree goes on
following its window. -/
theorem iteration_aligned {ctx : ControlContext} {s : Sample}
    (hbase : 1 ≤ config.baselineEstimation.windowSize)
    (hmin : 1 ≤ config.baselineEstimation.minimalBaselineSize)
    (hrecent : 1 ≤ config.performanceDropDetection.recentWindowSize)
    (hpre : 1 ≤ config.prefetch.windowSize) (hrun : runLoop config samples = some ctx)
    (hrec : Recorded config samples ctx) (hfol : FollowsRecent config samples ctx)
    (hal : Aligned config samples s) :
    KsExact config samples s ∧ ∃ ctx', runLoop config (samples ++ [s]) = some ctx' ∧
      Recorded config (samples ++ [s]) ctx' ∧ FollowsRecent config (samples ++ [s]) ctx' := by
  obtain ⟨mid, list, tree, ctx', detection, hiter, hrec', hdet, htime, hbaseList, hlist, htree,
    hupd, hlist', htree'⟩ := hrec.iteration hbase hpre s
  have hmid : FollowsRecent config samples mid := by
    rw [FollowsRecent, hlist, htree]
    exact hfol
  obtain ⟨tree₁, hupd₁, htracks⟩ := updateRecent_aligned hrecent htime hbaseList hmid hal
  have hsame := Option.some.inj (hupd.symm.trans hupd₁)
  have hrecentList : list = window anySample config.performanceDropDetection.recentWindowSize
      (samples ++ [s]) := congrArg ControlContext.recentList hsame
  have hrecentTree : tree = tree₁ := congrArg ControlContext.recentTree hsame
  have hfol' : FollowsRecent config (samples ++ [s]) ctx' := by
    rw [FollowsRecent, hlist', htree', hrecentList, hrecentTree]
    exact ⟨rfl, htracks⟩
  have hminSize : toSizeT config.baselineEstimation.minimalBaselineSize =
      config.baselineEstimation.minimalBaselineSize := if_neg (by omega)
  refine ⟨⟨detection, ?_, ?_⟩, ctx', ?_, hrec', hfol'⟩
  · simp only [lastDetection, hrun, hiter, Option.bind_eq_bind, Option.bind_some]
  · intro hlarge
    have hvalid := hdet.valid.mpr (by rw [hminSize, hrec'.baselineList]; exact hlarge)
    have hks := hdet.ksDistance hvalid _ hfol'.2
    rwa [hrec'.baselineList, hfol'.1] at hks
  · rw [runLoop_append, hrun, Option.bind_some, hiter]
    rfl

/-- On a run all of whose iterations are aligned, the detector is exact in every
iteration. -/
theorem ksExact_of_aligned (config : ControlConfig)
    (hbase : 1 ≤ config.baselineEstimation.windowSize)
    (hmin : 1 ≤ config.baselineEstimation.minimalBaselineSize)
    (hrecent : 1 ≤ config.performanceDropDetection.recentWindowSize)
    (hpre : 1 ≤ config.prefetch.windowSize) (samples : List Sample)
    (haligned : ∀ t (h : t < samples.length), Aligned config (samples.take t) samples[t]) :
    ∀ t (h : t < samples.length), KsExact config (samples.take t) samples[t] := by
  suffices hrun : ∀ t ≤ samples.length, ∃ ctx, runLoop config (samples.take t) = some ctx ∧
      Recorded config (samples.take t) ctx ∧ FollowsRecent config (samples.take t) ctx by
    intro t ht
    obtain ⟨ctx, hctx, hrec, hfol⟩ := hrun t ht.le
    exact (iteration_aligned hbase hmin hrecent hpre hctx hrec hfol (haligned t ht)).1
  intro t
  induction t with
  | zero =>
      intro _
      exact ⟨.init, rfl, recorded_init config, rfl, tracks_empty config.key⟩
  | succ t ih =>
      intro ht
      obtain ⟨ctx, hctx, hrec, hfol⟩ := ih (by omega)
      have hlt : t < samples.length := ht
      rw [List.take_succ_eq_append_getElem hlt]
      exact (iteration_aligned hbase hmin hrecent hpre hctx hrec hfol (haligned t hlt)).2

/-- Each sample that leaves the recent window equals the oldest baseline sample. -/
theorem ksExact_steady : KsExact sampleConfig [measured 5 0, measured 5 0] (measured 1 1) :=
  ksExact_of_aligned sampleConfig (by decide) (by decide) (by decide) (by decide)
    [measured 5 0, measured 5 0, measured 1 1] (by decide +kernel) 2 (by decide)

/-- The low sample of the second iteration leaves the recent window in the third,
and the front of the baseline is removed in its place: the tree still reports
the drop. -/
theorem stale_sample_reported : ¬ KsExact sampleConfig [measured 5 0, measured 1 1]
    (measured 9 1) := by
  rintro ⟨detection, hlast, hks⟩
  have hcomputed : (lastDetection sampleConfig [measured 5 0, measured 1 1] (measured 9 1)).map
      Detection.ksDistance = some (1 / 2) := by decide +kernel
  rw [hlast, Option.map_some, Option.some.injEq] at hcomputed
  rw [hcomputed] at hks
  have hbase : window noPromotion 10 [measured 5 0, measured 1 1, measured 9 1] = [⟨0, 5⟩] := by
    decide +kernel
  have hrecent : window anySample 1 [measured 5 0, measured 1 1, measured 9 1] = [⟨2, 9⟩] := by
    decide +kernel
  have hdist : IsKsDistance (keysOf sampleConfig [⟨0, 5⟩]) (keysOf sampleConfig [⟨2, 9⟩])
      (1 / 2) := by
    rw [← hbase, ← hrecent]
    exact hks (by decide +kernel)
  have hzero : IsKsDistance (keysOf sampleConfig [⟨0, 5⟩]) (keysOf sampleConfig [⟨2, 9⟩]) 0 := by
    refine isKsDistance_of_bounds le_rfl (Or.inl rfl) ?_
    decide +kernel
  have hcontra := hdist.unique hzero
  norm_num at hcontra

end Memtrade.ControlLoop
