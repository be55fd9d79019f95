import Memtrade.ControlLoop.Windows

/-!
# When the control loop prefetches

The loop tests `prefetch_list.size() == window_size`. Samples that are not
finite leave gaps, so the test says that the last `window_size` iterations
exist and were all measured.
-/

namespace Memtrade.ControlLoop

open AvlTree

/-- The condition for a prefetch, in terms of the measurements so far. -/
structure Triggers (config : ControlConfig) (samples : List Sample) : Prop where
  baseline : config.baselineEstimation.minimalBaselineSize ≤
    ((window noPromotion config.baselineEstimation.windowSize samples).length : Int)
  complete : config.prefetch.windowSize ≤ samples.length
  finite : ∀ s ∈ samples.drop (samples.length - config.prefetch.windowSize.toNat),
    s.performance.isSome = true
  distance : ∃ d, IsKsDistance
      (keysOf config (window noPromotion config.baselineEstimation.windowSize samples))
      (keysOf config (window anySample config.prefetch.windowSize samples)) d ∧
    config.prefetch.ksDistance ≤ d

/-- A window without admission test holds the finite ones of the last samples. -/
theorem length_window_anySample {size : Int} (hsize : 1 ≤ size) (samples : List Sample) :
    (window anySample size samples).length =
      (samples.drop (samples.length - size.toNat)).countP fun s => s.performance.isSome := by
  let k := samples.length - size.toNat
  have hk : k = samples.length - size.toNat := rfl
  have htake : (samples.take k).length = k := by simp [hk]
  have hsplit : samples.zipIdx =
      (samples.take k).zipIdx ++ (samples.drop k).zipIdx k := by
    conv_lhs => rw [← List.take_append_drop k samples]
    rw [List.zipIdx_append, htake, Nat.zero_add]
  have hold : ((samples.take k).zipIdx.filterMap fun x => stamped anySample x.1 x.2).filter
      (fun p => (samples.length : Int) - 1 - size < p.timestamp) = [] := by
    rw [List.filter_eq_nil_iff]
    intro p hp
    obtain ⟨⟨s, i⟩, hmem, hs⟩ := List.mem_filterMap.mp hp
    have hi := timestamp_of_stamped anySample (Option.mem_toList.mpr hs)
    have hlt := (List.mem_zipIdx hmem).2.1
    rw [htake] at hlt
    simp only [decide_eq_true_eq]
    omega
  have hnew : ((samples.drop k).zipIdx k |>.filterMap fun x => stamped anySample x.1 x.2).filter
      (fun p => (samples.length : Int) - 1 - size < p.timestamp) =
        ((samples.drop k).zipIdx k).filterMap fun x => stamped anySample x.1 x.2 := by
    rw [List.filter_eq_self]
    intro p hp
    obtain ⟨⟨s, i⟩, hmem, hs⟩ := List.mem_filterMap.mp hp
    have hi := timestamp_of_stamped anySample (Option.mem_toList.mpr hs)
    have hle := (List.mem_zipIdx hmem).1
    simp only [decide_eq_true_eq]
    omega
  rw [window, admitted, hsplit, List.filterMap_append, List.filter_append, hold, hnew,
    List.nil_append, List.length_filterMap_eq_countP]
  have hfst : ∀ x : Sample × Nat, (stamped anySample x.1 x.2).isSome = x.1.performance.isSome := by
    intro x
    simp [stamped, anySample, Sample.curPerf]
  simp only [hfst]
  conv_rhs => rw [← List.zipIdx_map_fst k (samples.drop k), List.countP_map]
  rfl

theorem length_window_eq_iff {size : Int} (hsize : 1 ≤ size) (samples : List Sample) :
    ((window anySample size samples).length : Int) = size ↔
      size ≤ samples.length ∧
        ∀ s ∈ samples.drop (samples.length - size.toNat), s.performance.isSome = true := by
  rw [length_window_anySample hsize, ← List.countP_eq_length]
  have hle := List.countP_le_length (p := fun s : Sample => s.performance.isSome)
    (l := samples.drop (samples.length - size.toNat))
  simp only [List.length_drop] at hle ⊢
  omega

/-- Prefetching is triggered exactly when the baseline is large enough, the last
`window_size` iterations have no gap, and their distance from the baseline
reaches the threshold. -/
theorem siloPrefetch_iff_triggers (config : ControlConfig)
    (hbase : 1 ≤ config.baselineEstimation.windowSize)
    (hmin : 1 ≤ config.baselineEstimation.minimalBaselineSize)
    (hpre : 1 ≤ config.prefetch.windowSize) (samples : List Sample) (s : Sample) :
    ∃ detection, lastDetection config samples s = some detection ∧
      (detection.siloPrefetch.isSome = true ↔ Triggers config (samples ++ [s])) := by
  obtain ⟨ctx, hrun, hrec⟩ := exists_recorded hbase hpre samples
  obtain ⟨_, _, _, ctx', detection, hiter, hrec', hdet, -⟩ := hrec.iteration hbase hpre s
  have hminSize : toSizeT config.baselineEstimation.minimalBaselineSize =
      config.baselineEstimation.minimalBaselineSize := if_neg (by omega)
  have hpreSize : toSizeT config.prefetch.windowSize = config.prefetch.windowSize :=
    if_neg (by omega)
  refine ⟨detection, ?_, ?_⟩
  · simp only [lastDetection, hrun, hiter, Option.bind_eq_bind, Option.bind_some]
  · rw [hdet.siloPrefetch, hdet.valid, hminSize, hpreSize, hrec'.baselineList, hrec'.prefetchList,
      length_window_eq_iff hpre]
    constructor
    · rintro ⟨hvalid, ⟨hcomplete, hfinite⟩, hdist⟩
      exact ⟨hvalid, hcomplete, hfinite, hdist⟩
    · rintro ⟨hvalid, hcomplete, hfinite, hdist⟩
      exact ⟨hvalid, ⟨hcomplete, hfinite⟩, hdist⟩

theorem triggers_after_drop :
    Triggers sampleConfig ([measured 5 0, measured 1 1] ++ [measured 2 1]) := by
  obtain ⟨detection, hlast, hiff⟩ := siloPrefetch_iff_triggers sampleConfig (by decide) (by decide)
    (by decide) [measured 5 0, measured 1 1] (measured 2 1)
  have hcomputed : (lastDetection sampleConfig [measured 5 0, measured 1 1] (measured 2 1)).map
      Detection.siloPrefetch = some (some 4096) := by decide +kernel
  rw [hlast, Option.map_some, Option.some.injEq] at hcomputed
  exact hiff.mp (by rw [hcomputed]; rfl)

end Memtrade.ControlLoop
