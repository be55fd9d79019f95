import Memtrade.ControlLoop.Detector

/-!
# The sliding windows over a run

`window` says which samples a window holds after a run, in terms of the
measurements alone. The lists of the control loop are these windows, and the
baseline and prefetch trees hold the same keys as their lists. Removal goes by
key, so which of several equal samples leaves a tree is not determined; the
keys are.
-/

namespace Memtrade.ControlLoop

open AvlTree BinaryTree

/-! ## Windows of a run -/

/-- The sample of iteration `i`, if it is finite and passes `test`. -/
def stamped (test : Sample → Bool) (s : Sample) (i : Nat) : Option PerfPoint :=
  if test s then s.curPerf i else none

/-- All such samples of a run. -/
def admitted (test : Sample → Bool) (samples : List Sample) : List PerfPoint :=
  samples.zipIdx.filterMap fun x => stamped test x.1 x.2

/-- Those of them with timestamps in `(t - size, t]`, for the last iteration `t`. -/
def window (test : Sample → Bool) (size : Int) (samples : List Sample) : List PerfPoint :=
  (admitted test samples).filter fun p => (samples.length : Int) - 1 - size < p.timestamp

/-- Admission to the baseline. -/
def noPromotion (s : Sample) : Bool := s.promotionRate = 0

def anySample (_ : Sample) : Bool := true

section Admitted

variable (test : Sample → Bool)

theorem timestamp_of_stamped {s : Sample} {i : Nat} {p : PerfPoint}
    (hp : p ∈ (stamped test s i).toList) : p.timestamp = i := by
  unfold stamped at hp
  split at hp
  · simp only [Sample.curPerf, Option.mem_toList, Option.map_eq_some_iff] at hp
    obtain ⟨_, _, rfl⟩ := hp
    rfl
  · simp at hp

theorem admitted_append (samples : List Sample) (s : Sample) :
    admitted test (samples ++ [s]) =
      admitted test samples ++ (stamped test s samples.length).toList := by
  simp only [admitted, List.zipIdx_append, List.filterMap_append, Nat.zero_add]
  cases h : stamped test s samples.length <;> simp [h]

theorem timestamp_lt_of_admitted {samples : List Sample} {p : PerfPoint}
    (hp : p ∈ admitted test samples) : p.timestamp < samples.length := by
  induction samples using List.reverseRecOn with
  | nil => simp [admitted] at hp
  | append_singleton samples s ih =>
      rw [admitted_append, List.mem_append] at hp
      rw [List.length_append, List.length_singleton, Nat.cast_add, Nat.cast_one]
      rcases hp with hp | hp
      · have hlt := ih hp
        omega
      · have heq := timestamp_of_stamped test hp
        omega

theorem admitted_sorted (samples : List Sample) :
    (admitted test samples).Pairwise fun p q => p.timestamp < q.timestamp := by
  induction samples using List.reverseRecOn with
  | nil => simp [admitted]
  | append_singleton samples s ih =>
      rw [admitted_append, List.pairwise_append]
      refine ⟨ih, ?_, ?_⟩
      · cases stamped test s samples.length <;> simp
      · intro p hp q hq
        rw [timestamp_of_stamped test hq]
        exact timestamp_lt_of_admitted test hp

theorem window_sorted (size : Int) (samples : List Sample) :
    (window test size samples).Pairwise fun p q => p.timestamp < q.timestamp :=
  (admitted_sorted test samples).sublist List.filter_sublist

/-- One iteration slides a window: what has expired is a first part of it. -/
theorem window_append {size : Int} (hsize : 1 ≤ size) (samples : List Sample) (s : Sample) :
    window test size (samples ++ [s]) =
      (window test size samples).dropWhile
          (fun p => p.timestamp ≤ (samples.length : Int) - size) ++
        (stamped test s samples.length).toList := by
  have hmono : (window test size samples).Pairwise fun p q =>
      decide (q.timestamp ≤ (samples.length : Int) - size) = true →
        decide (p.timestamp ≤ (samples.length : Int) - size) = true := by
    refine (window_sorted test size samples).imp ?_
    intro p q hpq hq
    simp only [decide_eq_true_eq] at hq ⊢
    omega
  rw [dropWhile_eq_filter hmono, window, window, admitted_append, List.filter_append,
    List.filter_filter, List.length_append, List.length_singleton, Nat.cast_add, Nat.cast_one]
  congr 1
  · apply List.filter_congr
    intro p _
    rw [Bool.eq_iff_iff]
    simp only [decide_eq_true_eq, Bool.and_eq_true, Bool.not_eq_true', decide_eq_false_iff_not]
    omega
  · apply List.filter_eq_self.mpr
    intro p hp
    have heq := timestamp_of_stamped test hp
    simp only [decide_eq_true_eq]
    omega

end Admitted

/-! ## A list and its tree -/

section Tracks

variable {key : PerfPoint → ℚ} {tree : AvlTree PerfPoint} {list : List PerfPoint}

/-- The tree holds the keys of the list. -/
def Tracks (key : PerfPoint → ℚ) (tree : AvlTree PerfPoint) (list : List PerfPoint) : Prop :=
  ∃ t, WellFormed key tree t ∧ ((values t).map key).Perm (list.map key)

theorem tracks_empty (key : PerfPoint → ℚ) : Tracks key .empty [] :=
  ⟨nil, ⟨⟨trivial, rfl, List.nodup_nil⟩, trivial, trivial, rfl⟩, List.Perm.refl _⟩

theorem Tracks.remove {front p : PerfPoint} (h : Tracks key tree (front :: list))
    (hp : key p = key front) :
    ∃ tree', AvlTree.remove key tree p = some tree' ∧ Tracks key tree' list := by
  obtain ⟨t, hwf, hperm⟩ := h
  obtain ⟨tree', t', heq, hwf', hcase⟩ := hwf.remove p
  refine ⟨tree', heq, t', hwf', ?_⟩
  rcases hcase with ⟨pre, w, post, hold, hw, hnew⟩ | ⟨habs, -, -⟩
  · rw [hold, List.map_append, List.map_cons, List.map_cons, hw, hp] at hperm
    rw [hnew, List.map_append]
    exact (List.perm_middle.symm.trans hperm).cons_inv
  · have hmem : key front ∈ (values t).map key := hperm.mem_iff.mpr (by simp)
    obtain ⟨w, hw, hkey⟩ := List.mem_map.mp hmem
    exact absurd (hkey.trans hp.symm) (habs w hw)

theorem Tracks.pushSample (h : Tracks key tree list) (curPerf : Option PerfPoint) :
    ∃ tree', pushSample key curPerf list tree = some (list ++ curPerf.toList, tree') ∧
      Tracks key tree' (list ++ curPerf.toList) := by
  cases curPerf with
  | none => exact ⟨tree, by simp [ControlLoop.pushSample], by simpa using h⟩
  | some p =>
      obtain ⟨t, hwf, hperm⟩ := h
      obtain ⟨tree', t', pre, post, heq, hwf', hold, hnew⟩ := hwf.insert p
      refine ⟨tree', by simp [ControlLoop.pushSample, heq], t', hwf', ?_⟩
      rw [hold, List.map_append] at hperm
      rw [hnew, List.map_append, List.map_cons, List.map_append]
      refine List.perm_middle.trans ?_
      exact (hperm.cons (key p)).trans (List.perm_append_singleton _ _).symm

theorem Tracks.expire (h : Tracks key tree list) (expiry : Int) :
    ∃ tree', expire key expiry list tree =
        some (list.dropWhile fun p => p.timestamp ≤ expiry, tree') ∧
      Tracks key tree' (list.dropWhile fun p => p.timestamp ≤ expiry) := by
  induction list generalizing tree with
  | nil => exact ⟨tree, rfl, h⟩
  | cons front list ih =>
      by_cases hexp : front.timestamp ≤ expiry
      · obtain ⟨tree₁, heq₁, h₁⟩ := h.remove rfl
        obtain ⟨tree₂, heq₂, h₂⟩ := ih h₁
        refine ⟨tree₂, ?_, by simpa [hexp] using h₂⟩
        simp [ControlLoop.expire, hexp, heq₁, heq₂]
      · exact ⟨tree, by simp [ControlLoop.expire, hexp], by simpa [hexp] using h⟩

end Tracks

/-! ## The recent window

Its tree need not follow its list, see `expireRecent`; whatever is removed, it
stays a well-formed tree. -/

section Recent

variable {key : PerfPoint → ℚ} {tree : AvlTree PerfPoint}

def Sound (key : PerfPoint → ℚ) (tree : AvlTree PerfPoint) : Prop := ∃ t, WellFormed key tree t

theorem Tracks.sound {list : List PerfPoint} (h : Tracks key tree list) : Sound key tree := by
  obtain ⟨t, hwf, -⟩ := h
  exact ⟨t, hwf⟩

theorem Sound.pushSample (h : Sound key tree) (curPerf : Option PerfPoint) (list : List PerfPoint) :
    ∃ tree', pushSample key curPerf list tree = some (list ++ curPerf.toList, tree') ∧
      Sound key tree' := by
  cases curPerf with
  | none => exact ⟨tree, by simp [ControlLoop.pushSample], h⟩
  | some p =>
      obtain ⟨t, hwf⟩ := h
      obtain ⟨tree', t', _, _, heq, hwf', -, -⟩ := hwf.insert p
      exact ⟨tree', by simp [ControlLoop.pushSample, heq], t', hwf'⟩

theorem Sound.expireRecent (h : Sound key tree) (expiry : Int) (expired : Option PerfPoint)
    (list : List PerfPoint) :
    ∃ tree', expireRecent key expiry expired list tree =
        some (list.dropWhile fun p => p.timestamp ≤ expiry, tree') ∧ Sound key tree' := by
  induction list generalizing tree with
  | nil => exact ⟨tree, rfl, h⟩
  | cons front list ih =>
      by_cases hexp : front.timestamp ≤ expiry
      · cases expired with
        | none =>
            obtain ⟨tree', heq, h'⟩ := ih h
            exact ⟨tree', by simp [ControlLoop.expireRecent, hexp, heq], h'⟩
        | some p =>
            obtain ⟨t, hwf⟩ := h
            obtain ⟨tree₁, t₁, heq₁, hwf₁, -⟩ := hwf.remove p
            obtain ⟨tree₂, heq₂, h₂⟩ := ih ⟨t₁, hwf₁⟩
            exact ⟨tree₂, by simp [ControlLoop.expireRecent, hexp, heq₁, heq₂], h₂⟩
      · exact ⟨tree, by simp [ControlLoop.expireRecent, hexp], h⟩

/-- If each sample that leaves the list compares equal to the one removed from
the tree, the tree goes on following the list. -/
theorem Tracks.expireRecent {list : List PerfPoint} (h : Tracks key tree list) (expiry : Int)
    {expired : Option PerfPoint}
    (hsame : ∀ p ∈ list, p.timestamp ≤ expiry → ∃ q, expired = some q ∧ key q = key p) :
    ∃ tree', expireRecent key expiry expired list tree =
        some (list.dropWhile fun p => p.timestamp ≤ expiry, tree') ∧
      Tracks key tree' (list.dropWhile fun p => p.timestamp ≤ expiry) := by
  induction list generalizing tree with
  | nil => exact ⟨tree, rfl, h⟩
  | cons front list ih =>
      by_cases hexp : front.timestamp ≤ expiry
      · obtain ⟨q, rfl, hq⟩ := hsame front (by simp) hexp
        obtain ⟨tree₁, heq₁, h₁⟩ := h.remove hq
        obtain ⟨tree₂, heq₂, h₂⟩ := ih h₁ fun p hp => hsame p (by simp [hp])
        refine ⟨tree₂, ?_, by simpa [hexp] using h₂⟩
        simp [ControlLoop.expireRecent, hexp, heq₁, heq₂]
      · exact ⟨tree, by simp [ControlLoop.expireRecent, hexp], by simpa [hexp] using h⟩

end Recent

/-! ## One iteration -/

section Iteration

variable {config : ControlConfig} {ctx : ControlContext} {samples : List Sample}

/-- The keys of a window as a sample. -/
def keysOf (config : ControlConfig) (list : List PerfPoint) : Multiset ℚ :=
  (list.map config.key : List ℚ)

theorem Tracks.slide {test : Sample → Bool} {size : Int} {tree : AvlTree PerfPoint}
    (hsize : 1 ≤ size) (h : Tracks config.key tree (window test size samples)) (s : Sample) :
    ∃ tree₁ tree₂,
      ControlLoop.expire config.key (samples.length - size) (window test size samples) tree =
        some ((window test size samples).dropWhile
          fun p => p.timestamp ≤ (samples.length : Int) - size, tree₁) ∧
      ControlLoop.pushSample config.key (stamped test s samples.length)
        ((window test size samples).dropWhile
          fun p => p.timestamp ≤ (samples.length : Int) - size) tree₁ =
        some (window test size (samples ++ [s]), tree₂) ∧
      Tracks config.key tree₂ (window test size (samples ++ [s])) := by
  obtain ⟨tree₁, heq₁, h₁⟩ := h.expire (samples.length - size)
  obtain ⟨tree₂, heq₂, h₂⟩ := h₁.pushSample (stamped test s samples.length)
  rw [← window_append test hsize] at heq₂ h₂
  exact ⟨tree₁, tree₂, heq₁, heq₂, h₂⟩

theorem updateBaseline_eq (hsize : 1 ≤ config.baselineEstimation.windowSize)
    (htime : ctx.timestamp = samples.length)
    (hlist : ctx.baselineList = window noPromotion config.baselineEstimation.windowSize samples)
    (h : Tracks config.key ctx.baselineTree ctx.baselineList) (s : Sample) :
    ∃ tree', updateBaseline config ctx s = some (ctx.setBaseline
        (window noPromotion config.baselineEstimation.windowSize (samples ++ [s])) tree') ∧
      Tracks config.key tree'
        (window noPromotion config.baselineEstimation.windowSize (samples ++ [s])) := by
  rw [hlist] at h
  obtain ⟨tree₁, tree₂, hexp, hadm, h₂⟩ := h.slide hsize s
  refine ⟨tree₂, ?_, h₂⟩
  simp only [stamped, noPromotion, decide_eq_true_eq] at hadm
  simp only [updateBaseline, htime, hlist, hexp, hadm, Option.bind_eq_bind, Option.bind_some]

theorem updatePrefetch_eq (ctx : ControlContext) (hsize : 1 ≤ config.prefetch.windowSize)
    (htime : ctx.timestamp = samples.length)
    (hlist : ctx.prefetchList = window anySample config.prefetch.windowSize samples)
    (h : Tracks config.key ctx.prefetchTree ctx.prefetchList) (s : Sample) :
    ∃ tree', updatePrefetch config ctx s = some (ctx.setPrefetch
        (window anySample config.prefetch.windowSize (samples ++ [s])) tree') ∧
      Tracks config.key tree' (window anySample config.prefetch.windowSize (samples ++ [s])) := by
  rw [hlist] at h
  obtain ⟨tree₁, tree₂, hexp, hadm, h₂⟩ := h.slide hsize s
  refine ⟨tree₂, ?_, h₂⟩
  simp only [stamped, anySample, if_true] at hadm
  simp only [updatePrefetch, htime, hlist, hexp, hadm, Option.bind_eq_bind, Option.bind_some]

theorem updateRecent_sound (config : ControlConfig) (ctx : ControlContext)
    (h : Sound config.key ctx.recentTree) (s : Sample) :
    ∃ list' tree', updateRecent config ctx s = some (ctx.setRecent list' tree') ∧
      Sound config.key tree' := by
  obtain ⟨tree₁, heq₁, h₁⟩ := h.expireRecent
    (ctx.timestamp - config.performanceDropDetection.recentWindowSize) (baselineFront ctx s)
    ctx.recentList
  obtain ⟨tree₂, heq₂, h₂⟩ := h₁.pushSample (s.curPerf ctx.timestamp) (ctx.recentList.dropWhile
    fun p => p.timestamp ≤ ctx.timestamp - config.performanceDropDetection.recentWindowSize)
  refine ⟨(ctx.recentList.dropWhile fun p => p.timestamp ≤
    ctx.timestamp - config.performanceDropDetection.recentWindowSize) ++
      (s.curPerf ctx.timestamp).toList, tree₂, ?_, h₂⟩
  simp only [updateRecent, heq₁, heq₂, Option.bind_eq_bind, Option.bind_some]

theorem outlierProb_isSome (h : Sound config.key ctx.baselineTree) (s : Sample)
    (validBaseline : Bool) : ∃ prob, outlierProb config ctx s validBaseline = some prob := by
  unfold outlierProb
  cases s.curPerf ctx.timestamp with
  | none => exact ⟨0, rfl⟩
  | some curPerf =>
      obtain ⟨t, hwf⟩ := h
      have hroot : ctx.baselineTree.root = ptr t := hwf.holds.path
      obtain ⟨n, hn⟩ := hwf.holds.rep.countLessFrom config.key curPerf true
        hwf.holds.height_le_next 0
      simp only [percentGreater, percentLess, countLess, hroot, Bool.not_false, hn,
        Option.bind_eq_bind, Option.bind_some]
      split
      · exact ⟨0, rfl⟩
      · split
        · exact ⟨_, rfl⟩
        · exact ⟨1, rfl⟩

/-- What the detector computes, in terms of what the trees hold. -/
structure Detected (config : ControlConfig) (ctx : ControlContext) (detection : Detection) :
    Prop where
  valid : detection.validBaseline = true ↔
    toSizeT config.baselineEstimation.minimalBaselineSize ≤ ctx.baselineList.length
  ksDistance : detection.validBaseline = true → ∀ list, Tracks config.key ctx.recentTree list →
    IsKsDistance (keysOf config ctx.baselineList) (keysOf config list) detection.ksDistance
  siloPrefetch : detection.siloPrefetch.isSome = true ↔ detection.validBaseline = true ∧
    (ctx.prefetchList.length : Int) = toSizeT config.prefetch.windowSize ∧
    ∃ d, IsKsDistance (keysOf config ctx.baselineList) (keysOf config ctx.prefetchList) d ∧
      config.prefetch.ksDistance ≤ d

theorem Tracks.keysOf_eq {tree : AvlTree PerfPoint} {list : List PerfPoint}
    (h : Tracks config.key tree list) :
    ∃ t, WellFormed config.key tree t ∧
      (keys config.higherBetter t : Multiset ℚ) = keysOf config list := by
  obtain ⟨t, hwf, hperm⟩ := h
  exact ⟨t, hwf, Multiset.coe_eq_coe.mpr hperm⟩

theorem detect_eq (ctx : ControlContext)
    (hb : Tracks config.key ctx.baselineTree ctx.baselineList)
    (hr : Sound config.key ctx.recentTree)
    (hp : Tracks config.key ctx.prefetchTree ctx.prefetchList) (s : Sample) :
    ∃ detection, detect config ctx s = some detection ∧ Detected config ctx detection := by
  obtain ⟨prob, hprob⟩ := outlierProb_isSome hb.sound s
    (decide (toSizeT config.baselineEstimation.minimalBaselineSize ≤ ctx.baselineList.length))
  obtain ⟨b, hbwf, hbkeys⟩ := hb.keysOf_eq
  obtain ⟨r, hrwf⟩ := hr
  obtain ⟨p, hpwf, hpkeys⟩ := hp.keysOf_eq
  obtain ⟨d, hd, hdist⟩ := getKsDistance_eq hbwf hrwf
  obtain ⟨e, he, hprefetch⟩ := getKsDistance_eq hbwf hpwf
  rw [hbkeys, hpkeys] at hprefetch
  have hexists : (∃ d, IsKsDistance (keysOf config ctx.baselineList)
      (keysOf config ctx.prefetchList) d ∧ config.prefetch.ksDistance ≤ d) ↔
        e ≥ config.prefetch.ksDistance := by
    constructor
    · rintro ⟨d', hd', hle⟩
      rwa [hd'.unique hprefetch] at hle
    · exact fun hle => ⟨e, hprefetch, hle⟩
  have hrecent : ∀ list, Tracks config.key ctx.recentTree list →
      IsKsDistance (keysOf config ctx.baselineList) (keysOf config list) d := by
    intro list hlist
    obtain ⟨r', hr'wf, hr'keys⟩ := hlist.keysOf_eq
    obtain ⟨d', hd', hdist'⟩ := getKsDistance_eq hbwf hr'wf
    obtain rfl : d = d' := Option.some.inj (hd.symm.trans hd')
    rwa [hbkeys, hr'keys] at hdist'
  by_cases hvalid :
      toSizeT config.baselineEstimation.minimalBaselineSize ≤ (ctx.baselineList.length : Int)
  · simp only [hvalid, decide_true] at hprob
    by_cases hfull : (ctx.prefetchList.length : Int) = toSizeT config.prefetch.windowSize
    · by_cases hle : e ≥ config.prefetch.ksDistance
      · refine ⟨⟨true, prob, d, some config.prefetch.size⟩, ?_, ?_, fun _ => hrecent, ?_⟩
        · simp [detect, hvalid, hprob, hd, hfull, he, hle]
        · simp [hvalid]
        · simp [hexists, hle, hfull]
      · refine ⟨⟨true, prob, d, none⟩, ?_, ?_, fun _ => hrecent, ?_⟩
        · simp [detect, hvalid, hprob, hd, hfull, he, hle]
        · simp [hvalid]
        · simp [hexists, hle]
    · refine ⟨⟨true, prob, d, none⟩, ?_, ?_, fun _ => hrecent, ?_⟩
      · simp [detect, hvalid, hprob, hd, hfull]
      · simp [hvalid]
      · simp [hfull]
  · simp only [hvalid, decide_false] at hprob
    refine ⟨⟨false, prob, 1, none⟩, ?_, ?_, ?_, ?_⟩
    · simp [detect, hvalid, hprob]
    · simp [hvalid]
    · simp
    · simp

/-- The state after the measurements `samples`. -/
structure Recorded (config : ControlConfig) (samples : List Sample) (ctx : ControlContext) :
    Prop where
  timestamp : ctx.timestamp = samples.length
  baselineList : ctx.baselineList =
    window noPromotion config.baselineEstimation.windowSize samples
  baseline : Tracks config.key ctx.baselineTree ctx.baselineList
  prefetchList : ctx.prefetchList = window anySample config.prefetch.windowSize samples
  prefetch : Tracks config.key ctx.prefetchTree ctx.prefetchList
  recent : Sound config.key ctx.recentTree

theorem recorded_init (config : ControlConfig) : Recorded config [] .init where
  timestamp := rfl
  baselineList := rfl
  baseline := tracks_empty config.key
  prefetchList := rfl
  prefetch := tracks_empty config.key
  recent := (tracks_empty config.key).sound

/-- One iteration. `mid` is the state the recent window is updated in, after
the baseline; nothing else touches the recent window. -/
theorem Recorded.iteration (hbase : 1 ≤ config.baselineEstimation.windowSize)
    (hpre : 1 ≤ config.prefetch.windowSize) (h : Recorded config samples ctx) (s : Sample) :
    ∃ mid list tree ctx' detection, iteration config ctx s = some (ctx', detection) ∧
      Recorded config (samples ++ [s]) ctx' ∧ Detected config ctx' detection ∧
      ControlContext.timestamp mid = samples.length ∧
      mid.baselineList =
        window noPromotion config.baselineEstimation.windowSize (samples ++ [s]) ∧
      mid.recentList = ctx.recentList ∧ mid.recentTree = ctx.recentTree ∧
      updateRecent config mid s = some (mid.setRecent list tree) ∧
      ctx'.recentList = list ∧ ctx'.recentTree = tree := by
  obtain ⟨btree, heq₁, hb⟩ := updateBaseline_eq hbase h.timestamp h.baselineList h.baseline s
  let mid := ctx.setBaseline
    (window noPromotion config.baselineEstimation.windowSize (samples ++ [s])) btree
  obtain ⟨list, tree, heq₂, hr⟩ := updateRecent_sound config mid h.recent s
  obtain ⟨ptree, heq₃, hp⟩ :=
    updatePrefetch_eq (mid.setRecent list tree) hpre h.timestamp h.prefetchList h.prefetch s
  let done := (mid.setRecent list tree).setPrefetch
    (window anySample config.prefetch.windowSize (samples ++ [s])) ptree
  obtain ⟨detection, heq₄, hdetected⟩ := detect_eq done hb hr hp s
  refine ⟨mid, list, tree, { done with timestamp := done.timestamp + 1 }, detection, ?_,
    ⟨?_, rfl, hb, rfl, hp, hr⟩, ⟨hdetected.valid, hdetected.ksDistance, hdetected.siloPrefetch⟩,
    h.timestamp, rfl, rfl, rfl, heq₂, rfl, rfl⟩
  · simp only [ControlLoop.iteration, heq₁, heq₂, heq₃, heq₄, Option.bind_eq_bind,
      Option.bind_some, mid, done]
  · show ctx.timestamp + 1 = _
    rw [h.timestamp, List.length_append, List.length_singleton, Nat.cast_add, Nat.cast_one]

end Iteration

/-! ## Runs -/

section Run

variable {config : ControlConfig}

theorem runLoop_append (samples : List Sample) (s : Sample) :
    runLoop config (samples ++ [s]) =
      (runLoop config samples).bind fun ctx => (iteration config ctx s).map Prod.fst := by
  simp [runLoop, List.foldlM_append]

theorem exists_recorded (hbase : 1 ≤ config.baselineEstimation.windowSize)
    (hpre : 1 ≤ config.prefetch.windowSize) (samples : List Sample) :
    ∃ ctx, runLoop config samples = some ctx ∧ Recorded config samples ctx := by
  induction samples using List.reverseRecOn with
  | nil => exact ⟨.init, rfl, recorded_init config⟩
  | append_singleton samples s ih =>
      obtain ⟨ctx, hrun, hrec⟩ := ih
      obtain ⟨_, _, _, ctx', _, hiter, hrec', -⟩ := hrec.iteration hbase hpre s
      refine ⟨ctx', ?_, hrec'⟩
      rw [runLoop_append, hrun, Option.bind_some, hiter]
      rfl

end Run

end Memtrade.ControlLoop
