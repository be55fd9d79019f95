import Memtrade.Lib.Scan
import Memtrade.Lib.System
import Mathlib.Algebra.BigOperators.Group.List.Basic
import Mathlib.Algebra.Field.Defs
import Mathlib.Algebra.Order.Field.Rat
import Mathlib.Algebra.Order.Ring.Int
import Mathlib.Order.OrderDual
import Mathlib.Tactic.Abel

/-!
# The best recent average

`atomic_update_max_performance` of `cmanager` and `atomic_update_min_latency` of
`cmanager_latency`. A sample enters a window of recent samples whose sum is kept up to
date; the average of that window enters a monotone queue, the front of which is the best
average of the last `g_moving_max_window_size` epochs, warm-up left out. Samples are from
any ordered field and arithmetic is exact, so averages and deviations of finite samples
are finite.
-/

namespace Memtrade.Cmanager

/-- `struct perf_point` and `struct latency_point`. -/
structure MovingPoint (K : Type) where
  epoch : Int
  avg : K
  std : K
deriving DecidableEq, Repr

structure MovingState (K : Type) where
  /-- `g_moving_max_queue`, front first. -/
  queue : List (MovingPoint K)
  /-- `g_recent_perf_queue`, front first. -/
  recent : List K
  /-- `g_sum_recent_perf`. -/
  sum : K
deriving DecidableEq, Repr

/-- `g_moving_max_window_size` and `g_moving_min_window_size`. -/
def movingWindowSize : Int := 1800

/-- `g_max_performance_sample_window_size` and `g_min_latency_sample_window_size`. -/
def sampleWindowSize : Nat := 600

variable {K : Type} [Field K]

namespace MovingState

def empty : MovingState K := ⟨[], [], 0⟩

/-- `update recent performance samples`. -/
def record (s : MovingState K) (sample : K) : MovingState K :=
  let recent := s.recent ++ [sample]
  let sum := s.sum + sample
  if recent.length > sampleWindowSize then
    { s with recent := recent.tail, sum := sum - recent.headD 0 }
  else
    { s with recent := recent, sum := sum }

/-- The average of the recent samples. -/
def average (s : MovingState K) : K := s.sum / s.recent.length

/-- Their deviation; `sqrt` is the square root of the library. -/
def deviation (sqrt : K → K) (s : MovingState K) : K :=
  if s.recent.length > 1 then
    sqrt ((s.recent.map fun x => (x - s.average) ^ 2).sum / ((s.recent.length - 1 : Nat) : K))
  else 0

/-- A point that leaves the queue at the front: too old, or of the warm-up. -/
def lapsed (epoch : Int) (p : MovingPoint K) : Bool :=
  p.epoch ≤ epoch - movingWindowSize ∨ p.epoch + 1 < sampleWindowSize

/-- The two update functions, which differ in the test that empties the back of the
queue; a sample is `none` if it is not finite. -/
def update (sqrt : K → K) (dominated : K → K → Bool) (s : MovingState K) (epoch : Int) :
    Option K → MovingState K
  | none => s
  | some sample =>
      let s := s.record sample
      { s with
        queue := slide (lapsed epoch) (fun p => dominated p.avg s.average) s.queue
          ⟨epoch, s.average, s.deviation sqrt⟩ }

def atomicUpdateMaxPerformance [LinearOrder K] (sqrt : K → K) (s : MovingState K)
    (epoch : Int) (performance : Option K) : MovingState K :=
  update sqrt (fun back new => back ≤ new) s epoch performance

def atomicUpdateMinLatency [LinearOrder K] (sqrt : K → K) (s : MovingState K)
    (epoch : Int) (latency : Option K) : MovingState K :=
  update sqrt (fun back new => back ≥ new) s epoch latency

/-- `atomic_get_max_performance`, and `atomic_get_min_latency` with `DBL_MAX` for an
empty queue. -/
def get (fallback : K) (s : MovingState K) : K × K :=
  match s.queue with
  | [] => (fallback, 0)
  | p :: _ => (p.avg, p.std)

def atomicGetMaxPerformance (s : MovingState K) : K × K := s.get 0

def atomicGetMinLatency (dblMax : K) (s : MovingState K) : K × K := s.get dblMax

/-- A sequence of calls. -/
def run (call : MovingState K → Int → Option K → MovingState K) (calls : List (Int × Option K)) :
    MovingState K :=
  calls.foldl (fun s c => call s c.1 c.2) empty

end MovingState

/-! ## What the queue is for -/

/-- The calls with a finite sample. -/
def accepted (calls : List (Int × Option K)) : List (Int × K) :=
  calls.filterMap fun c => c.2.map fun x => (c.1, x)

/-- The mean of the last `sampleWindowSize` samples, or of all if there are fewer. -/
def meanOfLast (samples : List K) : K :=
  (samples.rtake sampleWindowSize).sum / ((samples.rtake sampleWindowSize).length : K)

/-- `m` is the mean at epoch `e`, that is of the samples up to that epoch. -/
def MeanAt (calls : List (Int × K)) (e : Int) (m : K) : Prop :=
  ∃ before x after, calls = before ++ (e, x) :: after ∧
    m = meanOfLast (before.map Prod.snd ++ [x])

/-- The epochs that count at epoch `now`. -/
def InWindow (now e : Int) : Prop :=
  e > now - movingWindowSize ∧ (e + 1 ≥ sampleWindowSize ∨ e = now)

/-! ## Averages -/

theorem rtake_concat {α : Type} (l : List α) (x : α) (n : Nat) :
    (l ++ [x]).rtake n =
      if (l.rtake n ++ [x]).length > n then (l.rtake n ++ [x]).tail else l.rtake n ++ [x] := by
  by_cases hlen : l.length < n
  · have hall : l.rtake n = l := by
      rw [List.rtake, Nat.sub_eq_zero_of_le hlen.le, List.drop_zero]
    rw [hall, if_neg (by simp; omega), List.rtake, List.length_append, List.length_singleton,
      Nat.sub_eq_zero_of_le (by omega), List.drop_zero]
  · have hle : n ≤ l.length := not_lt.mp hlen
    have hfull : (l.rtake n).length = n := by
      rw [List.rtake, List.length_drop]
      omega
    have hcut : (l ++ [x]).length - n = l.length - n + 1 := by
      rw [List.length_append, List.length_singleton]
      omega
    rw [if_pos (by rw [List.length_append, hfull]; simp), List.rtake, hcut, List.rtake,
      ← List.drop_one, ← List.drop_append_of_le_length (by omega), List.drop_drop]

/-- The window holds the last samples, and the sum is theirs. -/
structure Recent (samples : List K) (s : MovingState K) : Prop where
  recent : s.recent = samples.rtake sampleWindowSize
  sum : s.sum = s.recent.sum

theorem Recent.record {samples : List K} {s : MovingState K} (h : Recent samples s) (x : K) :
    Recent (samples ++ [x]) (s.record x) := by
  have htotal : s.sum + x = (s.recent ++ [x]).sum := by
    rw [List.sum_append, List.sum_singleton, h.sum]
  unfold MovingState.record
  by_cases hfull : (s.recent ++ [x]).length > sampleWindowSize
  · rw [if_pos hfull]
    constructor
    · rw [rtake_concat, ← h.recent, if_pos hfull]
    · show s.sum + x - (s.recent ++ [x]).headD 0 = (s.recent ++ [x]).tail.sum
      rw [htotal]
      cases s.recent ++ [x] with
      | nil => simp
      | cons y rest => simp
  · rw [if_neg hfull]
    constructor
    · rw [rtake_concat, ← h.recent, if_neg hfull]
    · exact htotal

theorem Recent.average_eq {samples : List K} {s : MovingState K} (h : Recent samples s) :
    s.average = meanOfLast samples := by
  rw [MovingState.average, meanOfLast, h.sum, h.recent]

theorem not_meanAt_nil (e : Int) (m : K) : ¬ MeanAt [] e m := by
  intro h
  obtain ⟨before, x, after, heq, -⟩ := h
  simp at heq

theorem meanAt_concat {calls : List (Int × K)} {epoch e : Int} {x m : K} :
    MeanAt (calls ++ [(epoch, x)]) e m ↔
      MeanAt calls e m ∨ (e = epoch ∧ m = meanOfLast (calls.map Prod.snd ++ [x])) := by
  constructor
  · intro h
    obtain ⟨before, y, after, heq, hm⟩ := h
    cases split_concat heq with
    | inl hnew =>
        have hcall := Prod.mk.inj hnew.2
        rw [hnew.1, hcall.2]
        exact .inr ⟨hcall.1.symm, hm⟩
    | inr hold =>
        obtain ⟨rest, hrest⟩ := hold
        exact .inl ⟨before, y, rest, hrest, hm⟩
  · intro h
    rcases h with ⟨before, y, after, heq, hm⟩ | ⟨he, hm⟩
    · exact ⟨before, y, after ++ [(epoch, x)], by rw [heq]; simp, hm⟩
    · exact ⟨calls, x, [], by rw [he], hm⟩

theorem MeanAt.mem {calls : List (Int × K)} {e : Int} {m : K} (h : MeanAt calls e m) :
    ∃ x, (e, x) ∈ calls := by
  obtain ⟨before, x, after, heq, -⟩ := h
  exact ⟨x, by rw [heq]; simp⟩

/-! ## The queue -/

section Run

variable {L : Type} [LinearOrder L] {key : K → L} {dominated : K → K → Bool}

variable (key) in
/-- The queue covers the averages in the window at epoch `now`. -/
def QueueAt (calls : List (Int × K)) (now : Int) (queue : List (MovingPoint K)) : Prop :=
  Covers MovingPoint.epoch (fun p => key p.avg) (fun p => MeanAt calls p.epoch p.avg)
    (fun p => InWindow now p.epoch) queue

theorem QueueAt.update (sqrt : K → K) (hdom : ∀ a b, dominated a b = true ↔ key a ≤ key b)
    {calls : List (Int × K)} {last epoch : Int} {s : MovingState K}
    (h : QueueAt key calls last s.queue) (hrecent : Recent (calls.map Prod.snd) s)
    (hlast : calls = [] ∨ last < epoch) (hlater : ∀ c ∈ calls, c.1 < epoch) (x : K) :
    QueueAt key (calls ++ [(epoch, x)]) epoch
      (s.update sqrt dominated epoch (some x)).queue := by
  have havg : (s.record x).average = meanOfLast (calls.map Prod.snd ++ [x]) :=
    (hrecent.record x).average_eq
  have hqueue : (s.record x).queue = s.queue := by
    unfold MovingState.record
    simp only
    split <;> rfl
  have hbefore : ∀ e m, MeanAt calls e m → e < epoch ∧ last < epoch := by
    intro e m hm
    obtain ⟨y, hy⟩ := hm.mem
    refine ⟨hlater (e, y) hy, ?_⟩
    rcases hlast with hnil | hlt
    · rw [hnil] at hy
      cases hy
    · exact hlt
  have hlapsed : ∀ p : MovingPoint K, MovingState.lapsed epoch p = false ↔
      p.epoch > epoch - movingWindowSize ∧ p.epoch + 1 ≥ sampleWindowSize := by
    intro p
    unfold MovingState.lapsed
    rw [decide_eq_false_iff_not]
    omega
  unfold QueueAt MovingState.update
  simp only [hqueue]
  apply Covers.slide h
  · intro p
    exact hdom p.avg (s.record x).average
  · intro p q hle hq
    unfold MovingState.lapsed at hq ⊢
    rw [decide_eq_true_eq] at hq ⊢
    omega
  · intro p hp
    exact (hbefore p.epoch p.avg hp).1
  · intro p hp
    exact meanAt_concat.mpr (Or.inl hp)
  · exact meanAt_concat.mpr (Or.inr ⟨rfl, havg⟩)
  · intro p hp
    rcases meanAt_concat.mp hp with hp | ⟨he, hm⟩
    · exact Or.inl hp
    · exact Or.inr ⟨he, by rw [havg, hm]⟩
  · intro p hp
    have hlt := hbefore p.epoch p.avg hp
    rw [hlapsed]
    unfold InWindow
    omega
  · intro p hp hfresh
    have hlt := hbefore p.epoch p.avg hp
    rw [hlapsed] at hfresh
    unfold InWindow
    omega
  · show InWindow epoch epoch
    unfold InWindow movingWindowSize
    omega

omit [Field K] in
theorem mem_accepted {calls : List (Int × Option K)} {c : Int × K} (h : c ∈ accepted calls) :
    (c.1, some c.2) ∈ calls := by
  unfold accepted at h
  rw [List.mem_filterMap] at h
  obtain ⟨⟨e, sample⟩, hmem, heq⟩ := h
  cases sample with
  | none => cases heq
  | some x =>
      cases heq
      exact hmem

theorem run_concat (call : MovingState K → Int → Option K → MovingState K)
    (calls : List (Int × Option K)) (c : Int × Option K) :
    MovingState.run call (calls ++ [c]) = call (MovingState.run call calls) c.1 c.2 := by
  rw [MovingState.run, List.foldl_append]
  rfl

/-- The window and the queue after any calls at increasing epochs; `last` is the epoch
of the last accepted one. -/
theorem run_spec (sqrt : K → K) (hdom : ∀ a b, dominated a b = true ↔ key a ≤ key b)
    {calls : List (Int × Option K)} (hinc : calls.Pairwise fun a b => a.1 < b.1) :
    Recent ((accepted calls).map Prod.snd)
        (MovingState.run (MovingState.update sqrt dominated) calls) ∧
      ∀ last, (accepted calls = [] ∨ ∃ before x, accepted calls = before ++ [(last, x)]) →
        QueueAt key (accepted calls) last
          (MovingState.run (MovingState.update sqrt dominated) calls).queue := by
  induction calls using List.reverseRecOn with
  | nil =>
      constructor
      · exact ⟨(List.rtake_nil sampleWindowSize).symm, List.sum_nil.symm⟩
      · intro last _
        exact covers_nil _ _ _ fun p => not_meanAt_nil p.epoch p.avg
  | append_singleton calls c ih =>
      obtain ⟨hinc, -, hlater⟩ := List.pairwise_append.mp hinc
      obtain ⟨hrecent, hqueue⟩ := ih hinc
      obtain ⟨epoch, sample⟩ := c
      rw [run_concat]
      cases sample with
      | none =>
          have hsame : accepted (calls ++ [(epoch, none)]) = accepted calls := by
            simp [accepted]
          rw [hsame]
          exact ⟨hrecent, hqueue⟩
      | some x =>
          have hnew : accepted (calls ++ [(epoch, some x)]) = accepted calls ++ [(epoch, x)] := by
            simp [accepted]
          have hbefore : ∀ c ∈ accepted calls, c.1 < epoch := by
            intro c hc
            exact hlater _ (mem_accepted hc) (epoch, some x) (List.mem_singleton.mpr rfl)
          rw [hnew]
          constructor
          · rw [List.map_append]
            have hrecord := hrecent.record x
            exact ⟨hrecord.recent, hrecord.sum⟩
          · intro last hlast
            have hepoch : last = epoch := by
              rcases hlast with hnil | ⟨before, y, heq⟩
              · simp at hnil
              · have hone := (List.append_inj' heq rfl).2
                cases hone
                rfl
            rw [hepoch]
            rcases List.eq_nil_or_concat (accepted calls) with hnil | ⟨before, c, hconcat⟩
            · exact (hqueue epoch (Or.inl hnil)).update sqrt hdom hrecent (Or.inl hnil) hbefore x
            · rw [List.concat_eq_append] at hconcat
              have hc : c.1 < epoch := hbefore c (by rw [hconcat]; simp)
              exact (hqueue c.1 (Or.inr ⟨before, c.2, hconcat⟩)).update sqrt hdom hrecent
                (Or.inr hc) hbefore x

end Run

/-- After an accepted call at epoch `now`: the front has the best average of the window,
epochs increase along the queue and averages get strictly worse. -/
structure ExtremeKept (worse : K → K → Prop) (calls : List (Int × K)) (now : Int)
    (s : MovingState K) (read : K × K) : Prop where
  front : ∃ p rest, s.queue = p :: rest ∧ read = (p.avg, p.std) ∧ MeanAt calls p.epoch p.avg ∧
    InWindow now p.epoch ∧ ∀ e m, MeanAt calls e m → InWindow now e → m = p.avg ∨ worse m p.avg
  epochs : s.queue.Pairwise fun p q => p.epoch < q.epoch
  averages : s.queue.Pairwise fun p q => worse q.avg p.avg

theorem extremeKept_of_run {L : Type} [LinearOrder L] (key : K → L) {dominated : K → K → Bool}
    {worse : K → K → Prop} (sqrt : K → K)
    (hdom : ∀ a b, dominated a b = true ↔ key a ≤ key b)
    (hworse : ∀ a b, worse a b ↔ key a < key b) (hinj : Function.Injective key)
    {calls : List (Int × Option K)} {now : Int} {x : K} (fallback : K)
    (hinc : (calls ++ [(now, some x)]).Pairwise fun a b => a.1 < b.1) :
    ExtremeKept worse (accepted (calls ++ [(now, some x)])) now
      (MovingState.run (MovingState.update sqrt dominated) (calls ++ [(now, some x)]))
      ((MovingState.run (MovingState.update sqrt dominated) (calls ++ [(now, some x)])).get
        fallback) := by
  have hnew : accepted (calls ++ [(now, some x)]) = accepted calls ++ [(now, x)] := by
    simp [accepted]
  have hqueue := (run_spec sqrt hdom hinc).2 now (Or.inr ⟨_, x, hnew⟩)
  generalize MovingState.run (MovingState.update sqrt dominated) (calls ++ [(now, some x)]) = s
    at hqueue
  constructor
  · cases hq : s.queue with
    | nil =>
        have hself : MeanAt (accepted (calls ++ [(now, some x)])) now
            (meanOfLast ((accepted calls).map Prod.snd ++ [x])) := by
          rw [hnew]
          exact meanAt_concat.mpr (Or.inr ⟨rfl, rfl⟩)
        have hin : InWindow now now := by
          unfold InWindow movingWindowSize
          omega
        obtain ⟨p, hp, -, -⟩ := hqueue.covers
          ⟨now, meanOfLast ((accepted calls).map Prod.snd ++ [x]), 0⟩ hself hin
        rw [hq] at hp
        cases hp
    | cons p rest =>
        rw [hq] at hqueue
        have hp := hqueue.mem p List.mem_cons_self
        refine ⟨p, rest, rfl, by rw [MovingState.get, hq], hp.1, hp.2, ?_⟩
        intro e m hm he
        have hle := Covers.front hqueue (y := ⟨e, m, 0⟩) hm he
        rcases hle.eq_or_lt with heq | hlt
        · exact Or.inl (hinj heq)
        · exact Or.inr ((hworse m p.avg).mpr hlt)
  · exact hqueue.times
  · apply hqueue.keys.imp
    intro p q hlt
    exact (hworse q.avg p.avg).mpr hlt

/-- The front of the queue is the largest average of the window after every accepted call
of `atomic_update_max_performance`, and the smallest after every accepted call of
`atomic_update_min_latency`. -/
theorem moving_extreme_kept [LinearOrder K] (sqrt : K → K) (calls : List (Int × Option K))
    (now : Int) (x dblMax : K)
    (hinc : (calls ++ [(now, some x)]).Pairwise fun a b => a.1 < b.1) :
    ExtremeKept (· < ·) (accepted (calls ++ [(now, some x)])) now
        (MovingState.run (MovingState.atomicUpdateMaxPerformance sqrt) (calls ++ [(now, some x)]))
        (MovingState.run (MovingState.atomicUpdateMaxPerformance sqrt)
          (calls ++ [(now, some x)])).atomicGetMaxPerformance ∧
      ExtremeKept (· > ·) (accepted (calls ++ [(now, some x)])) now
        (MovingState.run (MovingState.atomicUpdateMinLatency sqrt) (calls ++ [(now, some x)]))
        ((MovingState.run (MovingState.atomicUpdateMinLatency sqrt)
          (calls ++ [(now, some x)])).atomicGetMinLatency dblMax) := by
  constructor
  · exact extremeKept_of_run id sqrt (fun a b => decide_eq_true_iff)
      (fun a b => Iff.rfl) (fun a b h => h) 0 hinc
  · exact extremeKept_of_run OrderDual.toDual sqrt (fun a b => decide_eq_true_iff)
      (fun a b => Iff.rfl) (fun a b h => h) dblMax hinc

/-- Two equal samples with a non-finite one between them. -/
theorem moving_extreme_sample :
    ExtremeKept (K := ℚ) (· < ·) [(1, 4), (3, 4)] 3
      (MovingState.run (MovingState.atomicUpdateMaxPerformance id)
        [(1, some 4), (2, none), (3, some 4)]) (4, 0) := by
  have hinc : ([(1, some 4), (2, none)] ++ [(3, some 4)] : List (Int × Option ℚ)).Pairwise
      fun a b => a.1 < b.1 := by decide
  have hread : (MovingState.run (MovingState.atomicUpdateMaxPerformance id)
      ([(1, some 4), (2, none)] ++ [(3, some 4)] : List (Int × Option ℚ))).atomicGetMaxPerformance =
        (4, 0) := by decide +kernel
  have hkept := (moving_extreme_kept id [(1, some 4), (2, none)] 3 (4 : ℚ) 0 hinc).1
  rw [hread] at hkept
  exact hkept

end Memtrade.Cmanager
