import Mathlib.Algebra.Order.Group.Unbundled.Basic
import Mathlib.Algebra.Order.Ring.Rat
import Mathlib.Data.List.GetD
import Mathlib.Order.Bounds.Basic
import Memtrade.Lib.Runs

/-!
# Requests from a usage trace

`generate_requests` of `consumer-producer.py`. A request stands for a maximal run of slots
whose usage reaches the cap. The running maximum is only compared when a run begins, and the
run that is open at the end of the trace is closed at its last index instead of behind it.
Numbers are exact.
-/

namespace Memtrade.ClusterTrace

/-- An entry of the list that `generate_requests` returns. -/
@[ext]
structure TraceRequest where
  start : Nat
  duration : Nat
  memory : ℚ
deriving DecidableEq, Repr

/-- The locals of the loop. `start` is the field of `temp_req`; it is read only while
`exceed` is set. -/
structure ScanState where
  request : List TraceRequest
  start : Nat
  maxMem : ℚ
  exceed : Bool

/-- The body of the loop. -/
def scanSlot (maxUsageCap : ℚ) (s : ScanState) (t : Nat) (usage : ℚ) : ScanState :=
  if maxUsageCap ≤ usage then
    if s.exceed then s
    else
      { s with
        exceed := true
        start := t
        maxMem := if usage - maxUsageCap > s.maxMem then usage - maxUsageCap else s.maxMem }
  else if s.exceed then
    { request := s.request ++ [⟨s.start, t - s.start, s.maxMem⟩]
      start := 0
      maxMem := 0
      exceed := false }
  else s

def scanTrace (maxUsageCap : ℚ) : Nat → ScanState → List ℚ → ScanState
  | _, s, [] => s
  | t, s, usage :: rest => scanTrace maxUsageCap (t + 1) (scanSlot maxUsageCap s t usage) rest

/-- `generate_requests`; behind the loop `t` has the last index. -/
def generateRequests (maxUsageCap : ℚ) (usage : List ℚ) : List TraceRequest :=
  let s := scanTrace maxUsageCap 0 ⟨[], 0, 0, false⟩ usage
  if s.exceed then s.request ++ [⟨s.start, usage.length - 1 - s.start, s.maxMem⟩] else s.request

/-! ## What is expected -/

/-- The trace has this slot and its usage reaches the cap. -/
def Exceeds (maxUsageCap : ℚ) (usage : List ℚ) (t : Nat) : Prop :=
  t < usage.length ∧ maxUsageCap ≤ usage.getD t 0

/-- By how much the usage of the slots of a run is above the cap. -/
def excess (maxUsageCap : ℚ) (usage : List ℚ) (start length : Nat) : Set ℚ :=
  { x | ∃ t, start ≤ t ∧ t < start + length ∧ x = usage.getD t 0 - maxUsageCap }

/-- The requests are those of the maximal runs, in order, one for each. -/
structure Extracted (maxUsageCap : ℚ) (usage : List ℚ) (reqs : List TraceRequest) : Prop where
  ordered : reqs.Pairwise fun a b => a.start < b.start
  runs : ∀ req ∈ reqs, IsRun (Exceeds maxUsageCap usage) req.start req.duration
  memory : ∀ req ∈ reqs, IsGreatest (excess maxUsageCap usage req.start req.duration) req.memory
  complete : ∀ start length, IsRun (Exceeds maxUsageCap usage) start length →
    ∃ req ∈ reqs, req.start = start

/-! ## The loop -/

section Loop

variable {maxUsageCap : ℚ} {usage : List ℚ} {s : ScanState} {t : Nat}

/-- The entry of a run that has ended before slot `t`. -/
structure EndedBefore (maxUsageCap : ℚ) (usage : List ℚ) (t : Nat) (req : TraceRequest) : Prop where
  run : IsRun (Exceeds maxUsageCap usage) req.start req.duration
  lt : req.start + req.duration < t
  memory : req.memory = usage.getD req.start 0 - maxUsageCap

/-- What the locals hold before slot `t`. -/
structure ScannedTo (maxUsageCap : ℚ) (usage : List ℚ) (t : Nat) (s : ScanState) : Prop where
  opened : s.exceed = true → OpenRun (Exceeds maxUsageCap usage) s.start t ∧
    s.maxMem = usage.getD s.start 0 - maxUsageCap
  closed : s.exceed = false → (t = 0 ∨ ¬ Exceeds maxUsageCap usage (t - 1)) ∧ s.maxMem = 0
  ordered : s.request.Pairwise fun a b => a.start < b.start
  ended : ∀ req, req ∈ s.request ↔ EndedBefore maxUsageCap usage t req

theorem scannedTo_zero : ScannedTo maxUsageCap usage 0 ⟨[], 0, 0, false⟩ where
  opened hopened := by cases hopened
  closed _ := ⟨.inl rfl, rfl⟩
  ordered := List.Pairwise.nil
  ended req := by
    constructor
    · intro hmem
      cases hmem
    · intro hended
      exact absurd hended.lt (Nat.not_lt_zero _)

theorem EndedBefore.succ {req : TraceRequest} (h : EndedBefore maxUsageCap usage t req) :
    EndedBefore maxUsageCap usage (t + 1) req :=
  ⟨h.run, Nat.lt_succ_of_lt h.lt, h.memory⟩

theorem endedBefore_succ_iff (h : Exceeds maxUsageCap usage t) (req : TraceRequest) :
    EndedBefore maxUsageCap usage (t + 1) req ↔ EndedBefore maxUsageCap usage t req := by
  constructor
  · intro hended
    have hlt := hended.lt
    have hne : req.start + req.duration ≠ t := by
      intro heq
      apply hended.run.behind
      rw [heq]
      exact h
    exact ⟨hended.run, by omega, hended.memory⟩
  · exact EndedBefore.succ

theorem ScannedTo.begins (h : ScannedTo maxUsageCap usage t s)
    (hexceeds : Exceeds maxUsageCap usage t) (hexceed : s.exceed = false) :
    ScannedTo maxUsageCap usage (t + 1) { s with
      exceed := true
      start := t
      maxMem := usage.getD t 0 - maxUsageCap } where
  opened _ := ⟨openRun_succ hexceeds (h.closed hexceed).1, rfl⟩
  closed hclosed := by cases hclosed
  ordered := h.ordered
  ended req := (h.ended req).trans (endedBefore_succ_iff hexceeds req).symm

theorem ScannedTo.goesOn (h : ScannedTo maxUsageCap usage t s)
    (hexceeds : Exceeds maxUsageCap usage t) (hexceed : s.exceed = true) :
    ScannedTo maxUsageCap usage (t + 1) s where
  opened _ := ⟨(h.opened hexceed).1.extend hexceeds, (h.opened hexceed).2⟩
  closed hclosed := by
    rw [hexceed] at hclosed
    cases hclosed
  ordered := h.ordered
  ended req := (h.ended req).trans (endedBefore_succ_iff hexceeds req).symm

/-- The entry of the open run comes behind those of the runs that have ended. -/
theorem ScannedTo.ordered_append (h : ScannedTo maxUsageCap usage t s) (hexceed : s.exceed = true)
    (duration : Nat) (memory : ℚ) :
    (s.request ++ [TraceRequest.mk s.start duration memory]).Pairwise
      fun a b => a.start < b.start := by
  rw [List.pairwise_append]
  refine ⟨h.ordered, List.pairwise_singleton _ _, ?_⟩
  intro a ha b hb
  rw [List.mem_singleton.mp hb]
  have hended := (h.ended a).mp ha
  exact (h.opened hexceed).1.start_gt hended.run hended.lt

theorem ScannedTo.ends (h : ScannedTo maxUsageCap usage t s)
    (hbelow : ¬ Exceeds maxUsageCap usage t) (hexceed : s.exceed = true) :
    ScannedTo maxUsageCap usage (t + 1) {
      request := s.request ++ [⟨s.start, t - s.start, s.maxMem⟩]
      start := 0
      maxMem := 0
      exceed := false } := by
  obtain ⟨hopen, hmaxMem⟩ := h.opened hexceed
  have hlt := hopen.lt
  constructor
  case opened =>
    intro hopened
    cases hopened
  case closed =>
    intro _
    exact ⟨.inr hbelow, rfl⟩
  case ordered => exact h.ordered_append hexceed _ _
  case ended =>
    intro req
    rw [List.mem_append, List.mem_singleton, h.ended req]
    constructor
    · intro hcase
      cases hcase with
      | inl hended => exact hended.succ
      | inr heq =>
          rw [heq]
          exact ⟨hopen.close hbelow, by dsimp only; omega, hmaxMem⟩
    · intro hended
      have hlt' := hended.lt
      by_cases hat : req.start + req.duration = t
      · right
        have hreq := hended.run.openRun
        have hmemory := hended.memory
        rw [hat] at hreq
        have hstart := hreq.unique hopen
        have hduration : req.duration = t - s.start := by omega
        rw [hstart, ← hmaxMem] at hmemory
        exact TraceRequest.ext hstart hduration hmemory
      · exact .inl ⟨hended.run, by omega, hended.memory⟩

theorem ScannedTo.passes (h : ScannedTo maxUsageCap usage t s)
    (hbelow : ¬ Exceeds maxUsageCap usage t) (hexceed : s.exceed = false) :
    ScannedTo maxUsageCap usage (t + 1) s := by
  obtain ⟨hgap, hmaxMem⟩ := h.closed hexceed
  constructor
  case opened =>
    intro hopened
    rw [hexceed] at hopened
    cases hopened
  case closed =>
    intro _
    exact ⟨.inr hbelow, hmaxMem⟩
  case ordered => exact h.ordered
  case ended =>
    intro req
    rw [h.ended req]
    constructor
    · exact EndedBefore.succ
    · intro hended
      refine ⟨hended.run, ?_, hended.memory⟩
      by_contra hge
      -- a run that ends at `t` would have been open
      have hlt := hended.lt
      have hat : req.start + req.duration = t := by omega
      have hpos := hended.run.pos
      have hlast := hended.run.last
      rw [hat] at hlast
      cases hgap with
      | inl hzero => omega
      | inr hprev => exact hprev hlast

theorem ScannedTo.slot (h : ScannedTo maxUsageCap usage t s) (ht : t < usage.length) :
    ScannedTo maxUsageCap usage (t + 1) (scanSlot maxUsageCap s t (usage.getD t 0)) := by
  unfold scanSlot
  by_cases hcap : maxUsageCap ≤ usage.getD t 0
  · rw [if_pos hcap]
    cases hexceed : s.exceed with
    | true => exact h.goesOn ⟨ht, hcap⟩ hexceed
    | false =>
        -- the maximum starts from 0, so the first slot of a run replaces it
        have hmaxMem : (if usage.getD t 0 - maxUsageCap > s.maxMem then usage.getD t 0 - maxUsageCap
            else s.maxMem) = usage.getD t 0 - maxUsageCap := by
          rw [(h.closed hexceed).2]
          split
          · rfl
          · rename_i hle
            exact le_antisymm (sub_nonneg.mpr hcap) (not_lt.mp hle)
        rw [hmaxMem]
        exact h.begins ⟨ht, hcap⟩ hexceed
  · have hbelow : ¬ Exceeds maxUsageCap usage t := fun hexceeds => hcap hexceeds.2
    rw [if_neg hcap]
    cases hexceed : s.exceed with
    | true => exact h.ends hbelow hexceed
    | false => exact h.passes hbelow hexceed

theorem scannedTo_scanTrace (h : ScannedTo maxUsageCap usage t s) (ht : t ≤ usage.length) :
    ScannedTo maxUsageCap usage usage.length (scanTrace maxUsageCap t s (usage.drop t)) := by
  induction hrest : usage.drop t generalizing t s with
  | nil =>
      have hend : t = usage.length := by
        have hle := List.drop_eq_nil_iff.mp hrest
        omega
      rw [← hend]
      exact h
  | cons u rest ih =>
      have hlt : t < usage.length := by
        by_contra hge
        rw [List.drop_eq_nil_of_le (by omega)] at hrest
        cases hrest
      rw [List.drop_eq_getElem_cons hlt, List.cons.injEq] at hrest
      have hu : u = usage.getD t 0 := by
        rw [← hrest.1, List.getD_eq_getElem _ _ hlt]
      rw [scanTrace, hu]
      exact ih (h.slot hlt) hlt hrest.2

end Loop

/-! ## The list -/

section List

variable {maxUsageCap : ℚ} {usage : List ℚ} {start length : Nat}

theorem not_exceeds_length : ¬ Exceeds maxUsageCap usage usage.length :=
  fun h => Nat.lt_irrefl _ h.1

theorem run_le_length (h : IsRun (Exceeds maxUsageCap usage) start length) :
    start + length ≤ usage.length := by
  have hlast := h.last.1
  have hpos := h.pos
  omega

/-- The duration that the run gets in the list. -/
def listedDuration (usage : List ℚ) (start length : Nat) : Nat :=
  if start + length = usage.length then length - 1 else length

theorem scannedTo_end (maxUsageCap : ℚ) (usage : List ℚ) :
    ScannedTo maxUsageCap usage usage.length (scanTrace maxUsageCap 0 ⟨[], 0, 0, false⟩ usage) :=
  scannedTo_scanTrace scannedTo_zero (Nat.zero_le _)

theorem generateRequests_ordered (maxUsageCap : ℚ) (usage : List ℚ) :
    (generateRequests maxUsageCap usage).Pairwise fun a b => a.start < b.start := by
  have h := scannedTo_end maxUsageCap usage
  unfold generateRequests
  simp only
  cases hexceed : (scanTrace maxUsageCap 0 ⟨[], 0, 0, false⟩ usage).exceed with
  | true => exact h.ordered_append hexceed _ _
  | false => exact h.ordered

/-- The entry of a run that ends before the trace does, or of one that is still open there. -/
theorem listed_iff {req : TraceRequest} :
    (∃ length, IsRun (Exceeds maxUsageCap usage) req.start length ∧
      req.duration = listedDuration usage req.start length ∧
      req.memory = usage.getD req.start 0 - maxUsageCap) ↔
    EndedBefore maxUsageCap usage usage.length req ∨
    (OpenRun (Exceeds maxUsageCap usage) req.start usage.length ∧
      req.duration = usage.length - 1 - req.start ∧
      req.memory = usage.getD req.start 0 - maxUsageCap) := by
  unfold listedDuration
  constructor
  · intro h
    obtain ⟨length, hrun, hduration, hmemory⟩ := h
    have hle := run_le_length hrun
    by_cases hat : req.start + length = usage.length
    · rw [if_pos hat] at hduration
      have hopen := hrun.openRun
      rw [hat] at hopen
      exact .inr ⟨hopen, by omega, hmemory⟩
    · rw [if_neg hat] at hduration
      rw [← hduration] at hrun
      exact .inl ⟨hrun, by omega, hmemory⟩
  · intro h
    cases h with
    | inl hended =>
        refine ⟨req.duration, hended.run, ?_, hended.memory⟩
        rw [if_neg (Nat.ne_of_lt hended.lt)]
    | inr hlast =>
        have hlt := hlast.1.lt
        have hduration := hlast.2.1
        refine ⟨usage.length - req.start, hlast.1.close not_exceeds_length, ?_, hlast.2.2⟩
        rw [if_pos (by omega)]
        omega

/-- The list has one entry for each run, with the excess of its first slot. -/
theorem mem_generateRequests {req : TraceRequest} :
    req ∈ generateRequests maxUsageCap usage ↔
      ∃ length, IsRun (Exceeds maxUsageCap usage) req.start length ∧
        req.duration = listedDuration usage req.start length ∧
        req.memory = usage.getD req.start 0 - maxUsageCap := by
  have h := scannedTo_end maxUsageCap usage
  rw [listed_iff, ← h.ended req]
  unfold generateRequests
  simp only
  cases hexceed : (scanTrace maxUsageCap 0 ⟨[], 0, 0, false⟩ usage).exceed with
  | true =>
      obtain ⟨hopen, hmaxMem⟩ := h.opened hexceed
      simp only [if_true, List.mem_append, List.mem_singleton]
      apply or_congr_right
      constructor
      · intro heq
        rw [heq]
        exact ⟨hopen, rfl, hmaxMem⟩
      · rintro ⟨hreq, hduration, hmemory⟩
        have hstart := hreq.unique hopen
        rw [hstart] at hduration hmemory
        exact TraceRequest.ext hstart hduration (hmemory.trans hmaxMem.symm)
  | false =>
      simp only [Bool.false_eq_true, if_false]
      constructor
      · exact .inl
      · rintro (hmem | ⟨hopen, -, -⟩)
        · exact hmem
        · -- no run is open
          cases (h.closed hexceed).1 with
          | inl hzero =>
              have hlt := hopen.lt
              omega
          | inr hgap => exact absurd hopen.last hgap

end List

/-- The list is right exactly if every run ends before the trace does and is highest in its
first slot. -/
theorem extracted_iff (maxUsageCap : ℚ) (usage : List ℚ) :
    Extracted maxUsageCap usage (generateRequests maxUsageCap usage) ↔
      ∀ start length, IsRun (Exceeds maxUsageCap usage) start length →
        start + length < usage.length ∧
          ∀ t, start ≤ t → t < start + length → usage.getD t 0 ≤ usage.getD start 0 := by
  constructor
  · intro h start length hrun
    obtain ⟨req, hreq, hstart⟩ := h.complete start length hrun
    obtain ⟨length', hrun', hduration, hmemory⟩ := mem_generateRequests.mp hreq
    have hwhole := h.runs req hreq
    have hgreatest := h.memory req hreq
    rw [hstart] at hrun' hduration hmemory hwhole hgreatest
    have hlength := hrun.length_unique hrun'
    have hsame := hrun.length_unique hwhole
    have hle := run_le_length hrun
    have hpos := hrun.pos
    refine ⟨?_, ?_⟩
    · by_contra hge
      rw [listedDuration, if_pos (by omega)] at hduration
      omega
    · intro t hge hlt
      have hbound := hgreatest.2 ⟨t, hge, by omega, rfl⟩
      rw [hmemory] at hbound
      exact (sub_le_sub_iff_right _).mp hbound
  · intro hcond
    have hmem : ∀ req ∈ generateRequests maxUsageCap usage,
        IsRun (Exceeds maxUsageCap usage) req.start req.duration ∧
          req.memory = usage.getD req.start 0 - maxUsageCap := by
      intro req hreq
      obtain ⟨length, hrun, hduration, hmemory⟩ := mem_generateRequests.mp hreq
      have hlt := (hcond _ _ hrun).1
      rw [listedDuration, if_neg (by omega)] at hduration
      rw [hduration]
      exact ⟨hrun, hmemory⟩
    constructor
    case ordered => exact generateRequests_ordered maxUsageCap usage
    case runs => exact fun req hreq => (hmem req hreq).1
    case memory =>
      intro req hreq
      obtain ⟨hrun, hmemory⟩ := hmem req hreq
      have hpos := hrun.pos
      rw [hmemory]
      constructor
      · exact ⟨req.start, Nat.le_refl _, by omega, rfl⟩
      · rintro x ⟨t, hge, hlt, heq⟩
        rw [heq]
        exact sub_le_sub_right ((hcond _ _ hrun).2 t hge hlt) _
    case complete =>
      intro start length hrun
      exact ⟨⟨start, listedDuration usage start length, usage.getD start 0 - maxUsageCap⟩,
        mem_generateRequests.mpr ⟨length, hrun, rfl, rfl⟩, rfl⟩

/-- A run of two slots at the end, the second higher: one slot and the excess of the first
are returned. -/
theorem last_run_cut : generateRequests (1 / 2) [3 / 5, 4 / 5] = [⟨0, 1, 1 / 10⟩] ∧
    ¬ ∀ maxUsageCap usage, Extracted maxUsageCap usage (generateRequests maxUsageCap usage) := by
  have hlist : generateRequests (1 / 2) [3 / 5, 4 / 5] = [⟨0, 1, 1 / 10⟩] := by decide +kernel
  refine ⟨hlist, ?_⟩
  intro hall
  have hruns := (hall (1 / 2) [3 / 5, 4 / 5]).runs ⟨0, 1, 1 / 10⟩
  rw [hlist] at hruns
  have hbehind := (hruns (List.mem_singleton.mpr rfl)).behind
  exact hbehind ⟨by decide, by decide +kernel⟩

end Memtrade.ClusterTrace
