import Memtrade.Cmanager.Loops

/-!
# How long a bottom line is in force

A line asked for at time `t` with a time to live `ttl` should keep the decrease
loop above it until `t + ttl`. There are two ways in which it does not. A request
below the present line is dropped, and the present line may expire first. And a
round of the decrease loop works with the line it has read before it took the
lock of the limit, which may have been raised since. On runs without the two the
promise is kept.
-/

namespace Memtrade.Cmanager

variable {F : FloatFormat} {s s' : LimitState} {tr evs : List LimitEvent}

/-- No round of the decrease loop leaves the limit below a line in force. -/
def LineKept (tr : List LimitEvent) : Prop :=
  ∀ before after limit now, tr = before ++ .applied limit now :: after →
    ∀ line ttl t, .updated line ttl t ∈ before → now ≤ t + seconds ttl → line ≤ limit

/-- The present line outlives every request that is dropped in its favour. A round
that sets the limit while there is a line works with a line that is no lower; and
when the kernel refuses that limit, the line is within the physical memory. -/
def lineRespected (s : LimitState) : LimitAction → Prop
  | .decUpdate now =>
      match s.dec with
      | .locked rss proposed _ =>
          proposed < rss + touchRssBottomLineThreshold → touchLine rss < s.bottomLine →
            now + seconds touchRssBottomLineTtl ≤ s.bottomLineExpireTime
      | _ => True
  | .decApply setOk now =>
      match s.dec with
      | .ready _ line =>
          now ≤ s.bottomLineExpireTime → s.bottomLine ≤ line ∧
            (setOk = false → s.bottomLine ≤ s.physicalMemorySize)
      | _ => True
  | _ => True

/-! ## Lines and their expiry -/

/-- Every line in force is at most the present one and expires no later. -/
structure LineInv (s : LimitState) (tr : List LimitEvent) : Prop where
  present : -1 ≤ s.bottomLine
  past : ∀ line ttl t, .updated line ttl t ∈ tr → ttl = dropBottomLineTtl ∧ t ≤ s.now
  inForce : ∀ line ttl t, .updated line ttl t ∈ tr → s.now ≤ t + seconds ttl →
    line ≤ s.bottomLine ∧ t + seconds ttl ≤ s.bottomLineExpireTime

theorem LineInv.congr (h : LineInv s tr) (hline : s'.bottomLine = s.bottomLine)
    (hexp : s'.bottomLineExpireTime = s.bottomLineExpireTime) (hnow : s'.now = s.now) :
    LineInv s' tr := by
  constructor
  · rw [hline]
    exact h.present
  · intro line ttl t hev
    rw [hnow]
    exact h.past line ttl t hev
  · intro line ttl t hev
    rw [hnow, hline, hexp]
    exact h.inForce line ttl t hev

theorem LineInv.tick (h : LineInv s tr) {now : Int} (hnow : s.now ≤ now) :
    LineInv { s with now := now } tr := by
  refine ⟨h.present, ?_, ?_⟩
  · intro line ttl t hev
    have hpast := h.past line ttl t hev
    exact ⟨hpast.1, le_trans hpast.2 hnow⟩
  · intro line ttl t hev hle
    exact h.inForce line ttl t hev (le_trans hnow hle)

/-- The line is dropped only after everything in force has expired. -/
theorem LineInv.get (h : LineInv s tr) : LineInv (atomicGetBottomLine s.now s).1 tr := by
  unfold atomicGetBottomLine
  simp only
  split
  · rename_i hexp
    refine ⟨le_rfl, h.past, ?_⟩
    intro line ttl t hev hle
    have hle : s.now ≤ t + seconds ttl := hle
    have hforce := (h.inForce line ttl t hev hle).2
    have hnow := hexp.2
    omega
  · exact h

theorem LineInv.update (h : LineInv s tr) {line : Int} {extend : Bool} (hpos : 0 ≤ line)
    (hdrop : extend = false → line < s.bottomLine →
      s.now + seconds dropBottomLineTtl ≤ s.bottomLineExpireTime) :
    LineInv (atomicUpdateBottomLine line dropBottomLineTtl extend s.now s).1
      (tr ++ [LimitEvent.updated line dropBottomLineTtl s.now]) := by
  have hmem : ∀ line' ttl t,
      LimitEvent.updated line' ttl t ∈ tr ++ [LimitEvent.updated line dropBottomLineTtl s.now] →
        LimitEvent.updated line' ttl t ∈ tr ∨ (line' = line ∧ ttl = dropBottomLineTtl ∧ t = s.now) := by
    intro line' ttl t hev
    simpa using hev
  -- whatever is in force was asked for earlier, so its time is up earlier
  have hearlier : ∀ line' ttl t, LimitEvent.updated line' ttl t ∈ tr →
      t + seconds ttl ≤ s.now + seconds dropBottomLineTtl := by
    intro line' ttl t hev
    obtain ⟨rfl, hle⟩ := h.past line' ttl t hev
    omega
  have hpast : ∀ line' ttl t,
      LimitEvent.updated line' ttl t ∈ tr ++ [LimitEvent.updated line dropBottomLineTtl s.now] →
        ttl = dropBottomLineTtl ∧ t ≤ s.now := by
    intro line' ttl t hev
    rcases hmem line' ttl t hev with hev | ⟨-, rfl, rfl⟩
    · exact h.past line' ttl t hev
    · exact ⟨rfl, le_rfl⟩
  have hpresent := h.present
  unfold atomicUpdateBottomLine
  simp only
  split
  · rename_i hraise
    refine ⟨le_trans hpresent hraise, hpast, ?_⟩
    intro line' ttl t hev hle
    rcases hmem line' ttl t hev with hev | ⟨rfl, rfl, rfl⟩
    · exact ⟨le_trans (h.inForce line' ttl t hev hle).1 hraise, hearlier line' ttl t hev⟩
    · exact ⟨le_rfl, le_rfl⟩
  · rename_i hlow
    split
    · refine ⟨hpresent, hpast, ?_⟩
      intro line' ttl t hev hle
      rcases hmem line' ttl t hev with hev | ⟨rfl, rfl, rfl⟩
      · exact ⟨(h.inForce line' ttl t hev hle).1, hearlier line' ttl t hev⟩
      · exact ⟨le_of_lt (not_le.mp hlow), le_rfl⟩
    · rename_i hkeep
      have hlow : line < s.bottomLine := not_le.mp hlow
      have hextend : extend = false := by
        cases extend with
        | false => rfl
        | true => exact absurd ⟨rfl, le_of_lt (lt_of_le_of_lt hpos hlow)⟩ hkeep
      refine ⟨hpresent, hpast, ?_⟩
      intro line' ttl t hev hle
      rcases hmem line' ttl t hev with hev | ⟨rfl, rfl, rfl⟩
      · exact h.inForce line' ttl t hev hle
      · exact ⟨le_of_lt hlow, hdrop hextend hlow⟩

/-! ## The rounds of the decrease loop -/

/-- A limit that is refused is not lowered, as far as there is memory. -/
theorem le_increasedLimit {line limit : Int} (hpos : 0 ≤ limit) (hle : line ≤ limit)
    (hphys : line ≤ s.physicalMemorySize) : line ≤ increasedLimit F s limit :=
  le_min hphys (le_trans hle (le_trunc_times hpos))

/-- The local variables of a round that holds the lock of the limit. -/
def RoundOk : DecPc → Prop
  | .idle | .read _ _ => True
  | .locked _ proposed line | .ready proposed line => 0 ≤ proposed ∧ line ≤ proposed

theorem roundOk_locked (cgroupLimit : Int) (rss : Nat) (line : Int) :
    RoundOk (.locked rss (applyBottomLine (proposedLimit F cgroupLimit rss) line) line) := by
  have hpos := proposedLimit_nonneg (F := F) cgroupLimit rss
  show 0 ≤ applyBottomLine (proposedLimit F cgroupLimit rss) line ∧
    line ≤ applyBottomLine (proposedLimit F cgroupLimit rss) line
  unfold applyBottomLine
  split <;> omega

theorem lineKept_append {ev : LimitEvent} (h : LineKept tr)
    (hev : ∀ limit now, ev = .applied limit now → ∀ line ttl t, .updated line ttl t ∈ tr →
      now ≤ t + seconds ttl → line ≤ limit) : LineKept (tr ++ [ev]) := by
  intro before after limit now heq
  cases split_concat heq with
  | inl hnew =>
      rw [← hnew.1]
      exact hev limit now hnew.2
  | inr hold =>
      obtain ⟨rest, hrest⟩ := hold
      exact h before rest limit now hrest

/-- The invariant of the runs on which the two conditions are met. -/
structure Kept (s : LimitState) (tr : List LimitEvent) : Prop where
  lines : LineInv s tr
  round : RoundOk s.dec
  kept : LineKept tr

theorem Kept.silent (h : Kept s tr) (hlines : LineInv s' tr) (hround : RoundOk s'.dec) :
    Kept s' (tr ++ []) := by
  rw [List.append_nil]
  exact ⟨hlines, hround, h.kept⟩

theorem Kept.decUpdate (h : Kept s tr) {rss : Nat} {proposed line : Int}
    (hdec : s.dec = .locked rss proposed line)
    (hok : lineRespected s (.decUpdate s.now))
    (hs : decUpdate s rss proposed line s.now = (s', evs)) : Kept s' (tr ++ evs) := by
  have hround := h.round
  rw [hdec] at hround
  unfold Cmanager.decUpdate at hs
  split at hs
  · rename_i htouch
    obtain ⟨rfl, rfl⟩ := Prod.mk.inj hs
    simp only [lineRespected, hdec] at hok
    have hpos : 0 ≤ touchLine rss := le_max_left _ _
    refine ⟨?_, ?_, ?_⟩
    · exact (h.lines.update hpos fun _ => hok htouch).congr rfl rfl rfl
    · refine ⟨le_trans hround.1 (le_max_left _ _), le_max_right _ _⟩
    · exact lineKept_append h.kept (by simp)
  · obtain ⟨rfl, rfl⟩ := Prod.mk.inj hs
    exact h.silent (h.lines.congr rfl rfl rfl) hround

theorem Kept.decApply (h : Kept s tr) {proposed line : Int} {setOk : Bool}
    (hdec : s.dec = .ready proposed line) (hok : lineRespected s (.decApply setOk s.now))
    (hs : decApply F s proposed setOk s.now = (s', evs)) : Kept s' (tr ++ evs) := by
  have hround := h.round
  rw [hdec] at hround
  obtain ⟨rfl, rfl⟩ := Prod.mk.inj hs
  simp only [lineRespected, hdec] at hok
  refine ⟨?_, trivial, ?_⟩
  · refine LineInv.congr (s := s) ⟨h.lines.present, ?_, ?_⟩ rfl rfl rfl
    · intro line' ttl t hev
      exact h.lines.past line' ttl t (by simpa using hev)
    · intro line' ttl t hev
      exact h.lines.inForce line' ttl t (by simpa using hev)
  · apply lineKept_append h.kept
    intro limit now hev line' ttl t hmem hle
    obtain ⟨rfl, rfl⟩ := LimitEvent.applied.inj hev
    obtain ⟨hforce, hexp⟩ := h.lines.inForce line' ttl t hmem hle
    obtain ⟨hnot, hphys⟩ := hok (le_trans hle hexp)
    have hbelow : line' ≤ proposed := le_trans (le_trans hforce hnot) hround.2
    cases setOk with
    | true => exact hbelow
    | false => exact le_increasedLimit hround.1 hbelow (le_trans hforce (hphys rfl))

theorem Kept.warriorLine (h : Kept s tr) {rss : Nat} {low : Bool}
    (hs : warriorLine F s rss low s.now = (s', evs)) : Kept s' (tr ++ evs) := by
  unfold Cmanager.warriorLine at hs
  split at hs
  · obtain ⟨rfl, rfl⟩ := Prod.mk.inj hs
    have hpos : 0 ≤ min (s.physicalMemorySize : Int) (trunc (F.times rss mi)) :=
      le_min (Int.natCast_nonneg _) (trunc_times_nonneg (Int.natCast_nonneg rss) mi_nonneg)
    refine ⟨?_, ?_, lineKept_append h.kept (by simp)⟩
    · exact (h.lines.update hpos (by simp)).congr rfl rfl rfl
    · show RoundOk (atomicUpdateBottomLine _ _ _ _ s).1.dec
      rw [update_dec]
      exact h.round
  · obtain ⟨rfl, rfl⟩ := Prod.mk.inj hs
    exact h.silent (h.lines.congr rfl rfl rfl) h.round

theorem Kept.step (h : Kept s tr) {a : LimitAction} (hok : lineRespected s a)
    (hs : limitStep F s a = some (s', evs)) : Kept s' (tr ++ evs) := by
  have htick : ∀ {now : Int}, s.now ≤ now → Kept { s with now := now } tr := by
    intro now hnow
    exact ⟨h.lines.tick hnow, h.round, h.kept⟩
  cases limitStep_taken hs with
  | decGet hdec hnow =>
      exact h.silent ((h.lines.tick hnow).get.congr rfl rfl rfl) trivial
  | decSkip hdec => exact h.silent (h.lines.congr rfl rfl rfl) trivial
  | decPropose hdec => exact h.silent (h.lines.congr rfl rfl rfl) (roundOk_locked _ _ _)
  | decUpdate hdec hnow => exact (htick hnow).decUpdate hdec hok rfl
  | decApply hdec hnow => exact (htick hnow).decApply hdec hok rfl
  | warriorGet hwarrior hnow =>
      refine h.silent ((h.lines.tick hnow).get.congr rfl rfl rfl) ?_
      rw [get_dec]
      exact h.round
  | warriorLine hwarrior hnow => exact (htick hnow).warriorLine rfl
  | warriorLimit hwarrior hfree =>
      unfold warriorLimit
      split
      · exact h.silent (h.lines.congr rfl rfl rfl) h.round
      · exact h.silent (h.lines.congr rfl rfl rfl) h.round
  | logGet hnow =>
      apply h.silent (h.lines.tick hnow).get
      rw [get_dec]
      exact h.round

/-- In every run that meets the two conditions, no round of the decrease loop
leaves the limit below a line that is still in force. -/
theorem lineKept_of_respected (hrun : (cmanager F).Exec lineRespected s tr) : LineKept tr := by
  suffices h : Kept s tr from h.kept
  refine hrun.invariant ?_ ?_
  · rintro s ⟨physicalMemorySize, initialSize, now, rfl⟩
    refine ⟨⟨le_rfl, ?_, ?_⟩, trivial, ?_⟩
    · simp
    · simp
    · intro before after limit now heq
      simp at heq
  · intro s tr a s' evs h hok hs
    exact h.step hok hs

/-! ## Concrete runs -/

instance (s : LimitState) (a : LimitAction) : Decidable (lineRespected s a) :=
  match a with
  | .decUpdate now =>
      show Decidable (match s.dec with
        | .locked rss proposed _ =>
            proposed < rss + touchRssBottomLineThreshold → touchLine rss < s.bottomLine →
              now + seconds touchRssBottomLineTtl ≤ s.bottomLineExpireTime
        | _ => True) from
      match s.dec with
      | .locked _ _ _ => inferInstanceAs (Decidable (_ → _ → _ ≤ _))
      | .idle | .read _ _ | .ready _ _ => isTrue trivial
  | .decApply setOk now =>
      show Decidable (match s.dec with
        | .ready _ line =>
            now ≤ s.bottomLineExpireTime → s.bottomLine ≤ line ∧
              (setOk = false → s.bottomLine ≤ s.physicalMemorySize)
        | _ => True) from
      match s.dec with
      | .ready _ _ => inferInstanceAs (Decidable (_ → _ ≤ _ ∧ (_ → _ ≤ _)))
      | .idle | .read _ _ | .locked _ _ _ => isTrue trivial
  | .decGet _ _ | .decPropose _ | .warriorGet _ _ | .warriorLine _ _ | .warriorLimit _ | .logGet _ =>
      isTrue trivial

/-- 64 GB of memory, a limit of 16 GB. -/
def sampleMachine : LimitState := initLimit (2 ^ 36) (2 ^ 14) 0

/-- A round of the decrease loop that finds a line of the warrior thread. -/
def sampleRounds : List LimitAction :=
  [.warriorGet (2 ^ 33) 1, .warriorLine true 2, .decGet (2 ^ 30) 3, .decPropose false,
    .decUpdate 4, .decApply true 5]

theorem lineKept_sample : LineKept ((cmanager .single).trace sampleMachine sampleRounds) := by
  have hmeets : (cmanager .single).Meets lineRespected sampleMachine sampleRounds :=
    System.meets_of_check (fun _ _ h => of_decide_eq_true h) (by decide +kernel)
  exact lineKept_of_respected (System.exec_final ⟨2 ^ 36, 2 ^ 14, 0, rfl⟩ hmeets)

/-- The warrior thread sets a line of 32 GB while a round of the decrease loop
stands between its read of the line and the lock. -/
def sampleStale : List LimitAction :=
  [.warriorGet (2 ^ 34) 1, .decGet (2 ^ 30) 2, .warriorLine true 3, .decPropose false,
    .decUpdate 4, .decApply true 5]

/-- A round asks for a line just below 2 GB, one second before a line of 2 GB
expires; the next round finds no line. -/
def sampleDropped : List LimitAction :=
  [.warriorGet (2 ^ 30) 1, .warriorLine true 2,
    .decGet (2 ^ 31) (seconds 899), .decPropose false, .decUpdate (seconds 899),
    .decApply true (seconds 899),
    .decGet (2 ^ 20) (seconds 901), .decPropose false, .decUpdate (seconds 901),
    .decApply true (seconds 901)]

/-- A round that has read no line sets the limit below the line set meanwhile;
and a line whose request was dropped is not kept. -/
theorem line_not_kept :
    ¬ LineKept ((cmanager .single).trace sampleMachine sampleStale) ∧
      ¬ LineKept ((cmanager .single).trace (initLimit (2 ^ 36) (2 ^ 11) 0) sampleDropped) := by
  constructor
  · intro h
    have htrace : (cmanager .single).trace sampleMachine sampleStale =
        [LimitEvent.updated (2 ^ 35) 900 3] ++ [LimitEvent.applied 16320875520 5] := by decide +kernel
    have hle := h _ _ _ _ htrace (2 ^ 35) 900 3 (by simp) (by decide)
    omega
  · intro h
    have htrace : (cmanager .single).trace (initLimit (2 ^ 36) (2 ^ 11) 0) sampleDropped =
        [LimitEvent.updated (2 ^ 31) 900 2, .updated (2 ^ 31 - 2 ^ 26) 900 (seconds 899),
          .applied (2 ^ 31) (seconds 899)] ++ [LimitEvent.applied 2040109440 (seconds 901)] := by
      decide +kernel
    have hle := h _ _ _ _ htrace (2 ^ 31 - 2 ^ 26) 900 (seconds 899) (by simp) (by decide)
    omega

end Memtrade.Cmanager
