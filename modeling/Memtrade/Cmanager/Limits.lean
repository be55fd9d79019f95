import Memtrade.Cmanager.Loops
import Mathlib.Algebra.BigOperators.Group.List.Basic

/-!
# The range of the cgroup limit

Two invariants of the limit, one from above and one from below. The decrease loop
asks for a bottom line just below the resident size and does not compare it with the
physical memory, as the warrior thread does; `get_cgroup_rss` counts mapped files
twice, so that a reading may exceed the memory. And a decrease may end at 0, which no
multiplicative increase leaves again. Both hold whatever the floating-point format is.
-/

namespace Memtrade.Cmanager

variable {F : FloatFormat} {s s' : LimitState} {tr evs : List LimitEvent}

/-- A physical address has 52 bits. -/
def maxPhysicalMemory : Nat := 2 ^ 52

variable (F) in
/-- The programs started with an initial size in MB that satisfies `P`, which is a `long`. -/
def cmanagerFrom (P : Nat → Int → Prop) : System LimitState LimitAction LimitEvent where
  init s := ∃ physicalMemorySize initialSize now, physicalMemorySize ≤ maxPhysicalMemory ∧
    -2 ^ 63 ≤ initialSize ∧ initialSize < 2 ^ 63 ∧ P physicalMemorySize initialSize ∧
      s = initLimit physicalMemorySize initialSize now
  step := limitStep F

/-! ## Readings of the resident size -/

/-- The lines of `memory.stat`. -/
abbrev MemoryStat := List (String × Nat)

def rssKeys : List String := ["total_rss", "total_mapped_file", "total_cache"]

def getCgroupRss (stat : MemoryStat) : Nat :=
  stat.foldl (fun rss line => if line.1 ∈ rssKeys then rss + line.2 else rss) 0

/-- Each field occurs once, mapped files are part of the cache, and what is resident
is in memory. -/
def MemoryStat.Consistent (physicalMemorySize : Nat) (stat : MemoryStat) : Prop :=
  ∃ totalRss totalMappedFile totalCache,
    (stat.filter fun line => line.1 ∈ rssKeys).Perm
      [("total_rss", totalRss), ("total_mapped_file", totalMappedFile),
        ("total_cache", totalCache)] ∧
    totalMappedFile ≤ totalCache ∧ totalRss + totalCache ≤ physicalMemorySize

/-- The loops read the resident size off a consistent file. -/
def consistentReading (s : LimitState) : LimitAction → Prop
  | .decGet rss _ | .warriorGet rss _ =>
      ∃ stat : MemoryStat, stat.Consistent s.physicalMemorySize ∧ rss = getCgroupRss stat
  | _ => True

theorem getCgroupRss_eq (stat : MemoryStat) :
    getCgroupRss stat = ((stat.filter fun line => line.1 ∈ rssKeys).map Prod.snd).sum := by
  suffices h : ∀ n, stat.foldl (fun rss line => if line.1 ∈ rssKeys then rss + line.2 else rss) n =
      n + ((stat.filter fun line => line.1 ∈ rssKeys).map Prod.snd).sum by
    rw [getCgroupRss, h, Nat.zero_add]
  induction stat with
  | nil => simp
  | cons line stat ih =>
      intro n
      rw [List.foldl_cons, ih]
      by_cases hkey : line.1 ∈ rssKeys
      · rw [if_pos hkey, List.filter_cons_of_pos (by simpa using hkey), List.map_cons,
          List.sum_cons, Nat.add_assoc]
      · rw [if_neg hkey, List.filter_cons_of_neg (by simpa using hkey)]

/-- Mapped files count twice, so the readings go up to twice the memory. -/
theorem exists_consistent_iff {physicalMemorySize rss : Nat} :
    (∃ stat : MemoryStat, stat.Consistent physicalMemorySize ∧ rss = getCgroupRss stat) ↔
      rss ≤ 2 * physicalMemorySize := by
  constructor
  · rintro ⟨stat, ⟨totalRss, totalMappedFile, totalCache, hperm, hmapped, htotal⟩, rfl⟩
    rw [getCgroupRss_eq, (hperm.map Prod.snd).sum_eq]
    simp only [List.map_cons, List.map_nil, List.sum_cons, List.sum_nil]
    omega
  · intro hle
    refine ⟨[("total_rss", rss % 2), ("total_mapped_file", rss / 2), ("total_cache", rss / 2)],
      ⟨rss % 2, rss / 2, rss / 2, ?_, le_rfl, by omega⟩, ?_⟩
    · simp [rssKeys]
    · rw [getCgroupRss_eq]
      simp [rssKeys]
      omega

/-! ## Proposals -/

theorem proposedLimit_le {cgroupLimit : Int} (h : 0 ≤ cgroupLimit) (rss : Nat) :
    proposedLimit F cgroupLimit rss ≤ cgroupLimit := by
  unfold proposedLimit minCgroupLimit
  split
  · rename_i hmd
    have htwice : trunc (F.times rss mdThreshold) ≤ cgroupLimit :=
      trunc_le (FloatFormat.le_of_times_lt_round (Int.natCast_nonneg rss) mdThreshold_nonneg h hmd)
    have hshare : trunc (F.times cgroupLimit md) ≤ cgroupLimit := trunc_le (times_md_le h)
    omega
  · unfold ad unitSize
    omega

theorem proposedLimit_pos {cgroupLimit : Int} {rss : Nat}
    (h : ad < cgroupLimit ∨ (1 < cgroupLimit ∧ performsMd F cgroupLimit rss)) :
    0 < proposedLimit F cgroupLimit rss := by
  unfold proposedLimit
  split
  · have htwo : 2 ≤ cgroupLimit := by
      unfold ad unitSize at h
      omega
    have hshare : 1 ≤ trunc (F.times cgroupLimit md) := le_trunc (by simpa using one_le_times_md htwo)
    omega
  · rename_i hmd
    have had : ad < cgroupLimit := h.resolve_right fun h => hmd h.2
    omega

theorem applyBottomLine_eq {proposed line : Int} (h : 0 ≤ proposed) :
    applyBottomLine proposed line = max proposed line := by
  unfold applyBottomLine
  split <;> omega

/-! ## What a step does to the limit and the lines -/

/-- What both invariants speak of. -/
structure Levels where
  physicalMemorySize : Nat
  cgroupLimit : Int
  bottomLine : Int
  dec : DecPc

def LimitState.levels (s : LimitState) : Levels :=
  ⟨s.physicalMemorySize, s.cgroupLimit, s.bottomLine, s.dec⟩

variable (F) in
/-- `increasedLimit` without the rest of the state. -/
def Levels.increased (l : Levels) (limit : Int) : Int :=
  min l.physicalMemorySize (trunc (F.times limit mi))

inductive LevelStep (F : FloatFormat) (l : Levels) : LimitAction → Levels → Prop where
  | decGet {rss : Nat} {now line : Int} : line = -1 ∨ line = l.bottomLine →
      LevelStep F l (.decGet rss now) { l with bottomLine := line, dec := .read rss line }
  | skip {rss : Nat} {line : Int} : l.dec = .read rss line →
      LevelStep F l (.decPropose true) { l with dec := .idle }
  | propose {rss : Nat} {line : Int} : l.dec = .read rss line →
      LevelStep F l (.decPropose false)
        { l with dec := .locked rss (applyBottomLine (proposedLimit F l.cgroupLimit rss) line) line }
  | touch {rss : Nat} {proposed line now : Int} : l.dec = .locked rss proposed line →
      LevelStep F l (.decUpdate now)
        { l with
          bottomLine := max (touchLine rss) l.bottomLine
          dec := .ready (max proposed (max (touchLine rss) l.bottomLine))
            (max (touchLine rss) l.bottomLine) }
  | far {rss : Nat} {proposed line now : Int} : l.dec = .locked rss proposed line →
      rss + touchRssBottomLineThreshold ≤ proposed →
      LevelStep F l (.decUpdate now) { l with dec := .ready proposed line }
  | apply {proposed line now : Int} {setOk : Bool} : l.dec = .ready proposed line →
      LevelStep F l (.decApply setOk now)
        { l with cgroupLimit := if setOk then proposed else l.increased F proposed, dec := .idle }
  | line {a : LimitAction} {line : Int} : line = -1 ∨ line = l.bottomLine ∨
      (∃ rss : Nat, line = max (min (l.physicalMemorySize : Int) (trunc (F.times rss mi))) l.bottomLine) →
      LevelStep F l a { l with bottomLine := line }
  | increase {a : LimitAction} : l.dec.holdsLimitLock = false →
      LevelStep F l a { l with cgroupLimit := l.increased F l.cgroupLimit }

theorem levels_get (s : LimitState) (now : Int) :
    ∃ line, (line = -1 ∨ line = s.bottomLine) ∧
      (atomicGetBottomLine now s).1.levels = { s.levels with bottomLine := line } := by
  refine ⟨_, get_bottomLine s now, ?_⟩
  simp [LimitState.levels]

theorem limitStep_levels {a : LimitAction} (hs : limitStep F s a = some (s', evs)) :
    LevelStep F s.levels a s'.levels := by
  cases limitStep_taken hs with
  | @decGet rss now hdec hnow =>
      have hline := get_bottomLine { s with now := now } now
      have hlevels : LevelStep F s.levels (.decGet rss now) _ := .decGet hline
      simp only [LimitState.levels, get_physicalMemorySize, get_cgroupLimit]
      exact hlevels
  | decSkip hdec => exact .skip hdec
  | decPropose hdec => exact .propose hdec
  | @decUpdate rss proposed line now hdec hnow =>
      unfold decUpdate
      split
      · have htouch : LevelStep F s.levels (.decUpdate now) _ := .touch hdec
        simpa [LimitState.levels] using htouch
      · rename_i hfar
        exact .far hdec (not_lt.mp hfar)
  | decApply hdec hnow => exact .apply hdec
  | @warriorGet rss now hwarrior hnow =>
      obtain ⟨line, hline, hlevels⟩ := levels_get { s with now := now } now
      have hstep := LevelStep.line (F := F) (l := s.levels) (a := .warriorGet rss now)
        (hline.imp_right Or.inl)
      exact hlevels ▸ hstep
  | @warriorLine rss low now hwarrior hnow =>
      unfold warriorLine
      split
      · have hstep := LevelStep.line (F := F) (l := s.levels) (a := .warriorLine low now)
          (Or.inr (Or.inr ⟨rss, rfl⟩))
        simpa [LimitState.levels] using hstep
      · exact .line (Or.inr (Or.inl rfl))
  | @warriorLimit rss drop hwarrior hfree =>
      unfold warriorLimit
      split
      · rename_i hdrop
        exact .increase (Bool.eq_false_iff.mpr fun h => hfree ⟨hdrop.1, h⟩)
      · exact .line (Or.inr (Or.inl rfl))
  | @logGet now hnow =>
      obtain ⟨line, hline, hlevels⟩ := levels_get { s with now := now } now
      rw [hlevels]
      exact .line (hline.imp_right Or.inl)

variable {l l' : Levels}

/-! ## From above -/

/-- A decrease round that is not skipped has read at most `g_ad` more than the
physical memory. -/
def touchWithin (s : LimitState) : LimitAction → Bool
  | .decPropose false =>
      match s.dec with
      | .read rss _ => decide ((rss : Int) ≤ s.physicalMemorySize + ad)
      | _ => true
  | _ => true

/-- The locals of the decrease loop. -/
def RoundWithin (physicalMemorySize : Int) : DecPc → Prop
  | .idle => True
  | .read _ line => line ≤ physicalMemorySize
  | .locked rss proposed _ =>
      rss ≤ physicalMemorySize + ad ∧ 0 ≤ proposed ∧ proposed ≤ physicalMemorySize
  | .ready proposed _ => 0 ≤ proposed ∧ proposed ≤ physicalMemorySize

structure Within (l : Levels) : Prop where
  nonneg : 0 ≤ l.cgroupLimit
  le_physical : l.cgroupLimit ≤ l.physicalMemorySize
  line : l.bottomLine ≤ l.physicalMemorySize
  round : RoundWithin l.physicalMemorySize l.dec

theorem increased_within {limit : Int} (h : 0 ≤ limit) :
    0 ≤ l.increased F limit ∧ l.increased F limit ≤ l.physicalMemorySize := by
  have hpos : 0 ≤ trunc (F.times limit mi) := trunc_times_nonneg h mi_nonneg
  unfold Levels.increased
  omega

theorem Within.step (h : Within l) {a : LimitAction}
    (hok : ∀ rss line, l.dec = .read rss line → a = .decPropose false →
      (rss : Int) ≤ l.physicalMemorySize + ad)
    (hs : LevelStep F l a l') : Within l' := by
  have hround := h.round
  have hphys := h.le_physical
  have hbelow := h.line
  cases hs with
  | @decGet rss now line hline =>
      have hle : line ≤ l.physicalMemorySize := by omega
      exact ⟨h.nonneg, hphys, hle, hle⟩
  | skip hdec => exact ⟨h.nonneg, hphys, hbelow, trivial⟩
  | @propose rss line hdec =>
      rw [hdec] at hround
      have hrss := hok rss line hdec rfl
      have hle := proposedLimit_le (F := F) h.nonneg rss
      have hpos := proposedLimit_nonneg (F := F) l.cgroupLimit rss
      refine ⟨h.nonneg, hphys, hbelow, hrss, ?_⟩
      rw [applyBottomLine_eq hpos]
      exact ⟨le_trans hpos (le_max_left _ _), max_le (le_trans hle hphys) hround⟩
  | @touch rss proposed line now hdec =>
      rw [hdec] at hround
      obtain ⟨hrss, hpos, hle⟩ := hround
      have htouch : touchLine rss ≤ l.physicalMemorySize := by
        unfold touchLine minCgroupLimit
        omega
      have hline := max_le htouch hbelow
      exact ⟨h.nonneg, hphys, hline, le_trans hpos (le_max_left _ _), max_le hle hline⟩
  | @far rss proposed line now hdec hfar =>
      rw [hdec] at hround
      exact ⟨h.nonneg, hphys, hbelow, hround.2⟩
  | @apply proposed line now setOk hdec =>
      rw [hdec] at hround
      cases setOk with
      | true => exact ⟨hround.1, hround.2, hbelow, trivial⟩
      | false =>
          have hincreased := increased_within (F := F) (l := l) hround.1
          exact ⟨hincreased.1, hincreased.2, hbelow, trivial⟩
  | @line _ line hline =>
      have hle : line ≤ l.physicalMemorySize := by
        rcases hline with rfl | rfl | ⟨rss, rfl⟩
        · omega
        · exact hbelow
        · exact max_le (min_le_left _ _) hbelow
      exact ⟨h.nonneg, hphys, hle, hround⟩
  | increase hfree =>
      have hincreased := increased_within (F := F) (l := l) h.nonneg
      exact ⟨hincreased.1, hincreased.2, hbelow, hround⟩

theorem wrapLong_shift_nonneg {size : Int} :
    0 ≤ wrapLong (size * 2 ^ 20) ↔ size % 2 ^ 44 < 2 ^ 43 := by
  unfold wrapLong
  rw [Int.bmod_def]
  split <;> omega

example : (initLimit (2 ^ 30) (2 ^ 43) 0).cgroupLimit = -2 ^ 63 := by decide +kernel

/-- In every run from a non-negative size that the shift does not make negative, in which no
decrease round reads more than `g_ad` above the memory, the limit, and what a round is about
to set it to, are within the memory. -/
theorem limit_within_memory
    (hrun : (cmanagerFrom F fun _ size => 0 ≤ size ∧ size % 2 ^ 44 < 2 ^ 43).Exec
      (fun s a => touchWithin s a = true) s tr) :
    (0 ≤ s.cgroupLimit ∧ s.cgroupLimit ≤ s.physicalMemorySize) ∧
      ∀ proposed line, s.dec = .ready proposed line →
        0 ≤ proposed ∧ proposed ≤ s.physicalMemorySize := by
  have hinv : Within s.levels := by
    apply hrun.invariant (I := fun s _ => Within s.levels)
    · rintro s ⟨physicalMemorySize, size, now, -, -, -, ⟨-, hsize⟩, rfl⟩
      have hshift := wrapLong_shift_nonneg.mpr hsize
      refine ⟨?_, min_le_left _ _, ?_, trivial⟩
      · exact le_min (Int.natCast_nonneg physicalMemorySize) hshift
      · show (-1 : Int) ≤ physicalMemorySize
        omega
    · intro s tr a s' evs h hok hs
      apply h.step _ (limitStep_levels hs)
      rintro rss line hdec rfl
      have hread : s.dec = .read rss line := hdec
      simp only [touchWithin, hread] at hok
      exact of_decide_eq_true hok
  refine ⟨⟨hinv.nonneg, hinv.le_physical⟩, fun proposed line hdec => ?_⟩
  have hround := hinv.round
  rw [show s.levels.dec = .ready proposed line from hdec] at hround
  exact hround

/-- A machine with 1 GB of memory, all of it in the limit. -/
def smallMachine : LimitState := initLimit (2 ^ 30) (2 ^ 10) 0

/-- A decrease round with a resident size of `rss`. -/
def decreaseRound (rss : Nat) : List LimitAction :=
  [.decGet rss 1, .decPropose false, .decUpdate 2, .decApply true 3]

theorem limit_within_sample :
    ((cmanagerFrom .exact fun _ size => 0 ≤ size ∧ size % 2 ^ 44 < 2 ^ 43).final smallMachine
        (decreaseRound (2 ^ 30))).cgroupLimit = 2 ^ 30 - 2 ^ 26 ∧
      0 ≤ ((cmanagerFrom .exact fun _ size => 0 ≤ size ∧ size % 2 ^ 44 < 2 ^ 43).final smallMachine
        (decreaseRound (2 ^ 30))).cgroupLimit := by
  have hmeets : (cmanagerFrom .exact fun _ size => 0 ≤ size ∧ size % 2 ^ 44 < 2 ^ 43).Meets
      (fun s a => touchWithin s a = true) smallMachine (decreaseRound (2 ^ 30)) :=
    System.meets_of_check (fun _ _ h => h) (by decide +kernel)
  have hinit : (cmanagerFrom .exact fun _ size => 0 ≤ size ∧ size % 2 ^ 44 < 2 ^ 43).init
      smallMachine :=
    ⟨2 ^ 30, 2 ^ 10, 0, by decide, by decide, by decide, by decide, rfl⟩
  exact ⟨by decide +kernel, (limit_within_memory (System.exec_final hinit hmeets)).1.1⟩

/-- A gigabyte of mapped files counts as two, and the round sets the limit just below
that. -/
theorem limit_beyond_memory :
    ¬ ∀ s tr, (cmanagerFrom .exact fun _ size => 0 ≤ size).Exec consistentReading s tr →
      0 ≤ s.cgroupLimit ∧ s.cgroupLimit ≤ s.physicalMemorySize := by
  intro hall
  have hmeets : (cmanagerFrom .exact fun _ size => 0 ≤ size).Meets consistentReading
      smallMachine (decreaseRound (2 ^ 31)) := by
    refine ⟨exists_consistent_iff.mpr (by decide), ?_⟩
    intro s₁ _ _
    refine ⟨trivial, ?_⟩
    intro s₂ _ _
    refine ⟨trivial, ?_⟩
    intro s₃ _ _
    exact ⟨trivial, fun _ _ _ => trivial⟩
  have hinit : (cmanagerFrom .exact fun _ size => 0 ≤ size).init smallMachine :=
    ⟨2 ^ 30, 2 ^ 10, 0, by decide, by decide, by decide, by decide, rfl⟩
  have hle := (hall _ _ (System.exec_final hinit hmeets)).2
  exact absurd hle (by decide +kernel)

/-! ## From below -/

/-- The limit before an increase, if the step performs one. -/
def increasedFrom (s : LimitState) : LimitAction → Option Int
  | .warriorLimit true =>
      match s.warrior with
      | .lined rss =>
          if (rss : Int) < s.cgroupLimit - miRssThreshold then none else some s.cgroupLimit
      | _ => none
  | .decApply false _ =>
      match s.dec with
      | .ready proposed _ => some proposed
      | _ => none
  | _ => none

/-- Twice the reading is a `long`. -/
def maxReading : Nat := 2 ^ 61

variable (F) in
/-- A decrease round finds a limit that the decrease leaves positive, or a positive
line to stop at: the one it has read, the present one, or the one it asks for. -/
def leavesLimit (s : LimitState) : LimitAction → Bool
  | .decGet rss _ | .warriorGet rss _ => decide (rss ≤ maxReading)
  | .decUpdate _ =>
      match s.dec with
      | .locked rss _ line =>
          decide (ad < s.cgroupLimit ∨ (1 < s.cgroupLimit ∧ performsMd F s.cgroupLimit rss) ∨
            0 < line ∨ ad < rss ∨ 0 < s.bottomLine)
      | _ => true
  | _ => true

def RoundPositive (F : FloatFormat) (cgroupLimit : Int) : DecPc → Prop
  | .idle | .read _ _ => True
  | .locked rss proposed line =>
      proposed = applyBottomLine (proposedLimit F cgroupLimit rss) line
  | .ready proposed _ => 0 < proposed

structure PositiveLimit (F : FloatFormat) (l : Levels) : Prop where
  memory : 0 < (l.physicalMemorySize : Int)
  limit : 0 < l.cgroupLimit
  round : RoundPositive F l.cgroupLimit l.dec

theorem increased_pos {limit : Int} (hmem : 0 < (l.physicalMemorySize : Int)) (h : 0 < limit) :
    0 < l.increased F limit := by
  have hlt := lt_trunc_times (F := F) h
  unfold Levels.increased
  omega

theorem PositiveLimit.step (h : PositiveLimit F l) {a : LimitAction}
    (hok : ∀ rss proposed line now, l.dec = .locked rss proposed line → a = .decUpdate now →
      ad < l.cgroupLimit ∨ (1 < l.cgroupLimit ∧ performsMd F l.cgroupLimit rss) ∨
        0 < line ∨ ad < rss ∨ 0 < l.bottomLine)
    (hs : LevelStep F l a l') : PositiveLimit F l' := by
  have hround := h.round
  cases hs with
  | decGet hline => exact ⟨h.memory, h.limit, trivial⟩
  | skip hdec => exact ⟨h.memory, h.limit, trivial⟩
  | propose hdec => exact ⟨h.memory, h.limit, rfl⟩
  | @touch rss proposed line now hdec =>
      rw [hdec] at hround
      have hprop : proposed = applyBottomLine (proposedLimit F l.cgroupLimit rss) line := hround
      have hnonneg := proposedLimit_nonneg (F := F) l.cgroupLimit rss
      rw [applyBottomLine_eq hnonneg] at hprop
      refine ⟨h.memory, h.limit, ?_⟩
      show 0 < max proposed (max (touchLine rss) l.bottomLine)
      unfold touchLine minCgroupLimit
      rcases hok rss proposed line now hdec rfl with had | hmd | hline | htouch
      · have hpos : 0 < proposedLimit F _ rss := proposedLimit_pos (Or.inl had)
        omega
      · have hpos : 0 < proposedLimit F _ rss := proposedLimit_pos (Or.inr hmd)
        omega
      · omega
      · omega
  | @far rss proposed line now hdec hfar =>
      refine ⟨h.memory, h.limit, ?_⟩
      show 0 < proposed
      unfold touchRssBottomLineThreshold ad unitSize at hfar
      omega
  | @apply proposed line now setOk hdec =>
      rw [hdec] at hround
      cases setOk with
      | true => exact ⟨h.memory, hround, trivial⟩
      | false => exact ⟨h.memory, increased_pos h.memory hround, trivial⟩
  | line hline => exact ⟨h.memory, h.limit, hround⟩
  | increase hfree =>
      refine ⟨h.memory, increased_pos h.memory h.limit, ?_⟩
      -- no round holds the lock, so none has looked at the limit
      cases hdec : l.dec with
      | idle => trivial
      | read rss line => trivial
      | locked rss proposed line => simp [hdec, DecPc.holdsLimitLock] at hfree
      | ready proposed line => simp [hdec, DecPc.holdsLimitLock] at hfree

theorem lt_increasedLimit {limit : Int} (h : 0 < limit) (hlt : limit < s.physicalMemorySize) :
    limit < increasedLimit F s limit := by
  have hdouble := lt_trunc_times (F := F) h
  unfold increasedLimit
  omega

theorem PositiveLimit.increase (h : PositiveLimit F s.levels) {a : LimitAction} {before : Int}
    (hs : limitStep F s a = some (s', evs)) (hinc : increasedFrom s a = some before)
    (hlt : before < s.physicalMemorySize) : before < s'.cgroupLimit := by
  cases limitStep_taken hs with
  | decGet hdec hnow => cases hinc
  | decSkip hdec => cases hinc
  | decPropose hdec => cases hinc
  | decUpdate hdec hnow => cases hinc
  | @decApply proposed line now setOk hdec hnow =>
      cases setOk with
      | true => cases hinc
      | false =>
          simp only [increasedFrom, hdec, Option.some.injEq] at hinc
          subst hinc
          have hround := h.round
          rw [show s.levels.dec = .ready proposed line from hdec] at hround
          exact lt_increasedLimit (s := { s with now := now }) hround hlt
  | warriorGet hwarrior hnow => cases hinc
  | warriorLine hwarrior hnow => cases hinc
  | @warriorLimit rss drop hwarrior hfree =>
      cases drop with
      | false => cases hinc
      | true =>
          simp only [increasedFrom, hwarrior] at hinc
          split at hinc
          · cases hinc
          · rename_i hnear
            cases hinc
            unfold Cmanager.warriorLimit
            rw [if_pos ⟨rfl, hnear⟩]
            exact lt_increasedLimit h.limit hlt
  | logGet hnow => cases hinc

/-- In every run from a positive limit whose decrease rounds leave the limit positive,
an increase below the physical memory raises the limit. -/
theorem increase_progresses
    (hrun : (cmanagerFrom F fun physicalMemorySize size =>
        0 < min (physicalMemorySize : Int) (wrapLong (size * 2 ^ 20))).Exec
      (fun s a => leavesLimit F s a = true) s tr)
    {a : LimitAction} {before : Int} (hs : limitStep F s a = some (s', evs))
    (hinc : increasedFrom s a = some before) (hlt : before < s.physicalMemorySize) :
    before < s'.cgroupLimit := by
  have hinv : PositiveLimit F s.levels := by
    apply hrun.invariant (I := fun s _ => PositiveLimit F s.levels)
    · rintro s ⟨physicalMemorySize, initialSize, now, -, -, -, hpos, rfl⟩
      exact ⟨lt_of_lt_of_le hpos (min_le_left _ _), hpos, trivial⟩
    · intro s tr a s' evs h hok hs
      apply h.step _ (limitStep_levels hs)
      rintro rss proposed line now hdec rfl
      have hlocked : s.dec = .locked rss proposed line := hdec
      simp only [leavesLimit, hlocked] at hok
      exact of_decide_eq_true hok
  exact hinv.increase hs hinc hlt

/-- The warrior thread up to its increase, with a resident size of `rss`. -/
def warriorRound (rss : Nat) (now : Int) : List LimitAction :=
  [.warriorGet rss now, .warriorLine false now]

/-- A machine with 1 GB of memory and a limit of 64 MB. -/
def tightMachine : LimitState := initLimit (2 ^ 30) (2 ^ 6) 0

/-- The programs, started with a positive limit. -/
abbrev startedPositive : System LimitState LimitAction LimitEvent :=
  cmanagerFrom .single fun physicalMemorySize size =>
    0 < min (physicalMemorySize : Int) (wrapLong (size * 2 ^ 20))

theorem tightMachine_init : startedPositive.init tightMachine :=
  ⟨2 ^ 30, 2 ^ 6, 0, by decide, by decide, by decide, by decide +kernel, rfl⟩

theorem increase_progresses_sample :
    increasedFrom (startedPositive.final tightMachine (warriorRound (2 ^ 26) 1)) (.warriorLimit true) =
        some (2 ^ 26) ∧
      (2 ^ 26 : Int) < 2 ^ 27 := by
  have hmeets : startedPositive.Meets (fun s a => leavesLimit .single s a = true)
      tightMachine (warriorRound (2 ^ 26) 1) :=
    System.meets_of_check (fun _ _ h => h) (by decide +kernel)
  have hrun := System.exec_final tightMachine_init hmeets
  have hinc : increasedFrom (startedPositive.final tightMachine (warriorRound (2 ^ 26) 1))
      (.warriorLimit true) = some (2 ^ 26) := by decide +kernel
  have hstep : limitStep .single (startedPositive.final tightMachine (warriorRound (2 ^ 26) 1))
      (.warriorLimit true) = some ({ initLimit (2 ^ 30) (2 ^ 7) 0 with now := 1 }, []) := by
    decide +kernel
  exact ⟨hinc, increase_progresses hrun hstep hinc (by decide +kernel)⟩

/-- A decrease takes the limit from 64 MB to 0, and the warrior thread doubles that. -/
theorem increase_stuck_at_zero :
    ¬ ∀ s tr a s' evs before, startedPositive.Exec (fun _ _ => True) s tr →
      limitStep .single s a = some (s', evs) → increasedFrom s a = some before →
      before < s.physicalMemorySize → before < s'.cgroupLimit := by
  intro hall
  have hmeets : startedPositive.Meets (fun _ _ => True)
      tightMachine (decreaseRound (2 ^ 26) ++ warriorRound (2 ^ 26) 4) :=
    System.meets_of_forall (fun _ _ _ => trivial) _
  have hlt := hall _ _ (.warriorLimit true)
    { initLimit (2 ^ 30) 0 0 with bottomLine := 0, bottomLineExpireTime := 2 + seconds 900, now := 4 }
    [] 0 (System.exec_final tightMachine_init hmeets) (by decide +kernel) (by decide +kernel)
    (by decide +kernel)
  exact absurd hlt (by decide)

end Memtrade.Cmanager
