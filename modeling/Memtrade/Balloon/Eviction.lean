import Mathlib.Order.Bounds.Basic
import Memtrade.Lib.System
import Memtrade.Server.Harvest

/-!
# The balloon

The main loop of `balloon.cpp`. Memory is taken and given back in nodes, like in
`harvest_decision` of the producer, but the shortage `diff` is computed once, in
front of the loop that gives nodes back: a loop that is entered gives back
everything. The loops of `producer-cli.c` and `producer.c` compute it anew in
every round and stop with the first node that is enough. Floating-point values
are exact rationals.
-/

namespace Memtrade

/-- `new` is what is left of `old` after the least number of nodes whose return
either restores the margin or reaches the floor. -/
def LeastGiveBack (threshold floor node est old new : Int) : Prop :=
  ∃ n : Nat, new = old - n * node ∧ (threshold ≤ est - new ∨ new ≤ floor) ∧
    ∀ m : Nat, m < n → est - (old - m * node) < threshold ∧ floor < old - m * node

/-- A loop that gives back a node as long as there is a shortage, computed anew in
every round, and something above the floor. -/
theorem leastGiveBack_of_loop {threshold floor node est : Int} (hnode : 0 < node) {f : Int → Int}
    (hf : ∀ h, f h = if 0 < threshold - (est - h) ∧ floor < h then f (h - node) else h)
    (old : Int) : LeastGiveBack threshold floor node est old (f old) := by
  generalize hfuel : (old - floor).toNat = fuel
  induction fuel using Nat.strong_induction_on generalizing old with
  | _ fuel ih =>
      rw [hf]
      by_cases hround : 0 < threshold - (est - old) ∧ floor < old
      · rw [if_pos hround]
        have hlt : (old - node - floor).toNat < fuel := by omega
        obtain ⟨n, hnew, hstop, hleast⟩ := ih _ hlt (old - node) rfl
        refine ⟨n + 1, ?_, hstop, ?_⟩
        · rw [hnew]
          push_cast
          ring
        · intro m hm
          cases m with
          | zero =>
              have hshort : est - old < threshold := by omega
              simpa using ⟨hshort, hround.2⟩
          | succ m =>
              have hprev := hleast m (by omega)
              have heq : old - ((m + 1 : Nat) : Int) * node = old - node - (m : Int) * node := by
                push_cast
                ring
              rw [heq]
              exact hprev
      · rw [if_neg hround]
        refine ⟨0, by simp, ?_, by simp⟩
        by_cases hshort : threshold ≤ est - old
        · exact .inl hshort
        · exact .inr (by omega)

namespace Balloon

/-! ## The main loop -/

def ewmaBeta : ℚ := 1 / 5

def allocThreshold : Int := 8 * 2 ^ 30

def evictThreshold : Int := 2 ^ 30

def nodeSize : Int := 64 * 2 ^ 20

/-- The global variables of the program. -/
structure State where
  totalMemory : Int
  estAvailableMemory : Int
  harvestedMemory : Int
deriving DecidableEq, Repr

/-- What the two statistics files hold when a round reads them. -/
structure Reading where
  cgroupRss : Int
  tswapMemorySize : Int
deriving DecidableEq, Repr

/-- The lines of the log, in megabytes. -/
inductive Event where
  /-- The text that `atomic_update_file` writes to the harvested size file. -/
  | wrote (text : CText.Text)
  | loggedEvict (available est allocated evicted : Int)
  | loggedAlloc (available est allocated : Int)
  | loggedSkip (available est allocated : Int)
deriving DecidableEq, Repr

def getAvailableMemory (s : State) (r : Reading) : Int :=
  s.totalMemory - r.cgroupRss - r.tswapMemorySize

def atomicUpdateEstAvailableMemory (s : State) (availableMemory : Int) : State × Int :=
  let est := trunc (ewmaBeta * availableMemory + (1 - ewmaBeta) * s.estAvailableMemory)
  ({ s with estAvailableMemory := est }, min est availableMemory)

def atomicUpdateFile (data : Int) : Event := .wrote (CText.decimal data ++ [' '])

/-- The loop that gives nodes back, with `diff` as it was in front of it, and the
number of nodes. -/
def evictLoop (diff harvestedMemory evictCount : Int) : Int × Int :=
  if 0 < diff ∧ 0 < harvestedMemory then
    evictLoop diff (harvestedMemory - nodeSize) (evictCount + 1)
  else (harvestedMemory, evictCount)
termination_by harvestedMemory.toNat
decreasing_by
  unfold nodeSize
  omega

/-- The evict branch: the new `g_harvested_memory` and `evict_count`. -/
def evict (curEstAvailableMemory harvestedMemory : Int) : Int × Int :=
  evictLoop (evictThreshold - (curEstAvailableMemory - harvestedMemory)) harvestedMemory 0

/-- A size in bytes that is printed in megabytes, `x >> 20`. -/
def megabytes (x : Int) : Int := x / 2 ^ 20

/-- The memory that the log calls allocated: whole nodes. -/
def allocated (harvestedMemory : Int) : Int :=
  megabytes (harvestedMemory.tdiv nodeSize * nodeSize)

/-- One round of the loop. -/
def round (s : State) (r : Reading) : State × List Event :=
  let availableMemory := getAvailableMemory s r
  let (s, cur) := atomicUpdateEstAvailableMemory s availableMemory
  if cur - s.harvestedMemory < evictThreshold then
    let (harvested, evictCount) := evict cur s.harvestedMemory
    ({ s with harvestedMemory := harvested },
      [atomicUpdateFile harvested,
        .loggedEvict (megabytes availableMemory) (megabytes cur) (allocated harvested)
          (megabytes (evictCount * nodeSize))])
  else if cur - s.harvestedMemory > allocThreshold then
    let harvested := s.harvestedMemory + nodeSize
    ({ s with harvestedMemory := harvested },
      [atomicUpdateFile harvested,
        .loggedAlloc (megabytes availableMemory) (megabytes cur) (allocated harvested)])
  else
    (s, [.loggedSkip (megabytes availableMemory) (megabytes cur) (allocated s.harvestedMemory)])

/-- The program, with a round for every pair of readings. -/
def system : System State Reading Event where
  init s := s.estAvailableMemory = 0 ∧ s.harvestedMemory = 0
  step s r := some (round s r)

/-! ## What the evict branch gives back -/

theorem evictLoop_fst {diff : Int} (hdiff : 0 < diff) (k : Nat) (evictCount : Int) :
    (evictLoop diff (k * nodeSize) evictCount).1 = 0 := by
  induction k generalizing evictCount with
  | zero =>
      rw [evictLoop]
      simp
  | succ k ih =>
      have hpos : 0 < ((k + 1 : Nat) : Int) * nodeSize := by
        unfold nodeSize
        omega
      have hprev : ((k + 1 : Nat) : Int) * nodeSize - nodeSize = (k : Int) * nodeSize := by
        push_cast
        ring
      rw [evictLoop, if_pos ⟨hdiff, hpos⟩, hprev]
      exact ih (evictCount + 1)

/-- The harvested memory is a number of whole nodes. -/
def WholeNodes (harvestedMemory : Int) : Prop := ∃ k : Nat, harvestedMemory = k * nodeSize

theorem evict_fst {est harvested : Int} (hwhole : WholeNodes harvested)
    (hshort : est - harvested < evictThreshold) : (evict est harvested).1 = 0 := by
  obtain ⟨k, hk⟩ := hwhole
  unfold evict
  rw [hk] at hshort ⊢
  apply evictLoop_fst
  omega

/-- `cur_est_available_memory` of a round. -/
def curEst (s : State) (r : Reading) : Int :=
  (atomicUpdateEstAvailableMemory s (getAvailableMemory s r)).2

theorem round_harvestedMemory (s : State) (r : Reading) :
    (round s r).1.harvestedMemory =
      if curEst s r - s.harvestedMemory < evictThreshold then
        (evict (curEst s r) s.harvestedMemory).1
      else if curEst s r - s.harvestedMemory > allocThreshold then s.harvestedMemory + nodeSize
      else s.harvestedMemory := by
  show (if curEst s r - s.harvestedMemory < evictThreshold then _
    else if curEst s r - s.harvestedMemory > allocThreshold then _
    else _ : State × List Event).1.harvestedMemory = _
  split_ifs
  · rfl
  · rfl
  · rfl

theorem round_wholeNodes {s : State} (r : Reading) (h : WholeNodes s.harvestedMemory) :
    WholeNodes (round s r).1.harvestedMemory := by
  rw [round_harvestedMemory]
  split
  · rename_i hshort
    rw [evict_fst h hshort]
    exact ⟨0, by simp⟩
  · split
    · obtain ⟨k, hk⟩ := h
      refine ⟨k + 1, ?_⟩
      rw [hk]
      push_cast
      ring
    · exact h

theorem reachable_wholeNodes {s : State} (h : system.Reachable s) :
    WholeNodes s.harvestedMemory := by
  apply h.invariant (I := fun s => WholeNodes s.harvestedMemory)
  · intro s hs
    exact ⟨0, by simp [hs.2]⟩
  · intro s r s' evs hi hstep
    simp only [system, Option.some.injEq] at hstep
    have hs' : s' = (round s r).1 := by rw [hstep]
    rw [hs']
    exact round_wholeNodes r hi

/-- What may be kept of the harvested memory: multiples of the node size that leave
the margin. -/
def Keepable (est old : Int) : Set Int :=
  {h | nodeSize ∣ h ∧ 0 ≤ h ∧ h ≤ old ∧ evictThreshold ≤ est - h}

/-- As much is kept as the margin allows, and nothing if it allows nothing. -/
def KeepsMost (est old new : Int) : Prop :=
  IsGreatest (Keepable est old) new ∨ (Keepable est old = ∅ ∧ new = 0)

theorem keepable_eq_empty {est old : Int} (h : est < evictThreshold) : Keepable est old = ∅ := by
  apply Set.eq_empty_of_forall_notMem
  intro x hx
  have hnonneg := hx.2.1
  have hmargin := hx.2.2.2
  omega

/-- Keeping nothing is right exactly when the margin has no room for a node. -/
theorem keepsMost_zero_iff {est old : Int} (hwhole : WholeNodes old)
    (hshort : est - old < evictThreshold) :
    KeepsMost est old 0 ↔ est < evictThreshold + nodeSize := by
  obtain ⟨k, hk⟩ := hwhole
  constructor
  · intro hkeeps
    by_contra hroom
    have hsize : nodeSize ≤ old := by
      unfold nodeSize evictThreshold at *
      omega
    have hnode : nodeSize ∈ Keepable est old := by
      refine ⟨dvd_refl _, by decide, hsize, by omega⟩
    cases hkeeps with
    | inl hgreatest =>
        have hle := hgreatest.2 hnode
        exact absurd hle (by decide)
    | inr hnone =>
        rw [hnone.1] at hnode
        exact hnode
  · intro hroom
    by_cases hmargin : evictThreshold ≤ est
    · left
      constructor
      · refine ⟨dvd_zero _, le_refl _, ?_, by omega⟩
        rw [hk]
        unfold nodeSize
        omega
      · intro x hx
        obtain ⟨c, hc⟩ := hx.1
        have hle := hx.2.2.2
        unfold nodeSize evictThreshold at *
        omega
    · right
      exact ⟨keepable_eq_empty (by omega), rfl⟩

end Balloon

/-! ## The loops that compute the shortage anew -/

namespace ProducerCli

def evictThreshold : Int := 2 ^ 30

def nodeSize : Int := 512 * 2 ^ 20

def minSpotSize : Int := 50 * 2 ^ 20

/-- The loop of the evict branch. -/
def evict (curEstAvailableMemory harvestedMemory : Int) : Int :=
  if 0 < evictThreshold - (curEstAvailableMemory - harvestedMemory) ∧
      minSpotSize < harvestedMemory then
    evict curEstAvailableMemory (harvestedMemory - nodeSize)
  else harvestedMemory
termination_by harvestedMemory.toNat
decreasing_by
  rename_i h
  have hpos : minSpotSize < harvestedMemory := h.2
  unfold minSpotSize at hpos
  unfold nodeSize
  omega

end ProducerCli

namespace Balloon

/-- The balloon keeps as much as it may exactly when the margin has no room for a
node; the other two programs always give back the least number of nodes. -/
theorem evict_keepsMost_iff {s : State} (hs : system.Reachable s) {est : Int}
    (hshort : est - s.harvestedMemory < evictThreshold) :
    (KeepsMost est s.harvestedMemory (evict est s.harvestedMemory).1 ↔
        est < evictThreshold + nodeSize) ∧
      (∀ est old, LeastGiveBack ProducerCli.evictThreshold ProducerCli.minSpotSize
        ProducerCli.nodeSize est old (ProducerCli.evict est old)) ∧
      ∀ est old, LeastGiveBack Server.evictThreshold Server.minSpotSize
        Server.nodeSize est old (Server.Producer.evict est old) := by
  have hwhole := reachable_wholeNodes hs
  refine ⟨?_, ?_, ?_⟩
  · rw [evict_fst hwhole hshort]
    exact keepsMost_zero_iff hwhole hshort
  · intro est old
    apply leastGiveBack_of_loop (by decide)
    intro h
    rw [ProducerCli.evict]
  · intro est old
    apply leastGiveBack_of_loop (by decide)
    intro h
    rw [Server.Producer.evict]

/-- A balloon on a machine with 64 GB. -/
def idleMachine : State := ⟨64 * 2 ^ 30, 0, 0⟩

/-- The balloon after two rounds with nothing else in memory. -/
def twoNodes : State := system.final idleMachine [⟨0, 0⟩, ⟨0, 0⟩]

theorem reachable_twoNodes : system.Reachable twoNodes :=
  System.reachable_final (M := system) ⟨rfl, rfl⟩ _

theorem twoNodes_harvestedMemory : twoNodes.harvestedMemory = 2 * nodeSize := by
  decide +kernel

/-- With the margin short by less than a node the balloon rightly keeps nothing. -/
theorem evict_keepsMost_twoNodes :
    system.Reachable twoNodes ∧
      (2 ^ 30 : Int) - twoNodes.harvestedMemory < evictThreshold ∧
      KeepsMost (2 ^ 30) twoNodes.harvestedMemory (evict (2 ^ 30) twoNodes.harvestedMemory).1 := by
  have hshort : (2 ^ 30 : Int) - twoNodes.harvestedMemory < evictThreshold := by
    rw [twoNodes_harvestedMemory]
    decide
  exact ⟨reachable_twoNodes, hshort,
    (evict_keepsMost_iff reachable_twoNodes hshort).1.mpr (by decide)⟩

/-- With two nodes harvested and one node too much the balloon gives back both. -/
theorem evict_gives_back_all :
    ¬ ∀ (s : State) (est : Int), system.Reachable s →
      est - s.harvestedMemory < evictThreshold →
      KeepsMost est s.harvestedMemory (evict est s.harvestedMemory).1 := by
  intro hall
  have hshort : evictThreshold + nodeSize - twoNodes.harvestedMemory < evictThreshold := by
    rw [twoNodes_harvestedMemory]
    decide
  have hkeeps := hall twoNodes (evictThreshold + nodeSize) reachable_twoNodes hshort
  have hwhole := reachable_wholeNodes reachable_twoNodes
  rw [evict_fst hwhole hshort, keepsMost_zero_iff hwhole hshort] at hkeeps
  exact lt_irrefl _ hkeeps

end Balloon

end Memtrade
