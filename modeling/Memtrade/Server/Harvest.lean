import Memtrade.Lib.Conversion
import Memtrade.Server.Producer

/-!
# Harvesting and reporting

`harvest_decision` of `producer.c`: memory is harvested and given back in whole
nodes, and every round of a registered producer ends with a report. A report is
made of `harvested_memory` alone; what the broker has assigned out of it is not
taken off. Floating-point values are exact rationals.
-/

namespace Memtrade.Server

open CText

def ewmaBeta : ℚ := 1 / 5

def allocThreshold : Int := 512 * 2 ^ 20

def evictThreshold : Int := 512 * 2 ^ 20

def minSpotSize : Int := 50 * 2 ^ 20

namespace Producer

def updateEstAvailableMemory (p : Producer) (availableMemory : Int) : Producer × Int :=
  let est := trunc (ewmaBeta * availableMemory + (1 - ewmaBeta) * p.estAvailableMemory)
  ({ p with estAvailableMemory := est }, min est availableMemory)

def sendProducerAvailabilityMsg (p : Producer) : ProducerEvent :=
  .sent (recordMsg .producerAvailability p.id (p.harvestedMemory.tdiv nodeSize)
    (p.totalMemory.tdiv nodeSize))

/-- The loop that gives nodes back; the shortage is computed anew in every round. -/
def evict (curEstAvailableMemory harvestedMemory : Int) : Int :=
  if 0 < evictThreshold - (curEstAvailableMemory - harvestedMemory) ∧
      minSpotSize < harvestedMemory then
    evict curEstAvailableMemory (harvestedMemory - nodeSize)
  else harvestedMemory
termination_by harvestedMemory.toNat
decreasing_by
  rename_i h
  have hpos : minSpotSize < harvestedMemory := h.2
  unfold minSpotSize at hpos
  unfold nodeSize
  omega

/-- A report, once the producer has an id at the broker. -/
def report (p : Producer) : List ProducerEvent :=
  if p.status = .registered then [p.sendProducerAvailabilityMsg] else []

/-- One round of the loop. -/
def harvestDecision (p : Producer) (availableMemory : Int) : Producer × List ProducerEvent :=
  let (p, curEstAvailableMemory) := p.updateEstAvailableMemory availableMemory
  if curEstAvailableMemory - p.harvestedMemory < evictThreshold then
    let p := { p with
      harvestedMemory := max (evict curEstAvailableMemory p.harvestedMemory) minSpotSize }
    (p, p.report)
  else if curEstAvailableMemory - p.harvestedMemory > allocThreshold then
    let p := { p with harvestedMemory := p.harvestedMemory + nodeSize }
    (p, p.report)
  else (p, p.report)

/-! ## Hysteresis -/

/-- The three cases of a round. -/
inductive Decision where
  | evict
  | alloc
  | skip
deriving DecidableEq, Repr

/-- `cur_est_available_memory` of a round. -/
def curEst (p : Producer) (availableMemory : Int) : Int :=
  (p.updateEstAvailableMemory availableMemory).2

/-- The case that a round takes. -/
def decision (p : Producer) (availableMemory : Int) : Decision :=
  if p.curEst availableMemory - p.harvestedMemory < evictThreshold then .evict
  else if p.curEst availableMemory - p.harvestedMemory > allocThreshold then .alloc
  else .skip

theorem harvestDecision_eq (p : Producer) (availableMemory : Int) :
    (p.harvestDecision availableMemory).1 =
      { p with
        estAvailableMemory := (p.updateEstAvailableMemory availableMemory).1.estAvailableMemory
        harvestedMemory :=
          match p.decision availableMemory with
          | .evict => max (evict (p.curEst availableMemory) p.harvestedMemory) minSpotSize
          | .alloc => p.harvestedMemory + nodeSize
          | .skip => p.harvestedMemory } := by
  unfold harvestDecision decision
  show (if p.curEst availableMemory - p.harvestedMemory < evictThreshold then _ else _ :
    Producer × List ProducerEvent).1 = _
  by_cases hevict : p.curEst availableMemory - p.harvestedMemory < evictThreshold
  · rw [if_pos hevict, if_pos hevict]
    rfl
  · rw [if_neg hevict, if_neg hevict]
    by_cases halloc : p.curEst availableMemory - p.harvestedMemory > allocThreshold
    · simp only [if_pos halloc]
      show (if p.curEst availableMemory - p.harvestedMemory > allocThreshold then _ else _ :
        Producer × List ProducerEvent).1 = _
      rw [if_pos halloc]
      rfl
    · simp only [if_neg halloc]
      show (if p.curEst availableMemory - p.harvestedMemory > allocThreshold then _ else _ :
        Producer × List ProducerEvent).1 = _
      rw [if_neg halloc]
      rfl

theorem decision_eq_alloc {p : Producer} {availableMemory : Int} :
    p.decision availableMemory = .alloc ↔
      allocThreshold < p.curEst availableMemory - p.harvestedMemory := by
  unfold decision allocThreshold evictThreshold
  split
  · constructor
    · intro h
      cases h
    · intro h
      omega
  · split
    · constructor
      · intro _
        omega
      · intro _
        rfl
    · constructor
      · intro h
        cases h
      · intro h
        omega

theorem decision_eq_evict {p : Producer} {availableMemory : Int} :
    p.decision availableMemory = .evict ↔
      p.curEst availableMemory - p.harvestedMemory < evictThreshold := by
  unfold decision
  split
  · rename_i h
    exact ⟨fun _ => h, fun _ => rfl⟩
  · rename_i h
    constructor
    · intro heq
      split at heq <;> cases heq
    · intro hlt
      exact absurd hlt h

/-- The estimate can stay as it is: the average moves from the last estimate towards
the reading, and that is not below the reading. -/
theorem exists_curEst_eq (p : Producer) (availableMemory : Int) :
    (p.harvestDecision availableMemory).1.curEst (p.curEst availableMemory) =
      p.curEst availableMemory := by
  rw [harvestDecision_eq]
  have hest : p.curEst availableMemory ≤
      (p.updateEstAvailableMemory availableMemory).1.estAvailableMemory := min_le_left _ _
  generalize p.curEst availableMemory = cur at *
  generalize (p.updateEstAvailableMemory availableMemory).1.estAvailableMemory = est at *
  have hcast : (cur : ℚ) ≤ est := by exact_mod_cast hest
  show min (trunc (ewmaBeta * cur + (1 - ewmaBeta) * est)) cur = cur
  apply min_eq_right
  apply le_trunc
  unfold ewmaBeta
  linarith

/-- Taking a node is followed by giving one back, for some next estimate that is no
lower, exactly when the margin is less than a node above the threshold. -/
theorem noFlap_iff (p : Producer) (availableMemory : Int) :
    (∀ next, p.curEst availableMemory ≤ (p.harvestDecision availableMemory).1.curEst next →
        p.decision availableMemory = .alloc →
        (p.harvestDecision availableMemory).1.decision next ≠ .evict) ↔
      ¬ (allocThreshold < p.curEst availableMemory - p.harvestedMemory ∧
        p.curEst availableMemory - p.harvestedMemory < evictThreshold + nodeSize) := by
  have hharvested : p.decision availableMemory = .alloc →
      (p.harvestDecision availableMemory).1.harvestedMemory = p.harvestedMemory + nodeSize := by
    intro halloc
    rw [harvestDecision_eq, halloc]
  constructor
  · intro hall hmargin
    have halloc := decision_eq_alloc.mpr hmargin.1
    have hsame := exists_curEst_eq p availableMemory
    apply hall (p.curEst availableMemory) hsame.ge halloc
    rw [decision_eq_evict, hsame, hharvested halloc]
    omega
  · intro hmargin next hle halloc hevict
    apply hmargin
    have hgt := decision_eq_alloc.mp halloc
    rw [decision_eq_evict, hharvested halloc] at hevict
    exact ⟨hgt, by omega⟩

/-- With 544 MB available and nothing harvested the producer takes a node and gives it
back at once. -/
theorem flaps_at_equal_thresholds :
    ¬ ∀ (p : Producer) (availableMemory next : Int),
      p.curEst availableMemory ≤ (p.harvestDecision availableMemory).1.curEst next →
      p.decision availableMemory = .alloc →
      (p.harvestDecision availableMemory).1.decision next ≠ .evict := by
  intro hall
  have h := hall { Producer.start "10.0.0.3".toList 9702 (2 ^ 34) (fun _ => ⟨[], 0, 0, 0, 0, .stop⟩)
    with estAvailableMemory := 544 * 2 ^ 20 } (544 * 2 ^ 20) (544 * 2 ^ 20)
  exact h (by decide +kernel) (by decide +kernel) (by decide +kernel)

end Producer

end Memtrade.Server
