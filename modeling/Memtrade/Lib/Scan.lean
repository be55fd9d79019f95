import Mathlib.Data.List.DropRight
import Mathlib.Order.Lattice

/-!
# Scans of sorted lists and monotone queues

On a sorted list a scan for a monotone test removes exactly what passes the test,
from the front and from the back. A monotone queue keeps, of all the points seen, those
that no later point is as good as; dropping lapsed points from the front and dominated
ones from the back keeps its front the best of the relevant points.
-/

namespace Memtrade

/-- Once the test fails it goes on failing, so the scan stops where the
elements that pass end. -/
theorem dropWhile_eq_filter {α : Type} {test : α → Bool} {l : List α}
    (h : l.Pairwise fun a b => test b = true → test a = true) :
    l.dropWhile test = l.filter fun x => !test x := by
  induction l with
  | nil => rfl
  | cons a l ih =>
      rw [List.pairwise_cons] at h
      rw [List.dropWhile_cons, List.filter_cons]
      cases ha : test a with
      | true => simpa using ih h.2
      | false =>
          have hall : ∀ x ∈ l, (!test x) = true := by
            intro x hx
            cases hxt : test x with
            | false => rfl
            | true =>
                have hcontra := h.1 x hx hxt
                rw [ha] at hcontra
                cases hcontra
          simp [List.filter_eq_self.mpr hall]

theorem rdropWhile_eq_filter {α : Type} {test : α → Bool} {l : List α}
    (h : l.Pairwise fun a b => test a = true → test b = true) :
    l.rdropWhile test = l.filter fun x => !test x := by
  rw [List.rdropWhile, dropWhile_eq_filter (List.pairwise_reverse.mpr h), List.filter_reverse,
    List.reverse_reverse]

/-! ## Monotone queues -/

section Queue

variable {α ι K : Type} [LinearOrder ι] [LinearOrder K]

/-- One more point: the lapsed ones leave at the front, the dominated ones at the back. -/
def slide (lapsed dominated : α → Bool) (q : List α) (x : α) : List α :=
  (q.dropWhile lapsed).rdropWhile dominated ++ [x]

/-- Times increase and keys decrease along the queue; it holds relevant points that have
been seen, and each of these has one in the queue that is no earlier and no worse. -/
structure Covers (time : α → ι) (key : α → K) (seen relevant : α → Prop) (q : List α) :
    Prop where
  times : q.Pairwise fun a b => time a < time b
  keys : q.Pairwise fun a b => key b < key a
  mem : ∀ y ∈ q, seen y ∧ relevant y
  covers : ∀ y, seen y → relevant y → ∃ z ∈ q, time y ≤ time z ∧ key y ≤ key z

variable {time : α → ι} {key : α → K} {seen relevant : α → Prop} {q : List α}

theorem covers_nil (time : α → ι) (key : α → K) {seen : α → Prop} (relevant : α → Prop)
    (h : ∀ y, ¬ seen y) : Covers time key seen relevant [] where
  times := List.Pairwise.nil
  keys := List.Pairwise.nil
  mem := fun _ hy => absurd hy List.not_mem_nil
  covers := fun y hy => absurd hy (h y)

theorem Covers.slide_eq (h : Covers time key seen relevant q) {lapsed dominated : α → Bool} {x : α}
    (hdom : ∀ y, dominated y = true ↔ key y ≤ key x)
    (hmono : ∀ y z, time y ≤ time z → lapsed z = true → lapsed y = true) :
    slide lapsed dominated q x =
      (q.filter fun y => !lapsed y).filter (fun y => !dominated y) ++ [x] := by
  have hfront : q.Pairwise fun a b => lapsed b = true → lapsed a = true := by
    apply h.times.imp
    intro a b hlt
    exact hmono a b hlt.le
  have hback : q.Pairwise fun a b => dominated a = true → dominated b = true := by
    apply h.keys.imp
    intro a b hlt hdoma
    exact (hdom b).mpr (le_trans hlt.le ((hdom a).mp hdoma))
  rw [slide, dropWhile_eq_filter hfront, rdropWhile_eq_filter (hback.filter _)]

/-- The point `x` is seen after all others, and what has not lapsed stays relevant. -/
theorem Covers.slide (h : Covers time key seen relevant q) {seen' relevant' : α → Prop}
    {lapsed dominated : α → Bool} {x : α}
    (hdom : ∀ y, dominated y = true ↔ key y ≤ key x)
    (hmono : ∀ y z, time y ≤ time z → lapsed z = true → lapsed y = true)
    (hlater : ∀ y, seen y → time y < time x)
    (hkeep : ∀ y, seen y → seen' y) (hx : seen' x)
    (hseen : ∀ y, seen' y → seen y ∨ (time y = time x ∧ key y = key x))
    (hold : ∀ y, seen y → (relevant' y ↔ lapsed y = false))
    (hshrink : ∀ y, seen y → lapsed y = false → relevant y) (hnew : relevant' x) :
    Covers time key seen' relevant' (slide lapsed dominated q x) := by
  rw [h.slide_eq hdom hmono]
  have hkept : ∀ y, y ∈ (q.filter fun y => !lapsed y).filter (fun y => !dominated y) ↔
      y ∈ q ∧ lapsed y = false ∧ ¬ key y ≤ key x := by
    intro y
    rw [← hdom y]
    simp [and_comm, and_assoc]
  have hlast : ∀ y ∈ (q.filter fun y => !lapsed y).filter (fun y => !dominated y),
      time y < time x ∧ key x < key y := by
    intro y hy
    have hy' := (hkept y).mp hy
    exact ⟨hlater y (h.mem y hy'.1).1, not_le.mp hy'.2.2⟩
  constructor
  · apply List.pairwise_append.mpr
    refine ⟨(h.times.filter _).filter _, List.pairwise_singleton _ _, ?_⟩
    intro y hy z hz
    rw [List.mem_singleton.mp hz]
    exact (hlast y hy).1
  · apply List.pairwise_append.mpr
    refine ⟨(h.keys.filter _).filter _, List.pairwise_singleton _ _, ?_⟩
    intro y hy z hz
    rw [List.mem_singleton.mp hz]
    exact (hlast y hy).2
  · intro y hy
    rcases List.mem_append.mp hy with hy | hy
    · have hy' := (hkept y).mp hy
      have hyseen := (h.mem y hy'.1).1
      exact ⟨hkeep y hyseen, (hold y hyseen).mpr hy'.2.1⟩
    · rw [List.mem_singleton.mp hy]
      exact ⟨hx, hnew⟩
  · intro y hy hrel
    rcases hseen y hy with hyseen | hyx
    · have hstays := (hold y hyseen).mp hrel
      obtain ⟨z, hz, htime, hkey⟩ := h.covers y hyseen (hshrink y hyseen hstays)
      have hzstays : lapsed z = false := by
        -- a lapsed `z` is no earlier than `y`, which has not lapsed
        cases hlz : lapsed z with
        | false => rfl
        | true =>
            rw [hmono y z htime hlz] at hstays
            cases hstays
      by_cases hzx : key z ≤ key x
      · refine ⟨x, List.mem_append_right _ (List.mem_singleton.mpr rfl), ?_, le_trans hkey hzx⟩
        exact (hlater y hyseen).le
      · exact ⟨z, List.mem_append_left _ ((hkept z).mpr ⟨hz, hzstays, hzx⟩), htime, hkey⟩
    · refine ⟨x, List.mem_append_right _ (List.mem_singleton.mpr rfl), ?_, ?_⟩
      · exact hyx.1.le
      · exact hyx.2.le

theorem Covers.front {x : α} {rest : List α} (h : Covers time key seen relevant (x :: rest))
    {y : α} (hy : seen y) (hrel : relevant y) : key y ≤ key x := by
  obtain ⟨z, hz, -, hkey⟩ := h.covers y hy hrel
  rcases List.mem_cons.mp hz with heq | hmem
  · rw [← heq]
    exact hkey
  · have hlt := (List.pairwise_cons.mp h.keys).1 z hmem
    exact le_trans hkey hlt.le

end Queue

end Memtrade
