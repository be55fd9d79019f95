import Mathlib.Tactic.ByContra

/-!
# Maximal runs

The maximal runs of consecutive numbers with a property, as a scan from 0 upwards comes
past them: at a number `t` some runs have ended and one may be open.
-/

namespace Memtrade

variable {p : Nat → Prop} {i j t n m : Nat}

/-- The `length` numbers from `start` on have the property, and the numbers next to them on
both sides have not. -/
structure IsRun (p : Nat → Prop) (start length : Nat) : Prop where
  pos : 0 < length
  inside : ∀ j, start ≤ j → j < start + length → p j
  before : start = 0 ∨ ¬ p (start - 1)
  behind : ¬ p (start + length)

/-- A run that began at `start` has not ended before `t`. -/
structure OpenRun (p : Nat → Prop) (start t : Nat) : Prop where
  lt : start < t
  inside : ∀ j, start ≤ j → j < t → p j
  before : start = 0 ∨ ¬ p (start - 1)

theorem IsRun.first (h : IsRun p i n) : p i := by
  have hpos := h.pos
  exact h.inside i (Nat.le_refl i) (by omega)

theorem IsRun.last (h : IsRun p i n) : p (i + n - 1) := by
  have hpos := h.pos
  exact h.inside _ (by omega) (by omega)

theorem IsRun.length_unique (h : IsRun p i n) (h' : IsRun p i m) : n = m := by
  by_contra hne
  by_cases hlt : n < m
  · exact h.behind (h'.inside _ (by omega) (by omega))
  · exact h'.behind (h.inside _ (by omega) (by omega))

theorem openRun_succ (hp : p t) (hbefore : t = 0 ∨ ¬ p (t - 1)) : OpenRun p t (t + 1) where
  lt := Nat.lt_succ_self t
  inside j hge hlt := by
    have heq : j = t := by omega
    rw [heq]
    exact hp
  before := hbefore

theorem OpenRun.extend (h : OpenRun p i t) (hp : p t) : OpenRun p i (t + 1) where
  lt := Nat.lt_succ_of_lt h.lt
  inside j hge hlt := by
    by_cases heq : j = t
    · rw [heq]
      exact hp
    · exact h.inside j hge (by omega)
  before := h.before

theorem OpenRun.close (h : OpenRun p i t) (hp : ¬ p t) : IsRun p i (t - i) := by
  have hlt := h.lt
  have hend : i + (t - i) = t := by omega
  constructor
  · omega
  · rw [hend]
    exact h.inside
  · exact h.before
  · rw [hend]
    exact hp

theorem OpenRun.last (h : OpenRun p i t) : p (t - 1) := by
  have hlt := h.lt
  exact h.inside _ (by omega) (by omega)

theorem OpenRun.unique (h : OpenRun p i t) (h' : OpenRun p j t) : i = j := by
  have hi := h.lt
  have hj := h'.lt
  by_contra hne
  by_cases hlt : i < j
  · cases h'.before with
    | inl hzero => omega
    | inr hgap => exact hgap (h.inside _ (by omega) (by omega))
  · cases h.before with
    | inl hzero => omega
    | inr hgap => exact hgap (h'.inside _ (by omega) (by omega))

theorem IsRun.openRun (h : IsRun p i n) : OpenRun p i (i + n) where
  lt := by
    have hpos := h.pos
    omega
  inside := h.inside
  before := h.before

theorem OpenRun.start_gt (h : OpenRun p i t) (hrun : IsRun p j n) (hended : j + n < t) : j < i := by
  by_contra hge
  exact hrun.behind (h.inside _ (by omega) hended)

end Memtrade
