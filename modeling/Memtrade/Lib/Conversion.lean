import Mathlib.Data.Rat.Floor

/-!
# Conversions between number formats

A conversion of a floating-point value to an integer type drops the fractional
part, that is, it rounds towards zero. Arithmetic on a `long` keeps the low 64 bits and
on an `int` the low 32. Durations are counted in nanoseconds.
-/

namespace Memtrade

/-- `(long) q`. -/
def trunc (q : ℚ) : Int := if 0 ≤ q then ⌊q⌋ else ⌈q⌉

theorem le_trunc {n : Int} {q : ℚ} (h : (n : ℚ) ≤ q) : n ≤ trunc q := by
  unfold trunc
  split
  · exact Int.le_floor.mpr h
  · have hceil : (n : ℚ) ≤ ((⌈q⌉ : Int) : ℚ) := le_trans h (Int.le_ceil q)
    exact_mod_cast hceil

theorem trunc_le {n : Int} {q : ℚ} (h : q ≤ (n : ℚ)) : trunc q ≤ n := by
  unfold trunc
  split
  · have hfloor : ((⌊q⌋ : Int) : ℚ) ≤ n := le_trans (Int.floor_le q) h
    exact_mod_cast hfloor
  · exact Int.ceil_le.mpr h

theorem trunc_nonneg {q : ℚ} (h : 0 ≤ q) : 0 ≤ trunc q := le_trunc (by simpa using h)

/-- The value of a `long` after signed 64-bit arithmetic. -/
def wrapLong (n : Int) : Int := n.bmod (2 ^ 64)

/-- The value of an `int` after signed 32-bit arithmetic. -/
def wrapInt (n : Int) : Int := n.bmod (2 ^ 32)

def InInt (n : Int) : Prop := -2 ^ 31 ≤ n ∧ n < 2 ^ 31

instance (n : Int) : Decidable (InInt n) := inferInstanceAs (Decidable (_ ∧ _))

theorem wrapInt_of_inInt {n : Int} (h : InInt n) : wrapInt n = n := by
  unfold wrapInt
  apply Int.bmod_eq_of_le
  · exact h.1
  · exact h.2

/-- `chrono::seconds`. -/
def seconds (n : Int) : Int := n * 1000000000

end Memtrade
