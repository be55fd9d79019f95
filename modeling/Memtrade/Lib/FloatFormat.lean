import Mathlib.Algebra.Order.Floor.Ring
import Mathlib.Data.Int.Log
import Mathlib.Data.Rat.Floor
import Mathlib.Tactic.Linarith
import Mathlib.Tactic.Positivity
import Mathlib.Tactic.Ring
import Mathlib.Tactic.FieldSimp

/-!
# Floating-point formats

A format is the function that rounds a rational to a value of the format. What programs that
compute with a `float` and convert the result to an integer depend on is that this function is
monotone, that it keeps small integers, and that its relative error is at most `2 ^ -24`.
-/

namespace Memtrade

structure FloatFormat where
  round : ℚ → ℚ
  mono : ∀ {p q : ℚ}, 0 ≤ p → p ≤ q → round p ≤ round q
  round_round : ∀ {q : ℚ}, 0 ≤ q → round (round q) = round q
  round_natCast : ∀ n : ℕ, n ≤ 2 ^ 24 → round n = n
  error : ∀ q, |round q - q| ≤ |q| / 2 ^ 24

/-! ## Rounding to nearest -/

/-- The nearest integer; the even one of two that are equally near. -/
def roundEven (r : ℚ) : Int :=
  if Int.fract r < 1 / 2 ∨ (Int.fract r = 1 / 2 ∧ ⌊r⌋ % 2 = 0) then ⌊r⌋ else ⌊r⌋ + 1

theorem floor_le_roundEven (r : ℚ) : ⌊r⌋ ≤ roundEven r := by
  unfold roundEven
  split <;> omega

theorem roundEven_le_floor (r : ℚ) : roundEven r ≤ ⌊r⌋ + 1 := by
  unfold roundEven
  split <;> omega

theorem roundEven_intCast (n : Int) : roundEven n = n := by
  unfold roundEven
  rw [Int.fract_intCast, Int.floor_intCast, if_pos (Or.inl (by norm_num))]

theorem roundEven_mono {p q : ℚ} (h : p ≤ q) : roundEven p ≤ roundEven q := by
  rcases (Int.floor_le_floor h).lt_or_eq with hlt | heq
  · have hp := roundEven_le_floor p
    have hq := floor_le_roundEven q
    omega
  · have hfract : Int.fract p ≤ Int.fract q := by
      unfold Int.fract
      rw [heq]
      linarith
    unfold roundEven
    rw [heq]
    split
    · split <;> omega
    · rename_i hup
      rw [if_neg]
      intro hdown
      apply hup
      rcases hdown with hlow | ⟨hhalf, heven⟩
      · exact Or.inl (lt_of_le_of_lt hfract hlow)
      · rcases hfract.lt_or_eq with hlow | hsame
        · exact Or.inl (hhalf ▸ hlow)
        · exact Or.inr ⟨hsame.trans hhalf, heven⟩

theorem abs_roundEven_sub_le (r : ℚ) : |(roundEven r : ℚ) - r| ≤ 1 / 2 := by
  have hsplit := Int.floor_add_fract r
  have hnonneg := Int.fract_nonneg r
  unfold roundEven
  split
  · rename_i hdown
    have hhalf : Int.fract r ≤ 1 / 2 := hdown.elim le_of_lt fun h => h.1.le
    rw [abs_le]
    constructor <;> linarith
  · rename_i hup
    have hhalf : 1 / 2 ≤ Int.fract r := le_of_not_gt fun h => hup (Or.inl h)
    have hone := Int.fract_lt_one r
    push_cast
    rw [abs_le]
    constructor <;> linarith

/-! ## IEEE single precision -/

/-- The distance of the values with 24 significant bits around `q`. -/
def ulp (q : ℚ) : ℚ := 2 ^ (Int.log 2 |q| - 23)

/-- Rounding to 24 significant bits. The range of the exponent does not matter for 64-bit
integers and their products. -/
def roundSingle (q : ℚ) : ℚ := roundEven (q / ulp q) * ulp q

theorem ulp_pos (q : ℚ) : 0 < ulp q := zpow_pos (by norm_num) _

theorem ulp_eq {q : ℚ} {e : Int} (h : Int.log 2 |q| = e) : 2 ^ e = 2 ^ 23 * ulp q := by
  unfold ulp
  rw [h, zpow_sub₀ (by norm_num)]
  norm_num
  ring

theorem ulp_le {q : ℚ} (hq : q ≠ 0) : 2 ^ 23 * ulp q ≤ |q| := by
  have hle := Int.zpow_log_le_self (b := 2) (by norm_num) (abs_pos.mpr hq)
  rw [← ulp_eq rfl]
  exact_mod_cast hle

theorem lt_ulp (q : ℚ) : |q| < 2 ^ 24 * ulp q := by
  have hlt := Int.lt_zpow_succ_log_self (b := 2) (by norm_num) |q|
  have hulp := ulp_eq (q := q) rfl
  rw [zpow_add_one₀ (by norm_num)] at hlt
  push_cast at hlt
  rw [hulp] at hlt
  linarith

theorem roundSingle_of_int {q : ℚ} {n : Int} (h : q = n * ulp q) : roundSingle q = q := by
  have hdiv : q / ulp q = n := by
    rw [div_eq_iff (ulp_pos q).ne']
    exact h
  unfold roundSingle
  rw [hdiv, roundEven_intCast]
  exact h.symm

theorem roundSingle_error (q : ℚ) : |roundSingle q - q| ≤ |q| / 2 ^ 24 := by
  by_cases hq : q = 0
  · subst hq
    simp [roundSingle, roundEven]
  · have hpos := ulp_pos q
    have hsplit : roundSingle q - q = (roundEven (q / ulp q) - q / ulp q) * ulp q := by
      unfold roundSingle
      field_simp
    have hle := ulp_le hq
    have hhalf := abs_roundEven_sub_le (q / ulp q)
    rw [hsplit, abs_mul, abs_of_pos hpos]
    have hmul := mul_le_mul_of_nonneg_right hhalf hpos.le
    linarith

theorem roundSingle_nonneg {q : ℚ} (hq : 0 ≤ q) : 0 ≤ roundSingle q := by
  have hdiv : 0 ≤ q / ulp q := div_nonneg hq (ulp_pos q).le
  have hround : 0 ≤ roundEven (q / ulp q) := (Int.floor_nonneg.mpr hdiv).trans (floor_le_roundEven _)
  exact mul_nonneg (by exact_mod_cast hround) (ulp_pos q).le

theorem roundSingle_bounds {q : ℚ} (hq : 0 < q) :
    2 ^ 23 * ulp q ≤ roundSingle q ∧ roundSingle q ≤ 2 ^ 24 * ulp q := by
  have hpos := ulp_pos q
  have hle := ulp_le hq.ne'
  have hlt := lt_ulp q
  rw [abs_of_pos hq] at hle hlt
  have hlow : (2 ^ 23 : Int) ≤ roundEven (q / ulp q) := by
    rw [← roundEven_intCast (2 ^ 23)]
    apply roundEven_mono
    rw [le_div_iff₀ hpos]
    push_cast
    exact hle
  have hhigh : roundEven (q / ulp q) ≤ 2 ^ 24 := by
    rw [← roundEven_intCast (2 ^ 24)]
    apply roundEven_mono
    rw [div_le_iff₀ hpos]
    push_cast
    exact hlt.le
  unfold roundSingle
  constructor
  · exact mul_le_mul_of_nonneg_right (by exact_mod_cast hlow) hpos.le
  · exact mul_le_mul_of_nonneg_right (by exact_mod_cast hhigh) hpos.le

theorem roundSingle_mono {p q : ℚ} (hp : 0 ≤ p) (h : p ≤ q) : roundSingle p ≤ roundSingle q := by
  rcases hp.lt_or_eq with hpos | rfl
  · have hqpos := hpos.trans_le h
    have hlog := Int.log_mono_right (b := 2) hpos h
    rcases hlog.lt_or_eq with hlt | heq
    · -- another binade: a power of two lies between the two values
      have hpow : (2 : ℚ) ^ (Int.log 2 p + 1) ≤ 2 ^ Int.log 2 q :=
        zpow_le_zpow_right₀ (by norm_num) (by omega)
      have hulp := ulp_eq (q := p) (e := Int.log 2 p) (by rw [abs_of_pos hpos])
      have hulq := ulp_eq (q := q) (e := Int.log 2 q) (by rw [abs_of_pos hqpos])
      rw [zpow_add_one₀ (by norm_num), hulp, hulq] at hpow
      have hhigh := (roundSingle_bounds hpos).2
      have hlow := (roundSingle_bounds hqpos).1
      linarith
    · have hulp : ulp p = ulp q := by
        unfold ulp
        rw [abs_of_pos hpos, abs_of_pos hqpos, heq]
      have hround : roundEven (p / ulp q) ≤ roundEven (q / ulp q) :=
        roundEven_mono (div_le_div_of_nonneg_right h (ulp_pos q).le)
      unfold roundSingle
      rw [hulp]
      exact mul_le_mul_of_nonneg_right (by exact_mod_cast hround) (ulp_pos q).le
  · have hzero : roundSingle 0 = 0 := by simp [roundSingle, roundEven]
    rw [hzero]
    exact roundSingle_nonneg h

theorem roundSingle_of_log {q : ℚ} {n k : Int} (hpos : 0 < q) (hq : q = n * 2 ^ k)
    (hlog : Int.log 2 q ≤ k + 23) : roundSingle q = q := by
  have hshift : (2 : ℚ) ^ k = (2 ^ (k + 23 - Int.log 2 q).toNat : Int) * ulp q := by
    unfold ulp
    rw [abs_of_pos hpos]
    push_cast
    rw [← zpow_natCast, ← zpow_add₀ (by norm_num)]
    congr 1
    omega
  apply roundSingle_of_int (n := n * 2 ^ (k + 23 - Int.log 2 q).toNat)
  rw [Int.cast_mul, mul_assoc, ← hshift]
  exact hq

theorem roundSingle_round {q : ℚ} (hq : 0 ≤ q) : roundSingle (roundSingle q) = roundSingle q := by
  rcases hq.lt_or_eq with hpos | rfl
  · obtain ⟨hlow, hhigh⟩ := roundSingle_bounds hpos
    have hupos := ulp_pos q
    have hrpos : 0 < roundSingle q := lt_of_lt_of_le (by positivity) hlow
    rcases hhigh.lt_or_eq with hlt | heq
    · apply roundSingle_of_log (n := roundEven (q / ulp q)) (k := Int.log 2 |q| - 23) hrpos rfl
      have hulp := ulp_eq (q := q) rfl
      have hbelow : roundSingle q < ((2 : ℕ) : ℚ) ^ (Int.log 2 |q| + 1) := by
        push_cast
        rw [zpow_add_one₀ (by norm_num), hulp]
        linarith
      have hlog := (Int.lt_zpow_iff_log_lt (b := 2) (by norm_num) hrpos).mp hbelow
      omega
    · have hpow : roundSingle q = (1 : Int) * 2 ^ (Int.log 2 |q| + 1) := by
        rw [zpow_add_one₀ (by norm_num), ulp_eq rfl, heq]
        push_cast
        ring
      apply roundSingle_of_log hrpos hpow
      have hlog := Int.log_zpow (R := ℚ) (b := 2) (by norm_num) (Int.log 2 |q| + 1)
      rw [hpow, Int.cast_one, one_mul]
      push_cast at hlog
      omega
  · simp [roundSingle, roundEven]

theorem roundSingle_natCast (n : ℕ) (hn : n ≤ 2 ^ 24) : roundSingle n = n := by
  rcases Nat.eq_zero_or_pos n with rfl | hpos
  · simp [roundSingle, roundEven]
  · have hcast : (0 : ℚ) < n := by exact_mod_cast hpos
    rcases hn.lt_or_eq with hlt | rfl
    · apply roundSingle_of_log (n := n) (k := 0) hcast (by simp)
      have hlog := Nat.log_lt_of_lt_pow hpos.ne' hlt
      rw [Int.log_natCast]
      omega
    · apply roundSingle_of_log (n := 1) (k := 24) hcast (by norm_num)
      rw [Int.log_natCast, Nat.log_pow (by norm_num)]
      norm_num

namespace FloatFormat

/-- IEEE single precision. -/
def single : FloatFormat where
  round := roundSingle
  mono := roundSingle_mono
  round_round := roundSingle_round
  round_natCast := roundSingle_natCast
  error := roundSingle_error

/-- No rounding at all. -/
def exact : FloatFormat where
  round q := q
  mono _ h := h
  round_round _ := rfl
  round_natCast _ _ := rfl
  error q := by
    rw [sub_self, abs_zero]
    positivity

variable (F : FloatFormat)

/-- The product of a `long` and a `float` constant. -/
def times (n : Int) (c : ℚ) : ℚ := F.round (F.round n * F.round c)

variable {F}

theorem round_zero : F.round 0 = 0 := by
  simpa using F.round_natCast 0 (by norm_num)

theorem round_nonneg {q : ℚ} (hq : 0 ≤ q) : 0 ≤ F.round q := by
  rw [← F.round_zero]
  exact F.mono le_rfl hq

theorem round_two : F.round 2 = 2 := by
  simpa using F.round_natCast 2 (by norm_num)

theorem round_error {q : ℚ} (hq : 0 ≤ q) :
    q - q / 2 ^ 24 ≤ F.round q ∧ F.round q ≤ q + q / 2 ^ 24 := by
  have herr := abs_le.mp (F.error q)
  rw [abs_of_nonneg hq] at herr
  constructor <;> linarith [herr.1, herr.2]

theorem times_nonneg {n : Int} {c : ℚ} (hn : 0 ≤ n) (hc : 0 ≤ c) : 0 ≤ F.times n c :=
  round_nonneg (mul_nonneg (round_nonneg (by exact_mod_cast hn)) (round_nonneg hc))

theorem le_of_times_lt_round {m n : Int} {c : ℚ} (hm : 0 ≤ m) (hc : 0 ≤ c) (hn : 0 ≤ n)
    (h : F.times m c < F.round n) : F.times m c ≤ n := by
  by_contra hlt
  have hcast : (0 : ℚ) ≤ n := by exact_mod_cast hn
  have hround := F.mono hcast (not_le.mp hlt).le
  have hprod : 0 ≤ F.round m * F.round c :=
    mul_nonneg (round_nonneg (by exact_mod_cast hm)) (round_nonneg hc)
  unfold times at hround h
  rw [F.round_round hprod] at hround
  exact absurd h (not_lt.mpr hround)

end FloatFormat

end Memtrade
