import Mathlib.Algebra.Order.Field.Rat
import Mathlib.Data.Finset.Max
import Mathlib.Data.Multiset.Filter
import Mathlib.Order.Bounds.Basic
import Mathlib.Tactic.Linarith

/-!
# Empirical distribution functions

The distribution function of a finite sample and the one-sided
Kolmogorov-Smirnov distance between two samples. The distance is the greatest
difference over all arguments; `isKsDistance_of_bounds` says that it is enough
to look at the points of the recent sample.
-/

namespace Memtrade

variable {K : Type} [LinearOrder K]

/-- The fraction of the sample that is at most `v`, `0` for an empty sample. -/
def cdf (s : Multiset K) (v : K) : ℚ := (s.countP (· ≤ v) : ℚ) / (s.card : ℚ)

/-- `d` is `max (0, max over v of cdf recent v - cdf base v)`. -/
def IsKsDistance (base recent : Multiset K) (d : ℚ) : Prop :=
  IsGreatest (insert 0 (Set.range fun v => cdf recent v - cdf base v)) d

theorem cdf_nonneg (s : Multiset K) (v : K) : 0 ≤ cdf s v :=
  div_nonneg (Nat.cast_nonneg _) (Nat.cast_nonneg _)

theorem cdf_mono (s : Multiset K) {u v : K} (huv : u ≤ v) : cdf s u ≤ cdf s v := by
  apply div_le_div_of_nonneg_right _ (Nat.cast_nonneg _)
  apply Nat.cast_le.mpr
  rw [Multiset.countP_eq_card_filter, Multiset.countP_eq_card_filter]
  exact Multiset.card_le_card (Multiset.monotone_filter_right s fun x hx => le_trans hx huv)

/-- The distribution function takes its positive values at sample points. -/
theorem exists_mem_cdf_eq {s : Multiset K} {v : K} (h : 0 < cdf s v) :
    ∃ u ∈ s, u ≤ v ∧ cdf s u = cdf s v := by
  have hne : (s.filter (· ≤ v)).toFinset.Nonempty := by
    rw [Finset.nonempty_iff_ne_empty]
    intro hempty
    have hzero : s.countP (· ≤ v) = 0 := by
      rw [Multiset.countP_eq_card_filter, Multiset.card_eq_zero, ← Multiset.toFinset_eq_empty]
      exact hempty
    simp [cdf, hzero] at h
  obtain ⟨u, hu, hmax⟩ := Finset.exists_max_image _ id hne
  simp only [Multiset.mem_toFinset, Multiset.mem_filter, id] at hu hmax
  refine ⟨u, hu.1, hu.2, ?_⟩
  have hcount : s.countP (· ≤ u) = s.countP (· ≤ v) := by
    apply Multiset.countP_congr rfl
    intro x hx
    simp only [eq_iff_iff]
    exact ⟨fun hxu => le_trans hxu hu.2, fun hxv => hmax x ⟨hx, hxv⟩⟩
  rw [cdf, cdf, hcount]

theorem isKsDistance_of_bounds {base recent : Multiset K} {d : ℚ} (hpos : 0 ≤ d)
    (hatt : d = 0 ∨ ∃ v, d = cdf recent v - cdf base v)
    (hle : ∀ u ∈ recent, cdf recent u - cdf base u ≤ d) : IsKsDistance base recent d := by
  constructor
  · rcases hatt with h | ⟨v, h⟩
    · exact Or.inl h
    · exact Or.inr ⟨v, h.symm⟩
  · rintro e (rfl | ⟨v, rfl⟩)
    · exact hpos
    rcases (cdf_nonneg recent v).eq_or_lt with hzero | hlt
    · have hbase := cdf_nonneg base v
      simp only [← hzero]
      linarith
    · -- move `v` down to the largest recent point: `cdf base` only gets smaller
      obtain ⟨u, hu, huv, heq⟩ := exists_mem_cdf_eq hlt
      have hbound := hle u hu
      have hbase := cdf_mono base huv
      simp only
      linarith

/-- `d` is the distance as far as the points `seen` tell. -/
structure KsSoFar (base recent : Multiset K) (seen : List K) (d : ℚ) : Prop where
  nonneg : 0 ≤ d
  attained : d = 0 ∨ ∃ v, d = cdf recent v - cdf base v
  bound : ∀ u ∈ seen, cdf recent u - cdf base u ≤ d

theorem ksSoFar_nil (base recent : Multiset K) : KsSoFar base recent [] 0 :=
  ⟨le_rfl, Or.inl rfl, by simp⟩

theorem KsSoFar.append {base recent : Multiset K} {seen new : List K} {d : ℚ} {v : K}
    (h : KsSoFar base recent seen d) (hnew : ∀ u ∈ new, u = v) :
    KsSoFar base recent (seen ++ new) (max d (cdf recent v - cdf base v)) where
  nonneg := le_trans h.nonneg (le_max_left _ _)
  attained := by
    rcases max_choice d (cdf recent v - cdf base v) with hmax | hmax
    · rw [hmax]
      exact h.attained
    · exact Or.inr ⟨v, hmax⟩
  bound := by
    intro u hu
    rcases List.mem_append.mp hu with hu | hu
    · exact le_trans (h.bound u hu) (le_max_left _ _)
    · rw [hnew u hu]
      exact le_max_right _ _

theorem KsSoFar.isKsDistance {base recent : Multiset K} {seen : List K} {d : ℚ}
    (h : KsSoFar base recent seen d) (hall : ∀ u ∈ recent, u ∈ seen) :
    IsKsDistance base recent d :=
  isKsDistance_of_bounds h.nonneg h.attained fun u hu => h.bound u (hall u hu)

theorem IsKsDistance.unique {base recent : Multiset K} {d e : ℚ} (hd : IsKsDistance base recent d)
    (he : IsKsDistance base recent e) : d = e :=
  IsGreatest.unique hd he

theorem cdf_append {pre rest : List K} {v : K} (hpre : ∀ x ∈ pre, x ≤ v)
    (hrest : ∀ x ∈ rest, v < x) :
    cdf ((pre ++ rest : List K) : Multiset K) v =
      (pre.length : ℚ) / ((pre ++ rest).length : ℚ) := by
  have hcount : (pre ++ rest).countP (· ≤ v) = pre.length := by
    rw [List.countP_append, List.countP_eq_length.mpr (by simpa using hpre),
      List.countP_eq_zero.mpr (by simpa using hrest), Nat.add_zero]
  rw [cdf, Multiset.coe_countP, Multiset.coe_card, hcount]

end Memtrade
