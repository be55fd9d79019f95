import Mathlib.Algebra.GroupWithZero.Nat
import Mathlib.Data.Char
import Mathlib.Data.List.Lex
import Mathlib.Data.List.Sort
import Mathlib.Data.Nat.Log

/-!
# Numbers in the order of their texts

Texts are compared character by character, so two decimal numbers of one length have the
order of the numbers, and a shorter one is compared with as many leading digits of the
longer one. A list of keys that is sorted under other names keeps its order exactly if the
names keep the order of any two keys.
-/

namespace Memtrade

/-! ## Comparing texts -/

theorem append_lt_append_iff {α : Type} [LinearOrder α] {l₁ l₂ r₁ r₂ : List α}
    (hlen : l₁.length = l₂.length) : l₁ ++ r₁ < l₂ ++ r₂ ↔ l₁ < l₂ ∨ l₁ = l₂ ∧ r₁ < r₂ := by
  induction l₁ generalizing l₂ with
  | nil =>
      have hnil : l₂ = [] := List.length_eq_zero_iff.mp hlen.symm
      simp [hnil]
  | cons a l₁ ih =>
      cases l₂ with
      | nil => cases hlen
      | cons b l₂ =>
          have hrest := ih (Nat.succ.inj hlen)
          simp only [List.cons_append, List.cons_lt_cons_iff, hrest, List.cons.injEq]
          tauto

theorem digitChar_lt_iff {a b : Nat} (ha : a < 10) (hb : b < 10) :
    a.digitChar < b.digitChar ↔ a < b := by
  have hchar : a.digitChar < b.digitChar ↔ a.digitChar.toNat < b.digitChar.toNat := Iff.rfl
  rw [hchar, Nat.toNat_digitChar_of_lt_ten ha, Nat.toNat_digitChar_of_lt_ten hb]
  omega

/-! ## Decimal numbers -/

theorem length_toDigits (n : Nat) : (Nat.toDigits 10 n).length = Nat.log 10 n + 1 := by
  have hle : ∀ k, (Nat.toDigits 10 n).length ≤ k + 1 ↔ Nat.log 10 n ≤ k := by
    intro k
    rw [Nat.length_toDigits_le_iff (by decide) (Nat.succ_pos k), ← Nat.lt_succ_iff]
    exact ⟨Nat.log_lt_of_lt_pow' (Nat.succ_ne_zero k), Nat.lt_pow_of_log_lt (by decide)⟩
  have hpos : 0 < (Nat.toDigits 10 n).length := Nat.length_toDigits_pos
  have hupper := (hle (Nat.log 10 n)).mpr (Nat.le_refl _)
  have hlower := (hle ((Nat.toDigits 10 n).length - 1)).mp (by omega)
  omega

theorem toDigits_injective : Function.Injective (Nat.toDigits 10) :=
  Function.LeftInverse.injective fun _ => Nat.ofDigitChars_ten_toDigits

theorem toDigits_lt_of_length_eq {a b : Nat}
    (hlen : (Nat.toDigits 10 a).length = (Nat.toDigits 10 b).length) :
    Nat.toDigits 10 a < Nat.toDigits 10 b ↔ a < b := by
  have hone : ∀ n, (Nat.toDigits 10 n).length ≤ 1 ↔ n < 10 := fun n =>
    Nat.length_toDigits_le_iff (by decide) (by decide)
  induction b using Nat.strongRecOn generalizing a with
  | ind b ih =>
      by_cases hb : b < 10
      · have ha : a < 10 := by rwa [← hone, hlen, hone]
        rw [Nat.toDigits_of_lt_base ha, Nat.toDigits_of_lt_base hb, List.cons_lt_cons_iff]
        simp [digitChar_lt_iff ha hb]
      · have ha : ¬ a < 10 := by rwa [← hone, hlen, hone]
        rw [Nat.toDigits_of_base_le (by decide) (Nat.not_lt.mp ha),
          Nat.toDigits_of_base_le (by decide) (Nat.not_lt.mp hb)] at hlen ⊢
        simp only [List.length_append, List.length_singleton, Nat.add_right_cancel_iff] at hlen
        have hdigit : [(a % 10).digitChar] < [(b % 10).digitChar] ↔ a % 10 < b % 10 := by
          rw [List.cons_lt_cons_iff]
          simp [digitChar_lt_iff (Nat.mod_lt a (by decide)) (Nat.mod_lt b (by decide))]
        have hlead : Nat.toDigits 10 (a / 10) < Nat.toDigits 10 (b / 10) ↔ a / 10 < b / 10 :=
          ih (b / 10) (by omega) hlen
        rw [append_lt_append_iff hlen, hlead, toDigits_injective.eq_iff, hdigit]
        omega

theorem toDigits_eq_append {n k : Nat} (h : k ≤ Nat.log 10 n) :
    ∃ rest : List Char, rest.length = k ∧
      Nat.toDigits 10 n = Nat.toDigits 10 (n / 10 ^ k) ++ rest := by
  induction k with
  | zero => exact ⟨[], rfl, by simp⟩
  | succ k ih =>
      obtain ⟨rest, hlen, heq⟩ := ih (by omega)
      have hquot : n / 10 ^ (k + 1) = n / 10 ^ k / 10 := by
        rw [Nat.pow_succ, Nat.div_div_eq_div_mul]
      have hbase : 10 ≤ n / 10 ^ k := by
        have hn : n ≠ 0 := by
          intro hzero
          rw [hzero, Nat.log_zero_right] at h
          omega
        have hpow := Nat.pow_le_of_le_log hn h
        rw [Nat.le_div_iff_mul_le (Nat.pow_pos (by decide)), Nat.mul_comm, ← Nat.pow_succ]
        exact hpow
      refine ⟨(n / 10 ^ k % 10).digitChar :: rest, by rw [List.length_cons, hlen], ?_⟩
      rw [heq, Nat.toDigits_of_base_le (by decide) hbase, hquot, List.append_assoc,
        List.singleton_append]

/-- The smaller of two numbers comes first as a text exactly if it is not above the leading
digits of the larger one, as many as it has itself. -/
theorem toDigits_lt_iff {a b : Nat} (h : a < b) :
    Nat.toDigits 10 a < Nat.toDigits 10 b ↔ a ≤ b / 10 ^ (Nat.log 10 b - Nat.log 10 a) := by
  have hlog : Nat.log 10 a ≤ Nat.log 10 b := Nat.log_mono_right (Nat.le_of_lt h)
  obtain ⟨rest, hrest, heq⟩ := toDigits_eq_append (Nat.sub_le (Nat.log 10 b) (Nat.log 10 a))
  have hlen : (Nat.toDigits 10 a).length =
      (Nat.toDigits 10 (b / 10 ^ (Nat.log 10 b - Nat.log 10 a))).length := by
    have hsum := congrArg List.length heq
    rw [List.length_append, length_toDigits, hrest] at hsum
    rw [length_toDigits a]
    omega
  have hcompare : Nat.toDigits 10 a ++ [] < Nat.toDigits 10 b ↔
      a < b / 10 ^ (Nat.log 10 b - Nat.log 10 a) ∨
        a = b / 10 ^ (Nat.log 10 b - Nat.log 10 a) ∧ [] < rest := by
    rw [heq, append_lt_append_iff hlen, toDigits_lt_of_length_eq hlen, toDigits_injective.eq_iff]
  rw [List.append_nil] at hcompare
  rw [hcompare]
  cases rest with
  | nil =>
      have hzero : Nat.log 10 b - Nat.log 10 a = 0 := hrest.symm
      rw [hzero, Nat.pow_zero, Nat.div_one]
      simp [h, Nat.le_of_lt h]
  | cons c rest =>
      simp only [List.nil_lt_cons, and_true]
      exact Nat.le_iff_lt_or_eq.symm

/-! ## Sorting under other names -/

section Renaming

variable {α β : Type} [LinearOrder α] [LinearOrder β] {f : α → β} {l : List α}

theorem sort_map_iff (hf : Function.Injective f) :
    (l.map f).insertionSort (· ≤ ·) = (l.insertionSort (· ≤ ·)).map f ↔
      ∀ a ∈ l, ∀ b ∈ l, a < b → f a < f b := by
  constructor
  · intro heq
    -- along the sorted list, keys and names both go up
    have hnames : (l.insertionSort (· ≤ ·)).Pairwise fun a b => f a ≤ f b := by
      rw [← List.pairwise_map, ← heq]
      exact List.pairwise_insertionSort _ _
    have hforth : (l.insertionSort (· ≤ ·)).Pairwise fun a b => a < b → f a ≤ f b := by
      apply hnames.imp
      intro a b hab _
      exact hab
    have hback : (l.insertionSort (· ≤ ·)).Pairwise fun a b => b < a → f b ≤ f a := by
      apply (List.pairwise_insertionSort (· ≤ ·) l).imp
      intro a b hab hlt
      exact absurd hlt (not_lt.mpr hab)
    have hall := List.Pairwise.forall_of_forall_of_flip (fun a _ _ => le_refl (f a)) hforth hback
    intro a ha b hb hlt
    have hle := hall ((List.mem_insertionSort _).mpr ha) ((List.mem_insertionSort _).mpr hb) hlt
    exact lt_of_le_of_ne hle (hf.ne hlt.ne)
  · intro hmono
    refine (List.map_insertionSort _ _ f l ?_).symm
    intro a ha b hb
    constructor
    · intro hle
      cases lt_or_eq_of_le hle with
      | inl hlt => exact (hmono a ha b hb hlt).le
      | inr heq => rw [heq]
    · intro hle
      by_contra hlt
      exact absurd (hmono b hb a ha (not_le.mp hlt)) (not_lt.mpr hle)

end Renaming

end Memtrade
