import Mathlib.Data.List.Nodup

/-!
# Loops that take the first entries of a table

A scan over the indices of a table that marks each entry passing a test and stops once
enough have been marked. What one marking does to an invariant, the loop does as often as
its counter says; how often that is depends only on how many entries pass.
-/

namespace Memtrade

section Counting

variable {ι : Type}

theorem countP_split {l : List ι} {p q r : ι → Bool} (h : ∀ i, r i = (p i || q i))
    (hdisj : ∀ i, p i = true → q i = false) : l.countP r = l.countP p + l.countP q := by
  induction l with
  | nil => rfl
  | cons i l ih =>
      have hi := hdisj i
      rw [List.countP_cons, List.countP_cons, List.countP_cons, ih, h i]
      cases hp : p i with
      | true =>
          rw [hi hp]
          simp
          omega
      | false =>
          cases q i <;> simp
          omega

variable [DecidableEq ι]

theorem countP_succ {l : List ι} (hl : l.Nodup) {p q : ι → Bool} {i : ι} (hi : i ∈ l)
    (hp : p i = false) (hq : q i = true) (h : ∀ k ≠ i, q k = p k) :
    l.countP q = l.countP p + 1 := by
  have hperm := List.perm_cons_erase hi
  have hrest : (l.erase i).countP q = (l.erase i).countP p := by
    apply List.countP_congr
    intro k hk
    rw [h k (hl.mem_erase_iff.mp hk).1]
  rw [hperm.countP_eq q, hperm.countP_eq p, List.countP_cons_of_pos hq,
    List.countP_cons_of_neg (by simp [hp]), hrest]

end Counting

section Marking

variable {σ ι : Type}

/-- The state after the loop, and the number of entries marked; `j` have been before. -/
def markFirst (test : σ → ι → Bool) (mark : σ → ι → σ) (n : Int) : List ι → Int → σ → σ × Int
  | [], j, s => (s, j)
  | i :: l, j, s =>
      if test s i then
        if j + 1 = n then (mark s i, j + 1) else markFirst test mark n l (j + 1) (mark s i)
      else markFirst test mark n l j s

theorem markFirst_invariant (test : σ → ι → Bool) (mark : σ → ι → σ) (n : Int) {I : Int → σ → Prop}
    (hmark : ∀ j s i, I j s → test s i = true → I (j + 1) (mark s i)) (l : List ι) (j : Int) (s : σ)
    (h : I j s) : I (markFirst test mark n l j s).2 (markFirst test mark n l j s).1 := by
  induction l generalizing j s with
  | nil => exact h
  | cons i l ih =>
      unfold markFirst
      split
      case isTrue hi =>
        split
        case isTrue => exact hmark j s i h hi
        case isFalse => exact ih (j + 1) (mark s i) (hmark j s i h hi)
      case isFalse => exact ih j s h

/-- The loop finds what passes at its start: marking an entry is not seen at the others.
It stops early exactly when there are `n` of them. -/
theorem markFirst_count {test : σ → ι → Bool} {mark : σ → ι → σ} {n : Int}
    (hother : ∀ s i k, k ≠ i → test (mark s i) k = test s k) {l : List ι} (hl : l.Nodup)
    (j : Int) (s : σ) : (markFirst test mark n l j s).2 =
      if j < n ∧ n ≤ j + l.countP (test s) then n else j + l.countP (test s) := by
  induction l generalizing j s with
  | nil =>
      rw [markFirst, List.countP_nil, if_neg (by omega)]
      omega
  | cons i l ih =>
      have hnodup := List.nodup_cons.mp hl
      unfold markFirst
      cases hi : test s i with
      | false =>
          simp only [Bool.false_eq_true, if_false]
          rw [ih hnodup.2 j s, List.countP_cons_of_neg (by simp [hi])]
      | true =>
          have hrest : l.countP (test (mark s i)) = l.countP (test s) := by
            apply List.countP_congr
            intro k hk
            have hne : k ≠ i := fun heq => hnodup.1 (heq ▸ hk)
            rw [hother s i k hne]
          rw [if_pos rfl, List.countP_cons_of_pos hi]
          by_cases hn : j + 1 = n
          · rw [if_pos hn, if_pos (by omega)]
            exact hn
          · rw [if_neg hn, ih hnodup.2 (j + 1) (mark s i), hrest]
            split <;> split <;> omega

end Marking

end Memtrade
