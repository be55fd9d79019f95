import Mathlib.Data.List.Rotate
import Mathlib.Order.Lattice

/-!
# Sorting the front of a list by exchange

One pass compares the first element with every other one and exchanges the two where
the first is larger; after `n` passes, each on what is left, the first `n` elements are
in place. What ends up in front is a smallest choice, and nothing is lost. The sort is not
stable: which ones of equal elements are in front follows from the places of the smaller ones.
-/

namespace Memtrade

section ExchangeSort

variable {α β : Type} [LinearOrder β] (key : α → β)

/-- A pass with `x` in front of the list: what is in front at its end, and the rest. -/
def exchange : α → List α → α × List α
  | x, [] => (x, [])
  | x, y :: ys =>
      if key x > key y then ((exchange y ys).1, x :: (exchange y ys).2)
      else ((exchange x ys).1, y :: (exchange x ys).2)

/-- `n` passes: the elements put in front, and the rest. -/
def frontSort : Nat → List α → List α × List α
  | 0, l => ([], l)
  | _ + 1, [] => ([], [])
  | n + 1, x :: xs =>
      ((exchange key x xs).1 :: (frontSort n (exchange key x xs).2).1,
        (frontSort n (exchange key x xs).2).2)

theorem exchange_perm (x : α) (l : List α) :
    ((exchange key x l).1 :: (exchange key x l).2).Perm (x :: l) := by
  induction l generalizing x with
  | nil => exact .refl _
  | cons y ys ih =>
      unfold exchange
      split
      · apply (List.Perm.swap x (exchange key y ys).1 (exchange key y ys).2).trans
        exact (ih y).cons x
      · apply (List.Perm.swap y (exchange key x ys).1 (exchange key x ys).2).trans
        apply ((ih x).cons y).trans
        exact .swap x y ys

theorem frontSort_perm (n : Nat) (l : List α) :
    ((frontSort key n l).1 ++ (frontSort key n l).2).Perm l := by
  induction n generalizing l with
  | zero => exact .refl _
  | succ n ih =>
      cases l with
      | nil => exact .refl _
      | cons x xs =>
          apply ((ih (exchange key x xs).2).cons (exchange key x xs).1).trans
          exact exchange_perm key x xs

variable {key}

theorem exchange_le (x : α) (l : List α) :
    key (exchange key x l).1 ≤ key x ∧ ∀ y ∈ (exchange key x l).2, key (exchange key x l).1 ≤ key y := by
  induction l generalizing x with
  | nil => exact ⟨le_refl _, by simp [exchange]⟩
  | cons z zs ih =>
      unfold exchange
      split
      · rename_i hgt
        have hle : key (exchange key z zs).1 ≤ key x := le_trans (ih z).1 (le_of_lt hgt)
        refine ⟨hle, ?_⟩
        intro y hy
        cases List.mem_cons.mp hy with
        | inl heq =>
            rw [heq]
            exact hle
        | inr hmem => exact (ih z).2 y hmem
      · rename_i hle
        refine ⟨(ih x).1, ?_⟩
        intro y hy
        cases List.mem_cons.mp hy with
        | inl heq =>
            rw [heq]
            exact le_trans (ih x).1 (le_of_not_gt hle)
        | inr hmem => exact (ih x).2 y hmem

theorem length_frontSort {n : Nat} {l : List α} (h : n ≤ l.length) :
    (frontSort key n l).1.length = n := by
  induction n generalizing l with
  | zero => rfl
  | succ n ih =>
      cases l with
      | nil => cases h
      | cons x xs =>
          have hlength := (exchange_perm key x xs).length_eq
          simp only [List.length_cons, Nat.add_right_cancel_iff] at hlength h
          show (frontSort key n (exchange key x xs).2).1.length + 1 = n + 1
          rw [ih (by omega)]

theorem frontSort_le (n : Nat) (l : List α) {a b : α} (ha : a ∈ (frontSort key n l).1)
    (hb : b ∈ (frontSort key n l).2) : key a ≤ key b := by
  induction n generalizing l with
  | zero => cases ha
  | succ n ih =>
      cases l with
      | nil => cases ha
      | cons x xs =>
          cases List.mem_cons.mp ha with
          | inl heq =>
              have hmem : b ∈ (exchange key x xs).2 := by
                apply (frontSort_perm key n (exchange key x xs).2).subset
                exact List.mem_append_right _ hb
              rw [heq]
              exact (exchange_le x xs).2 b hmem
          | inr hmem => exact ih (exchange key x xs).2 hmem hb

/-! ## Equal elements -/

variable (key)

/-- The elements of key `v` in the order in which the passes come to them: they wait in a queue,
and each smaller element that follows sends the first of them to the end. -/
def waiting (v : β) : List α → List α → List α
  | q, [] => q
  | q, x :: l =>
      if key x = v then waiting v (q ++ [x]) l
      else if key x < v then waiting v (q.rotate 1) l
      else waiting v q l

/-- How many elements are put in front before `x`. -/
def turn [DecidableEq α] (l : List α) (x : α) : Nat :=
  l.countP (fun y => key y < key x) + (waiting key (key x) [] l).idxOf x

variable {key} {v : β}

section Waiting

variable {x : α} {l q : List α}

theorem waiting_of_eq (h : key x = v) : waiting key v q (x :: l) = waiting key v (q ++ [x]) l := by
  rw [waiting, if_pos h]

theorem waiting_of_lt (h : key x < v) : waiting key v q (x :: l) = waiting key v (q.rotate 1) l := by
  rw [waiting, if_neg h.ne, if_pos h]

theorem waiting_of_gt (h : v < key x) : waiting key v q (x :: l) = waiting key v q l := by
  rw [waiting, if_neg h.ne', if_neg (not_lt.mpr h.le)]

theorem waiting_perm : (waiting key v q l).Perm (q ++ l.filter fun x => key x = v) := by
  induction l generalizing q with
  | nil => simp [waiting]
  | cons y ys ih =>
      rcases lt_trichotomy (key y) v with hlt | heq | hgt
      · rw [waiting_of_lt hlt, List.filter_cons_of_neg (by simpa using hlt.ne)]
        exact ih.trans ((List.rotate_perm q 1).append_right _)
      · rw [waiting_of_eq heq, List.filter_cons_of_pos (by simpa using heq)]
        have hrest := ih (q := q ++ [y])
        simpa using hrest
      · rw [waiting_of_gt hgt, List.filter_cons_of_neg (by simpa using hgt.ne')]
        exact ih

/-- Without smaller elements the queue is in the order of the list. -/
theorem waiting_of_least (h : ∀ y ∈ l, v ≤ key y) :
    waiting key v q l = q ++ l.filter fun x => key x = v := by
  induction l generalizing q with
  | nil => simp [waiting]
  | cons y ys ih =>
      have hrest := fun q => ih (q := q) fun z hz => h z (List.mem_cons_of_mem y hz)
      rcases (h y List.mem_cons_self).lt_or_eq with hgt | heq
      · rw [waiting_of_gt hgt, List.filter_cons_of_neg (by simpa using hgt.ne'), hrest]
      · rw [waiting_of_eq heq.symm, List.filter_cons_of_pos (by simpa using heq.symm), hrest]
        simp

/-! ### One pass -/

/-- While a smaller element is carried along, the queue does not change. -/
theorem waiting_exchange_of_lt (h : key x < v) :
    waiting key v q (exchange key x l).2 = waiting key v q l := by
  induction l generalizing x q with
  | nil => rfl
  | cons y ys ih =>
      unfold exchange
      split
      · rename_i hgt
        have hy : key y < v := lt_trans hgt h
        rw [waiting_of_lt h, waiting_of_lt hy, ih hy]
      · rcases lt_trichotomy (key y) v with hlt | heq | hgt
        · rw [waiting_of_lt hlt, waiting_of_lt hlt, ih h]
        · rw [waiting_of_eq heq, waiting_of_eq heq, ih h]
        · rw [waiting_of_gt hgt, waiting_of_gt hgt, ih h]

/-- An element of key `v` that is carried along is the first of the queue; where a smaller one
takes its place it is left behind, at the end of the queue. -/
theorem waiting_exchange_of_eq (h : key x = v) (hend : key (exchange key x l).1 < v) :
    waiting key v q (exchange key x l).2 = waiting key v (x :: q) l := by
  induction l generalizing q with
  | nil => exact absurd h hend.ne
  | cons y ys ih =>
      unfold exchange at hend ⊢
      split
      · rename_i hgt
        have hy : key y < v := h ▸ hgt
        rw [waiting_of_eq h, waiting_exchange_of_lt hy, waiting_of_lt hy, List.rotate_cons_succ,
          List.rotate_zero]
      · rename_i hle
        rw [if_neg hle] at hend
        rcases (h ▸ not_lt.mp hle : v ≤ key y).lt_or_eq with hgt | heq
        · rw [waiting_of_gt hgt, waiting_of_gt hgt, ih hend]
        · rw [waiting_of_eq heq.symm, waiting_of_eq heq.symm, ih hend, List.cons_append]

theorem waiting_exchange_of_gt (h : v < key x) (hend : key (exchange key x l).1 < v) :
    waiting key v [] (exchange key x l).2 = waiting key v [] l := by
  induction l generalizing x with
  | nil => exact absurd h (not_lt.mpr hend.le)
  | cons y ys ih =>
      unfold exchange at hend ⊢
      split
      · rename_i hgt
        rw [if_pos hgt] at hend
        rw [waiting_of_gt h]
        rcases lt_trichotomy (key y) v with hlt | heq | hy
        · rw [waiting_exchange_of_lt hlt, waiting_of_lt hlt, List.rotate_nil]
        · rw [waiting_exchange_of_eq heq hend, waiting_of_eq heq, List.nil_append]
        · rw [ih hy hend, waiting_of_gt hy]
      · rename_i hle
        rw [if_neg hle] at hend
        have hy : v < key y := lt_of_lt_of_le h (not_lt.mp hle)
        rw [waiting_of_gt hy, waiting_of_gt hy, ih h hend]

/-- A pass that puts a smaller element in front leaves the queue as it is. -/
theorem waiting_exchange (hend : key (exchange key x l).1 < v) :
    waiting key v [] (exchange key x l).2 = waiting key v [] (x :: l) := by
  rcases lt_trichotomy (key x) v with hlt | heq | hgt
  · rw [waiting_exchange_of_lt hlt, waiting_of_lt hlt, List.rotate_nil]
  · rw [waiting_exchange_of_eq heq hend, waiting_of_eq heq, List.nil_append]
  · rw [waiting_exchange_of_gt hgt hend, waiting_of_gt hgt]

/-- A pass over a list of which `v` is the least key takes the first element of that key. -/
theorem filter_exchange (hend : key (exchange key x l).1 = v) :
    ((x :: l).filter fun y => key y = v) =
      (exchange key x l).1 :: (exchange key x l).2.filter fun y => key y = v := by
  induction l generalizing x with
  | nil =>
      have hx : key x = v := hend
      rw [List.filter_cons_of_pos (by simpa using hx)]
      rfl
  | cons y ys ih =>
      unfold exchange at hend ⊢
      split
      · rename_i hgt
        rw [if_pos hgt] at hend
        have hx : key x ≠ v := by
          have hle : key (exchange key y ys).1 ≤ key y := (exchange_le y ys).1
          rw [hend] at hle
          exact (lt_of_le_of_lt hle hgt).ne'
        rw [List.filter_cons_of_neg (by simpa using hx), ih hend,
          List.filter_cons_of_neg (by simpa using hx)]
      · rename_i hle
        rw [if_neg hle] at hend
        have hrest := ih hend
        by_cases hx : key x = v
        · rw [List.filter_cons_of_pos (by simpa using hx), List.cons.injEq] at hrest
          rw [List.filter_cons_of_pos (by simpa using hx), ← hrest.1, List.filter_cons, hrest.2,
            List.filter_cons]
        · have hy : key y ≠ v := by
            have hmin : key (exchange key x ys).1 ≤ key x := (exchange_le x ys).1
            rw [hend] at hmin
            exact (lt_of_lt_of_le (lt_of_le_of_ne hmin (Ne.symm hx)) (not_lt.mp hle)).ne'
          rw [List.filter_cons_of_neg (by simpa using hx)] at hrest
          rw [List.filter_cons_of_neg (by simpa using hx), List.filter_cons_of_neg (by simpa using hy),
            hrest, List.filter_cons_of_neg (by simpa using hy)]

end Waiting

/-! ### All passes -/

theorem frontSort_filter (v : β) (n : Nat) (l : List α) :
    ((frontSort key n l).1.filter fun x => key x = v) =
      (waiting key v [] l).take (n - l.countP fun x => key x < v) := by
  induction n generalizing l with
  | zero => simp [frontSort]
  | succ n ih =>
      cases l with
      | nil => simp [frontSort, waiting]
      | cons x xs =>
          have hcount := (exchange_perm key x xs).countP_eq fun y => key y < v
          have hmin : ∀ y ∈ x :: xs, key (exchange key x xs).1 ≤ key y := by
            intro y hy
            cases List.mem_cons.mp ((exchange_perm key x xs).symm.subset hy) with
            | inl heq => rw [heq]
            | inr hmem => exact (exchange_le x xs).2 y hmem
          have hrest : ∀ y ∈ (exchange key x xs).2, key (exchange key x xs).1 ≤ key y := (exchange_le x xs).2
          have hnone : ∀ {l : List α}, (∀ y ∈ l, v ≤ key y) → (l.countP fun y => key y < v) = 0 := by
            intro l h
            rw [List.countP_eq_zero]
            intro y hy
            simpa using h y hy
          unfold frontSort
          rw [List.filter_cons, ih, ← hcount]
          rcases lt_trichotomy (key (exchange key x xs).1) v with hlt | heq | hgt
          · rw [if_neg (by simpa using hlt.ne), waiting_exchange hlt,
              List.countP_cons_of_pos (by simpa using hlt), Nat.add_sub_add_right]
          · have hall : ∀ y ∈ x :: xs, v ≤ key y := fun y hy => heq ▸ hmin y hy
            have hall' : ∀ y ∈ (exchange key x xs).2, v ≤ key y := fun y hy => heq ▸ hrest y hy
            rw [if_pos (by simpa using heq), hcount, hnone hall, hnone hall', waiting_of_least hall,
              waiting_of_least hall', filter_exchange heq]
            rfl
          · have hall : ∀ y ∈ x :: xs, v ≤ key y := fun y hy => hgt.le.trans (hmin y hy)
            have hall' : ∀ y ∈ (exchange key x xs).2, v ≤ key y := fun y hy => hgt.le.trans (hrest y hy)
            have hempty : ((x :: xs).filter fun y => key y = v) = [] := by
              rw [List.filter_eq_nil_iff]
              intro y hy
              simpa using (lt_of_lt_of_le hgt (hmin y hy)).ne'
            have hempty' : ((exchange key x xs).2.filter fun y => key y = v) = [] := by
              rw [List.filter_eq_nil_iff]
              intro y hy
              simpa using (lt_of_lt_of_le hgt (hrest y hy)).ne'
            rw [if_neg (by simpa using hgt.ne'), waiting_of_least hall, waiting_of_least hall', hempty,
              hempty']
            simp

theorem mem_frontSort [DecidableEq α] {n : Nat} {l : List α} {x : α} :
    x ∈ (frontSort key n l).1 ↔ x ∈ l ∧ turn key l x < n := by
  have hperm : (waiting key (key x) [] l).Perm (l.filter fun y => key y = key x) := waiting_perm
  have hfilter : ((frontSort key n l).1.filter fun y => key y = key x) = _ :=
    frontSort_filter (key x) n l
  have hfront : x ∈ (frontSort key n l).1 ↔
      x ∈ (waiting key (key x) [] l).take (n - l.countP fun y => key y < key x) := by
    rw [← hfilter, List.mem_filter]
    simp
  rw [hfront]
  by_cases hmem : x ∈ l
  · have hwait : x ∈ waiting key (key x) [] l := hperm.symm.subset (by simp [hmem])
    rw [List.mem_take_iff_idxOf_lt hwait, and_iff_right hmem]
    unfold turn
    omega
  · have hnot : x ∉ (waiting key (key x) [] l).take (n - l.countP fun y => key y < key x) := by
      intro h
      exact hmem (List.mem_filter.mp (hperm.subset (List.mem_of_mem_take h))).1
    simp [hnot, hmem]

end ExchangeSort

end Memtrade
