import Mathlib.Algebra.BigOperators.Group.Finset.Piecewise
import Mathlib.Algebra.BigOperators.Group.Finset.Sigma
import Mathlib.Data.Fintype.Basic
import Mathlib.Logic.Function.Basic

/-!
# Heaps of identified cells

A heap hands out addresses in increasing order and never reuses one, so an
address is the identity of one allocation. `frees` counts the releases of each
address, which lets a double release be observed instead of assumed away.
`count` is the number of live cells that satisfy a test; the lemmas below state
its change under each operation additively, so that no subtraction on the
natural numbers appears in a client's proof.
-/

namespace Memtrade

structure Heap (α : Type) where
  cell : Nat → Option α
  next : Nat
  frees : Nat → Nat
  fresh : ∀ i, next ≤ i → cell i = none

namespace Heap

variable {α : Type}

def empty : Heap α := ⟨fun _ => none, 0, fun _ => 0, fun _ _ => rfl⟩

/-- Allocation at the address `h.next`. -/
def alloc (h : Heap α) (a : α) : Heap α where
  cell := Function.update h.cell h.next (some a)
  next := h.next + 1
  frees := h.frees
  fresh i hi := by
    rw [Function.update_of_ne (by omega)]
    exact h.fresh i (by omega)

/-- A write through a dangling address changes nothing; clients that care
report it before they write. -/
def write (h : Heap α) (i : Nat) (a : α) : Heap α where
  cell := if (h.cell i).isSome then Function.update h.cell i (some a) else h.cell
  next := h.next
  frees := h.frees
  fresh j hj := by
    split
    · rename_i hi
      rw [Function.update_of_ne]
      · exact h.fresh j hj
      · rintro rfl
        rw [h.fresh j hj] at hi
        cases hi
    · exact h.fresh j hj

def free (h : Heap α) (i : Nat) : Heap α where
  cell := Function.update h.cell i none
  next := h.next
  frees := Function.update h.frees i (h.frees i + 1)
  fresh j hj := by
    by_cases hji : j = i
    · subst hji
      simp
    · rw [Function.update_of_ne hji]
      exact h.fresh j hj

/-- One address is used up and no cell changes. -/
def burn (h : Heap α) : Heap α where
  cell := h.cell
  next := h.next + 1
  frees := Function.update h.frees h.next (h.frees h.next + 1)
  fresh i hi := h.fresh i (by omega)

/-- Apply `f` to every live cell. -/
def map (f : α → α) (h : Heap α) : Heap α where
  cell i := (h.cell i).map f
  next := h.next
  frees := h.frees
  fresh i hi := by rw [h.fresh i hi]; rfl

def count (h : Heap α) (p : α → Bool) : Nat :=
  ((Finset.range h.next).filter fun i => (h.cell i).any p).card

/-- Every released address was released exactly once, every other one never. -/
def FreedOnce (h : Heap α) : Prop :=
  ∀ i, h.frees i = if i < h.next ∧ h.cell i = none then 1 else 0

/-! ## Reading after an operation -/

@[simp] theorem cell_empty (i : Nat) : (empty : Heap α).cell i = none := by
  simp [empty]

theorem lt_next {h : Heap α} {i : Nat} {a : α} (hi : h.cell i = some a) : i < h.next := by
  by_contra hge
  rw [h.fresh i (by omega)] at hi
  cases hi

@[simp] theorem cell_next (h : Heap α) : h.cell h.next = none := h.fresh h.next (Nat.le_refl _)

theorem cell_alloc (h : Heap α) (a : α) (i : Nat) :
    (h.alloc a).cell i = if i = h.next then some a else h.cell i := by
  simp [alloc, Function.update_apply]

@[simp] theorem next_alloc (h : Heap α) (a : α) : (h.alloc a).next = h.next + 1 := rfl

theorem cell_write {h : Heap α} {i : Nat} {old : α} (hi : h.cell i = some old) (a : α) (j : Nat) :
    (h.write i a).cell j = if j = i then some a else h.cell j := by
  simp [write, hi, Function.update_apply]

@[simp] theorem next_write (h : Heap α) (i : Nat) (a : α) : (h.write i a).next = h.next := rfl

theorem cell_free (h : Heap α) (i j : Nat) :
    (h.free i).cell j = if j = i then none else h.cell j := by
  simp [free, Function.update_apply]

@[simp] theorem next_free (h : Heap α) (i : Nat) : (h.free i).next = h.next := rfl

@[simp] theorem cell_map (f : α → α) (h : Heap α) (i : Nat) :
    (h.map f).cell i = (h.cell i).map f := rfl

theorem write_write (h : Heap α) (i : Nat) (a b : α) : (h.write i a).write i b = h.write i b := by
  cases hi : h.cell i <;> simp [write, hi]

theorem write_self {h : Heap α} {i : Nat} {a : α} (hi : h.cell i = some a) : h.write i a = h := by
  have hcell : (h.write i a).cell = h.cell := by
    funext j
    simp only [write, hi, Option.isSome_some, if_true, Function.update_apply]
    split
    · rename_i hj
      rw [hj, hi]
    · rfl
  cases h
  simp only [write] at hcell ⊢
  simp only [hcell]

theorem map_eq_self {f : α → α} {h : Heap α} (hf : ∀ i a, h.cell i = some a → f a = a) :
    h.map f = h := by
  have hcell : (h.map f).cell = h.cell := by
    funext i
    cases hi : h.cell i with
    | none => simp [hi]
    | some a => simp [hi, hf i a hi]
  cases h
  simp only [map] at hcell ⊢
  simp only [hcell]

theorem alloc_write (h : Heap α) (a b : α) : (h.alloc a).write h.next b = h.alloc b := by
  simp [write, alloc]

theorem alloc_free (h : Heap α) (a : α) : (h.alloc a).free h.next = h.burn := by
  have hcell : ((h.alloc a).free h.next).cell = h.cell := by
    funext i
    rw [cell_free, cell_alloc]
    by_cases hi : i = h.next
    · simp [hi]
    · simp [hi]
  simp only [free, alloc, burn] at hcell ⊢
  simp only [hcell]

theorem free_write (h : Heap α) (i : Nat) (a : α) : (h.write i a).free i = h.free i := by
  cases hi : h.cell i <;> simp [write, free, hi]

/-! ## Counting live cells -/

private theorem count_eq_sum (h : Heap α) (p : α → Bool) :
    h.count p = ∑ i ∈ Finset.range h.next, if (h.cell i).any p then 1 else 0 := by
  rw [count, Finset.card_filter]

/-- Replacing one cell below `next` moves the count by the difference of the
two indicators. -/
private theorem sum_replace {n i : Nat} (hi : i < n) {f g : Nat → Nat}
    (hfg : ∀ j, j ≠ i → f j = g j) :
    (∑ j ∈ Finset.range n, f j) + g i = (∑ j ∈ Finset.range n, g j) + f i := by
  have hmem : i ∈ Finset.range n := Finset.mem_range.mpr hi
  have hrest : ∑ j ∈ (Finset.range n).erase i, f j = ∑ j ∈ (Finset.range n).erase i, g j :=
    Finset.sum_congr rfl fun j hj => hfg j (Finset.ne_of_mem_erase hj)
  rw [← Finset.add_sum_erase _ f hmem, ← Finset.add_sum_erase _ g hmem, hrest]
  omega

theorem count_alloc (h : Heap α) (a : α) (p : α → Bool) :
    (h.alloc a).count p = h.count p + if p a then 1 else 0 := by
  rw [count_eq_sum, count_eq_sum, next_alloc, Finset.sum_range_succ]
  congr 1
  · apply Finset.sum_congr rfl
    intro j hj
    have hne : j ≠ h.next := Nat.ne_of_lt (Finset.mem_range.mp hj)
    rw [cell_alloc, if_neg hne]
  · simp [cell_alloc]

theorem count_write {h : Heap α} {i : Nat} {old : α} (hi : h.cell i = some old) (a : α)
    (p : α → Bool) :
    (h.write i a).count p + (if p old then 1 else 0) = h.count p + if p a then 1 else 0 := by
  rw [count_eq_sum, count_eq_sum, next_write]
  have hswap := sum_replace (lt_next hi)
    (f := fun j => if ((h.write i a).cell j).any p then 1 else 0)
    (g := fun j => if (h.cell j).any p then 1 else 0)
    (fun j hj => by simp only [cell_write hi, if_neg hj])
  simpa [cell_write hi, hi] using hswap

theorem count_free {h : Heap α} {i : Nat} {old : α} (hi : h.cell i = some old) (p : α → Bool) :
    (h.free i).count p + (if p old then 1 else 0) = h.count p := by
  rw [count_eq_sum, count_eq_sum, next_free]
  have hswap := sum_replace (lt_next hi)
    (f := fun j => if ((h.free i).cell j).any p then 1 else 0)
    (g := fun j => if (h.cell j).any p then 1 else 0)
    (fun j hj => by simp only [cell_free, if_neg hj])
  simpa [cell_free, hi] using hswap

theorem count_map (f : α → α) (h : Heap α) (p : α → Bool) (hp : ∀ a, p (f a) = p a) :
    (h.map f).count p = h.count p := by
  unfold count
  congr 1
  apply Finset.filter_congr
  intro i _
  cases hi : h.cell i <;> simp [hi, hp]

theorem count_eq_zero {h : Heap α} {p : α → Bool} :
    h.count p = 0 ↔ ∀ i a, h.cell i = some a → p a = false := by
  unfold count
  rw [Finset.card_eq_zero, Finset.filter_eq_empty_iff]
  constructor
  · intro hall i a hi
    have := hall (Finset.mem_range.mpr (lt_next hi))
    simpa [hi] using this
  · intro hall i _
    cases hi : h.cell i with
    | none => simp
    | some a => simp [hall i a hi]

theorem count_pos {h : Heap α} {p : α → Bool} {i : Nat} {a : α} (hi : h.cell i = some a)
    (hp : p a = true) : 0 < h.count p := by
  rcases Nat.eq_zero_or_pos (h.count p) with hz | hpos
  · rw [count_eq_zero.mp hz i a hi] at hp
    cases hp
  · exact hpos

theorem count_congr {h h' : Heap α} (hcell : h'.cell = h.cell) (p : α → Bool) :
    h'.count p = h.count p := by
  unfold count
  congr 1
  ext i
  have hlt : (h.cell i).any p = true → i < h.next ∧ i < h'.next := by
    cases hi : h.cell i with
    | none => simp
    | some a => exact fun _ => ⟨lt_next hi, lt_next (hcell ▸ hi)⟩
  simp only [Finset.mem_filter, Finset.mem_range, hcell]
  constructor
  · rintro ⟨_, hp⟩
    exact ⟨(hlt hp).1, hp⟩
  · rintro ⟨_, hp⟩
    exact ⟨(hlt hp).2, hp⟩

theorem count_burn (h : Heap α) (p : α → Bool) : h.burn.count p = h.count p := by
  have hcell : h.burn.cell = h.cell := rfl
  exact count_congr hcell p

theorem count_fibers {β : Type} [Fintype β] [DecidableEq β] (h : Heap α) (f : α → β) :
    h.count (fun _ => true) = ∑ b, h.count fun a => f a == b := by
  simp only [count_eq_sum]
  rw [Finset.sum_comm]
  apply Finset.sum_congr rfl
  intro i _
  cases hi : h.cell i <;> simp

/-! ## Releases -/

theorem freedOnce_empty : (empty : Heap α).FreedOnce := by
  intro i
  simp [empty]

theorem FreedOnce.alloc {h : Heap α} (hf : h.FreedOnce) (a : α) : (h.alloc a).FreedOnce := by
  intro i
  change h.frees i = _
  rw [hf i, cell_alloc, next_alloc]
  by_cases hi : i = h.next
  · simp [hi]
  · simp only [if_neg hi]
    congr 1
    simp only [eq_iff_iff, and_congr_left_iff]
    omega

theorem FreedOnce.write {h : Heap α} (hf : h.FreedOnce) {i : Nat} {old : α}
    (hi : h.cell i = some old) (a : α) : (h.write i a).FreedOnce := by
  intro j
  change h.frees j = _
  rw [hf j, cell_write hi, next_write]
  by_cases hj : j = i
  · subst hj
    simp [hi]
  · rw [if_neg hj]

theorem FreedOnce.free {h : Heap α} (hf : h.FreedOnce) {i : Nat} {old : α}
    (hi : h.cell i = some old) : (h.free i).FreedOnce := by
  intro j
  rw [cell_free, next_free]
  by_cases hj : j = i
  · subst hj
    have hzero : h.frees j = 0 := by rw [hf j, hi]; simp
    simp [Heap.free, hzero, lt_next hi]
  · simp only [Heap.free, Function.update_of_ne hj, if_neg hj]
    exact hf j

end Heap

end Memtrade
