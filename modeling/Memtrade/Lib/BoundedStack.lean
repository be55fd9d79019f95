import Mathlib.Data.List.Infix
import Mathlib.Data.Nat.ModEq
import Memtrade.Lib.System

/-!
# Bounded stacks and circular segments

A bounded stack forgets its oldest element when it is full and one more is pushed. The list
of its elements has the oldest one in front. A circular array holds such a list in the cells
from a head on, with the indices taken modulo the size.
-/

namespace Memtrade

variable {α : Type}

inductive StackOp (α : Type) where
  | push (x : α)
  | pop
deriving DecidableEq, Repr

namespace BoundedStack

def push (cap : Nat) (st : List α) (x : α) : List α :=
  (if st.length = cap then st.tail else st) ++ [x]

/-- A stack of at most `cap` elements. A pop emits what it returns, `none` if the stack is
empty. -/
def system (α : Type) (cap : Nat) : System (List α) (StackOp α) (Option α) where
  init st := st = []
  step st op :=
    match op with
    | .push x => some (push cap st x, [])
    | .pop => some (st.dropLast, [st.getLast?])

/-- What has been pushed and not yet popped, if nothing is forgotten. -/
def unpopped (all : List α) : List (StackOp α) → List α
  | [] => all
  | .push x :: ops => unpopped (all ++ [x]) ops
  | .pop :: ops => unpopped all.dropLast ops

theorem length_push_le {cap : Nat} (hcap : 1 ≤ cap) {st : List α} (h : st.length ≤ cap) (x : α) :
    (push cap st x).length ≤ cap := by
  unfold push
  split
  · rw [List.length_append, List.length_tail, List.length_singleton]
    omega
  · rw [List.length_append, List.length_singleton]
    omega

theorem push_suffix (cap : Nat) {st all : List α} (h : st <:+ all) (x : α) :
    push cap st x <:+ all ++ [x] := by
  unfold push
  rw [List.suffix_append_self_iff]
  split
  · exact (List.tail_suffix st).trans h
  · exact h

theorem dropLast_suffix_dropLast {st all : List α} (h : st <:+ all) :
    st.dropLast <:+ all.dropLast := by
  cases st with
  | nil => exact List.nil_suffix
  | cons x st =>
      obtain ⟨front, heq⟩ := h
      refine ⟨front, ?_⟩
      rw [← heq, List.dropLast_append_of_ne_nil (List.cons_ne_nil x st)]

/-- The stack holds the last ones of what has been pushed and not yet popped, at most
`cap` of them. -/
theorem run_suffix {cap : Nat} (hcap : 1 ≤ cap) {st st' all : List α} {outs : List (Option α)}
    {ops : List (StackOp α)} (hrun : (system α cap).run st ops = some (st', outs))
    (hlen : st.length ≤ cap) (hsuffix : st <:+ all) :
    st' <:+ unpopped all ops ∧ st'.length ≤ cap := by
  induction ops generalizing st all outs with
  | nil =>
      cases hrun
      exact ⟨hsuffix, hlen⟩
  | cons op ops ih =>
      obtain ⟨st₁, outs₁, outs₂, hs, hrest, -⟩ := System.run_cons hrun
      cases op with
      | push x =>
          cases hs
          exact ih hrest (length_push_le hcap hlen x) (push_suffix cap hsuffix x)
      | pop =>
          cases hs
          have hshorter : st.dropLast.length ≤ cap := by
            rw [List.length_dropLast]
            omega
          exact ih hrest hshorter (dropLast_suffix_dropLast hsuffix)

end BoundedStack

/-! ## Circular segments -/

/-- The `len` cells of a circular array from `head` on. -/
def segment (cells : Nat → α) (size head len : Nat) : List α :=
  (List.range len).map fun i => cells ((head + i) % size)

section Segment

variable {cells : Nat → α} {size head len : Nat}

theorem segment_succ : segment cells size head (len + 1) =
    segment cells size head len ++ [cells ((head + len) % size)] := by
  unfold segment
  rw [List.range_succ, List.map_append, List.map_singleton]

theorem segment_tail : (segment cells size head (len + 1)).tail =
    segment cells size ((head + 1) % size) len := by
  unfold segment
  rw [List.range_succ_eq_map, List.map_cons, List.tail_cons, List.map_map]
  apply List.map_congr_left
  intro i _
  rw [Function.comp_apply, Nat.mod_add_mod, Nat.succ_eq_add_one, Nat.add_right_comm head 1 i,
    Nat.add_assoc]

/-- Less than one round from the head, different distances are different cells. -/
theorem circular_inj {i j : Nat} (hi : i < size) (hj : j < size)
    (h : (head + i) % size = (head + j) % size) : i = j := by
  have hmod : i % size = j % size := Nat.ModEq.add_left_cancel' head h
  rwa [Nat.mod_eq_of_lt hi, Nat.mod_eq_of_lt hj] at hmod

theorem segment_write (hlen : len < size) (x : α) :
    segment (Function.update cells ((head + len) % size) x) size head (len + 1) =
      segment cells size head len ++ [x] := by
  have hfront : segment (Function.update cells ((head + len) % size) x) size head len =
      segment cells size head len := by
    unfold segment
    apply List.map_congr_left
    intro i hi
    have hlt := List.mem_range.mp hi
    apply Function.update_of_ne
    intro heq
    have hsame := circular_inj (by omega) hlen heq
    omega
  rw [segment_succ, hfront, Function.update_self]

end Segment

end Memtrade
