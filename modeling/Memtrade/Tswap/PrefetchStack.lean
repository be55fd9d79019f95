import Memtrade.Lib.BoundedStack
import Memtrade.Tswap.PrefetchRing

/-!
# The prefetch ring as a bounded stack

The slots from the head to the tail of the ring are a stack that forgets its oldest slot.
One cell of the array stays unused, so the stack has room for one slot less than the array.
The size is an `int` and a power of two, so `tail + size - 1` does not overflow.
-/

namespace Memtrade.Tswap.PrefetchRing

variable {size : Nat} {r : PrefetchRing} {st : List Slot}

/-- The slots from the head to the tail, the oldest first. -/
def contents (size : Nat) (r : PrefetchRing) : List Slot :=
  segment r.slots size r.head ((r.tail + size - r.head) % size)

/-- The ring under the pushes of stores and the pops of prefetch requests. A pop emits the
slot that it returns, `none` if the ring is empty. -/
def system (size : Nat) : System PrefetchRing (StackOp Slot) (Option Slot) where
  init r := r.head = 0 ∧ r.tail = 0
  step r op :=
    match op with
    | .push x => some (r.push size x, [])
    | .pop =>
        match r.pop size with
        | none => some (r, [none])
        | some (x, r') => some (r', [some x])

/-- The ring holds a list of slots. -/
structure Holds (size : Nat) (r : PrefetchRing) (st : List Slot) : Prop where
  head_lt : r.head < size
  length_lt : st.length < size
  tail_eq : r.tail = (r.head + st.length) % size
  slots_eq : segment r.slots size r.head st.length = st

theorem Holds.tail_lt (h : Holds size r st) : r.tail < size := by
  have hlt := h.head_lt
  rw [h.tail_eq]
  exact Nat.mod_lt _ (by omega)

theorem Holds.contents_eq (h : Holds size r st) : r.contents size = st := by
  have hhead := h.head_lt
  have hlength := h.length_lt
  have hcount : (r.tail + size - r.head) % size = st.length := by
    rw [h.tail_eq]
    by_cases hwrap : r.head + st.length < size
    · have hsum : r.head + st.length + size - r.head = st.length + size := by omega
      rw [Nat.mod_eq_of_lt hwrap, hsum, Nat.add_mod_right, Nat.mod_eq_of_lt hlength]
    · have hround : (r.head + st.length) % size = r.head + st.length - size := by
        rw [Nat.mod_eq_sub_mod (by omega), Nat.mod_eq_of_lt (by omega)]
      have hsum : r.head + st.length - size + size - r.head = st.length := by omega
      rw [hround, hsum, Nat.mod_eq_of_lt hlength]
  unfold contents
  rw [hcount]
  exact h.slots_eq

theorem Holds.tail_eq_head_iff (h : Holds size r st) : r.tail = r.head ↔ st = [] := by
  have hhead := h.head_lt
  constructor
  · intro heq
    have hround : (r.head + st.length) % size = (r.head + 0) % size := by
      rw [← h.tail_eq, heq, Nat.add_zero, Nat.mod_eq_of_lt hhead]
    have hzero := circular_inj h.length_lt (by omega) hround
    exact List.length_eq_zero_iff.mp hzero
  · intro hnil
    rw [h.tail_eq, hnil, List.length_nil, Nat.add_zero, Nat.mod_eq_of_lt hhead]

theorem Holds.next_eq_head_iff (h : Holds size r st) :
    (r.tail + 1) % size = r.head ↔ st.length = size - 1 := by
  have hhead := h.head_lt
  have hlength := h.length_lt
  have hnext : (r.tail + 1) % size = (r.head + (st.length + 1)) % size := by
    rw [h.tail_eq, Nat.mod_add_mod, Nat.add_assoc]
  rw [hnext]
  constructor
  · intro heq
    by_contra hroom
    have hround : (r.head + (st.length + 1)) % size = (r.head + 0) % size := by
      rw [heq, Nat.add_zero, Nat.mod_eq_of_lt hhead]
    have hzero := circular_inj (by omega) (by omega) hround
    omega
  · intro hfull
    have hsum : r.head + (st.length + 1) = r.head + size := by omega
    rw [hsum, Nat.add_mod_right, Nat.mod_eq_of_lt hhead]

theorem Holds.push_room (h : Holds size r st) (hroom : st.length + 1 < size) (x : Slot) :
    Holds size (r.push size x) (st ++ [x]) := by
  have hhead := h.head_lt
  have hkept : (r.push size x).head = r.head := by
    unfold PrefetchRing.push
    rw [if_neg (fun hfull => absurd (h.next_eq_head_iff.mp hfull) (by omega))]
  constructor
  · rw [hkept]
    exact hhead
  · rw [List.length_append, List.length_singleton]
    exact hroom
  · rw [hkept, List.length_append, List.length_singleton, ← Nat.add_assoc]
    change (r.tail + 1) % size = _
    rw [h.tail_eq, Nat.mod_add_mod]
  · rw [hkept, List.length_append, List.length_singleton]
    change segment (Function.update r.slots r.tail x) size r.head (st.length + 1) = _
    rw [h.tail_eq, segment_write h.length_lt, h.slots_eq]

theorem Holds.push_full (h : Holds size r st) (hsize : 2 ≤ size) (hfull : st.length = size - 1)
    (x : Slot) : Holds size (r.push size x) (st.tail ++ [x]) := by
  have hhead := h.head_lt
  have hnext := h.next_eq_head_iff.mpr hfull
  have hmoved : (r.push size x).head = (r.head + 1) % size := by
    unfold PrefetchRing.push
    rw [if_pos hnext]
  have hlength : (st.tail ++ [x]).length = size - 1 := by
    rw [List.length_append, List.length_tail, List.length_singleton]
    omega
  -- the tail is as far behind the new head as there are slots left
  have htail : r.tail = ((r.head + 1) % size + st.tail.length) % size := by
    rw [h.tail_eq, Nat.mod_add_mod, List.length_tail]
    congr 1
    omega
  constructor
  · rw [hmoved]
    exact Nat.mod_lt _ (by omega)
  · omega
  · have hround : r.head + 1 + (size - 1) = r.head + size := by omega
    rw [hmoved, hlength, Nat.mod_add_mod, hround, Nat.add_mod_right, Nat.mod_eq_of_lt hhead]
    exact hnext
  · have hold : segment r.slots size ((r.head + 1) % size) st.tail.length = st.tail := by
      rw [← segment_tail, List.length_tail, Nat.sub_add_cancel (by omega), h.slots_eq]
    rw [hmoved, List.length_append, List.length_singleton]
    change segment (Function.update r.slots r.tail x) size _ (st.tail.length + 1) = _
    rw [htail, segment_write (by rw [List.length_tail]; omega), hold]

theorem Holds.push (h : Holds size r st) (hsize : 2 ≤ size) (x : Slot) :
    Holds size (r.push size x) (BoundedStack.push (size - 1) st x) := by
  have hlength := h.length_lt
  unfold BoundedStack.push
  split
  · rename_i hfull
    exact h.push_full hsize hfull x
  · rename_i hroom
    exact h.push_room (by omega) x

theorem Holds.pop_nil (h : Holds size r []) : r.pop size = none := by
  unfold PrefetchRing.pop
  rw [if_pos (h.tail_eq_head_iff.mpr rfl)]

theorem Holds.pop_concat {x : Slot} (h : Holds size r (st ++ [x])) :
    ∃ r', r.pop size = some (x, r') ∧ Holds size r' st := by
  have hhead := h.head_lt
  have hlength := h.length_lt
  have hslots := h.slots_eq
  rw [List.length_append, List.length_singleton] at hlength hslots
  rw [segment_succ] at hslots
  have hparts := List.append_inj' hslots rfl
  have htail : (r.tail + size - 1) % size = (r.head + st.length) % size := by
    have hback : r.head + (st ++ [x]).length + (size - 1) = r.head + st.length + size := by
      rw [List.length_append, List.length_singleton]
      omega
    rw [Nat.add_sub_assoc (by omega), h.tail_eq, Nat.mod_add_mod, hback, Nat.add_mod_right]
  refine ⟨{ r with tail := (r.head + st.length) % size }, ?_, hhead, by omega, rfl, hparts.1⟩
  unfold PrefetchRing.pop
  rw [if_neg (fun hempty => by simpa using h.tail_eq_head_iff.mp hempty), htail]
  simp only [List.singleton_inj.mp hparts.2]

theorem Holds.step (h : Holds size r st) (hsize : 2 ≤ size) (op : StackOp Slot) :
    ∃ r' st' outs, (system size).step r op = some (r', outs) ∧
      (BoundedStack.system Slot (size - 1)).step st op = some (st', outs) ∧ Holds size r' st' := by
  cases op with
  | push x => exact ⟨_, _, [], rfl, rfl, h.push hsize x⟩
  | pop =>
      cases List.eq_nil_or_concat st with
      | inl hnil =>
          rw [hnil] at h ⊢
          refine ⟨r, [], [none], ?_, rfl, h⟩
          unfold system
          simp only [h.pop_nil]
      | inr hconcat =>
          obtain ⟨front, x, heq⟩ := hconcat
          rw [List.concat_eq_append] at heq
          rw [heq] at h ⊢
          obtain ⟨r', hpop, hholds⟩ := h.pop_concat
          refine ⟨r', front, [some x], ?_, ?_, hholds⟩
          · unfold system
            simp only [hpop]
          · simp [BoundedStack.system]

theorem holds_of_init (hsize : 2 ≤ size) (h : (system size).init r) : Holds size r [] where
  head_lt := by
    rw [h.1]
    omega
  length_lt := by
    rw [List.length_nil]
    omega
  tail_eq := by
    rw [h.1, h.2, List.length_nil, Nat.add_zero, Nat.zero_mod]
  slots_eq := rfl

theorem holds_run (hsize : 2 ≤ size) (hinit : (system size).init r) (ops : List (StackOp Slot)) :
    ∃ r' st outs, (system size).run r ops = some (r', outs) ∧
      (BoundedStack.system Slot (size - 1)).run [] ops = some (st, outs) ∧ Holds size r' st :=
  System.run_lockstep (fun _ _ op h => Holds.step h hsize op) (holds_of_init hsize hinit) ops

/-- Whatever is pushed and popped, the ring is a stack that holds at most `size - 1` slots
and forgets the oldest one: the pops return the same, and between the head and the tail are
the last of the slots that have been pushed and not yet popped. -/
theorem ring_refines_stack (hsize : 2 ≤ size) (hinit : (system size).init r)
    (ops : List (StackOp Slot)) :
    ∃ r' outs, (system size).run r ops = some (r', outs) ∧
      (BoundedStack.system Slot (size - 1)).run [] ops = some (r'.contents size, outs) ∧
      r'.contents size <:+ BoundedStack.unpopped [] ops ∧
      (r'.contents size).length ≤ size - 1 ∧
      (r'.pop size = none ↔ r'.contents size = []) ∧ r'.head < size ∧ r'.tail < size := by
  obtain ⟨r', st, outs, hring, hstack, hholds⟩ := holds_run hsize hinit ops
  have hlast := BoundedStack.run_suffix (by omega) hstack (Nat.zero_le _) (List.suffix_refl [])
  have hempty : r'.pop size = none ↔ st = [] := by
    rw [← hholds.tail_eq_head_iff]
    unfold PrefetchRing.pop
    by_cases htail : r'.tail = r'.head
    · simp [htail]
    · simp [htail]
  rw [← hholds.contents_eq] at hstack hlast hempty
  exact ⟨r', outs, hring, hstack, hlast.1, hlast.2, hempty, hholds.head_lt, hholds.tail_lt⟩

/-- Three slots are pushed on a ring that has room for two. -/
theorem ring_forgets_first :
    ∃ r', (system 3).run PrefetchRing.empty
        [.push ⟨0, 1⟩, .push ⟨0, 2⟩, .push ⟨0, 3⟩, .pop, .pop, .pop] =
          some (r', [some ⟨0, 3⟩, some ⟨0, 2⟩, none]) ∧ r'.contents 3 = [] := by
  have hinit : (system 3).init PrefetchRing.empty := ⟨rfl, rfl⟩
  obtain ⟨r', outs, hring, hstack, -⟩ := ring_refines_stack (by decide) hinit
    [.push ⟨0, 1⟩, .push ⟨0, 2⟩, .push ⟨0, 3⟩, .pop, .pop, .pop]
  have hevaluated : (BoundedStack.system Slot 2).run []
      [.push ⟨0, 1⟩, .push ⟨0, 2⟩, .push ⟨0, 3⟩, .pop, .pop, .pop] =
        some ([], [some ⟨0, 3⟩, some ⟨0, 2⟩, none]) := rfl
  rw [hevaluated, Option.some.injEq, Prod.mk.injEq] at hstack
  rw [← hstack.2] at hring
  exact ⟨r', hring, hstack.1.symm⟩

end Memtrade.Tswap.PrefetchRing
