import Memtrade.AvlTree.Iteration
import Mathlib.Data.Multiset.Basic

/-!
# The tree over whole runs

Every sequence of calls keeps the representation well formed, and what the
tree holds is a multiset that changes as the calls say. With duplicate keys a
removal takes out some element that compares equal to its argument; which one
depends on the shape of the tree, so the abstract step is a relation.
-/

namespace Memtrade.AvlTree

open BinaryTree

variable {T K : Type} [LinearOrder K]

theorem run_append (key : T → K) (ops : List (Op T)) (op : Op T) :
    run key (ops ++ [op]) = (run key ops).bind fun tree => apply key tree op := by
  simp [run, List.foldlM_append]

theorem WellFormed.apply {key : T → K} {tree : AvlTree T} {t : BinaryTree (Label T)}
    (h : WellFormed key tree t) (op : Op T) :
    ∃ tree' t', apply key tree op = some tree' ∧ WellFormed key tree' t' := by
  cases op with
  | insert value =>
      obtain ⟨tree', t', _, _, heq, hwf, -, -⟩ := h.insert value
      exact ⟨tree', t', heq, hwf⟩
  | remove value =>
      obtain ⟨tree', t', heq, hwf, -⟩ := h.remove value
      exact ⟨tree', t', heq, hwf⟩

theorem wellFormed_empty (key : T → K) : WellFormed key empty nil where
  holds := ⟨trivial, rfl, List.nodup_nil⟩
  ordered := trivial
  balanced := trivial
  count := rfl

theorem exists_wellFormed (key : T → K) (ops : List (Op T)) :
    ∃ tree t, run key ops = some tree ∧ WellFormed key tree t := by
  induction ops using List.reverseRecOn with
  | nil => exact ⟨empty, nil, rfl, wellFormed_empty key⟩
  | append_singleton ops op ih =>
      obtain ⟨tree, t, hrun, hwf⟩ := ih
      obtain ⟨tree', t', happ, hwf'⟩ := hwf.apply op
      exact ⟨tree', t', by rw [run_append, hrun, Option.bind_some, happ], hwf'⟩

/-- Every run of insertions and removals ends, without a null dereference, in a
balanced search tree `t` that the heap holds exactly: child links, parent
pointers (null at the root), cached heights and sizes. -/
theorem run_wellFormed (key : T → K) (ops : List (Op T)) :
    ∃ tree t, run key ops = some tree ∧ tree.root = ptr t ∧ Rep tree.load none t ∧
      (ids t).Nodup ∧ (t.Ordered fun x => key x.2) ∧ t.Balanced ∧
      tree.numNodes = t.numNodes := by
  obtain ⟨tree, t, hrun, hwf⟩ := exists_wellFormed key ops
  have hnodup : (ids t).Nodup := by simpa [ctxIds] using hwf.holds.nodup
  exact ⟨tree, t, hrun, hwf.holds.path, hwf.holds.rep, hnodup, hwf.ordered, hwf.balanced,
    hwf.count⟩

/-! ## The abstract sorted multiset -/

/-- What a call may do to the multiset. -/
def MultisetStep (key : T → K) (m : Multiset T) : Op T → Multiset T → Prop
  | .insert value, m' => m' = value ::ₘ m
  | .remove value, m' =>
      (∃ w, key w = key value ∧ m = w ::ₘ m') ∨ ((∀ w ∈ m, key w ≠ key value) ∧ m' = m)

/-- The multiset a run has built, as an iterator shows it. -/
def contents (key : T → K) (ops : List (Op T)) : Multiset T :=
  (((run key ops).bind elements).getD [] : List T)

theorem WellFormed.multisetStep {key : T → K} {tree : AvlTree T} {t : BinaryTree (Label T)}
    (h : WellFormed key tree t) (op : Op T) :
    ∃ tree' t', AvlTree.apply key tree op = some tree' ∧ WellFormed key tree' t' ∧
      MultisetStep key (values t) op (values t') := by
  cases op with
  | insert value =>
      obtain ⟨tree', t', pre, post, heq, hwf, hold, hnew⟩ := h.insert value
      refine ⟨tree', t', heq, hwf, ?_⟩
      rw [MultisetStep, hold, hnew, Multiset.cons_coe, Multiset.coe_eq_coe]
      exact List.perm_middle
  | remove value =>
      obtain ⟨tree', t', heq, hwf, ⟨pre, w, post, hold, hw, hnew⟩ | ⟨habs, rfl, rfl⟩⟩ :=
        h.remove value
      · refine ⟨tree', t', heq, hwf, Or.inl ⟨w, hw, ?_⟩⟩
        rw [hold, hnew, Multiset.cons_coe, Multiset.coe_eq_coe]
        exact List.perm_middle
      · exact ⟨tree', t', heq, hwf, Or.inr ⟨habs, rfl⟩⟩

theorem contents_eq {key : T → K} {ops : List (Op T)} {tree : AvlTree T}
    {t : BinaryTree (Label T)} (hrun : run key ops = some tree) (h : WellFormed key tree t) :
    contents key ops = (values t : Multiset T) := by
  simp [contents, hrun, h.holds.elements]

theorem contents_step (key : T → K) (ops : List (Op T)) (op : Op T) :
    MultisetStep key (contents key ops) op (contents key (ops ++ [op])) := by
  obtain ⟨tree, t, hrun, hwf⟩ := exists_wellFormed key ops
  obtain ⟨tree', t', happ, hwf', hstep⟩ := hwf.multisetStep op
  have hrun' : run key (ops ++ [op]) = some tree' := by
    rw [run_append, hrun, Option.bind_some, happ]
  rw [contents_eq hrun hwf, contents_eq hrun' hwf']
  exact hstep

/-- The tree refines a sorted multiset: its contents start empty and change as
each call says, `size` is their number, and an iterator yields each of them as
often as it occurs, in order, and stops. -/
theorem refines_multiset (key : T → K) :
    contents key [] = 0 ∧
      (∀ ops op, MultisetStep key (contents key ops) op (contents key (ops ++ [op]))) ∧
      ∀ ops, ∃ tree l, run key ops = some tree ∧ tree.size = (contents key ops).card ∧
        elements tree = some l ∧ (l : Multiset T) = contents key ops ∧
        l.Pairwise fun a b => key a ≤ key b := by
  refine ⟨rfl, contents_step key, ?_⟩
  intro ops
  obtain ⟨tree, t, hrun, hwf⟩ := exists_wellFormed key ops
  refine ⟨tree, values t, hrun, ?_, hwf.holds.elements, (contents_eq hrun hwf).symm,
    ordered_iff_values.mp hwf.ordered⟩
  rw [contents_eq hrun hwf, Multiset.coe_card, length_values]
  exact hwf.count

end Memtrade.AvlTree
