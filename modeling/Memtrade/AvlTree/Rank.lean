import Memtrade.AvlTree.Refinement

/-!
# Rank queries

`count_less` walks down one path and adds up cached sizes. With `with_equal` it
stops at the first node that compares equal, so it misses equal elements in the
right subtree of that node; rotations put them there when values repeat.
-/

namespace Memtrade.AvlTree

open BinaryTree

variable {T K : Type} [LinearOrder K]

section Keys

variable {α : Type} (key : α → K) (v : K)

/-- The test for what `count_less` is to count. -/
def counted (withEqual : Bool) (y : α) : Bool :=
  if withEqual then key y ≤ v else key y < v

/-- The equal elements to the right of a topmost equal node. -/
def hiddenEqual : BinaryTree α → Nat
  | nil => 0
  | node x l r =>
      if key x = v then
        r.inorder.countP fun y => key y = v
      else
        hiddenEqual l + hiddenEqual r

/-- A node equal to `v` with no equal node above it has no equal element to its
right. -/
def TopmostEqualIsLast : BinaryTree α → Prop
  | nil => True
  | node x l r =>
      if key x = v then
        ∀ y ∈ r.inorder, key y ≠ v
      else
        TopmostEqualIsLast l ∧ TopmostEqualIsLast r

variable {key v}

theorem topmostEqualIsLast_iff {t : BinaryTree α} :
    TopmostEqualIsLast key v t ↔ hiddenEqual key v t = 0 := by
  induction t with
  | nil => simp [TopmostEqualIsLast, hiddenEqual]
  | node x l r ihl ihr =>
      unfold TopmostEqualIsLast hiddenEqual
      split
      · simp
      · rw [ihl, ihr]
        omega

theorem hiddenEqual_eq_zero {t : BinaryTree α} (h : ∀ y ∈ t.inorder, key y ≠ v) :
    hiddenEqual key v t = 0 := by
  induction t with
  | nil => rfl
  | node x l r ihl ihr =>
      simp only [inorder_node, List.mem_append, List.mem_cons] at h
      have hx : key x ≠ v := h x (Or.inr (Or.inl rfl))
      have hl := ihl fun y hy => h y (Or.inl hy)
      have hr := ihr fun y hy => h y (Or.inr (Or.inr hy))
      rw [hiddenEqual, if_neg hx, hl, hr]

theorem countP_counted_node (withEqual : Bool) (x : α) (l r : BinaryTree α) :
    (node x l r).inorder.countP (counted key v withEqual) =
      l.inorder.countP (counted key v withEqual) + r.inorder.countP (counted key v withEqual) +
        if counted key v withEqual x then 1 else 0 := by
  rw [inorder_node, List.countP_append, List.countP_cons]
  omega

theorem countP_counted_of_lt (withEqual : Bool) {t : BinaryTree α}
    (h : ∀ y ∈ t.inorder, key y < v) :
    t.inorder.countP (counted key v withEqual) = t.numNodes := by
  rw [← length_inorder, List.countP_eq_length]
  intro y hy
  cases withEqual
  · simpa [counted] using h y hy
  · simpa [counted] using (h y hy).le

theorem countP_counted_of_gt (withEqual : Bool) {t : BinaryTree α}
    (h : ∀ y ∈ t.inorder, v < key y) :
    t.inorder.countP (counted key v withEqual) = 0 := by
  rw [List.countP_eq_zero]
  intro y hy
  cases withEqual
  · simpa [counted] using (h y hy).le
  · simpa [counted] using h y hy

/-! The rank that the walk finds, by the outcome of the comparison at the root. -/

variable (key v) in
/-- The rank less the hidden elements. -/
def foundRank (withEqual : Bool) (t : BinaryTree α) : Int :=
  t.inorder.countP (counted key v withEqual) - if withEqual then hiddenEqual key v t else 0

variable {x : α} {l r : BinaryTree α}

theorem foundRank_node_of_eq (h : (node x l r).Ordered key) (hx : key x = v) :
    foundRank key v true (node x l r) = 1 + l.numNodes := by
  obtain ⟨hlx, hxr, -, -⟩ := h
  have hl : l.inorder.countP (counted key v true) = l.numNodes := by
    rw [← length_inorder, List.countP_eq_length]
    intro y hy
    simpa [counted, hx] using hlx y hy
  have hr : r.inorder.countP (counted key v true) = r.inorder.countP fun y => key y = v := by
    apply List.countP_congr
    intro y hy
    have hle : v ≤ key y := hx ▸ hxr y hy
    simp [counted, le_antisymm_iff, hle]
  rw [foundRank, countP_counted_node, hl, hr, hiddenEqual, if_pos hx]
  simp only [counted, hx, le_refl, decide_true, if_true]
  omega

theorem foundRank_node_of_eq_strict (h : (node x l r).Ordered key) (hx : key x = v) :
    foundRank key v false (node x l r) = foundRank key v false l := by
  obtain ⟨-, hxr, -, -⟩ := h
  have hr : r.inorder.countP (counted key v false) = 0 := by
    rw [List.countP_eq_zero]
    intro y hy
    simpa [counted, hx] using hxr y hy
  simp [foundRank, List.countP_append, hr, counted, hx]

theorem foundRank_node_of_lt (withEqual : Bool) (h : (node x l r).Ordered key)
    (hx : key x < v) :
    foundRank key v withEqual (node x l r) = 1 + l.numNodes + foundRank key v withEqual r := by
  obtain ⟨hlx, -, -, -⟩ := h
  have hlv : ∀ y ∈ l.inorder, key y < v := fun y hy => lt_of_le_of_lt (hlx y hy) hx
  have hhid : hiddenEqual key v (node x l r) = hiddenEqual key v r := by
    rw [hiddenEqual, if_neg hx.ne, hiddenEqual_eq_zero fun y hy => (hlv y hy).ne, Nat.zero_add]
  have hone : counted key v withEqual x = true := by
    cases withEqual
    · simpa [counted] using hx
    · simpa [counted] using hx.le
  rw [foundRank, foundRank, countP_counted_node, countP_counted_of_lt withEqual hlv, hhid,
    if_pos hone]
  omega

theorem foundRank_node_of_gt (withEqual : Bool) (h : (node x l r).Ordered key)
    (hx : v < key x) :
    foundRank key v withEqual (node x l r) = foundRank key v withEqual l := by
  obtain ⟨-, hxr, -, -⟩ := h
  have hrv : ∀ y ∈ r.inorder, v < key y := fun y hy => lt_of_lt_of_le hx (hxr y hy)
  have hhid : hiddenEqual key v (node x l r) = hiddenEqual key v l := by
    rw [hiddenEqual, if_neg hx.ne', hiddenEqual_eq_zero fun y hy => (hrv y hy).ne', Nat.add_zero]
  have hnone : ¬ counted key v withEqual x = true := by
    cases withEqual
    · simpa [counted] using hx.le
    · simpa [counted] using hx
  rw [foundRank, foundRank, countP_counted_node, countP_counted_of_gt withEqual hrv, hhid,
    if_neg hnone, Nat.add_zero]

end Keys

/-! ## The walk -/

variable {tree : AvlTree T}

theorem Rep.countLessFrom_eq (key : T → K) (value : T) (withEqual : Bool)
    {parent : Option NodeId} {t : BinaryTree (Label T)} {fuel : Nat}
    (h : Rep tree.load parent t) (hord : t.Ordered fun x => key x.2) (hfuel : t.height ≤ fuel)
    (counter : Int) :
    AvlTree.countLessFrom key tree value withEqual fuel (ptr t) counter =
      some (counter + foundRank (fun x => key x.2) (key value) withEqual t) := by
  induction t generalizing parent fuel counter with
  | nil => cases fuel <;> simp [AvlTree.countLessFrom, ptr, foundRank, hiddenEqual]
  | node x l r ihl ihr =>
      have hroot := hord
      obtain ⟨hx, hl, hr⟩ := h
      obtain ⟨-, -, hlo, hro⟩ := hord
      simp only [height] at hfuel
      obtain ⟨fuel, rfl⟩ := Nat.exists_eq_add_of_le' (show 1 ≤ fuel by omega)
      have hleft : l.height ≤ fuel := by omega
      have hright : r.height ≤ fuel := by omega
      simp only [ptr_node, AvlTree.countLessFrom, hx, countLeft, fieldOr0_numNodes hl,
        Option.bind_eq_bind, Option.bind_some, Option.map_some]
      rcases lt_trichotomy (key x.2) (key value) with hlt | heq | hgt
      · rw [if_neg hlt.ne', if_pos hlt, ihr hr hro hright, foundRank_node_of_lt _ hroot hlt]
        congr 1
        omega
      · rw [if_pos heq.symm]
        cases withEqual with
        | true => rw [if_pos rfl, foundRank_node_of_eq hroot heq]
        | false =>
            rw [if_neg Bool.false_ne_true, ihl hl hlo hleft, foundRank_node_of_eq_strict hroot heq]
      · rw [if_neg hgt.ne, if_neg hgt.le.not_gt, ihl hl hlo hleft, foundRank_node_of_gt _ hroot hgt]

/-- The two queries in terms of what the tree holds. -/
theorem WellFormed.countLess_eq {key : T → K} {t : BinaryTree (Label T)}
    (h : WellFormed key tree t) (value : T) (withEqual : Bool) :
    countLess key tree value withEqual =
      some (foundRank (fun x => key x.2) (key value) withEqual t) := by
  have hroot : tree.root = ptr t := h.holds.path
  have hheight : t.height ≤ tree.heap.next := Focus.height_le_next h.holds
  rw [countLess, hroot, h.holds.rep.countLessFrom_eq key value withEqual h.ordered hheight,
    Int.zero_add]

theorem WellFormed.countGreater_eq {key : T → K} {t : BinaryTree (Label T)}
    (h : WellFormed key tree t) (value : T) (withEqual : Bool) :
    countGreater key tree value withEqual =
      some (t.numNodes - foundRank (fun x => key x.2) (key value) (!withEqual) t) := by
  rw [countGreater, h.countLess_eq, Option.map_some, h.count]

private theorem countP_values (key : T → K) (value : T) (withEqual : Bool)
    (t : BinaryTree (Label T)) :
    t.inorder.countP (counted (fun x => key x.2) (key value) withEqual) =
      (values t).countP (counted key (key value) withEqual) := by
  rw [values, List.countP_map]
  rfl

/-- The four rank queries on a tree that holds `m`. -/
structure RanksExact (key : T → K) (tree : AvlTree T) (m : Multiset T) (value : T) : Prop where
  less : countLess key tree value false = some ↑(m.countP fun w => key w < key value)
  lessEqual : countLess key tree value true = some ↑(m.countP fun w => key w ≤ key value)
  greater : countGreater key tree value false = some ↑(m.countP fun w => key w > key value)
  greaterEqual : countGreater key tree value true = some ↑(m.countP fun w => key w ≥ key value)

/-- The queries that do not stop at an equal node are always right, the other
two miss the hidden elements. -/
theorem WellFormed.ranks {key : T → K} {t : BinaryTree (Label T)} (h : WellFormed key tree t)
    (value : T) :
    RanksExact key tree (values t) value ↔
      TopmostEqualIsLast (fun x => key x.2) (key value) t := by
  have hlt : ((values t : Multiset T).countP fun w => key w < key value) =
      t.inorder.countP (counted (fun x => key x.2) (key value) false) := by
    rw [countP_values, Multiset.coe_countP]
    rfl
  have hle : ((values t : Multiset T).countP fun w => key w ≤ key value) =
      t.inorder.countP (counted (fun x => key x.2) (key value) true) := by
    rw [countP_values, Multiset.coe_countP]
    rfl
  have hcard : (values t : Multiset T).card = t.numNodes := length_values t
  have hge := (values t : Multiset T).card_eq_countP_add_countP fun w => key w < key value
  have hgt := (values t : Multiset T).card_eq_countP_add_countP fun w => key w ≤ key value
  simp only [not_lt] at hge
  simp only [not_le] at hgt
  rw [topmostEqualIsLast_iff]
  constructor
  · intro hexact
    have heq := hexact.lessEqual
    rw [h.countLess_eq, hle, Option.some.injEq, foundRank, if_pos rfl] at heq
    omega
  · intro hnone
    constructor
    · rw [h.countLess_eq, hlt]
      simp [foundRank]
    · rw [h.countLess_eq, hle]
      simp [foundRank, hnone]
    · rw [h.countGreater_eq, Option.some.injEq, foundRank, Bool.not_false, if_pos rfl, hnone]
      show _ = (((values t : Multiset T).countP fun w => key value < key w : Nat) : Int)
      omega
    · rw [h.countGreater_eq, Option.some.injEq, foundRank, Bool.not_true,
        if_neg Bool.false_ne_true]
      show _ = (((values t : Multiset T).countP fun w => key value ≤ key w : Nat) : Int)
      omega

/-- After any run of calls the rank queries for a value are right exactly when
the topmost element equal to it is the last of them in order. -/
theorem run_ranksExact_iff (key : T → K) (ops : List (Op T)) (value : T) :
    ∃ tree t, run key ops = some tree ∧ Holds tree t ∧
      (RanksExact key tree (contents key ops) value ↔
        TopmostEqualIsLast (fun x => key x.2) (key value) t) := by
  obtain ⟨tree, t, hrun, hwf⟩ := exists_wellFormed key ops
  refine ⟨tree, t, hrun, hwf.holds, ?_⟩
  rw [contents_eq hrun hwf]
  exact hwf.ranks value

/-- Three equal values: the rotation after the third insertion leaves one of
them in the right subtree of the root. -/
theorem not_ranksExact_three_equal :
    ¬ ∀ (ops : List (Op Nat)) (value : Nat), ∃ tree, run id ops = some tree ∧
      RanksExact id tree (contents id ops) value := by
  intro hall
  obtain ⟨tree, hrun, hexact⟩ := hall [.insert 1, .insert 1, .insert 1] 1
  have hless := hexact.lessEqual
  have hfound : (run id [Op.insert 1, .insert 1, .insert 1]).bind
      (fun tree => countLess id tree 1 true) = some 2 := by decide +kernel
  rw [hrun, Option.bind_some, hless] at hfound
  have hcount : (contents id [Op.insert 1, .insert 1, .insert 1]).countP (fun w => w ≤ 1) = 3 := by
    decide +kernel
  simp only [id_eq, hcount] at hfound
  cases hfound

end Memtrade.AvlTree
