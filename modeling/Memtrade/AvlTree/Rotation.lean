import Memtrade.AvlTree.Represent
import Memtrade.Lib.BalancedTree

/-!
# Rotations and `balance` on a focus

The pointer code simulates the repair of `Memtrade.Lib.BalancedTree`: a call of
`balance` at the parent of an exact subtree turns the tree into `climb` of that
subtree, and touches nothing else.
-/

namespace Memtrade.AvlTree

open BinaryTree

variable {T : Type} {tree : AvlTree T}

/-! ## Single assignments -/

/-- `tree'` differs from `tree` in the cell `i`, which now holds `n`. -/
structure Stored (tree tree' : AvlTree T) (i : NodeId) (n : AvlTreeNode T) : Prop where
  load : tree'.load = Function.update tree.load i (some n)
  root : tree'.root = tree.root
  numNodes : tree'.numNodes = tree.numNodes

theorem Stored.load_self {tree' : AvlTree T} {i : NodeId} {n : AvlTreeNode T}
    (h : Stored tree tree' i n) : tree'.load i = some n := by
  rw [h.load, Function.update_self]

theorem Stored.load_of_ne {tree' : AvlTree T} {i j : NodeId} {n : AvlTreeNode T}
    (h : Stored tree tree' i n) (hj : j ≠ i) : tree'.load j = tree.load j := by
  rw [h.load, Function.update_of_ne hj]

theorem modify_eq {i : NodeId} {n : AvlTreeNode T} (hi : tree.load i = some n)
    (f : AvlTreeNode T → AvlTreeNode T) :
    ∃ tree', tree.modify i f = some tree' ∧ Stored tree tree' i (f n) := by
  refine ⟨{ tree with heap := tree.heap.write i (f n) }, ?_, ?_, rfl, rfl⟩
  · simp only [modify, hi, Option.bind_eq_bind, Option.bind_some]
  funext j
  have hcell : tree.heap.cell i = some n := hi
  show (tree.heap.write i (f n)).cell j = _
  rw [Heap.cell_write hcell, Function.update_apply]
  rfl

theorem fieldOr0_height {parent : Option NodeId} {t : BinaryTree (Label T)}
    (h : Rep tree.load parent t) : tree.fieldOr0 (·.height) (ptr t) = some (t.height : Int) := by
  cases t with
  | nil => rfl
  | node x l r => simp [fieldOr0, ptr, h.1]

theorem fieldOr0_numNodes {parent : Option NodeId} {t : BinaryTree (Label T)}
    (h : Rep tree.load parent t) :
    tree.fieldOr0 (·.numNodes) (ptr t) = some (t.numNodes : Int) := by
  cases t with
  | nil => rfl
  | node x l r => simp [fieldOr0, ptr, h.1]

/-! ## update_meta -/

private theorem updateHeight_node {x : Label T} {l r : BinaryTree (Label T)} {n : AvlTreeNode T}
    (hn : tree.load x.1 = some n) (hlinks : n.Links .left x.2 (ptr l) (ptr r) parent)
    (hl : Rep tree.load (some x.1) l) (hr : Rep tree.load (some x.1) r) :
    ∃ tree', tree.updateHeight x.1 = some tree' ∧
      Stored tree tree' x.1 { n with height := (node x l r).height } := by
  obtain ⟨tree', heq, hst⟩ :=
    modify_eq hn fun n => { n with height := max (max 0 (l.height : Int)) r.height + 1 }
  have hleft : n.left = ptr l := hlinks.near
  have hright : n.right = ptr r := hlinks.far
  have hheight : max (max 0 (l.height : Int)) r.height + 1 = (node x l r).height := by
    simp only [height]
    omega
  refine ⟨tree', ?_, by rw [← hheight]; exact hst⟩
  simp only [updateHeight, hn, hleft, hright, fieldOr0_height hl, fieldOr0_height hr,
    Option.bind_eq_bind, Option.bind_some]
  exact heq

private theorem updateNumNodes_node {x : Label T} {l r : BinaryTree (Label T)} {n : AvlTreeNode T}
    (hn : tree.load x.1 = some n) (hlinks : n.Links .left x.2 (ptr l) (ptr r) parent)
    (hl : Rep tree.load (some x.1) l) (hr : Rep tree.load (some x.1) r) :
    ∃ tree', tree.updateNumNodes x.1 = some tree' ∧
      Stored tree tree' x.1 { n with numNodes := (node x l r).numNodes } := by
  obtain ⟨tree', heq, hst⟩ :=
    modify_eq hn fun n => { n with numNodes := 1 + (l.numNodes : Int) + r.numNodes }
  have hleft : n.left = ptr l := hlinks.near
  have hright : n.right = ptr r := hlinks.far
  have hsize : 1 + (l.numNodes : Int) + r.numNodes = (node x l r).numNodes := by
    simp only [BinaryTree.numNodes]
    omega
  refine ⟨tree', ?_, by rw [← hsize]; exact hst⟩
  simp only [updateNumNodes, hn, hleft, hright, fieldOr0_numNodes hl, fieldOr0_numNodes hr,
    Option.bind_eq_bind, Option.bind_some]
  exact heq

private theorem updateMeta_node {parent : Option NodeId} {x : Label T}
    {l r : BinaryTree (Label T)} {n : AvlTreeNode T} (hn : tree.load x.1 = some n)
    (hlinks : n.Links .left x.2 (ptr l) (ptr r) parent) (hl : Rep tree.load (some x.1) l)
    (hr : Rep tree.load (some x.1) r) (hxl : x.1 ∉ ids l) (hxr : x.1 ∉ ids r) :
    ∃ tree', tree.updateMeta x.1 = some tree' ∧ Rep tree'.load parent (node x l r) ∧
      (∀ i, i ≠ x.1 → tree'.load i = tree.load i) ∧ tree'.root = tree.root ∧
      tree'.numNodes = tree.numNodes := by
  obtain ⟨tree₁, heq₁, hst₁⟩ := updateHeight_node hn hlinks hl hr
  have hkeep₁ : ∀ {u : BinaryTree (Label T)}, x.1 ∉ ids u → ∀ i ∈ ids u,
      tree₁.load i = tree.load i := by
    intro u hxu i hi
    exact hst₁.load_of_ne fun heq => hxu (heq ▸ hi)
  obtain ⟨tree₂, heq₂, hst₂⟩ := updateNumNodes_node (x := x) hst₁.load_self
    ⟨hlinks.value, hlinks.near, hlinks.far, hlinks.parent⟩
    (hl.congr (hkeep₁ hxl)) (hr.congr (hkeep₁ hxr))
  have hkeep : ∀ i, i ≠ x.1 → tree₂.load i = tree.load i := by
    intro i hi
    rw [hst₂.load_of_ne hi, hst₁.load_of_ne hi]
  refine ⟨tree₂, by simp [updateMeta, heq₁, heq₂], ⟨?_, hl.congr ?_, hr.congr ?_⟩, hkeep,
    hst₂.root.trans hst₁.root, hst₂.numNodes.trans hst₁.numNodes⟩
  · obtain ⟨v, l', r', p, h, s⟩ := n
    obtain ⟨rfl, rfl, rfl, rfl⟩ := hlinks
    exact hst₂.load_self
  · intro i hi
    exact hkeep i fun heq => hxl (heq ▸ hi)
  · intro i hi
    exact hkeep i fun heq => hxr (heq ▸ hi)

/-- `update_meta` at the parent of an exact subtree makes the parent exact. -/
theorem Focus.updateMeta {t : BinaryTree (Label T)} {f : Frame (Label T)}
    {ctx : List (Frame (Label T))} (h : Focus tree t (f :: ctx)) :
    ∃ tree', tree.updateMeta f.value.1 = some tree' ∧ Focus tree' (f.attach t) ctx ∧
      tree'.numNodes = tree.numNodes := by
  obtain ⟨d, x, u⟩ := f
  obtain ⟨hrep, ⟨⟨n, hn, hlinks⟩, hsib, hpath⟩, hnd⟩ := h
  have hattach := Focus.nodup_attach hnd
  have hnd' := hnd
  simp only [ctxIds, List.cons_append, List.nodup_append, List.nodup_cons, List.mem_append,
    List.mem_cons] at hnd'
  have hxt : x.1 ∉ ids t := fun hx => hnd'.2.2 x.1 hx x.1 (Or.inl rfl) rfl
  have hxu : x.1 ∉ ids u := fun hx => hnd'.2.1.1 (Or.inl hx)
  have hxctx : x.1 ∉ ctxIds ctx := fun hx => hnd'.2.1.1 (Or.inr hx)
  -- the source reads the left child first, whichever side the focus is on
  have hmeta : ∃ tree', tree.updateMeta x.1 = some tree' ∧
      Rep tree'.load (top ctx) (fork d x t u) ∧ (∀ i, i ≠ x.1 → tree'.load i = tree.load i) ∧
      tree'.root = tree.root ∧ tree'.numNodes = tree.numNodes := by
    cases d with
    | left => exact updateMeta_node hn hlinks hrep hsib hxt hxu
    | right => exact updateMeta_node hn hlinks.flip hsib hrep hxu hxt
  obtain ⟨tree', heq, hrep', hkeep, hroot, hnum⟩ := hmeta
  refine ⟨tree', heq, ⟨hrep', ?_, hattach⟩, hnum⟩
  rw [hroot, Frame.attach, ptr_fork]
  refine hpath.congr ?_
  intro i hi
  exact hkeep i fun heq => hxctx (heq ▸ hi)

/-! ## Links to a subtree -/

theorem replaceChild_eq {node : NodeId} {ctx : List (Frame (Label T))}
    (h : RepCtx tree.load tree.root (some node) ctx) (hnode : node ∉ ctxIds ctx)
    (hnd : (ctxIds ctx).Nodup) (new : Option NodeId) :
    ∃ tree', tree.replaceChild (top ctx) node new = some tree' ∧
      RepCtx tree'.load tree'.root new ctx ∧
      (∀ i, top ctx ≠ some i → tree'.load i = tree.load i) ∧
      tree'.numNodes = tree.numNodes := by
  cases ctx with
  | nil => exact ⟨{ tree with root := new }, rfl, rfl, fun _ _ => rfl, rfl⟩
  | cons f ctx =>
      obtain ⟨d, x, u⟩ := f
      obtain ⟨⟨n, hn, hlinks⟩, hsib, hpath⟩ := h
      simp only [ctxIds, List.cons_append, List.nodup_cons, List.mem_append, List.mem_cons,
        not_or] at hnd hnode
      -- the test `node == node->parent->left` finds the side of the frame
      have hside : tree.replaceChild (some x.1) node new = tree.modify x.1 (.setChild d new) := by
        cases d with
        | left =>
            have hleft : n.left = some node := hlinks.near
            simp [replaceChild, hn, hleft]
        | right =>
            have hleft : n.left ≠ some node := by
              rw [show n.left = ptr u from hlinks.far]
              intro hu
              exact hnode.2.1 (mem_ids_of_ptr hu)
            simp [replaceChild, hn, hleft]
      obtain ⟨tree', heq, hst⟩ := modify_eq hn (AvlTreeNode.setChild d new)
      have hkeep : ∀ i, i ≠ x.1 → tree'.load i = tree.load i := fun i hi => hst.load_of_ne hi
      refine ⟨tree', hside.trans heq, ⟨⟨_, hst.load_self, ?_⟩, ?_, ?_⟩, ?_, hst.numNodes⟩
      · exact ⟨by simp [hlinks.value], by simp, by simp [hlinks.far], by simp [hlinks.parent]⟩
      · exact hsib.congr fun i hi => hkeep i fun heq => hnd.1.1 (heq ▸ hi)
      · rw [hst.root]
        exact hpath.congr fun i hi => hkeep i fun heq => hnd.1.2 (heq ▸ hi)
      · intro i hi
        exact hkeep i fun heq => hi (by rw [heq]; rfl)

theorem setParent_eq {parent : Option NodeId} {t : BinaryTree (Label T)}
    (h : Rep tree.load parent t) (hnd : (ids t).Nodup) (new : Option NodeId) :
    ∃ tree', tree.setParent (ptr t) new = some tree' ∧ Rep tree'.load new t ∧
      (∀ i, ptr t ≠ some i → tree'.load i = tree.load i) ∧ tree'.root = tree.root ∧
      tree'.numNodes = tree.numNodes := by
  cases ht : ptr t with
  | none =>
      refine ⟨tree, rfl, ?_, fun _ _ => rfl, rfl, rfl⟩
      cases t with
      | nil => trivial
      | node x l r => cases ht
  | some i =>
      obtain ⟨n, hn, -, -⟩ := h.root_cell ht
      obtain ⟨tree', heq, hst⟩ := modify_eq hn (AvlTreeNode.setParent new)
      have hkeep : ∀ j, some i ≠ some j → tree'.load j = tree.load j := by
        intro j hj
        exact hst.load_of_ne fun heq => hj (by rw [heq])
      refine ⟨tree', heq, h.reparent hnd ?_ ?_, hkeep, hst.root, hst.numNodes⟩
      · intro j m hj hm
        obtain rfl : i = j := Option.some.inj (ht.symm.trans hj)
        obtain rfl : n = m := Option.some.inj (hn.symm.trans hm)
        exact hst.load_self
      · intro j _ hj
        exact hkeep j (ht ▸ hj)

/-! ## Rotations -/

/-- The addresses a rotation deals with, in the order of the assignments: the
child `y` with subtrees `a` and `b`, its parent `x` with the other subtree `u`,
and the path `c` above. Only `x`, `y` and the root of `b` are written below the
path. -/
private structure Apart (x y : NodeId) (a b u c : List NodeId) : Prop where
  ne : y ≠ x
  nodupB : b.Nodup
  nodupC : c.Nodup
  ofB : ∀ i ∈ b, i ≠ x ∧ i ≠ y ∧ i ∉ c
  ofC : ∀ i ∈ c, i ≠ x ∧ i ≠ y ∧ i ∉ b
  ofA : ∀ i ∈ a, i ≠ x ∧ i ≠ y ∧ i ∉ b ∧ i ∉ c
  ofU : ∀ i ∈ u, i ≠ x ∧ i ≠ y ∧ i ∉ b ∧ i ∉ c
  after : (b ++ (x :: u ++ (y :: a ++ c))).Nodup

private theorem apart_of_nodup {x y : NodeId} {a b u c : List NodeId}
    (h : (y :: a ++ b ++ (x :: u ++ c)).Nodup) : Apart x y a b u c := by
  simp only [List.cons_append, List.append_assoc, List.nodup_cons, List.nodup_append,
    List.mem_append, List.mem_cons] at h
  refine ⟨?_, ?_, ?_, ?_, ?_, ?_, ?_, ?_⟩
  · grind
  · grind
  · grind
  · grind
  · grind
  · grind
  · grind
  · simp only [List.cons_append, List.nodup_cons, List.nodup_append, List.mem_append,
      List.mem_cons]
    grind

/-- The assignments of a rotation before `update_meta`: the child `y` is taken
out from below `x` and put in between `x` and the rest of the tree. -/
private theorem rotate_links {d : Side} {x y : Label T} {a b u : BinaryTree (Label T)}
    {ctx : List (Frame (Label T))} (h : Focus tree (fork d y a b) (⟨d, x, u⟩ :: ctx)) :
    ∃ tree', Focus tree' b (⟨d, x, u⟩ :: ⟨d.other, y, a⟩ :: ctx) ∧
      tree'.numNodes = tree.numNodes ∧
      tree.rotate d x.1 = (do
        let tree'' ← tree'.updateMeta x.1
        tree''.updateMeta y.1) := by
  obtain ⟨hrep, ⟨⟨nx, hnx, hlx⟩, hu, hpath⟩, hnd⟩ := h
  obtain ⟨⟨ny, hny, hly, -, -⟩, ha, hb⟩ := rep_fork.mp hrep
  have hperm := (ids_fork d y a b).append_right (ctxIds (⟨d, x, u⟩ :: ctx))
  have hap := apart_of_nodup (hperm.nodup_iff.mp hnd)
  have hxc : x.1 ∉ ctxIds ctx := fun hx => (hap.ofC _ hx).1 rfl
  have hyc : y.1 ∉ ctxIds ctx := fun hy => (hap.ofC _ hy).2.1 rfl
  have hxb : x.1 ∉ ids b := fun hx => (hap.ofB _ hx).1 rfl
  have hyb : y.1 ∉ ids b := fun hy => (hap.ofB _ hy).2.1 rfl
  simp only [ptr_fork] at hlx
  obtain ⟨t₁, he₁, hpath₁, hk₁, hn₁⟩ := replaceChild_eq hpath hxc hap.nodupC (some y.1)
  have htop : ∀ {i}, i ∉ ctxIds ctx → t₁.load i = tree.load i :=
    fun hi => hk₁ _ fun heq => hi (mem_ctxIds_of_top heq)
  have hny₁ : t₁.load y.1 = some ny := (htop hyc).trans hny
  have hnx₁ : t₁.load x.1 = some nx := (htop hxc).trans hnx
  have hb₁ : Rep t₁.load (some y.1) b := hb.congr fun i hi => htop (hap.ofB i hi).2.2
  obtain ⟨t₂, he₂, hs₂⟩ := modify_eq hny₁ (AvlTreeNode.setParent (top ctx))
  have hnx₂ : t₂.load x.1 = some nx := (hs₂.load_of_ne hap.ne.symm).trans hnx₁
  obtain ⟨t₃, he₃, hs₃⟩ := modify_eq hnx₂ (AvlTreeNode.setChild d (ptr b))
  have hb₃ : Rep t₃.load (some y.1) b := by
    refine hb₁.congr fun i hi => ?_
    rw [hs₃.load_of_ne (hap.ofB i hi).1, hs₂.load_of_ne (hap.ofB i hi).2.1]
  obtain ⟨t₄, he₄, hb₄, hk₄, hr₄, hn₄⟩ := setParent_eq hb₃ hap.nodupB (some x.1)
  have hptr : ∀ {i}, i ∉ ids b → t₄.load i = t₃.load i :=
    fun hi => hk₄ _ fun heq => hi (mem_ids_of_ptr heq)
  have hny₄ : t₄.load y.1 = some (ny.setParent (top ctx)) := by
    rw [hptr hyb, hs₃.load_of_ne hap.ne, hs₂.load_self]
  have hnx₄ : t₄.load x.1 = some (nx.setChild d (ptr b)) := by
    rw [hptr hxb, hs₃.load_self]
  obtain ⟨t₅, he₅, hs₅⟩ := modify_eq hny₄ (AvlTreeNode.setChild d.other (some x.1))
  have hnx₅ := (hs₅.load_of_ne hap.ne.symm).trans hnx₄
  obtain ⟨t₆, he₆, hs₆⟩ := modify_eq hnx₅ (AvlTreeNode.setParent (some y.1))
  have hny₆ := (hs₆.load_of_ne hap.ne).trans hs₅.load_self
  have hkeep : ∀ i, i ≠ x.1 → i ≠ y.1 → i ∉ ids b → t₆.load i = t₁.load i := by
    intro i hix hiy hib
    rw [hs₆.load_of_ne hix, hs₅.load_of_ne hiy, hptr hib, hs₃.load_of_ne hix, hs₂.load_of_ne hiy]
  have hroot : t₆.root = t₁.root := by
    rw [hs₆.root, hs₅.root, hr₄, hs₃.root, hs₂.root]
  refine ⟨t₆, ⟨?_, ⟨⟨_, hs₆.load_self, ?_⟩, ?_, ⟨_, hny₆, ?_⟩, ?_, ?_⟩, hap.after⟩, ?_, ?_⟩
  · refine hb₄.congr fun i hi => ?_
    rw [hs₆.load_of_ne (hap.ofB i hi).1, hs₅.load_of_ne (hap.ofB i hi).2.1]
  · exact ⟨by simp [AvlTreeNode.setParent, hlx.value], by simp, by simp [hlx.far], rfl⟩
  · refine hu.congr fun i hi => ?_
    obtain ⟨hix, hiy, hib, hic⟩ := hap.ofU i hi
    rw [hkeep i hix hiy hib, htop hic]
  · exact ⟨by simp [AvlTreeNode.setParent, hly.value], by simp, by simp [hly.near],
      by simp [AvlTreeNode.setParent]⟩
  · refine ha.congr fun i hi => ?_
    obtain ⟨hix, hiy, hib, hic⟩ := hap.ofA i hi
    rw [hkeep i hix hiy hib, htop hic]
  · rw [hroot]
    refine hpath₁.congr fun i hi => ?_
    obtain ⟨hix, hiy, hib⟩ := hap.ofC i hi
    exact hkeep i hix hiy hib
  · rw [hs₆.numNodes, hs₅.numNodes, hn₄, hs₃.numNodes, hs₂.numNodes, hn₁]
  · have hchild : (ny.setParent (top ctx)).child d.other = ptr b := by simp [hly.far]
    simp only [rotate, hnx, hlx.near, hlx.parent, he₁, he₂, hs₂.load_self, hchild, he₃, he₄, he₅,
      he₆, Option.bind_eq_bind, Option.bind_some]

/-- A rotation replaces the child on side `d` and its parent by their rotation.
The parent's cached fields need not be exact before. -/
theorem Focus.rotate {d : Side} {x y : Label T} {a b u : BinaryTree (Label T)}
    {ctx : List (Frame (Label T))} (h : Focus tree (fork d y a b) (⟨d, x, u⟩ :: ctx)) :
    ∃ tree', tree.rotate d x.1 = some tree' ∧ Focus tree' (fork d y a (fork d x b u)) ctx ∧
      tree'.numNodes = tree.numNodes := by
  obtain ⟨t₁, hf₁, hn₁, heq⟩ := rotate_links h
  obtain ⟨t₂, he₂, hf₂, hn₂⟩ := hf₁.updateMeta
  obtain ⟨t₃, he₃, hf₃, hn₃⟩ := hf₂.updateMeta
  refine ⟨t₃, ?_, ?_, hn₃.trans (hn₂.trans hn₁)⟩
  · rw [heq]
    simp only [he₂, he₃, Option.bind_eq_bind, Option.bind_some]
  · simpa only [Frame.attach, fork_other] using hf₃

/-! ## balance -/

theorem getBalanceFactor_eq {parent : Option NodeId} {t : BinaryTree (Label T)} {i : NodeId}
    (h : Rep tree.load parent t) (hi : ptr t = some i) :
    tree.getBalanceFactor i = some t.balanceFactor := by
  cases t with
  | nil => cases hi
  | node x l r =>
      simp only [ptr, Option.some.injEq] at hi
      subst hi
      simp only [getBalanceFactor, h.1, fieldOr0_height h.2.1, fieldOr0_height h.2.2,
        Option.bind_eq_bind, Option.bind_some, balanceFactor_node]

section Tall

variable {d : Side} {x y : Label T} {a b u : BinaryTree (Label T)} {parent : Option NodeId}

private theorem balanceNode_tall (h : Rep tree.load parent (fork d x (fork d y a b) u))
    (htall : (fork d y a b).height = u.height + 2) (hab : a.height ≤ b.height + 1) :
    tree.balanceNode x.1 =
      if b.height ≤ a.height then tree.rotate d x.1
      else (tree.rotate d.other y.1).bind fun tree' => tree'.rotate d x.1 := by
  have hx := getBalanceFactor_eq h (ptr_fork d x (fork d y a b) u)
  have hchild := (rep_fork.mp h).2.1
  have hy := getBalanceFactor_eq hchild (ptr_fork d y a b)
  rw [height_fork] at htall
  cases d with
  | left =>
      simp only [fork, balanceFactor_node, height] at hx hy
      have hload := h.1
      have hlow : ¬ ((max a.height b.height + 1 : Nat) : Int) - u.height < -1 := by omega
      have hhigh : ((max a.height b.height + 1 : Nat) : Int) - u.height > 1 := by omega
      have hiff : ((a.height : Int) - b.height = 0 ∨ (a.height : Int) - b.height = 1) ↔
          b.height ≤ a.height := by omega
      simp only [balanceNode, hx, hlow, hhigh, hload, hy, hiff, fork, ptr, Option.bind_eq_bind,
        Option.bind_some, if_true, if_false, rightRotate, leftRotate, Side.other]
  | right =>
      simp only [fork, balanceFactor_node, height] at hx hy
      have hload := h.1
      have hlow : (u.height : Int) - ((max b.height a.height + 1 : Nat) : Int) < -1 := by omega
      have hiff : ((b.height : Int) - a.height = -1 ∨ (b.height : Int) - a.height = 0) ↔
          b.height ≤ a.height := by omega
      simp only [balanceNode, hx, hlow, hload, hy, hiff, fork, ptr, Option.bind_eq_bind,
        Option.bind_some, if_true, rightRotate, leftRotate, Side.other]

end Tall

private theorem Focus.balanceNode_tall {d : Side} {x : Label T} {t u : BinaryTree (Label T)}
    {ctx : List (Frame (Label T))} (h : Focus tree (fork d x t u) ctx) (ht : t.Balanced)
    (htall : t.height = u.height + 2) :
    ∃ tree', tree.balanceNode x.1 = some tree' ∧ Focus tree' (rebalance (fork d x t u)) ctx ∧
      tree'.numNodes = tree.numNodes := by
  rcases rebalance_cases d x ht htall with
    ⟨y, a, b, rfl, hab, hba, heq⟩ | ⟨y, z, a, b₁, b₂, rfl, hinner, heq⟩
  · have hdown : Focus tree (fork d y a b) (⟨d, x, u⟩ :: ctx) := Focus.down h
    obtain ⟨tree', hrot, hf, hn⟩ := hdown.rotate
    refine ⟨tree', ?_, by rw [heq]; exact hf, hn⟩
    rw [AvlTree.balanceNode_tall h.rep htall hab, if_pos hba, hrot]
  · -- the inner grandchild comes up twice
    have hab : a.height ≤ (fork d z b₁ b₂).height + 1 := by omega
    have hdown : Focus tree (fork d.other y (fork d.other z b₂ b₁) a) (⟨d, x, u⟩ :: ctx) := by
      rw [fork_other, fork_other]
      exact Focus.down h
    have hinnermost : Focus tree (fork d.other z b₂ b₁) (⟨d.other, y, a⟩ :: ⟨d, x, u⟩ :: ctx) :=
      Focus.down hdown
    obtain ⟨t₁, hrot₁, hf₁, hn₁⟩ := hinnermost.rotate
    simp only [fork_other] at hf₁
    obtain ⟨t₂, hrot₂, hf₂, hn₂⟩ := hf₁.rotate
    refine ⟨t₂, ?_, by rw [heq]; exact hf₂, hn₂.trans hn₁⟩
    rw [AvlTree.balanceNode_tall h.rep htall hab, if_neg (by omega)]
    simp only [hrot₁, hrot₂, Option.bind_some]

private theorem Focus.balanceNode_level {d : Side} {x : Label T} {t u : BinaryTree (Label T)}
    {ctx : List (Frame (Label T))} (h : Focus tree (fork d x t u) ctx)
    (htu : t.height ≤ u.height + 1) (hut : u.height ≤ t.height + 1) :
    tree.balanceNode x.1 = some tree := by
  have hx := getBalanceFactor_eq h.rep (ptr_fork d x t u)
  have hbound : -1 ≤ (fork d x t u).balanceFactor ∧ (fork d x t u).balanceFactor ≤ 1 := by
    cases d <;> simp only [fork, balanceFactor_node] <;> omega
  have hlow : ¬ (fork d x t u).balanceFactor < -1 := by omega
  have hhigh : ¬ (fork d x t u).balanceFactor > 1 := by omega
  simp only [balanceNode, hx, hlow, hhigh, Option.bind_eq_bind, Option.bind_some, if_false]

theorem Focus.balanceNode {f : Frame (Label T)} {t : BinaryTree (Label T)}
    {ctx : List (Frame (Label T))} (h : Focus tree (f.attach t) ctx) (ht : t.Balanced)
    (hs : f.sibling.Balanced) (hts : t.height ≤ f.sibling.height + 2)
    (hst : f.sibling.height ≤ t.height + 2) :
    ∃ tree', tree.balanceNode f.value.1 = some tree' ∧ Focus tree' (rebalance (f.attach t)) ctx ∧
      tree'.numNodes = tree.numNodes := by
  unfold Frame.attach at h ⊢
  rcases Nat.lt_or_ge (f.sibling.height + 1) t.height with htall | hts'
  · exact h.balanceNode_tall ht (by omega)
  rcases Nat.lt_or_ge (t.height + 1) f.sibling.height with htall | hst'
  · rw [← fork_other] at h ⊢
    exact h.balanceNode_tall hs (by omega)
  · refine ⟨tree, h.balanceNode_level hts' hst', ?_, rfl⟩
    rwa [rebalance_of_level f.side f.value hts' hst']

/-- The loop of `balance`, from the parent of an exact subtree up to the root.
The fuel bounds the length of the path. -/
theorem Focus.balance {t : BinaryTree (Label T)} {k : Nat} {ctx : List (Frame (Label T))}
    {fuel : Nat} (h : Focus tree t ctx) (hfuel : ctx.length ≤ fuel) (ht : t.Balanced)
    (hctx : BalancedAt k ctx) (htk : t.height ≤ k + 1) (hkt : k ≤ t.height + 1) :
    ∃ tree', tree.balance fuel (top ctx) = some tree' ∧ Holds tree' (climb t ctx) ∧
      tree'.numNodes = tree.numNodes := by
  induction ctx generalizing tree t k fuel with
  | nil =>
      refine ⟨tree, ?_, h, rfl⟩
      cases fuel <;> rfl
  | cons f ctx ih =>
      obtain ⟨hs, hks, hsk, hrest⟩ := hctx
      obtain ⟨fuel, rfl⟩ := Nat.exists_eq_add_of_le' (show 1 ≤ fuel by simp at hfuel; omega)
      simp only [List.length_cons, Nat.add_le_add_iff_right] at hfuel
      obtain ⟨t₁, he₁, hf₁, hn₁⟩ := h.updateMeta
      obtain ⟨⟨n, hn, hlinks, -, -⟩, -, -⟩ := rep_fork.mp hf₁.rep
      obtain ⟨t₂, he₂, hf₂, hn₂⟩ := hf₁.balanceNode ht hs (by omega) (by omega)
      obtain ⟨hbal, hup, hlo⟩ := balanced_rebalance_attach ht hs hks hsk htk hkt
      obtain ⟨t₃, he₃, hf₃, hn₃⟩ := ih hf₂ hfuel hbal hrest hup hlo
      refine ⟨t₃, ?_, hf₃, hn₃.trans (hn₂.trans hn₁)⟩
      show AvlTree.balance (fuel + 1) tree (some f.value.1) = some t₃
      simp only [AvlTree.balance, he₁, hn, hlinks.parent, he₂, he₃, Option.bind_eq_bind,
        Option.bind_some]

end Memtrade.AvlTree
