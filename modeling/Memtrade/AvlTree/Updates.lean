import Memtrade.AvlTree.Rotation

/-!
# insert and remove

Each update finds its place, changes a few links there and calls `balance`.
The searches are stated as the context they end in; the effect of an update is
stated on the in-order list, where rotations are invisible.
-/

namespace Memtrade.AvlTree

open BinaryTree

variable {T K : Type} [LinearOrder K] {key : T → K} {tree : AvlTree T}

/-- What a run of calls maintains: the heap holds the tree `t` with exact
links and cached fields, in search order and balanced, and the tree's own
counter is exact. -/
structure WellFormed (key : T → K) (tree : AvlTree T) (t : BinaryTree (Label T)) : Prop where
  holds : Holds tree t
  ordered : t.Ordered fun x => key x.2
  balanced : t.Balanced
  count : tree.numNodes = t.numNodes

/-- The values of a tree in order. -/
def values (t : BinaryTree (Label T)) : List T := t.inorder.map Prod.snd

theorem ordered_iff_values {t : BinaryTree (Label T)} :
    (t.Ordered fun x => key x.2) ↔ (values t).Pairwise fun a b => key a ≤ key b := by
  rw [ordered_iff_sorted, values, List.pairwise_map]

theorem length_values (t : BinaryTree (Label T)) : (values t).length = t.numNodes := by
  rw [values, List.length_map, length_inorder]

theorem Focus.length_le_next {t : BinaryTree (Label T)} {ctx : List (Frame (Label T))}
    (h : Focus tree t ctx) : ctx.length ≤ tree.heap.next := by
  have hplug := length_le_numNodes_plug t ctx
  have hnext := h.numNodes_le
  omega

theorem Focus.height_le_next {t : BinaryTree (Label T)} {ctx : List (Frame (Label T))}
    (h : Focus tree t ctx) : t.height ≤ tree.heap.next := by
  have hheight := t.height_le_numNodes
  have hplug := length_le_numNodes_plug t ctx
  have hnext := h.numNodes_le
  omega

/-! ## Walking down -/

/-- The search of `insert` ends at a hole where `value` may stand: nothing
before it is larger and nothing after it smaller. -/
theorem Focus.insertPoint (value : T) {t : BinaryTree (Label T)} {i : NodeId}
    {ctx : List (Frame (Label T))} {fuel : Nat} (h : Focus tree t ctx) (hi : ptr t = some i)
    (hord : t.Ordered fun y => key y.2) (hfuel : t.height ≤ fuel)
    (hbefore : ∀ y ∈ before ctx, key y.2 ≤ key value)
    (hafter : ∀ y ∈ after ctx, key value ≤ key y.2) :
    ∃ f rest, insertPoint key tree value fuel i = some (f.value.1, f.side) ∧
      plug nil (f :: rest) = plug t ctx ∧
      (∀ y ∈ before (f :: rest), key y.2 ≤ key value) ∧
      (∀ y ∈ after (f :: rest), key value ≤ key y.2) := by
  induction t generalizing i ctx fuel with
  | nil => cases hi
  | node x l r ihl ihr =>
      obtain ⟨hlx, hxr, hordl, hordr⟩ := hord
      simp only [ptr, Option.some.injEq] at hi
      subst hi
      simp only [height] at hfuel
      obtain ⟨fuel, rfl⟩ := Nat.exists_eq_add_of_le' (show 1 ≤ fuel by omega)
      have hload := h.rep.1
      by_cases hgt : key value > key x.2
      · have hdown : Focus tree r (⟨.right, x, l⟩ :: ctx) := Focus.down h
        have hbefore' : ∀ y ∈ before (⟨.right, x, l⟩ :: ctx), key y.2 ≤ key value := by
          intro y hy
          simp only [before, Frame.before, List.mem_append, List.mem_singleton] at hy
          rcases hy with hy | hy | rfl
          · exact hbefore y hy
          · exact le_trans (hlx y hy) hgt.le
          · exact hgt.le
        have hafter' : ∀ y ∈ after (⟨.right, x, l⟩ :: ctx), key value ≤ key y.2 := by
          simpa [after, Frame.after] using hafter
        cases hr : ptr r with
        | none =>
            obtain rfl := ptr_eq_none.mp hr
            refine ⟨⟨.right, x, l⟩, ctx, ?_, rfl, hbefore', hafter'⟩
            simp [AvlTree.insertPoint, hload, hgt, hr]
        | some j =>
            have hheight : r.height ≤ fuel := by omega
            obtain ⟨f, rest, heq, hplug, hb, ha⟩ := ihr hdown hr hordr hheight hbefore' hafter'
            refine ⟨f, rest, ?_, hplug, hb, ha⟩
            simpa [AvlTree.insertPoint, hload, hgt, hr] using heq
      · have hdown : Focus tree l (⟨.left, x, r⟩ :: ctx) := Focus.down h
        have hle : key value ≤ key x.2 := not_lt.mp hgt
        have hbefore' : ∀ y ∈ before (⟨.left, x, r⟩ :: ctx), key y.2 ≤ key value := by
          simpa [before, Frame.before] using hbefore
        have hafter' : ∀ y ∈ after (⟨.left, x, r⟩ :: ctx), key value ≤ key y.2 := by
          intro y hy
          simp only [after, Frame.after, List.cons_append, List.mem_cons, List.mem_append] at hy
          rcases hy with rfl | hy | hy
          · exact hle
          · exact le_trans hle (hxr y hy)
          · exact hafter y hy
        cases hl : ptr l with
        | none =>
            obtain rfl := ptr_eq_none.mp hl
            refine ⟨⟨.left, x, r⟩, ctx, ?_, rfl, hbefore', hafter'⟩
            simp [AvlTree.insertPoint, hload, hgt, hl]
        | some j =>
            have hheight : l.height ≤ fuel := by omega
            obtain ⟨f, rest, heq, hplug, hb, ha⟩ := ihl hdown hl hordl hheight hbefore' hafter'
            refine ⟨f, rest, ?_, hplug, hb, ha⟩
            simpa [AvlTree.insertPoint, hload, hgt, hl] using heq

/-- The search of `remove` finds a node that compares equal, or there is none. -/
theorem Focus.search (value : T) {t : BinaryTree (Label T)} {ctx : List (Frame (Label T))}
    {fuel : Nat} (h : Focus tree t ctx) (hord : t.Ordered fun y => key y.2)
    (hfuel : t.height ≤ fuel) :
    (search key tree value fuel (ptr t) = some none ∧ ∀ y ∈ t.inorder, key y.2 ≠ key value) ∨
      ∃ x l r ext, search key tree value fuel (ptr t) = some (some x.1) ∧
        t = plug (node x l r) ext ∧ key x.2 = key value := by
  induction t generalizing ctx fuel with
  | nil =>
      refine Or.inl ⟨?_, by simp⟩
      cases fuel <;> rfl
  | node x l r ihl ihr =>
      obtain ⟨hlx, hxr, hordl, hordr⟩ := hord
      simp only [height] at hfuel
      obtain ⟨fuel, rfl⟩ := Nat.exists_eq_add_of_le' (show 1 ≤ fuel by omega)
      have hload := h.rep.1
      have hleft : Focus tree l (⟨.left, x, r⟩ :: ctx) := Focus.down h
      have hright : Focus tree r (⟨.right, x, l⟩ :: ctx) := Focus.down h
      rcases lt_trichotomy (key value) (key x.2) with hlt | heq | hgt
      · have hstep : AvlTree.search key tree value (fuel + 1) (ptr (node x l r)) =
            AvlTree.search key tree value fuel (ptr l) := by
          simp [AvlTree.search, ptr, hload, hlt, hlt.ne]
        have hheight : l.height ≤ fuel := by omega
        rcases ihl hleft hordl hheight with ⟨hnone, habs⟩ | ⟨y, a, b, ext, hsome, rfl, hy⟩
        · refine Or.inl ⟨hstep.trans hnone, ?_⟩
          intro y hy
          simp only [inorder_node, List.mem_append, List.mem_cons] at hy
          rcases hy with hy | rfl | hy
          · exact habs y hy
          · exact hlt.ne'
          · exact (lt_of_lt_of_le hlt (hxr y hy)).ne'
        · refine Or.inr ⟨y, a, b, ext ++ [⟨.left, x, r⟩], hstep.trans hsome, ?_, hy⟩
          simp [plug_append, plug, Frame.attach, fork]
      · refine Or.inr ⟨x, l, r, [], ?_, rfl, heq.symm⟩
        simp [AvlTree.search, ptr, hload, heq]
      · have hstep : AvlTree.search key tree value (fuel + 1) (ptr (node x l r)) =
            AvlTree.search key tree value fuel (ptr r) := by
          simp [AvlTree.search, ptr, hload, hgt.ne', not_lt.mpr hgt.le]
        have hheight : r.height ≤ fuel := by omega
        rcases ihr hright hordr hheight with ⟨hnone, habs⟩ | ⟨y, a, b, ext, hsome, rfl, hy⟩
        · refine Or.inl ⟨hstep.trans hnone, ?_⟩
          intro y hy
          simp only [inorder_node, List.mem_append, List.mem_cons] at hy
          rcases hy with hy | rfl | hy
          · exact (lt_of_le_of_lt (hlx y hy) hgt).ne
          · exact hgt.ne
          · exact habs y hy
        · refine Or.inr ⟨y, a, b, ext ++ [⟨.right, x, l⟩], hstep.trans hsome, ?_, hy⟩
          simp [plug_append, plug, Frame.attach, fork]

theorem Rep.lastOn (d : Side) {parent : Option NodeId} {t : BinaryTree (Label T)} {i : NodeId}
    {fuel : Nat} (h : Rep tree.load parent t) (hi : ptr t = some i) (hfuel : t.height ≤ fuel) :
    ∃ x a ext, tree.lastOn d fuel i = some x.1 ∧ t = plug (fork d x nil a) ext ∧
      ∀ f ∈ ext, f.side = d := by
  induction fuel generalizing parent t i with
  | zero =>
      cases t with
      | nil => cases hi
      | node x l r => simp at hfuel
  | succ fuel ih =>
      have hne : t ≠ nil := by
        rintro rfl
        cases hi
      obtain ⟨x, a, b, rfl⟩ := exists_fork d hne
      obtain ⟨⟨n, hn, hlinks, -, -⟩, ha, -⟩ := rep_fork.mp h
      rw [ptr_fork, Option.some.injEq] at hi
      subst hi
      rw [height_fork] at hfuel
      cases ha' : ptr a with
      | none =>
          cases a with
          | node => cases ha'
          | nil =>
              refine ⟨x, b, [], ?_, rfl, by simp⟩
              simp [AvlTree.lastOn, hn, hlinks.near, ptr]
      | some j =>
          obtain ⟨y, u, ext, heq, rfl, hside⟩ := ih ha ha' (by omega)
          refine ⟨y, u, ext ++ [⟨d, x, b⟩], ?_, ?_, ?_⟩
          · simp [AvlTree.lastOn, hn, hlinks.near, ha', heq]
          · simp [plug_append, plug, Frame.attach]
          · intro f hf
            rcases List.mem_append.mp hf with hf | hf
            · exact hside f hf
            · simp only [List.mem_singleton] at hf
              rw [hf]

theorem Rep.countLessFrom (key : T → K) (value : T) (withEqual : Bool) {parent : Option NodeId}
    {t : BinaryTree (Label T)} {fuel : Nat} (h : Rep tree.load parent t) (hfuel : t.height ≤ fuel)
    (counter : Int) :
    ∃ n, countLessFrom key tree value withEqual fuel (ptr t) counter = some n := by
  induction t generalizing parent fuel counter with
  | nil =>
      refine ⟨counter, ?_⟩
      cases fuel <;> rfl
  | node x l r ihl ihr =>
      obtain ⟨hx, hl, hr⟩ := h
      simp only [height] at hfuel
      obtain ⟨fuel, rfl⟩ := Nat.exists_eq_add_of_le' (show 1 ≤ fuel by omega)
      have hleft : l.height ≤ fuel := by omega
      have hright : r.height ≤ fuel := by omega
      simp only [ptr_node, AvlTree.countLessFrom, hx, countLeft, fieldOr0_numNodes hl,
        Option.bind_eq_bind, Option.bind_some, Option.map_some]
      split
      · split
        · exact ⟨_, rfl⟩
        · exact ihl hl hleft counter
      · split
        · exact ihr hr hright _
        · exact ihl hl hleft counter

/-! ## insert -/

theorem Focus.attachNew {f : Frame (Label T)} {rest : List (Frame (Label T))} (value : T)
    (h : Focus tree nil (f :: rest)) :
    ∃ tree', { tree with
        heap := tree.heap.alloc ⟨value, none, none, some f.value.1, 1, 1⟩ }.modify f.value.1
          (.setChild f.side (some tree.heap.next)) = some tree' ∧
      Focus tree' (node (tree.heap.next, value) nil nil) (f :: rest) ∧
      tree'.numNodes = tree.numNodes := by
  have hfresh : ∀ {i}, i ∈ ctxIds (f :: rest) → i ≠ tree.heap.next := by
    intro i hi
    obtain ⟨n, hn⟩ := h.path.exists_cell hi
    exact Nat.ne_of_lt (Heap.lt_next hn)
  obtain ⟨hrep, ⟨⟨n, hn, hlinks⟩, hsib, hpath⟩, hnd⟩ := h
  have hself : f.value.1 ∈ ctxIds (f :: rest) := by simp [ctxIds]
  let grown : AvlTree T :=
    { tree with heap := tree.heap.alloc ⟨value, none, none, some f.value.1, 1, 1⟩ }
  have hgrown : ∀ i, i ≠ tree.heap.next → grown.load i = tree.load i := by
    intro i hi
    exact (Heap.cell_alloc _ _ i).trans (if_neg hi)
  have hnew : grown.load tree.heap.next = some ⟨value, none, none, some f.value.1, 1, 1⟩ :=
    (Heap.cell_alloc _ _ _).trans (if_pos rfl)
  have hn' : grown.load f.value.1 = some n := (hgrown _ (hfresh hself)).trans hn
  obtain ⟨tree', heq, hst⟩ := modify_eq hn' (AvlTreeNode.setChild f.side (some tree.heap.next))
  have hkeep : ∀ i ∈ ctxIds (f :: rest), i ≠ f.value.1 → tree'.load i = tree.load i := by
    intro i hi hne
    rw [hst.load_of_ne hne, hgrown i (hfresh hi)]
  simp only [ids_nil, List.nil_append, ctxIds, List.cons_append, List.nodup_cons,
    List.mem_append, not_or] at hnd
  refine ⟨tree', heq, ⟨⟨?_, trivial, trivial⟩, ⟨⟨_, hst.load_self, ?_⟩, ?_, ?_⟩, ?_⟩, hst.numNodes⟩
  · rw [hst.load_of_ne (hfresh hself).symm, hnew]
    rfl
  · exact ⟨by simp [hlinks.value], by simp [ptr], by simp [hlinks.far], by simp [hlinks.parent]⟩
  · refine hsib.congr fun i hi => hkeep i (by simp [ctxIds, hi]) ?_
    rintro rfl
    exact hnd.1.1 hi
  · rw [hst.root]
    refine hpath.congr fun i hi => hkeep i (by simp [ctxIds, hi]) ?_
    rintro rfl
    exact hnd.1.2 hi
  · simp only [ids_node, ids_nil, List.nil_append, List.cons_append, List.nodup_cons]
    refine ⟨fun hmem => hfresh hmem rfl, ?_⟩
    simp only [ctxIds, List.cons_append, List.nodup_cons, List.mem_append, not_or]
    exact hnd

private theorem sorted_insert {pre post : List T} {x : T}
    (h : (pre ++ post).Pairwise fun a b => key a ≤ key b)
    (hpre : ∀ y ∈ pre, key y ≤ key x) (hpost : ∀ y ∈ post, key x ≤ key y) :
    (pre ++ x :: post).Pairwise fun a b => key a ≤ key b := by
  rw [List.pairwise_append] at h ⊢
  refine ⟨h.1, List.pairwise_cons.mpr ⟨hpost, h.2.1⟩, ?_⟩
  intro a ha b hb
  rcases List.mem_cons.mp hb with rfl | hb
  · exact hpre a ha
  · exact h.2.2 a ha b hb

theorem WellFormed.insert {t : BinaryTree (Label T)} (h : WellFormed key tree t) (value : T) :
    ∃ tree' t' pre post, insert key tree value = some tree' ∧ WellFormed key tree' t' ∧
      values t = pre ++ post ∧ values t' = pre ++ value :: post := by
  cases hroot : ptr t with
  | none =>
      obtain rfl := ptr_eq_none.mp hroot
      have hnone : tree.root = none := h.holds.path.trans hroot
      refine ⟨{
          heap := tree.heap.alloc ⟨value, none, none, none, 1, 1⟩
          root := some tree.heap.next
          numNodes := tree.numNodes + 1 }, node (tree.heap.next, value) nil nil, [], [], ?_,
        ⟨⟨⟨?_, trivial, trivial⟩, rfl, by simp [ctxIds]⟩, ?_, ?_, ?_⟩, rfl, rfl⟩
      · simp only [AvlTree.insert, hnone]
      · exact (Heap.cell_alloc _ _ _).trans (if_pos rfl)
      · simp [Ordered]
      · simp [BinaryTree.Balanced]
      · simp [h.count]
  | some i =>
      have hsome : tree.root = some i := h.holds.path.trans hroot
      obtain ⟨f, rest, hpoint, hplug, hbefore, hafter⟩ :=
        Focus.insertPoint value h.holds hroot h.ordered h.holds.height_le_next
          (by simp [before]) (by simp [after])
      simp only [plug] at hplug
      have hplug' : plug nil (f :: rest) = t := hplug
      subst hplug'
      obtain ⟨tree₁, hmod, hf₁, hn₁⟩ := (Holds.focus h.holds).attachNew value
      have hf₂ : Focus { tree₁ with numNodes := tree₁.numNodes + 1 }
          (node (tree.heap.next, value) nil nil) (f :: rest) := ⟨hf₁.rep, hf₁.path, hf₁.nodup⟩
      obtain ⟨-, hctx⟩ := (balanced_plug nil (f :: rest)).mp h.balanced
      have hleaf : (node (tree.heap.next, value) nil nil).Balanced := by simp [BinaryTree.Balanced]
      obtain ⟨tree₂, hbal, hholds, hn₂⟩ :=
        hf₂.balance hf₂.length_le_next hleaf hctx (by simp) (by simp)
      have hold : values (plug nil (f :: rest)) =
          (before (f :: rest)).map Prod.snd ++ (after (f :: rest)).map Prod.snd := by
        simp [values, inorder_plug]
      have hnew : values (climb (node (tree.heap.next, value) nil nil) (f :: rest)) =
          (before (f :: rest)).map Prod.snd ++ value :: (after (f :: rest)).map Prod.snd := by
        rw [values, inorder_climb hleaf hctx (by simp) (by simp), inorder_plug]
        simp
      refine ⟨tree₂, climb (node (tree.heap.next, value) nil nil) (f :: rest), _, _, ?_,
        ⟨hholds, ?_, climb_balanced hleaf hctx (by simp) (by simp), ?_⟩, hold, hnew⟩
      · simp only [hsome] at hmod
        simp only [AvlTree.insert, hsome, hpoint, hmod, Option.bind_eq_bind, Option.bind_some]
        exact hbal
      · have hsorted := ordered_iff_values.mp h.ordered
        rw [hold] at hsorted
        rw [ordered_iff_values, hnew]
        exact sorted_insert hsorted (List.forall_mem_map.mpr hbefore)
          (List.forall_mem_map.mpr hafter)
      · rw [hn₂, hn₁, h.count, ← length_values, ← length_values, hold, hnew]
        simp only [List.length_append, List.length_cons]
        omega

/-! ## remove -/

theorem Focus.setValue {x : Label T} {l r : BinaryTree (Label T)}
    {ctx : List (Frame (Label T))} (h : Focus tree (node x l r) ctx) (v : T) :
    ∃ tree', tree.modify x.1 (fun n => { n with value := v }) = some tree' ∧
      Focus tree' (node (x.1, v) l r) ctx ∧ tree'.numNodes = tree.numNodes := by
  obtain ⟨⟨hx, hl, hr⟩, hpath, hnd⟩ := h
  obtain ⟨tree', heq, hst⟩ := modify_eq hx fun n => { n with value := v }
  have hids := hnd
  simp only [ids_node, List.nodup_append, List.nodup_cons, List.mem_append, List.mem_cons] at hids
  refine ⟨tree', heq, ⟨⟨hst.load_self, ?_, ?_⟩, ?_, ?_⟩, hst.numNodes⟩
  · exact hl.congr fun i hi => hst.load_of_ne (by grind)
  · exact hr.congr fun i hi => hst.load_of_ne (by grind)
  · rw [hst.root]
    exact hpath.congr fun i hi => hst.load_of_ne (by grind)
  · simpa using hnd

private theorem Focus.unlink_links {x : Label T} {l r u : BinaryTree (Label T)}
    {ctx : List (Frame (Label T))} (h : Focus tree (node x l r) ctx)
    (hu : (r = nil ∧ u = l) ∨ (l = nil ∧ u = r)) :
    ∃ tree', Focus tree' u ctx ∧ tree'.numNodes = tree.numNodes - 1 ∧
      tree.unlink x.1 = AvlTree.balance tree'.heap.next tree' (top ctx) := by
  obtain ⟨⟨hx, hl, hr⟩, hpath, hnd⟩ := h
  have hids := hnd
  simp only [ids_node, List.nodup_append, List.nodup_cons, List.mem_append, List.mem_cons] at hids
  obtain ⟨hrep, hsub, hnew⟩ : Rep tree.load (some x.1) u ∧
      (∀ i ∈ ids u, i ∈ ids l ∨ i ∈ ids r) ∧
      (if (ptr l).isSome then ptr l else ptr r) = ptr u := by
    rcases hu with ⟨rfl, rfl⟩ | ⟨rfl, rfl⟩
    · refine ⟨hl, fun i hi => Or.inl hi, ?_⟩
      cases hu : ptr u <;> simp [ptr]
    · exact ⟨hr, fun i hi => Or.inr hi, rfl⟩
  have hundup : (ids u).Nodup := by
    rcases hu with ⟨rfl, rfl⟩ | ⟨rfl, rfl⟩
    · exact hids.1.1
    · exact hids.1.2.1.2
  have hdisj : ∀ i ∈ ids u, i ∉ ctxIds ctx := by
    intro i hi hmem
    rcases hsub i hi with hi | hi <;> grind
  obtain ⟨t₁, he₁, hpath₁, hk₁, hn₁⟩ := replaceChild_eq hpath (by grind) hids.2.1 (ptr u)
  have hrep₁ : Rep t₁.load (some x.1) u := by
    refine hrep.congr fun i hi => hk₁ i fun htop => ?_
    exact hdisj i hi (mem_ctxIds_of_top htop)
  obtain ⟨t₂, he₂, hrep₂, hk₂, hr₂, hn₂⟩ := setParent_eq hrep₁ hundup (top ctx)
  refine ⟨{ t₂ with numNodes := t₂.numNodes - 1 }, ⟨hrep₂, ?_, ?_⟩, ?_, ?_⟩
  · show RepCtx t₂.load t₂.root (ptr u) ctx
    rw [hr₂]
    exact hpath₁.congr fun i hi => hk₂ i fun hptr => hdisj i (mem_ids_of_ptr hptr) hi
  · rw [List.nodup_append]
    exact ⟨hundup, hids.2.1, fun i hi j hj heq => hdisj i hi (heq ▸ hj)⟩
  · show t₂.numNodes - 1 = _
    rw [hn₂, hn₁]
  · simp only [AvlTree.unlink, hx, hnew, he₁, he₂, Option.bind_eq_bind, Option.bind_some]

theorem Focus.unlink {x : Label T} {l r : BinaryTree (Label T)} {ctx : List (Frame (Label T))}
    (h : Focus tree (node x l r) ctx) (hlr : r = nil ∨ l = nil)
    (hbal : (plug (node x l r) ctx).Balanced) :
    ∃ tree' t', tree.unlink x.1 = some tree' ∧ Holds tree' t' ∧ t'.Balanced ∧
      t'.inorder = before ctx ++ l.inorder ++ (r.inorder ++ after ctx) ∧
      tree'.numNodes = tree.numNodes - 1 := by
  obtain ⟨⟨hlr₁, hlr₂, hl, hr⟩, hctx⟩ := (balanced_plug _ _).mp hbal
  obtain ⟨u, hu⟩ : ∃ u, (r = nil ∧ u = l) ∨ (l = nil ∧ u = r) := by
    rcases hlr with hr | hl
    · exact ⟨l, Or.inl ⟨hr, rfl⟩⟩
    · exact ⟨r, Or.inr ⟨hl, rfl⟩⟩
  obtain ⟨tree₁, hf₁, hn₁, heq⟩ := h.unlink_links hu
  obtain ⟨hubal, hheight, hin⟩ : u.Balanced ∧ (node x l r).height = u.height + 1 ∧
      u.inorder = l.inorder ++ r.inorder := by
    rcases hu with ⟨rfl, rfl⟩ | ⟨rfl, rfl⟩
    · exact ⟨hl, by simp, by simp⟩
    · exact ⟨hr, by simp, by simp⟩
  have hup : u.height ≤ (node x l r).height + 1 := by omega
  have hlo : (node x l r).height ≤ u.height + 1 := by omega
  obtain ⟨tree₂, hbal₂, hholds, hn₂⟩ := hf₁.balance hf₁.length_le_next hubal hctx hup hlo
  refine ⟨tree₂, climb u ctx, heq.trans hbal₂, hholds, climb_balanced hubal hctx hup hlo, ?_,
    hn₂.trans hn₁⟩
  rw [inorder_climb hubal hctx hup hlo, inorder_plug, hin]
  simp [List.append_assoc]

private theorem remove_single {x : Label T} {l r : BinaryTree (Label T)}
    {ctx : List (Frame (Label T))} (h : Holds tree (plug (node x l r) ctx))
    (hlr : r = nil ∨ l = nil) (hbal : (plug (node x l r) ctx).Balanced) :
    ∃ tree' t', tree.unlink x.1 = some tree' ∧ Holds tree' t' ∧ t'.Balanced ∧
      values t' = (before ctx ++ l.inorder).map Prod.snd ++ (r.inorder ++ after ctx).map Prod.snd ∧
      tree'.numNodes = tree.numNodes - 1 := by
  obtain ⟨tree', t', heq, hholds, hbal', hin, hn⟩ := (Holds.focus h).unlink hlr hbal
  exact ⟨tree', t', heq, hholds, hbal', by rw [values, hin, List.map_append], hn⟩

/-- The node found by the search, with two children: its precedent is the last
node of the left subtree, gets its value and is taken out instead. -/
private theorem remove_swapped {x : Label T} {l r : BinaryTree (Label T)} {left : NodeId}
    {ctx : List (Frame (Label T))} (h : Holds tree (plug (node x l r) ctx))
    (hleft : ptr l = some left) (hbal : (plug (node x l r) ctx).Balanced) :
    ∃ precedent swapped tree' t', tree.lastOn .right tree.heap.next left = some precedent ∧
      tree.swapNode x.1 precedent = some swapped ∧ swapped.unlink precedent = some tree' ∧
      Holds tree' t' ∧ t'.Balanced ∧
      values t' = (before ctx ++ l.inorder).map Prod.snd ++ (r.inorder ++ after ctx).map Prod.snd ∧
      tree'.numNodes = tree.numNodes - 1 := by
  have hf := Holds.focus h
  have hheight : l.height ≤ tree.heap.next := by
    have hnode := hf.height_le_next
    simp only [height] at hnode
    omega
  obtain ⟨p, a, ext, hlast, rfl, hside⟩ := hf.rep.2.1.lastOn .right hleft hheight
  obtain ⟨t₁, hset₁, hf₁, hn₁⟩ := hf.setValue p.2
  have hdown₁ : Focus t₁ (node p a nil) (ext ++ ⟨.left, (x.1, p.2), r⟩ :: ctx) :=
    Focus.descend (Focus.down (f := ⟨.left, (x.1, p.2), r⟩) hf₁)
  obtain ⟨t₂, hset₂, hf₂, hn₂⟩ := hdown₁.setValue x.2
  have hbal₂ : (plug (node (p.1, x.2) a nil) (ext ++ ⟨.left, (x.1, p.2), r⟩ :: ctx)).Balanced := by
    rw [plug_append]
    show (plug (node (x.1, p.2) (plug (node (p.1, x.2) a nil) ext) r) ctx).Balanced
    obtain ⟨⟨hlo, hhi, hl, hr⟩, -⟩ := (balanced_plug _ _).mp hbal
    have hsame := height_plug_congr (t := node p a nil) (u := node (p.1, x.2) a nil) rfl ext
    have hl' : (plug (node (p.1, x.2) a nil) ext).Balanced :=
      balanced_plug_congr hl rfl ((balanced_plug _ _).mp hl).1
    refine balanced_plug_congr hbal ?_ ⟨hsame ▸ hlo, hsame ▸ hhi, hl', hr⟩
    simp only [height]
    exact congrArg (max · r.height + 1) hsame
  obtain ⟨t₃, t', hunlink, hholds, hbal₃, hin, hn₃⟩ := hf₂.unlink (Or.inl rfl) hbal₂
  refine ⟨p.1, t₂, t₃, t', hlast, ?_, hunlink, hholds, hbal₃, ?_, by rw [hn₃, hn₂, hn₁]⟩
  · have hload₁ := hf.rep.1
    have hload₂ := (Focus.descend (Focus.down (f := ⟨.left, x, r⟩) hf)).rep.1
    simp only [swapNode, hload₁, hload₂, hset₁, hset₂, Option.bind_eq_bind, Option.bind_some]
  · have hafter := after_eq_nil hside
    rw [values, hin]
    simp [before, after, Frame.before, Frame.after, inorder_plug, fork, hafter, List.append_assoc]

theorem WellFormed.remove {t : BinaryTree (Label T)} (h : WellFormed key tree t) (value : T) :
    ∃ tree' t', remove key tree value = some tree' ∧ WellFormed key tree' t' ∧
      ((∃ pre w post, values t = pre ++ w :: post ∧ key w = key value ∧
          values t' = pre ++ post) ∨
        (∀ w ∈ values t, key w ≠ key value) ∧ tree' = tree ∧ t' = t) := by
  have hroot : tree.root = ptr t := h.holds.path
  rcases Focus.search value h.holds h.ordered h.holds.height_le_next with
    ⟨hnone, habs⟩ | ⟨x, l, r, ctx, hsome, rfl, hx⟩
  · refine ⟨tree, t, ?_, h, Or.inr ⟨?_, rfl, rfl⟩⟩
    · simp only [AvlTree.remove, hroot, hnone, Option.bind_eq_bind, Option.bind_some]
    · intro w hw
      obtain ⟨y, hy, rfl⟩ := List.mem_map.mp hw
      exact habs y hy
  · have hvalues : values (plug (node x l r) ctx) =
        (before ctx ++ l.inorder).map Prod.snd ++ x.2 :: (r.inorder ++ after ctx).map Prod.snd := by
      simp [values, inorder_plug, List.append_assoc]
    have hload := (Holds.focus h.holds).rep.1
    -- both branches of the source end with the same list of values
    obtain ⟨tree', t', heq, hholds, hbal, hvals, hn⟩ : ∃ tree' t',
        AvlTree.remove key tree value = some tree' ∧ Holds tree' t' ∧ t'.Balanced ∧
        values t' = (before ctx ++ l.inorder).map Prod.snd ++
          (r.inorder ++ after ctx).map Prod.snd ∧
        tree'.numNodes = tree.numNodes - 1 := by
      cases hl : ptr l with
      | none =>
          obtain ⟨tree', t', heq, hrest⟩ :=
            remove_single h.holds (Or.inr (ptr_eq_none.mp hl)) h.balanced
          refine ⟨tree', t', ?_, hrest⟩
          simp only [AvlTree.remove, hroot, hsome, hload, hl, Option.bind_eq_bind,
            Option.bind_some]
          exact heq
      | some left =>
          cases hr : ptr r with
          | none =>
              obtain ⟨tree', t', heq, hrest⟩ :=
                remove_single h.holds (Or.inl (ptr_eq_none.mp hr)) h.balanced
              refine ⟨tree', t', ?_, hrest⟩
              simp only [AvlTree.remove, hroot, hsome, hload, hl, hr, Option.bind_eq_bind,
                Option.bind_some]
              exact heq
          | some right =>
              obtain ⟨p, t₁, tree', t', hlast, hswap, heq, hrest⟩ :=
                remove_swapped h.holds hl h.balanced
              refine ⟨tree', t', ?_, hrest⟩
              simp only [AvlTree.remove, hroot, hsome, hload, hl, hr, hlast, hswap, heq,
                Option.bind_eq_bind, Option.bind_some]
    refine ⟨tree', t', heq, ⟨hholds, ?_, hbal, ?_⟩, Or.inl ⟨_, x.2, _, hvalues, hx, hvals⟩⟩
    · have hsorted := ordered_iff_values.mp h.ordered
      rw [hvalues] at hsorted
      rw [ordered_iff_values, hvals]
      exact hsorted.sublist ((List.sublist_cons_self _ _).append_left _)
    · rw [hn, h.count, ← length_values, ← length_values, hvals, hvalues]
      simp only [List.length_append, List.length_cons]
      omega

end Memtrade.AvlTree
