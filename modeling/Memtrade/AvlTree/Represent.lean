import Memtrade.AvlTree.Operations

/-!
# Trees on the heap

A tree of values labelled with node addresses, and what it means that the heap
holds it. `Rep` is exact: links, parent pointers, cached heights and sizes. In
a `Focus` the focused subtree is exact, while along the path above it only the
links and values are fixed; the cached fields there are stale until `balance`
has passed. Every step of an update is a statement about one focus.
-/

namespace Memtrade

open BinaryTree

variable {T : Type}

namespace AvlTreeNode

/-- The node holds `value`, its child on side `d` is `near`, the other `far`. -/
structure Links (n : AvlTreeNode T) (d : Side) (value : T) (near far parent : Option NodeId) :
    Prop where
  value : n.value = value
  near : n.child d = near
  far : n.child d.other = far
  parent : n.parent = parent

theorem Links.flip {n : AvlTreeNode T} {d : Side} {value : T} {near far parent : Option NodeId}
    (h : n.Links d value near far parent) : n.Links d.other value far near parent :=
  ⟨h.value, h.far, by rw [Side.other_other]; exact h.near, h.parent⟩

@[simp] theorem setChild_value (d : Side) (p : Option NodeId) (n : AvlTreeNode T) :
    (n.setChild d p).value = n.value := by
  cases d <;> rfl

@[simp] theorem setChild_parent (d : Side) (p : Option NodeId) (n : AvlTreeNode T) :
    (n.setChild d p).parent = n.parent := by
  cases d <;> rfl

@[simp] theorem child_setChild (d : Side) (p : Option NodeId) (n : AvlTreeNode T) :
    (n.setChild d p).child d = p := by
  cases d <;> rfl

@[simp] theorem child_other_setChild (d : Side) (p : Option NodeId) (n : AvlTreeNode T) :
    (n.setChild d p).child d.other = n.child d.other := by
  cases d <;> rfl

@[simp] theorem child_setChild_other (d : Side) (p : Option NodeId) (n : AvlTreeNode T) :
    (n.setChild d.other p).child d = n.child d := by
  cases d <;> rfl

@[simp] theorem child_setParent (d : Side) (p : Option NodeId) (n : AvlTreeNode T) :
    (n.setParent p).child d = n.child d := by
  cases d <;> rfl

end AvlTreeNode

namespace AvlTree

abbrev Label (T : Type) := NodeId × T

/-! ## Addresses -/

def ids (t : BinaryTree (Label T)) : List NodeId := t.inorder.map Prod.fst

def ctxIds : List (Frame (Label T)) → List NodeId
  | [] => []
  | f :: ctx => f.value.1 :: ids f.sibling ++ ctxIds ctx

def ptr : BinaryTree (Label T) → Option NodeId
  | nil => none
  | node x _ _ => some x.1

def top : List (Frame (Label T)) → Option NodeId
  | [] => none
  | f :: _ => some f.value.1

@[simp] theorem ids_nil : ids (nil : BinaryTree (Label T)) = [] := by
  simp [ids]

@[simp] theorem ids_node (x : Label T) (l r : BinaryTree (Label T)) :
    ids (node x l r) = ids l ++ x.1 :: ids r := by
  simp [ids]

@[simp] theorem ptr_node (x : Label T) (l r : BinaryTree (Label T)) :
    ptr (node x l r) = some x.1 := by
  simp [ptr]

@[simp] theorem ptr_fork (d : Side) (x : Label T) (a b : BinaryTree (Label T)) :
    ptr (fork d x a b) = some x.1 := by
  cases d <;> rfl

theorem ptr_eq_none {t : BinaryTree (Label T)} : ptr t = none ↔ t = nil := by
  cases t <;> simp [ptr]

theorem ids_fork (d : Side) (x : Label T) (a b : BinaryTree (Label T)) :
    (ids (fork d x a b)).Perm (x.1 :: ids a ++ ids b) := by
  cases d with
  | left =>
      simp only [fork, ids_node]
      exact List.perm_middle
  | right =>
      simp only [fork, ids_node, List.cons_append]
      exact List.perm_middle.trans (List.Perm.cons _ List.perm_append_comm)

private theorem ids_attach (f : Frame (Label T)) (t : BinaryTree (Label T))
    (ctx : List (Frame (Label T))) :
    (ids (f.attach t) ++ ctxIds ctx).Perm (ids t ++ ctxIds (f :: ctx)) := by
  refine ((ids_fork f.side f.value t f.sibling).append_right (ctxIds ctx)).trans ?_
  simp only [ctxIds, List.cons_append, List.append_assoc]
  exact List.perm_middle.symm

theorem ids_plug (t : BinaryTree (Label T)) (ctx : List (Frame (Label T))) :
    (ids (plug t ctx)).Perm (ids t ++ ctxIds ctx) := by
  induction ctx generalizing t with
  | nil => simp [plug, ctxIds]
  | cons f ctx ih =>
      exact (ih (f.attach t)).trans (ids_attach f t ctx)

theorem mem_ids_of_ptr {t : BinaryTree (Label T)} {i : NodeId} (h : ptr t = some i) :
    i ∈ ids t := by
  cases t with
  | nil => cases h
  | node x l r =>
      simp only [ptr, Option.some.injEq] at h
      simp [h]

theorem mem_ctxIds_of_top {ctx : List (Frame (Label T))} {i : NodeId} (h : top ctx = some i) :
    i ∈ ctxIds ctx := by
  cases ctx with
  | nil => cases h
  | cons f ctx =>
      simp only [top, Option.some.injEq] at h
      simp [ctxIds, h]

theorem length_ids (t : BinaryTree (Label T)) : (ids t).length = t.numNodes := by
  rw [ids, List.length_map, length_inorder]

/-! ## Representation -/

section Rep

variable {c c' : NodeId → Option (AvlTreeNode T)}

variable (c) in
/-- The cells `c` hold the tree, below the node `parent`. -/
def Rep (parent : Option NodeId) : BinaryTree (Label T) → Prop
  | nil => True
  | node x l r =>
      c x.1 = some ⟨x.2, ptr l, ptr r, parent, (node x l r).height, (node x l r).numNodes⟩ ∧
        Rep (some x.1) l ∧ Rep (some x.1) r

variable (c) in
/-- The cells hold the path from a subtree with root `child` up to `root`. -/
def RepCtx (root : Option NodeId) : Option NodeId → List (Frame (Label T)) → Prop
  | child, [] => root = child
  | child, f :: ctx =>
      (∃ n, c f.value.1 = some n ∧ n.Links f.side f.value.2 child (ptr f.sibling) (top ctx)) ∧
        Rep c (some f.value.1) f.sibling ∧ RepCtx root (some f.value.1) ctx

theorem rep_fork {parent : Option NodeId} {d : Side} {x : Label T} {a b : BinaryTree (Label T)} :
    Rep c parent (fork d x a b) ↔
      (∃ n, c x.1 = some n ∧ n.Links d x.2 (ptr a) (ptr b) parent ∧
        n.height = (fork d x a b).height ∧ n.numNodes = (fork d x a b).numNodes) ∧
      Rep c (some x.1) a ∧ Rep c (some x.1) b := by
  cases d with
  | left =>
      simp only [fork, Rep]
      constructor
      · rintro ⟨hx, ha, hb⟩
        exact ⟨⟨_, hx, ⟨rfl, rfl, rfl, rfl⟩, rfl, rfl⟩, ha, hb⟩
      · rintro ⟨⟨⟨v, l, r, p, h, s⟩, hx, ⟨rfl, rfl, rfl, rfl⟩, rfl, rfl⟩, ha, hb⟩
        exact ⟨hx, ha, hb⟩
  | right =>
      simp only [fork, Rep]
      constructor
      · rintro ⟨hx, hb, ha⟩
        exact ⟨⟨_, hx, ⟨rfl, rfl, rfl, rfl⟩, rfl, rfl⟩, ha, hb⟩
      · rintro ⟨⟨⟨v, l, r, p, h, s⟩, hx, ⟨rfl, rfl, rfl, rfl⟩, rfl, rfl⟩, ha, hb⟩
        exact ⟨hx, hb, ha⟩

theorem Rep.congr {parent : Option NodeId} {t : BinaryTree (Label T)} (h : Rep c parent t)
    (hc : ∀ i ∈ ids t, c' i = c i) : Rep c' parent t := by
  induction t generalizing parent with
  | nil => trivial
  | node x l r ihl ihr =>
      obtain ⟨hx, hl, hr⟩ := h
      simp only [ids_node, List.mem_append, List.mem_cons] at hc
      refine ⟨(hc x.1 (by simp)).trans hx, ihl hl ?_, ihr hr ?_⟩
      · intro i hi
        exact hc i (Or.inl hi)
      · intro i hi
        exact hc i (Or.inr (Or.inr hi))

theorem RepCtx.congr {root child : Option NodeId} {ctx : List (Frame (Label T))}
    (h : RepCtx c root child ctx) (hc : ∀ i ∈ ctxIds ctx, c' i = c i) :
    RepCtx c' root child ctx := by
  induction ctx generalizing child with
  | nil => exact h
  | cons f ctx ih =>
      obtain ⟨⟨n, hn, hlinks⟩, hsib, hrest⟩ := h
      simp only [ctxIds, List.cons_append, List.mem_cons, List.mem_append] at hc
      refine ⟨⟨n, (hc _ (Or.inl rfl)).trans hn, hlinks⟩, ?_, ih hrest ?_⟩
      · exact hsib.congr fun i hi => hc i (Or.inr (Or.inl hi))
      · intro i hi
        exact hc i (Or.inr (Or.inr hi))

/-- Hanging a subtree below another node changes one parent pointer. -/
theorem Rep.reparent {parent parent' : Option NodeId} {t : BinaryTree (Label T)}
    (h : Rep c parent t) (hnd : (ids t).Nodup)
    (hroot : ∀ i n, ptr t = some i → c i = some n → c' i = some (n.setParent parent'))
    (hrest : ∀ i ∈ ids t, ptr t ≠ some i → c' i = c i) : Rep c' parent' t := by
  cases t with
  | nil => trivial
  | node x l r =>
      obtain ⟨hx, hl, hr⟩ := h
      simp only [ids_node, List.nodup_append, List.nodup_cons, List.mem_cons, ptr, ne_eq,
        Option.some.injEq, List.mem_append] at hnd hrest
      refine ⟨hroot x.1 _ rfl hx, hl.congr ?_, hr.congr ?_⟩
      · intro i hi
        exact hrest i (Or.inl hi) fun heq => hnd.2.2 i hi x.1 (Or.inl rfl) heq.symm
      · intro i hi
        refine hrest i (Or.inr (Or.inr hi)) ?_
        rintro rfl
        exact hnd.2.1.1 hi

theorem Rep.exists_cell {parent : Option NodeId} {t : BinaryTree (Label T)} (h : Rep c parent t)
    {i : NodeId} (hi : i ∈ ids t) : ∃ n, c i = some n := by
  induction t generalizing parent with
  | nil => simp at hi
  | node x l r ihl ihr =>
      obtain ⟨hx, hl, hr⟩ := h
      simp only [ids_node, List.mem_append, List.mem_cons] at hi
      rcases hi with hi | rfl | hi
      · exact ihl hl hi
      · exact ⟨_, hx⟩
      · exact ihr hr hi

theorem RepCtx.exists_cell {root child : Option NodeId} {ctx : List (Frame (Label T))}
    (h : RepCtx c root child ctx) {i : NodeId} (hi : i ∈ ctxIds ctx) : ∃ n, c i = some n := by
  induction ctx generalizing child with
  | nil => simp [ctxIds] at hi
  | cons f ctx ih =>
      obtain ⟨⟨n, hn, -⟩, hsib, hrest⟩ := h
      simp only [ctxIds, List.cons_append, List.mem_cons, List.mem_append] at hi
      rcases hi with rfl | hi | hi
      · exact ⟨n, hn⟩
      · exact hsib.exists_cell hi
      · exact ih hrest hi

/-- The cached fields of the subtree's root, read through a pointer to it. -/
theorem Rep.root_cell {parent : Option NodeId} {t : BinaryTree (Label T)} (h : Rep c parent t)
    {i : NodeId} (hi : ptr t = some i) :
    ∃ n, c i = some n ∧ n.height = t.height ∧ n.numNodes = t.numNodes := by
  cases t with
  | nil => cases hi
  | node x l r =>
      simp only [ptr, Option.some.injEq] at hi
      subst hi
      exact ⟨_, h.1, rfl, rfl⟩

end Rep

/-! ## A focus -/

structure Focus (tree : AvlTree T) (t : BinaryTree (Label T)) (ctx : List (Frame (Label T))) :
    Prop where
  rep : Rep tree.load (top ctx) t
  path : RepCtx tree.load tree.root (ptr t) ctx
  nodup : (ids t ++ ctxIds ctx).Nodup

section Focus

variable {tree tree' : AvlTree T} {t : BinaryTree (Label T)} {ctx : List (Frame (Label T))}

/-- The whole tree. -/
abbrev Holds (tree : AvlTree T) (t : BinaryTree (Label T)) : Prop := Focus tree t []

theorem Focus.nodup_attach {f : Frame (Label T)} (h : (ids t ++ ctxIds (f :: ctx)).Nodup) :
    (ids (f.attach t) ++ ctxIds ctx).Nodup :=
  (ids_attach f t ctx).nodup_iff.mpr h

theorem Focus.down {f : Frame (Label T)} (h : Focus tree (f.attach t) ctx) :
    Focus tree t (f :: ctx) := by
  obtain ⟨hrep, hpath, hnd⟩ := h
  obtain ⟨⟨n, hn, hlinks, -, -⟩, ht, hsib⟩ := rep_fork.mp hrep
  refine ⟨ht, ⟨⟨n, hn, hlinks⟩, hsib, ?_⟩, (ids_attach f t ctx).nodup_iff.mp hnd⟩
  simpa [Frame.attach] using hpath

theorem Focus.descend {ext : List (Frame (Label T))} (h : Focus tree (plug t ext) ctx) :
    Focus tree t (ext ++ ctx) := by
  induction ext generalizing t with
  | nil => exact h
  | cons f ext ih => exact (ih h).down

theorem Holds.focus (h : Holds tree (plug t ctx)) : Focus tree t ctx := by
  simpa using Focus.descend h

/-- Node addresses are allocated, so there are no more nodes than allocations. -/
theorem Focus.numNodes_le (h : Focus tree t ctx) : (plug t ctx).numNodes ≤ tree.heap.next := by
  have hlt : ∀ i ∈ ids t ++ ctxIds ctx, i < tree.heap.next := by
    intro i hi
    rcases List.mem_append.mp hi with hi | hi
    · obtain ⟨n, hn⟩ := h.rep.exists_cell hi
      exact Heap.lt_next hn
    · obtain ⟨n, hn⟩ := h.path.exists_cell hi
      exact Heap.lt_next hn
  have hsub : ids t ++ ctxIds ctx ⊆ List.range tree.heap.next := by
    intro i hi
    exact List.mem_range.mpr (hlt i hi)
  have hlen := (List.subperm_of_subset h.nodup hsub).length_le
  rw [List.length_range, ← (ids_plug t ctx).length_eq, length_ids] at hlen
  exact hlen

end Focus

end AvlTree

end Memtrade
