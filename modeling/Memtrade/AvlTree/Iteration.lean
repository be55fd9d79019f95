import Memtrade.AvlTree.Updates

/-!
# Iterators walk the in-order list

An iterator on a well-formed tree is a position in the in-order list: its two
pointers are the first two nodes of what is still to come. `find_next` goes
down to the first node of the right subtree, or up along right links; both
are read off the context of the current node.
-/

namespace Memtrade.AvlTree

open BinaryTree

variable {T : Type} {tree : AvlTree T}

def headId (rest : List (Label T)) : Option NodeId := rest.head?.map Prod.fst

namespace Iterator

/-- The iterator has `rest` still to visit. -/
structure At (it : Iterator) (rest : List (Label T)) : Prop where
  cur : it.curNode = headId rest
  next : it.nextNode = headId rest.tail

theorem ascend_eq {root : Option NodeId} {i : NodeId} {ctx : List (Frame (Label T))} {fuel : Nat}
    (h : RepCtx tree.load root (some i) ctx) (hi : i ∉ ctxIds ctx) (hnd : (ctxIds ctx).Nodup)
    (hfuel : ctx.length ≤ fuel) :
    ascend tree fuel i (top ctx) = some (headId (after ctx)) := by
  induction ctx generalizing i fuel with
  | nil => cases fuel <;> rfl
  | cons f ctx ih =>
      obtain ⟨d, x, u⟩ := f
      obtain ⟨⟨n, hn, hlinks⟩, -, hpath⟩ := h
      simp only [ctxIds, List.cons_append, List.nodup_cons, List.nodup_append, List.mem_cons,
        List.mem_append, not_or] at hi hnd
      obtain ⟨fuel, rfl⟩ := Nat.exists_eq_add_of_le' (show 1 ≤ fuel by simp at hfuel; omega)
      simp only [List.length_cons, Nat.add_le_add_iff_right] at hfuel
      show ascend tree (fuel + 1) i (some x.1) = _
      cases d with
      | right =>
          have hright : n.right = some i := hlinks.near
          simp only [ascend, hn, hright, hlinks.parent, Option.bind_eq_bind, Option.bind_some,
            if_true]
          rw [ih hpath hnd.1.2 hnd.2.2.1 hfuel]
          simp [after, Frame.after]
      | left =>
          have hright : n.right ≠ some i := by
            rw [show n.right = ptr u from hlinks.far]
            intro hu
            exact hi.2.1 (mem_ids_of_ptr hu)
          simp only [ascend, hn, hright, Option.bind_eq_bind, Option.bind_some, if_false]
          simp [after, Frame.after, headId]

theorem findNext_eq {t : BinaryTree (Label T)} {pre rest : List (Label T)} {x : Label T}
    (h : Holds tree t) (ht : t.inorder = pre ++ x :: rest) (root next : Option NodeId) :
    findNext tree ⟨root, some x.1, next⟩ = some ⟨root, some x.1, headId rest⟩ := by
  obtain ⟨l, r, ctx, rfl, -, hrest⟩ := exists_plug_of_inorder ht
  have hf := Holds.focus h
  have hload := hf.rep.1
  have hids := hf.nodup
  simp only [ids_node, List.nodup_append, List.mem_append, List.mem_cons] at hids
  cases hr : ptr r with
  | none =>
      obtain rfl := ptr_eq_none.mp hr
      have hself : x.1 ∉ ctxIds ctx := fun hmem => hids.2.2 x.1 (by simp) x.1 hmem rfl
      have hup := ascend_eq (hf.path : RepCtx _ _ (some x.1) ctx) hself hids.2.1 hf.length_le_next
      rw [inorder_nil, List.nil_append] at hrest
      simp only [findNext, hload, hr, hup, hrest, Option.bind_eq_bind, Option.bind_some]
  | some i =>
      have hheight : r.height ≤ tree.heap.next := by
        have hnode := hf.height_le_next
        simp only [height] at hnode
        omega
      obtain ⟨y, a, ext, hlast, rfl, hside⟩ := hf.rep.2.2.lastOn .left hr hheight
      have hhead : headId rest = some y.1 := by
        rw [← hrest, inorder_plug, before_eq_nil hside]
        simp [fork, headId]
      simp only [findNext, hload, hr, hlast, hhead, Option.bind_eq_bind, Option.bind_some]

theorem new_at {t : BinaryTree (Label T)} (h : Holds tree t) :
    ∃ it, Iterator.new tree = some it ∧ it.At t.inorder := by
  have hroot : tree.root = ptr t := h.path
  cases ht : ptr t with
  | none =>
      obtain rfl := ptr_eq_none.mp ht
      exact ⟨⟨none, none, none⟩, by simp [Iterator.new, hroot, ht], rfl, rfl⟩
  | some i =>
      obtain ⟨x, a, ext, hlast, rfl, hside⟩ := h.rep.lastOn .left ht h.height_le_next
      have hin : (plug (fork .left x nil a) ext).inorder = x :: (a.inorder ++ after ext) := by
        rw [inorder_plug, before_eq_nil hside]
        simp [fork]
      refine ⟨⟨some i, some x.1, headId (a.inorder ++ after ext)⟩, ?_, ?_⟩
      · simp only [Iterator.new, hroot, ht, hlast, Option.bind_eq_bind, Option.bind_some]
        exact findNext_eq h (hin.trans (List.nil_append _).symm) (some i) none
      · rw [hin]
        exact ⟨rfl, rfl⟩

section Step

variable {t : BinaryTree (Label T)} {it : Iterator} {pre rest : List (Label T)} {x : Label T}

theorem At.valid_cons (hat : it.At (x :: rest)) : it.valid = true := by
  simp [valid, hat.cur, headId]

theorem At.valid_nil (hat : it.At ([] : List (Label T))) : it.valid = false := by
  simp [valid, hat.cur, headId]

theorem At.deref (h : Holds tree t) (ht : t.inorder = pre ++ x :: rest)
    (hat : it.At (x :: rest)) : it.deref tree = some x.2 := by
  obtain ⟨l, r, ctx, rfl, -, -⟩ := exists_plug_of_inorder ht
  have hload := (Holds.focus h).rep.1
  have hcur : it.curNode = some x.1 := hat.cur
  simp only [Iterator.deref, hcur, hload, Option.bind_eq_bind, Option.bind_some]

theorem At.advance (h : Holds tree t) (ht : t.inorder = pre ++ x :: rest)
    (hat : it.At (x :: rest)) : ∃ it', it.advance tree = some it' ∧ it'.At rest := by
  have hnext : it.nextNode = headId rest := hat.next
  cases rest with
  | nil =>
      refine ⟨⟨it.root, none, none⟩, ?_, rfl, rfl⟩
      simp [Iterator.advance, findNext, hnext, headId]
  | cons y rest =>
      have ht' : t.inorder = (pre ++ [x]) ++ y :: rest := by rw [ht]; simp
      refine ⟨⟨it.root, some y.1, headId rest⟩, ?_, rfl, rfl⟩
      rw [Iterator.advance, hnext]
      exact findNext_eq h ht' it.root it.nextNode

end Step

end Iterator

/-- The loop over an iterator visits what it has still to visit, and stops. -/
theorem visit_eq {t : BinaryTree (Label T)} {it : Iterator} {pre rest : List (Label T)}
    {fuel : Nat} (h : Holds tree t) (ht : t.inorder = pre ++ rest) (hat : it.At rest)
    (hfuel : rest.length ≤ fuel) : visit tree fuel it = some (rest.map Prod.snd) := by
  induction rest generalizing it pre fuel with
  | nil =>
      unfold visit
      rw [hat.valid_nil]
      rfl
  | cons x rest ih =>
      obtain ⟨fuel, rfl⟩ := Nat.exists_eq_add_of_le' (show 1 ≤ fuel by simp at hfuel; omega)
      simp only [List.length_cons, Nat.add_le_add_iff_right] at hfuel
      obtain ⟨it', hadv, hat'⟩ := hat.advance h ht
      have ht' : t.inorder = (pre ++ [x]) ++ rest := by rw [ht]; simp
      have hrest := ih ht' hat' hfuel
      unfold visit
      rw [if_pos hat.valid_cons]
      simp only [hat.deref h ht, hadv, hrest, Option.bind_eq_bind, Option.bind_some,
        List.map_cons]

theorem Holds.elements {t : BinaryTree (Label T)} (h : Holds tree t) :
    elements tree = some (values t) := by
  obtain ⟨it, hnew, hat⟩ := Iterator.new_at h
  have hlen : t.inorder.length ≤ tree.heap.next := by
    rw [length_inorder]
    exact h.numNodes_le
  have hvisit := visit_eq h (List.nil_append _).symm hat hlen
  simp only [AvlTree.elements, hnew, hvisit, Option.bind_eq_bind, Option.bind_some]
  rfl

end Memtrade.AvlTree
