import Memtrade.Tswap.Invariant

/-!
# How the invariant survives a change to one entry

Every critical section rewrites one tree entry in place, removes one, or hangs a
new one into a tree. The three rules below say what has to be checked in each
case; what they ask about the other entries is collected in `Frame`.
-/

namespace Memtrade.Tswap

variable {P : Type}

/-- The facts the invariant gives about one entry of a tree. -/
structure InTree (s : St P) (e : EntryId) (en : Entry) (t : TreeId) (tree : RadixTree)
    (p : PageId) (c : Option P) : Prop where
  cell : s.entries.cell e = some en
  root : en.tswapTreeRoot = some t
  trees : s.trees t = some tree
  item : tree[en.offset]? = some e
  data : en.data = some p
  page : s.pages.cell p = some c

theorem Inv.inTree {s : St P} (h : Inv s) {e : EntryId} {en : Entry} {t : TreeId}
    (he : s.entries.cell e = some en) (ht : en.tswapTreeRoot = some t) :
    ∃ tree p c, InTree s e en t tree p c := by
  obtain ⟨tree, htree, hitem⟩ := h.index.complete e en t he ht
  obtain ⟨p, c, hp, hc⟩ := h.pages.owned e en he
  exact ⟨tree, p, c, he, ht, htree, hitem, hp, hc⟩

/-- A tree entry that is not simply in memory has a discharge outstanding. -/
theorem Inv.outstanding_of_ne {s : St P} (h : Inv s) {e : EntryId} {en : Entry} {t : TreeId}
    {tree : RadixTree} {p : PageId} {c : Option P} (hin : InTree s e en t tree p c)
    (hst : en.state ≠ .inMemory) : en.state.outstanding = 1 := by
  have hvalid := (h.lifecycle.tree hin.cell hin.root).1
  cases hs : en.state with
  | invalid => exact absurd hs hvalid
  | inMemory => exact absurd hs hst
  | zombie | inMemoryFollowedByZombie | inFlight => rfl

/-- A lookup that finds an entry finds a live entry of that slot in a tree. -/
theorem Inv.of_lookup {s : St P} (h : Inv s) {x : Slot} {e : EntryId}
    (hl : atomicEntryLookupLock s x = some e) :
    ∃ en t tree p c, InTree s e en t tree p c ∧ en.slot = x ∧
      s.tswapTreeRoots x.type = some t := by
  unfold atomicEntryLookupLock St.radixTreeLookup at hl
  cases hroot : s.tswapTreeRoots x.type with
  | none => simp [hroot] at hl
  | some t =>
      simp only [hroot] at hl
      cases htree : s.trees t with
      | none => simp [htree] at hl
      | some tree =>
          simp only [htree] at hl
          cases hitem : tree[x.offset]? with
          | none => simp [hitem] at hl
          | some e' =>
              obtain ⟨en, hcell, hr, hoff⟩ := h.index.sound t tree x.offset e' htree hitem
              simp only [hitem, hcell] at hl
              split at hl
              · cases hl
              · obtain rfl := Option.some.inj hl
                obtain ⟨tree', p, c, hin⟩ := h.inTree hcell hr
                have htype : t.type = x.type := (h.index.roots _ _ hroot).1
                have htype' := (h.index.type e' en t hcell hr).1
                refine ⟨en, t, tree', p, c, hin, ?_, rfl⟩
                cases x
                simp_all [Entry.slot]

/-! ## The frame of a critical section -/

structure Frame (s s' : St P) (e : EntryId) : Prop where
  roots : s'.tswapTreeRoots = s.tswapTreeRoots
  areas : s'.areas = s.areas
  nextTree : s'.nextTree = s.nextTree
  faults : s'.faults = s.faults
  listed : ∀ i, i ≠ e → s'.quarantineList.count i = s.quarantineList.count i
  outstanding : ∀ i, i ≠ e → Tswap.outstanding s' i = Tswap.outstanding s i
  reading : ∀ i, i ≠ e → Tswap.reading s' i = Tswap.reading s i
  len : s'.stat.lenQuarantineList = s'.quarantineList.length

theorem Frame.view {s s' : St P} {e : EntryId} (hf : Frame s s' e)
    (hcell : ∀ i, i ≠ e → s'.entries.cell i = s.entries.cell i) (i : EntryId) (hi : i ≠ e) :
    s'.view i = s.view i := by
  simp only [St.view, hcell i hi, hf.listed i hi, hf.outstanding i hi, hf.reading i hi]

theorem Inv.rewrite {s s' : St P} (h : Inv s) {e : EntryId} {en en' : Entry} {t : TreeId}
    {tree : RadixTree} {p : PageId} {c : Option P} (hin : InTree s e en t tree p c)
    (hf : Frame s s' e) (hentries : s'.entries = s.entries.write e en')
    (htype : en'.type = en.type) (hoff : en'.offset = en.offset)
    (hroot : en'.tswapTreeRoot = en.tswapTreeRoot) (hdata : en'.data = en.data)
    (hstate : en'.state ≠ .invalid)
    (hout : outstanding s' e = en'.state.outstanding)
    (hlist : s'.quarantineList.count e = en'.state.listed) (hreading : reading s' e = 0)
    (htrees : s'.trees = s.trees) (hpages : Pages s.entries s'.pages)
    (hbios : Bios s.entries s'.writes s'.reads)
    (hcensus : ∀ st, s'.stat.census st + en.state.mark st = s.stat.census st + en'.state.mark st) :
    Inv s' := by
  have hcell : ∀ i, s'.entries.cell i = if i = e then some en' else s.entries.cell i := by
    intro i
    rw [hentries]
    exact Heap.cell_write hin.cell en' i
  refine ⟨?_, ?_, ?_, ?_, ?_, hf.len, ?_⟩
  · refine h.lifecycle.of_local e (hf.view fun i hi => by rw [hcell, if_neg hi]) ?_
    exact View.ok_tree ((hcell e).trans (if_pos rfl)) (hroot.trans hin.root) hstate hout hlist
      hreading
  · rw [hentries, htrees, hf.roots, hf.areas, hf.nextTree]
    exact h.index.write hin.cell htype hoff hroot
  · rw [hentries]
    exact hpages.write hin.cell hdata
  · rw [hentries]
    refine hbios.write hin.cell hdata ?_
    simp only [Entry.slot, htype, hoff]
  · rw [hentries]
    exact h.census.write hin.cell hcensus
  · rw [hf.faults]
    exact h.faults

theorem Inv.remove {s s' : St P} (h : Inv s) {e : EntryId} {en : Entry} {t : TreeId}
    {tree : RadixTree} {p : PageId} {c : Option P} (hin : InTree s e en t tree p c)
    (hf : Frame s s' e) (hentries : s'.entries = s.entries.free e)
    (hout : outstanding s' e = 0) (hlist : s'.quarantineList.count e = 0)
    (hreading : reading s' e = 0)
    (htrees : s'.trees = Function.update s.trees t (some (tree.erase en.offset)))
    (hpages : s'.pages = s.pages.free p) (hbios : Bios s.entries s'.writes s'.reads)
    (hcensus : ∀ st, s'.stat.census st + en.state.mark st = s.stat.census st) : Inv s' := by
  have hcell : ∀ i, s'.entries.cell i = if i = e then none else s.entries.cell i := by
    intro i
    rw [hentries]
    exact Heap.cell_free s.entries e i
  refine ⟨?_, ?_, ?_, ?_, ?_, hf.len, ?_⟩
  · refine h.lifecycle.of_local e (hf.view fun i hi => by rw [hcell, if_neg hi]) ?_
    simp only [View.Ok, St.view, hcell, if_true]
    exact ⟨hout, hlist, hreading⟩
  · rw [hentries, htrees, hf.roots, hf.areas, hf.nextTree]
    exact h.index.remove hin.cell hin.root hin.trees
  · rw [hentries, hpages]
    exact h.pages.free hin.cell hin.data hin.page
  · rw [hentries]
    exact hbios.free e
  · rw [hentries]
    exact h.census.free hin.cell hcensus
  · rw [hf.faults]
    exact h.faults

theorem Inv.silent {s s' : St P} (h : Inv s) (hcells : s'.entries.cell = s.entries.cell)
    (htrees : s'.trees = s.trees) (hroots : s'.tswapTreeRoots = s.tswapTreeRoots)
    (hareas : s'.areas = s.areas) (hnext : s'.nextTree = s.nextTree)
    (hpages : Pages s.entries s'.pages) (hbios : Bios s.entries s'.writes s'.reads)
    (hlist : s'.quarantineList = s.quarantineList)
    (hout : ∀ i, outstanding s' i = outstanding s i)
    (hreading : ∀ i, reading s' i = reading s i)
    (hcensus : ∀ st, s'.stat.census st = s.stat.census st)
    (hlen : s'.stat.lenQuarantineList = s.stat.lenQuarantineList)
    (hfaults : s'.faults = s.faults) : Inv s' := by
  refine ⟨?_, ?_, hpages.congr hcells, hbios.congr hcells, ?_, ?_, ?_⟩
  · intro i
    have hview : s'.view i = s.view i := by
      simp only [St.view, hcells, hlist, hout, hreading]
    rw [hview]
    exact h.lifecycle i
  · rw [htrees, hroots, hareas, hnext]
    exact h.index.congr hcells
  · intro st
    rw [hcensus, Heap.count_congr hcells]
    exact h.census st
  · rw [hlen, hlist]
    exact h.len
  · rw [hfaults]
    exact h.faults

end Memtrade.Tswap
