import Memtrade.Tswap.System

/-!
# The joint invariant of tswap

The invariant has one part per shared structure. `Lifecycle` is a table: from
the state of an entry it fixes how many discharges of it are outstanding and how
often it stands on the quarantine list. `Index` says that the radix trees and
the entries' own tree pointers agree, `Pages` that every live entry owns exactly
one page, `Bios` that the bios in flight point at live entries, and `Census`
that the counters count. A step touches one entry, so each part is preserved by
looking at that entry only.
-/

namespace Memtrade.Tswap

variable {P : Type}

/-! ## What the rest of the system holds of one entry -/

/-- 1 while the discharge thread stands between marking `e` and the outcome of
its submission. -/
def DischargePc.holds : DischargePc → EntryId → Nat
  | .submit _ e', e => if e' = e then 1 else 0
  | _, _ => 0

@[simp] theorem DischargePc.holds_submit (n : Int) (e' e : EntryId) :
    (DischargePc.submit n e').holds e = if e' = e then 1 else 0 := rfl

@[simp] theorem DischargePc.holds_scan (n : Int) (e : EntryId) :
    (DischargePc.scan n).holds e = 0 := rfl

@[simp] theorem DischargePc.holds_outer (e : EntryId) : DischargePc.outer.holds e = 0 := rfl

/-- The discharges of `e` whose completion or failure has not been handled. -/
def outstanding (s : St P) (e : EntryId) : Nat :=
  s.writes.count (fun b => b.entry == e) + s.discharge.holds e

/-- The prefetch reads into `e` that have not completed. -/
def reading (s : St P) (e : EntryId) : Nat :=
  s.reads.count fun b => b.entry == e

/-- Outstanding discharges of a tree entry, by state. -/
def EntryState.outstanding : EntryState → Nat
  | .invalid | .inMemory => 0
  | .zombie | .inMemoryFollowedByZombie | .inFlight => 1

/-- Occurrences of a tree entry on the quarantine list, by state. -/
def EntryState.listed : EntryState → Nat
  | .inMemory | .inMemoryFollowedByZombie => 1
  | .invalid | .zombie | .inFlight => 0

structure View where
  cell : Option Entry
  outstanding : Nat
  listed : Nat
  reading : Nat

def St.view (s : St P) (e : EntryId) : View :=
  ⟨s.entries.cell e, outstanding s e, s.quarantineList.count e, reading s e⟩

/-- The lifecycle table. An entry outside every tree is one whose prefetch read
is pending; a released entry is referred to by nothing. -/
def View.Ok (v : View) : Prop :=
  match v.cell with
  | none => v.outstanding = 0 ∧ v.listed = 0 ∧ v.reading = 0
  | some en =>
      match en.tswapTreeRoot with
      | none => en.state = .inMemory ∧ v.outstanding = 0 ∧ v.listed = 0 ∧ v.reading = 1
      | some _ =>
          en.state ≠ .invalid ∧ v.outstanding = en.state.outstanding ∧
            v.listed = en.state.listed ∧ v.reading = 0

theorem View.ok_tree {v : View} {en : Entry} {t : TreeId} (hcell : v.cell = some en)
    (hroot : en.tswapTreeRoot = some t) (hstate : en.state ≠ .invalid)
    (hout : v.outstanding = en.state.outstanding) (hlist : v.listed = en.state.listed)
    (hread : v.reading = 0) : v.Ok := by
  simp only [View.Ok, hcell, hroot]
  exact ⟨hstate, hout, hlist, hread⟩

theorem View.ok_prefetching {v : View} {en : Entry} (hcell : v.cell = some en)
    (hroot : en.tswapTreeRoot = none) (hstate : en.state = .inMemory) (hout : v.outstanding = 0)
    (hlist : v.listed = 0) (hread : v.reading = 1) : v.Ok := by
  simp only [View.Ok, hcell, hroot]
  exact ⟨hstate, hout, hlist, hread⟩

def Lifecycle (s : St P) : Prop := ∀ e, (s.view e).Ok

theorem Lifecycle.of_local {s s' : St P} (h : Lifecycle s) (e : EntryId)
    (hother : ∀ i, i ≠ e → s'.view i = s.view i) (he : (s'.view e).Ok) : Lifecycle s' := by
  intro i
  by_cases hi : i = e
  · subst hi
    exact he
  · rw [hother i hi]
    exact h i

theorem Lifecycle.tree {s : St P} (h : Lifecycle s) {e : EntryId} {en : Entry} {t : TreeId}
    (he : s.entries.cell e = some en) (ht : en.tswapTreeRoot = some t) :
    en.state ≠ .invalid ∧ outstanding s e = en.state.outstanding ∧
      s.quarantineList.count e = en.state.listed ∧ reading s e = 0 := by
  have := h e
  simpa only [View.Ok, St.view, he, ht] using this

theorem Lifecycle.dead {s : St P} (h : Lifecycle s) {e : EntryId} (he : s.entries.cell e = none) :
    outstanding s e = 0 ∧ s.quarantineList.count e = 0 ∧ reading s e = 0 := by
  have := h e
  simpa only [View.Ok, St.view, he] using this

theorem Lifecycle.prefetching {s : St P} (h : Lifecycle s) {e : EntryId} {en : Entry}
    (he : s.entries.cell e = some en) (ht : en.tswapTreeRoot = none) :
    en.state = .inMemory ∧ outstanding s e = 0 ∧ s.quarantineList.count e = 0 ∧
      reading s e = 1 := by
  have := h e
  simpa only [View.Ok, St.view, he, ht] using this

/-! ## The tree index -/

structure Index (entries : Heap Entry) (trees : TreeId → Option RadixTree)
    (roots areas : Nat → Option TreeId) (nextTree : Nat) : Prop where
  sound : ∀ t tree off e, trees t = some tree → tree[off]? = some e →
    ∃ en, entries.cell e = some en ∧ en.tswapTreeRoot = some t ∧ en.offset = off
  complete : ∀ e en t, entries.cell e = some en → en.tswapTreeRoot = some t →
    ∃ tree, trees t = some tree ∧ tree[en.offset]? = some e
  type : ∀ e en t, entries.cell e = some en → en.tswapTreeRoot = some t →
    t.type = en.type ∧ (roots en.type = some t ∨ areas en.type = some t)
  roots : ∀ ty t, roots ty = some t → t.type = ty ∧ (trees t).isSome ∧ areas ty = none
  areas : ∀ ty t, areas ty = some t → t.type = ty ∧ (trees t).isSome
  fresh : ∀ t, (trees t).isSome → t.serial < nextTree

theorem Index.write {entries : Heap Entry} {trees roots areas nextTree}
    (h : Index entries trees roots areas nextTree) {e : EntryId} {en en' : Entry}
    (he : entries.cell e = some en) (htype : en'.type = en.type) (hoff : en'.offset = en.offset)
    (hroot : en'.tswapTreeRoot = en.tswapTreeRoot) :
    Index (entries.write e en') trees roots areas nextTree := by
  have hcell := Heap.cell_write he en'
  refine ⟨?_, ?_, ?_, h.roots, h.areas, h.fresh⟩
  · intro t tree off i ht hi
    obtain ⟨eni, hcelli, hri, hoi⟩ := h.sound t tree off i ht hi
    rw [hcell]
    by_cases hie : i = e
    · subst hie
      obtain rfl : en = eni := Option.some.inj (he.symm.trans hcelli)
      exact ⟨en', if_pos rfl, hroot.trans hri, hoff.trans hoi⟩
    · exact ⟨eni, by rw [if_neg hie]; exact hcelli, hri, hoi⟩
  · intro i eni t hi ht
    rw [hcell] at hi
    split at hi
    · rename_i hie
      subst hie
      obtain rfl := Option.some.inj hi
      rw [hoff]
      exact h.complete i en t he (hroot.symm.trans ht)
    · exact h.complete i eni t hi ht
  · intro i eni t hi ht
    rw [hcell] at hi
    split at hi
    · rename_i hie
      subst hie
      obtain rfl := Option.some.inj hi
      rw [htype]
      exact h.type i en t he (hroot.symm.trans ht)
    · exact h.type i eni t hi ht

theorem Index.alloc {entries : Heap Entry} {trees roots areas nextTree}
    (h : Index entries trees roots areas nextTree) {en : Entry} (hroot : en.tswapTreeRoot = none) :
    Index (entries.alloc en) trees roots areas nextTree := by
  have hne : ∀ i eni, entries.cell i = some eni → i ≠ entries.next := by
    intro i eni hi
    have := Heap.lt_next hi
    omega
  refine ⟨?_, ?_, ?_, h.roots, h.areas, h.fresh⟩
  · intro t tree off i ht hi
    obtain ⟨eni, hcelli, hrest⟩ := h.sound t tree off i ht hi
    exact ⟨eni, by rw [Heap.cell_alloc, if_neg (hne i eni hcelli)]; exact hcelli, hrest⟩
  · intro i eni t hi ht
    rw [Heap.cell_alloc] at hi
    split at hi
    · obtain rfl := Option.some.inj hi
      rw [hroot] at ht
      cases ht
    · exact h.complete i eni t hi ht
  · intro i eni t hi ht
    rw [Heap.cell_alloc] at hi
    split at hi
    · obtain rfl := Option.some.inj hi
      rw [hroot] at ht
      cases ht
    · exact h.type i eni t hi ht

theorem Index.free_outside {entries : Heap Entry} {trees roots areas nextTree}
    (h : Index entries trees roots areas nextTree) {e : EntryId}
    (hroot : ∀ en, entries.cell e = some en → en.tswapTreeRoot = none) :
    Index (entries.free e) trees roots areas nextTree := by
  refine ⟨?_, ?_, ?_, h.roots, h.areas, h.fresh⟩
  · intro t tree off i ht hi
    obtain ⟨eni, hcelli, hri, hoi⟩ := h.sound t tree off i ht hi
    refine ⟨eni, ?_, hri, hoi⟩
    rw [Heap.cell_free, if_neg]
    · exact hcelli
    · rintro rfl
      rw [hroot eni hcelli] at hri
      cases hri
  · intro i eni t hi ht
    rw [Heap.cell_free] at hi
    split at hi
    · cases hi
    · exact h.complete i eni t hi ht
  · intro i eni t hi ht
    rw [Heap.cell_free] at hi
    split at hi
    · cases hi
    · exact h.type i eni t hi ht

theorem Index.remove {entries : Heap Entry} {trees roots areas nextTree}
    (h : Index entries trees roots areas nextTree) {e : EntryId} {en : Entry} {t : TreeId}
    {tree : RadixTree} (he : entries.cell e = some en) (ht : en.tswapTreeRoot = some t)
    (htree : trees t = some tree) :
    Index (entries.free e) (Function.update trees t (some (tree.erase en.offset)))
      roots areas nextTree := by
  have hsome : ∀ u, (Function.update trees t (some (tree.erase en.offset)) u).isSome =
      (trees u).isSome := by
    intro u
    by_cases hu : u = t
    · subst hu
      simp [htree]
    · rw [Function.update_of_ne hu]
  have hoffe : tree[en.offset]? = some e := by
    obtain ⟨tree', htree', hoff⟩ := h.complete e en t he ht
    rw [htree] at htree'
    obtain rfl := Option.some.inj htree'
    exact hoff
  refine ⟨?_, ?_, ?_, ?_, ?_, ?_⟩
  · intro u tree' off i hu hi
    by_cases hut : u = t
    · subst hut
      rw [Function.update_self] at hu
      obtain rfl := Option.some.inj hu
      rw [Std.TreeMap.getElem?_erase] at hi
      split at hi
      · cases hi
      · rename_i hne
        obtain ⟨eni, hcelli, hri, hoi⟩ := h.sound u tree off i htree hi
        refine ⟨eni, ?_, hri, hoi⟩
        rw [Heap.cell_free, if_neg]
        · exact hcelli
        · rintro rfl
          obtain rfl : en = eni := Option.some.inj (he.symm.trans hcelli)
          rw [hoi] at hne
          simp at hne
    · rw [Function.update_of_ne hut] at hu
      obtain ⟨eni, hcelli, hri, hoi⟩ := h.sound u tree' off i hu hi
      refine ⟨eni, ?_, hri, hoi⟩
      rw [Heap.cell_free, if_neg]
      · exact hcelli
      · rintro rfl
        obtain rfl : en = eni := Option.some.inj (he.symm.trans hcelli)
        exact hut (Option.some.inj (hri.symm.trans ht))
  · intro i eni u hi hu
    rw [Heap.cell_free] at hi
    split at hi
    · cases hi
    · rename_i hie
      obtain ⟨tree', htree', hoff⟩ := h.complete i eni u hi hu
      by_cases hut : u = t
      · subst hut
        rw [htree] at htree'
        obtain rfl := Option.some.inj htree'
        refine ⟨_, Function.update_self .., ?_⟩
        rw [Std.TreeMap.getElem?_erase, if_neg]
        · exact hoff
        · intro hc
          rw [Nat.compare_eq_eq] at hc
          rw [← hc, hoffe] at hoff
          exact hie (Option.some.inj hoff).symm
      · exact ⟨tree', by rw [Function.update_of_ne hut]; exact htree', hoff⟩
  · intro i eni u hi hu
    rw [Heap.cell_free] at hi
    split at hi
    · cases hi
    · exact h.type i eni u hi hu
  · intro ty u hu
    rw [hsome]
    exact h.roots ty u hu
  · intro ty u hu
    rw [hsome]
    exact h.areas ty u hu
  · intro u hu
    rw [hsome] at hu
    exact h.fresh u hu

/-- Hanging an entry that was outside every tree into the live tree of its type
keeps the index. -/
theorem Index.insert {entries : Heap Entry} {trees roots areas nextTree}
    (h : Index entries trees roots areas nextTree) {e : EntryId} {en en' : Entry} {t : TreeId}
    {tree : RadixTree} (he : entries.cell e = some en) (hroot : en.tswapTreeRoot = none)
    (ht : roots en'.type = some t) (htree : trees t = some tree)
    (hfree : tree[en'.offset]? = none) (hroot' : en'.tswapTreeRoot = some t) :
    Index (entries.write e en') (Function.update trees t (some (tree.insert en'.offset e)))
      roots areas nextTree := by
  have hcell := Heap.cell_write he en'
  have hsome : ∀ u, (Function.update trees t (some (tree.insert en'.offset e)) u).isSome =
      (trees u).isSome := by
    intro u
    by_cases hu : u = t
    · subst hu
      simp [htree]
    · rw [Function.update_of_ne hu]
  refine ⟨?_, ?_, ?_, ?_, ?_, ?_⟩
  · intro u tree' off i hu hi
    by_cases hut : u = t
    · subst hut
      rw [Function.update_self] at hu
      obtain rfl := Option.some.inj hu
      rw [Std.TreeMap.getElem?_insert] at hi
      split at hi
      · rename_i hc
        obtain rfl := Option.some.inj hi
        exact ⟨en', by rw [hcell, if_pos rfl], hroot', Nat.compare_eq_eq.mp hc⟩
      · obtain ⟨eni, hcelli, hri, hoi⟩ := h.sound u tree off i htree hi
        refine ⟨eni, ?_, hri, hoi⟩
        rw [hcell, if_neg]
        · exact hcelli
        · rintro rfl
          obtain rfl : en = eni := Option.some.inj (he.symm.trans hcelli)
          rw [hroot] at hri
          cases hri
    · rw [Function.update_of_ne hut] at hu
      obtain ⟨eni, hcelli, hri, hoi⟩ := h.sound u tree' off i hu hi
      refine ⟨eni, ?_, hri, hoi⟩
      rw [hcell, if_neg]
      · exact hcelli
      · rintro rfl
        obtain rfl : en = eni := Option.some.inj (he.symm.trans hcelli)
        rw [hroot] at hri
        cases hri
  · intro i eni u hi hu
    rw [hcell] at hi
    split at hi
    · rename_i hie
      subst hie
      obtain rfl := Option.some.inj hi
      obtain rfl : t = u := Option.some.inj (hroot'.symm.trans hu)
      exact ⟨_, Function.update_self .., by simp⟩
    · obtain ⟨tree', htree', hoff⟩ := h.complete i eni u hi hu
      by_cases hut : u = t
      · subst hut
        rw [htree] at htree'
        obtain rfl := Option.some.inj htree'
        refine ⟨_, Function.update_self .., ?_⟩
        rw [Std.TreeMap.getElem?_insert, if_neg]
        · exact hoff
        · intro hc
          rw [Nat.compare_eq_eq] at hc
          rw [← hc, hfree] at hoff
          cases hoff
      · exact ⟨tree', by rw [Function.update_of_ne hut]; exact htree', hoff⟩
  · intro i eni u hi hu
    rw [hcell] at hi
    split at hi
    · obtain rfl := Option.some.inj hi
      obtain rfl : t = u := Option.some.inj (hroot'.symm.trans hu)
      exact ⟨(h.roots _ t ht).1, .inl ht⟩
    · exact h.type i eni u hi hu
  · intro ty u hu
    rw [hsome]
    exact h.roots ty u hu
  · intro ty u hu
    rw [hsome]
    exact h.areas ty u hu
  · intro u hu
    rw [hsome] at hu
    exact h.fresh u hu

theorem Index.congr {entries entries' : Heap Entry} {trees roots areas nextTree}
    (h : Index entries trees roots areas nextTree) (hcell : entries'.cell = entries.cell) :
    Index entries' trees roots areas nextTree := by
  refine ⟨?_, ?_, ?_, h.roots, h.areas, h.fresh⟩
  · rw [hcell]
    exact h.sound
  · rw [hcell]
    exact h.complete
  · rw [hcell]
    exact h.type

/-! ## Pages -/

/-- Every live entry owns one live page, no page is shared, and every page that
is no longer live was released once. -/
structure Pages (entries : Heap Entry) (pages : Heap (Option P)) : Prop where
  owned : ∀ e en, entries.cell e = some en → ∃ p c, en.data = some p ∧ pages.cell p = some c
  inj : ∀ e e' en en', entries.cell e = some en → entries.cell e' = some en' →
    en.data = en'.data → e = e'
  count : pages.count (fun _ => true) = entries.count fun _ => true
  freed : pages.FreedOnce

theorem Pages.write {entries : Heap Entry} {pages : Heap (Option P)} (h : Pages entries pages)
    {e : EntryId} {en en' : Entry} (he : entries.cell e = some en) (hdata : en'.data = en.data) :
    Pages (entries.write e en') pages := by
  have hcell := Heap.cell_write he en'
  have hold : ∀ i eni, (entries.write e en').cell i = some eni →
      ∃ eno, entries.cell i = some eno ∧ eno.data = eni.data := by
    intro i eni hi
    rw [hcell] at hi
    split at hi
    · rename_i hie
      subst hie
      obtain rfl := Option.some.inj hi
      exact ⟨en, he, hdata.symm⟩
    · exact ⟨eni, hi, rfl⟩
  refine ⟨?_, ?_, ?_, h.freed⟩
  · intro i eni hi
    obtain ⟨eno, ho, hd⟩ := hold i eni hi
    rw [← hd]
    exact h.owned i eno ho
  · intro i j eni enj hi hj hd
    obtain ⟨eno, ho, hdi⟩ := hold i eni hi
    obtain ⟨enp, hp, hdj⟩ := hold j enj hj
    exact h.inj i j eno enp ho hp (hdi.trans (hd.trans hdj.symm))
  · have := Heap.count_write he en' fun _ => true
    simp only [if_true] at this
    rw [h.count]
    omega

theorem Pages.writePage {entries : Heap Entry} {pages : Heap (Option P)} (h : Pages entries pages)
    {p : PageId} {c c' : Option P} (hp : pages.cell p = some c) :
    Pages entries (pages.write p c') := by
  refine ⟨?_, h.inj, ?_, h.freed.write hp c'⟩
  · intro e en he
    obtain ⟨q, d, hq, hd⟩ := h.owned e en he
    refine ⟨q, if q = p then c' else d, hq, ?_⟩
    rw [Heap.cell_write hp]
    split
    · rfl
    · exact hd
  · have := Heap.count_write hp c' fun _ => true
    simp only [if_true] at this
    rw [← h.count]
    omega

theorem Pages.free {entries : Heap Entry} {pages : Heap (Option P)} (h : Pages entries pages)
    {e : EntryId} {en : Entry} {p : PageId} {c : Option P} (he : entries.cell e = some en)
    (hp : en.data = some p) (hc : pages.cell p = some c) :
    Pages (entries.free e) (pages.free p) := by
  refine ⟨?_, ?_, ?_, h.freed.free hc⟩
  · intro i eni hi
    rw [Heap.cell_free] at hi
    split at hi
    · cases hi
    · rename_i hie
      obtain ⟨q, d, hq, hd⟩ := h.owned i eni hi
      refine ⟨q, d, hq, ?_⟩
      rw [Heap.cell_free, if_neg]
      · exact hd
      · rintro rfl
        exact hie (h.inj i e eni en hi he (hq.trans hp.symm))
  · intro i j eni enj hi hj
    rw [Heap.cell_free] at hi hj
    split at hi
    · cases hi
    · split at hj
      · cases hj
      · exact h.inj i j eni enj hi hj
  · have he' := Heap.count_free he fun _ => true
    have hp' := Heap.count_free hc fun _ => true
    have := h.count
    simp only [if_true] at he' hp'
    omega

theorem Pages.alloc {entries : Heap Entry} {pages : Heap (Option P)} (h : Pages entries pages)
    {en : Entry} (hdata : en.data = some pages.next) (c : Option P) :
    Pages (entries.alloc en) (pages.alloc c) := by
  have hne : ∀ i eni, entries.cell i = some eni → eni.data ≠ some pages.next := by
    intro i eni hi hd
    obtain ⟨p, d, hp, hd'⟩ := h.owned i eni hi
    obtain rfl := Option.some.inj (hd.symm.trans hp)
    rw [Heap.cell_next] at hd'
    cases hd'
  refine ⟨?_, ?_, ?_, h.freed.alloc c⟩
  · intro i eni hi
    rw [Heap.cell_alloc] at hi
    split at hi
    · obtain rfl := Option.some.inj hi
      exact ⟨pages.next, c, hdata, by rw [Heap.cell_alloc, if_pos rfl]⟩
    · obtain ⟨p, d, hp, hd⟩ := h.owned i eni hi
      refine ⟨p, d, hp, ?_⟩
      rw [Heap.cell_alloc, if_neg]
      · exact hd
      · rintro rfl
        exact hne i eni hi hp
  · intro i j eni enj hi hj hd
    rw [Heap.cell_alloc] at hi hj
    split at hi
    · split at hj
      · rename_i h₁ h₂
        exact h₁.trans h₂.symm
      · obtain rfl := Option.some.inj hi
        exact (hne j enj hj (hd.symm.trans hdata)).elim
    · split at hj
      · obtain rfl := Option.some.inj hj
        exact (hne i eni hi (hd.trans hdata)).elim
      · exact h.inj i j eni enj hi hj hd
  · rw [Heap.count_alloc, Heap.count_alloc, h.count]

theorem Pages.burn {entries : Heap Entry} {pages : Heap (Option P)} (h : Pages entries pages) :
    Pages entries pages.burn := by
  refine ⟨h.owned, h.inj, ?_, ?_⟩
  · rw [Heap.count_burn, h.count]
  · have hnew : (pages.alloc none).cell pages.next = some none := by
      rw [Heap.cell_alloc, if_pos rfl]
    rw [← Heap.alloc_free pages none]
    exact (h.freed.alloc none).free hnew

theorem Pages.congr {entries entries' : Heap Entry} {pages : Heap (Option P)}
    (h : Pages entries pages) (hcell : entries'.cell = entries.cell) : Pages entries' pages := by
  refine ⟨?_, ?_, ?_, h.freed⟩
  · rw [hcell]
    exact h.owned
  · rw [hcell]
    exact h.inj
  · rw [Heap.count_congr hcell]
    exact h.count

/-! ## Bios -/

/-- A bio in flight carries the page and the slot of the entry it was issued for. -/
structure Bios (entries : Heap Entry) (writes : Heap WriteBio) (reads : Heap ReadBio) : Prop where
  writes : ∀ b bio en, writes.cell b = some bio → entries.cell bio.entry = some en →
    en.data = some bio.page ∧ en.slot = bio.slot
  reads : ∀ b bio en, reads.cell b = some bio → entries.cell bio.entry = some en →
    en.data = some bio.page ∧ en.slot = bio.slot

theorem Bios.write {entries : Heap Entry} {writes reads} (h : Bios entries writes reads)
    {e : EntryId} {en en' : Entry} (he : entries.cell e = some en) (hdata : en'.data = en.data)
    (hslot : en'.slot = en.slot) : Bios (entries.write e en') writes reads := by
  have hcell := Heap.cell_write he en'
  constructor
  · intro b bio eni hb hi
    rw [hcell] at hi
    split at hi
    · rename_i hie
      obtain rfl := Option.some.inj hi
      rw [hdata, hslot]
      exact h.writes b bio en hb (hie ▸ he)
    · exact h.writes b bio eni hb hi
  · intro b bio eni hb hi
    rw [hcell] at hi
    split at hi
    · rename_i hie
      obtain rfl := Option.some.inj hi
      rw [hdata, hslot]
      exact h.reads b bio en hb (hie ▸ he)
    · exact h.reads b bio eni hb hi

theorem Bios.free {entries : Heap Entry} {writes reads} (h : Bios entries writes reads)
    (e : EntryId) : Bios (entries.free e) writes reads := by
  constructor
  · intro b bio eni hb hi
    rw [Heap.cell_free] at hi
    split at hi
    · cases hi
    · exact h.writes b bio eni hb hi
  · intro b bio eni hb hi
    rw [Heap.cell_free] at hi
    split at hi
    · cases hi
    · exact h.reads b bio eni hb hi

theorem Bios.congr {entries entries' : Heap Entry} {writes reads} (h : Bios entries writes reads)
    (hcell : entries'.cell = entries.cell) : Bios entries' writes reads := by
  constructor
  · rw [hcell]
    exact h.writes
  · rw [hcell]
    exact h.reads

theorem Bios.alloc {entries : Heap Entry} {writes reads} (h : Bios entries writes reads)
    {en : Entry} (hw : ∀ b bio, writes.cell b = some bio → bio.entry ≠ entries.next)
    (hr : ∀ b bio, reads.cell b = some bio → bio.entry ≠ entries.next) :
    Bios (entries.alloc en) writes reads := by
  constructor
  · intro b bio eni hb hi
    rw [Heap.cell_alloc, if_neg (hw b bio hb)] at hi
    exact h.writes b bio eni hb hi
  · intro b bio eni hb hi
    rw [Heap.cell_alloc, if_neg (hr b bio hb)] at hi
    exact h.reads b bio eni hb hi

/-- Bios may disappear, and may change in what the invariant does not read. -/
theorem Bios.of_bios {entries : Heap Entry} {writes writes' reads reads'}
    (h : Bios entries writes reads)
    (hw : ∀ b bio, writes'.cell b = some bio → ∃ bio', writes.cell b = some bio' ∧
      bio'.entry = bio.entry ∧ bio'.page = bio.page ∧ bio'.slot = bio.slot)
    (hr : ∀ b bio, reads'.cell b = some bio → ∃ bio', reads.cell b = some bio' ∧
      bio'.entry = bio.entry ∧ bio'.page = bio.page ∧ bio'.slot = bio.slot) :
    Bios entries writes' reads' := by
  constructor
  · intro b bio en hb he
    obtain ⟨bio', hb', hentry, hpage, hslot⟩ := hw b bio hb
    rw [← hpage, ← hslot]
    exact h.writes b bio' en hb' (hentry ▸ he)
  · intro b bio en hb he
    obtain ⟨bio', hb', hentry, hpage, hslot⟩ := hr b bio hb
    rw [← hpage, ← hslot]
    exact h.reads b bio' en hb' (hentry ▸ he)

/-! ## The census -/

/-- The counter of a state. No live entry is invalid between two steps. -/
def Stat.census (st : Stat) : EntryState → Int
  | .invalid => 0
  | .zombie => st.nrZombiePage
  | .inMemory => st.nrInMemoryPage
  | .inMemoryFollowedByZombie => st.nrInMemoryZombiePage
  | .inFlight => st.nrInFlightPage

def Census (entries : Heap Entry) (stat : Stat) : Prop :=
  ∀ st, stat.census st = entries.count fun en => en.state == st

/-- 1 for the state in question. -/
def EntryState.mark (a b : EntryState) : Int := if a = b then 1 else 0

theorem Census.write {entries : Heap Entry} {stat stat' : Stat} (h : Census entries stat)
    {e : EntryId} {en en' : Entry} (he : entries.cell e = some en)
    (hstat : ∀ st, stat'.census st + en.state.mark st = stat.census st + en'.state.mark st) :
    Census (entries.write e en') stat' := by
  intro st
  have hcount := Heap.count_write he en' fun en => en.state == st
  have hs := hstat st
  rw [h st] at hs
  simp only [EntryState.mark, beq_iff_eq] at hs hcount
  split at hs <;> split at hs <;> (simp_all; try omega)

theorem Census.free {entries : Heap Entry} {stat stat' : Stat} (h : Census entries stat)
    {e : EntryId} {en : Entry} (he : entries.cell e = some en)
    (hstat : ∀ st, stat'.census st + en.state.mark st = stat.census st) :
    Census (entries.free e) stat' := by
  intro st
  have hcount := Heap.count_free he fun en => en.state == st
  have hs := hstat st
  rw [h st] at hs
  simp only [EntryState.mark, beq_iff_eq] at hs hcount
  split at hs <;> (simp_all; try omega)

theorem Census.alloc {entries : Heap Entry} {stat stat' : Stat} (h : Census entries stat)
    {en : Entry} (hstat : ∀ st, stat'.census st = stat.census st + en.state.mark st) :
    Census (entries.alloc en) stat' := by
  intro st
  have hcount := Heap.count_alloc entries en fun en => en.state == st
  have hs := hstat st
  rw [h st] at hs
  simp only [EntryState.mark, beq_iff_eq] at hs hcount
  split at hs <;> simp_all

theorem Census.stat {entries : Heap Entry} {stat stat' : Stat} (h : Census entries stat)
    (hstat : ∀ st, stat'.census st = stat.census st) : Census entries stat' := by
  intro st
  rw [hstat st]
  exact h st

/-! ## The whole -/

structure Inv (s : St P) : Prop where
  lifecycle : Lifecycle s
  index : Index s.entries s.trees s.tswapTreeRoots s.areas s.nextTree
  pages : Pages s.entries s.pages
  bios : Bios s.entries s.writes s.reads
  census : Census s.entries s.stat
  len : s.stat.lenQuarantineList = s.quarantineList.length
  faults : ∀ f ∈ s.faults, f = .bugOnInvalidateArea

end Memtrade.Tswap
