import Memtrade.Tswap.Reachable

/-!
# What tswap holds for one slot

Seen from one slot, the system is small: the slot has a copy in memory or its
data is on the device, and one step either leaves the slot alone, fills it,
clears it, or moves its data between memory and device. `SlotStep` is the list
of these possibilities and `slotStep_of_step` shows that it is complete; the
properties of runs are read off the list.
-/

namespace Memtrade.Tswap

variable {P : Type}

/-- `e` is the entry of slot `x` in some tree. -/
structure Occupies (s : St P) (x : Slot) (e : EntryId) (en : Entry) : Prop where
  cell : s.entries.cell e = some en
  slot : en.slot = x
  tree : en.tswapTreeRoot ≠ none

def Vacant (s : St P) (x : Slot) : Prop := ∀ e en, ¬ Occupies s x e en

/-- No write of `e` in flight was overtaken by a change of its page. -/
def Clean (s : St P) (e : EntryId) : Prop :=
  ∀ b bio, s.writes.cell b = some bio → bio.entry = e → bio.modified = false

/-- `e` holds `d` for slot `x`, and what the device will hold once the page has
left memory is `d` again. -/
structure Copy (s : St P) (x : Slot) (d : P) (e : EntryId) (en : Entry) : Prop
    extends Occupies s x e en where
  contents : s.dataContents en.data = some d
  alive : en.state ≠ .zombie
  clean : en.state = .inFlight → Clean s e

inductive Holds (s : St P) (x : Slot) (d : P) : Prop where
  | inMemory (e : EntryId) (en : Entry) : Copy s x d e en → Holds s x d
  | onDisk : Vacant s x → s.disk x = d → Holds s x d

/-- The data of slot `x` is `d`, and the area of the slot is in service. -/
structure Current (s : St P) (x : Slot) (d : P) : Prop where
  area : s.areas x.type = none
  holds : Holds s x d

variable {s s' : St P} {e : EntryId} {en : Entry} {t : TreeId} {tree : RadixTree} {p : PageId}
  {c : Option P} {x : Slot} {d : P}

theorem InTree.occupies (hin : InTree s e en t tree p c) : Occupies s en.slot e en :=
  ⟨hin.cell, rfl, by rw [hin.root]; simp⟩

theorem Inv.of_occupies (h : Inv s) (ho : Occupies s x e en) :
    ∃ t tree p c, InTree s e en t tree p c := by
  obtain ⟨t, ht⟩ := Option.ne_none_iff_exists'.mp ho.tree
  obtain ⟨tree, p, c, hin⟩ := h.inTree ho.cell ht
  exact ⟨t, tree, p, c, hin⟩

theorem Inv.live_root (h : Inv s) (hin : InTree s e en t tree p c)
    (harea : s.areas en.type = none) : s.tswapTreeRoots en.type = some t := by
  have hreg := (h.index.type e en t hin.cell hin.root).2
  rw [harea] at hreg
  simpa using hreg

theorem Inv.occupies_unique (h : Inv s) (harea : s.areas x.type = none) {e' : EntryId}
    {en' : Entry} (ho : Occupies s x e en) (ho' : Occupies s x e' en') : e' = e := by
  obtain ⟨t, tree, p, c, hin⟩ := h.of_occupies ho
  obtain ⟨t', tree', p', c', hin'⟩ := h.of_occupies ho'
  have htype : en.type = x.type := by rw [← ho.slot]; rfl
  have htype' : en'.type = x.type := by rw [← ho'.slot]; rfl
  have hoff : en'.offset = en.offset := by
    have := ho'.slot.trans ho.slot.symm
    exact congrArg Slot.offset this
  have hroot := h.live_root hin (by rw [htype]; exact harea)
  have hroot' := h.live_root hin' (by rw [htype']; exact harea)
  rw [htype] at hroot
  rw [htype'] at hroot'
  obtain rfl := Option.some.inj (hroot.symm.trans hroot')
  obtain rfl := Option.some.inj (hin.trees.symm.trans hin'.trees)
  have hitem := hin'.item
  rw [hoff, hin.item] at hitem
  exact (Option.some.inj hitem).symm

theorem Inv.lookup_occupies (h : Inv s) (harea : s.areas x.type = none)
    (ho : Occupies s x e en) : atomicEntryLookupLock s x = some e := by
  obtain ⟨t, tree, p, c, hin⟩ := h.of_occupies ho
  have htype : en.type = x.type := by rw [← ho.slot]; rfl
  have hoff : en.offset = x.offset := by rw [← ho.slot]; rfl
  have hroot := h.live_root hin (by rw [htype]; exact harea)
  have hvalid := (h.lifecycle.tree hin.cell hin.root).1
  have hitem := hin.item
  rw [hoff] at hitem
  rw [htype] at hroot
  simp [atomicEntryLookupLock, St.radixTreeLookup, hroot, hin.trees, hitem, hin.cell, hvalid]

theorem Inv.lookup_vacant (h : Inv s) (hv : Vacant s x) : atomicEntryLookupLock s x = none := by
  cases hl : atomicEntryLookupLock s x with
  | none => rfl
  | some e =>
      obtain ⟨en, t, tree, p, c, hin, rfl, -⟩ := h.of_lookup hl
      exact (hv e en hin.occupies).elim

/-- A failed lookup in an area in service means that the slot is vacant. -/
theorem Inv.vacant_of_lookup (h : Inv s) (harea : s.areas x.type = none)
    (hl : atomicEntryLookupLock s x = none) : Vacant s x := by
  intro e en ho
  rw [h.lookup_occupies harea ho] at hl
  cases hl

/-! ## Steps that leave a slot alone -/

structure SlotFrame (s s' : St P) (x : Slot) : Prop where
  area : s'.areas x.type = s.areas x.type
  disk : s'.disk x = s.disk x
  keeps : ∀ e en, Occupies s x e en → s'.entries.cell e = some en ∧
    s'.dataContents en.data = s.dataContents en.data ∧ (Clean s e → Clean s' e)
  only : ∀ e en, Occupies s' x e en → s.entries.cell e = some en

theorem SlotFrame.vacant (hf : SlotFrame s s' x) (hv : Vacant s x) : Vacant s' x := by
  intro e en ho
  exact hv e en ⟨hf.only e en ho, ho.slot, ho.tree⟩

theorem SlotFrame.copy (hf : SlotFrame s s' x) (hc : Copy s x d e en) : Copy s' x d e en := by
  obtain ⟨hcell, hcontents, hclean⟩ := hf.keeps e en hc.toOccupies
  exact ⟨⟨hcell, hc.slot, hc.tree⟩, hcontents.trans hc.contents, hc.alive,
    fun hst => hclean (hc.clean hst)⟩

theorem SlotFrame.current (hf : SlotFrame s s' x) (hc : Current s x d) : Current s' x d := by
  refine ⟨hf.area.trans hc.area, ?_⟩
  cases hc.holds with
  | inMemory e en hcopy => exact .inMemory e en (hf.copy hcopy)
  | onDisk hv hd => exact .onDisk (hf.vacant hv) (hf.disk.trans hd)

/-- The parts of the state a slot depends on are the same. -/
structure Quiet (s s' : St P) : Prop where
  entries : s'.entries.cell = s.entries.cell
  pages : s'.pages.cell = s.pages.cell
  writes : s'.writes = s.writes
  areas : s'.areas = s.areas
  disk : s'.disk = s.disk

theorem Quiet.slotFrame (hq : Quiet s s') (x : Slot) : SlotFrame s s' x := by
  refine ⟨by rw [hq.areas], by rw [hq.disk], ?_, ?_⟩
  · intro e en ho
    refine ⟨by rw [hq.entries]; exact ho.cell, ?_, ?_⟩
    · unfold St.dataContents
      rw [hq.pages]
    · unfold Clean
      rw [hq.writes]
      exact id
  · intro e en ho
    rw [← hq.entries]
    exact ho.cell

theorem Quiet.symm (hq : Quiet s s') : Quiet s' s :=
  ⟨hq.entries.symm, hq.pages.symm, hq.writes.symm, hq.areas.symm, hq.disk.symm⟩

theorem SlotFrame.trans {s₁ s₂ s₃ : St P} (h₁ : SlotFrame s₁ s₂ x) (h₂ : SlotFrame s₂ s₃ x) :
    SlotFrame s₁ s₃ x := by
  refine ⟨h₂.area.trans h₁.area, h₂.disk.trans h₁.disk, ?_, ?_⟩
  · intro e en ho
    obtain ⟨hcell, hcontents, hclean⟩ := h₁.keeps e en ho
    obtain ⟨hcell', hcontents', hclean'⟩ := h₂.keeps e en ⟨hcell, ho.slot, ho.tree⟩
    exact ⟨hcell', hcontents'.trans hcontents, fun hc => hclean' (hclean hc)⟩
  · intro e en ho
    exact h₁.only e en ⟨h₂.only e en ho, ho.slot, ho.tree⟩

/-- A page belongs to one entry, so the others keep their contents. -/
theorem Inv.contents_of_ne (h : Inv s) {e₀ : EntryId} {en₀ : Entry}
    (he₀ : s.entries.cell e₀ = some en₀) (hdata : en₀.data = some p)
    (hpages : ∀ q, q ≠ p → s'.pages.cell q = s.pages.cell q)
    (hcell : s.entries.cell e = some en) (hne : e ≠ e₀) :
    s'.dataContents en.data = s.dataContents en.data := by
  obtain ⟨q, c, hq, -⟩ := h.pages.owned e en hcell
  have hqp : q ≠ p := by
    rintro rfl
    exact hne (h.pages.inj e e₀ en en₀ hcell he₀ (hq.trans hdata.symm))
  simp only [St.dataContents, hq, hpages q hqp]

/-- What happens to an entry of another slot, its page and its writes. -/
theorem slotFrame_of_entry (h : Inv s) {e₀ : EntryId} {en₀ : Entry}
    (he₀ : s.entries.cell e₀ = some en₀) (hdata : en₀.data = some p)
    (hold : en₀.slot ≠ x ∨ en₀.tswapTreeRoot = none)
    (hcell : ∀ i, i ≠ e₀ → s'.entries.cell i = s.entries.cell i)
    (hnew : ∀ en, s'.entries.cell e₀ = some en → en.slot ≠ x ∨ en.tswapTreeRoot = none)
    (hpages : ∀ q, q ≠ p → s'.pages.cell q = s.pages.cell q)
    (hwrites : ∀ b bio, s'.writes.cell b = some bio → bio.entry ≠ e₀ →
      s.writes.cell b = some bio)
    (hdisk : s'.disk x = s.disk x) (harea : s'.areas x.type = s.areas x.type) :
    SlotFrame s s' x := by
  refine ⟨harea, hdisk, ?_, ?_⟩
  · intro e en ho
    have hne : e ≠ e₀ := by
      rintro rfl
      obtain rfl := Option.some.inj (ho.cell.symm.trans he₀)
      exact hold.elim (fun hs => hs ho.slot) ho.tree
    refine ⟨(hcell e hne).trans ho.cell, h.contents_of_ne he₀ hdata hpages ho.cell hne, ?_⟩
    intro hc b bio hb hbe
    exact hc b bio (hwrites b bio hb (by rw [hbe]; exact hne)) hbe
  · intro e en ho
    have hne : e ≠ e₀ := by
      rintro rfl
      exact (hnew en ho.cell).elim (fun hs => hs ho.slot) ho.tree
    rw [← hcell e hne]
    exact ho.cell

theorem Inv.entry_of_page (h : Inv s) (hin : InTree s e en t tree p c) {b : BioId}
    {bio : WriteBio} (hb : s.writes.cell b = some bio) (hpage : bio.page = p) :
    bio.entry = e := by
  have hpos : 0 < s.writes.count fun b' => b'.entry == bio.entry := Heap.count_pos hb (by simp)
  obtain ⟨en', t', tree', p', c', hin', -⟩ := h.of_outstanding (e := bio.entry) (by
    unfold outstanding
    omega)
  have hdata := (h.bios.writes b bio en' hb hin'.cell).1
  rw [hpage] at hdata
  exact h.pages.inj _ _ en' en hin'.cell hin.cell (hdata.trans hin.data.symm)

end Memtrade.Tswap
