import Memtrade.Lib.System
import Mathlib.Logic.Function.Basic

/-!
# Write-through stores

A store of pages with requests in progress. Every write goes to the backing copy before it
ends, whatever other copies are made of it, and requests that overlap are never in progress
together. Then reads are coherent, each of them returning what the last finished write to
its page has written, if only they return what the backing copy has at that moment; how a
copy elsewhere is kept equal to the backing one is up to the program.
-/

namespace Memtrade

/-- The function `m` with the `len` values of `f` from `start` on. -/
def overlay {α : Type} (m : Nat → α) (start len : Nat) (f : Nat → α) : Nat → α :=
  fun p => if start ≤ p ∧ p < start + len then f (p - start) else m p

section Overlay

variable {α : Type} {m f : Nat → α} {start len p : Nat}

theorem overlay_of_mem (h : start ≤ p ∧ p < start + len) :
    overlay m start len f p = f (p - start) := if_pos h

theorem overlay_of_not_mem (h : ¬ (start ≤ p ∧ p < start + len)) :
    overlay m start len f p = m p := if_neg h

end Overlay

/-! ## Ranges of pages -/

structure PageRange where
  start : Nat
  len : Nat
deriving DecidableEq, Repr

namespace PageRange

def Covers (r : PageRange) (p : Nat) : Prop := r.start ≤ p ∧ p < r.start + r.len

instance decidableCovers (r : PageRange) (p : Nat) : Decidable (r.Covers p) :=
  inferInstanceAs (Decidable (_ ∧ _))

def Disjoint (r r' : PageRange) : Prop :=
  r.start + r.len ≤ r'.start ∨ r'.start + r'.len ≤ r.start

instance decidableDisjoint (r r' : PageRange) : Decidable (r.Disjoint r') :=
  inferInstanceAs (Decidable (_ ∨ _))

theorem Disjoint.symm {r r' : PageRange} (h : r.Disjoint r') : r'.Disjoint r := Or.symm h

theorem Disjoint.not_covers {r r' : PageRange} (h : r.Disjoint r') {p : Nat} (hp : r.Covers p) :
    ¬ r'.Covers p := by
  unfold Disjoint at h
  unfold Covers at hp ⊢
  omega

theorem covers_start {r : PageRange} (h : 0 < r.len) : r.Covers r.start :=
  ⟨Nat.le_refl _, Nat.lt_add_of_pos_right h⟩

end PageRange

/-- A request for the pages of a range: a write of `data`, or a read. -/
structure IoRequest (D : Type) extends PageRange where
  data : Option (Nat → D)

inductive IoEvent (D : Type) where
  | wrote (range : PageRange) (data : Nat → D)
  | read (page : Nat) (value : D)

/-- The requests in progress by their numbers. -/
structure IoStore (D : Type) where
  pending : Nat → Option (IoRequest D)
  next : Nat

variable {D : Type}

namespace IoStore

/-- The request is not empty and overlaps with none that is in progress. -/
def admits (s : IoStore D) (r : IoRequest D) : Bool :=
  decide (0 < r.len) && (List.range s.next).all fun n =>
    match s.pending n with
    | none => true
    | some r' => decide (r.Disjoint r'.toPageRange)

def accept (s : IoStore D) (r : IoRequest D) : IoStore D where
  pending := Function.update s.pending s.next (some r)
  next := s.next + 1

/-- A request ends; `value` is what a read returns. -/
def finish (s : IoStore D) (n : Nat) (value : D) : IoStore D × List (IoEvent D) :=
  match s.pending n with
  | none => (s, [])
  | some r =>
      ({ s with pending := Function.update s.pending n none },
        match r.data with
        | some f => [.wrote r.toPageRange f]
        | none => [.read r.start value])

end IoStore

/-! ## Coherence of a history -/

/-- The value of a page after one more event. -/
def afterEvent (p : Nat) (last : Option D) : IoEvent D → Option D
  | .wrote range f => if range.Covers p then some (f (p - range.start)) else last
  | .read _ _ => last

/-- What the last write to a page has written. -/
def lastWrite (tr : List (IoEvent D)) (p : Nat) : Option D := tr.foldl (afterEvent p) none

/-- Each read returns what was written to its page last, if something was. -/
def Coherent (tr : List (IoEvent D)) : Prop :=
  ∀ before p v after, tr = before ++ IoEvent.read p v :: after →
    ∀ d, lastWrite before p = some d → v = d

@[simp] theorem lastWrite_concat (tr : List (IoEvent D)) (e : IoEvent D) (p : Nat) :
    lastWrite (tr ++ [e]) p = afterEvent p (lastWrite tr p) e := by
  simp [lastWrite]

theorem coherent_nil : Coherent ([] : List (IoEvent D)) := by
  intro before p v after h
  simp at h

/-- One more event: only a read has something to satisfy. -/
theorem Coherent.concat {tr : List (IoEvent D)} (h : Coherent tr) {e : IoEvent D}
    (he : ∀ p v, e = .read p v → ∀ d, lastWrite tr p = some d → v = d) : Coherent (tr ++ [e]) := by
  intro before p v after heq
  cases split_concat heq with
  | inl hnew =>
      rw [← hnew.1]
      exact he p v hnew.2
  | inr hold =>
      obtain ⟨rest, hrest⟩ := hold
      exact h before p v rest hrest

/-! ## The rules -/

namespace IoStore

variable {s : IoStore D} {tr : List (IoEvent D)} {r : IoRequest D} {n : Nat} {m : Nat → D}

/-- A write to the page is in progress. -/
def Writing (s : IoStore D) (p : Nat) : Prop :=
  ∃ n r, s.pending n = some r ∧ r.data ≠ none ∧ r.Covers p

/-- The backing copy `m` has what was written last, except where a write is in progress. -/
structure Current (s : IoStore D) (tr : List (IoEvent D)) (m : Nat → D) : Prop where
  below : ∀ n r, s.pending n = some r → n < s.next
  pos : ∀ n r, s.pending n = some r → 0 < r.len
  disjoint : ∀ n n' r r', s.pending n = some r → s.pending n' = some r' → n ≠ n' →
    r.Disjoint r'.toPageRange
  written : ∀ p d, lastWrite tr p = some d → ¬ s.Writing p → m p = d
  coherent : Coherent tr

theorem Current.next_none (h : s.Current tr m) : s.pending s.next = none := by
  cases hr : s.pending s.next with
  | none => rfl
  | some r =>
      have hlt := h.below s.next r hr
      omega

/-- Requests in progress are known by their pages. -/
theorem Current.eq_of_covers (h : s.Current tr m) {n n' p : Nat} {r r' : IoRequest D}
    (hr : s.pending n = some r) (hr' : s.pending n' = some r') (hp : r.Covers p)
    (hp' : r'.Covers p) : n = n' := by
  by_contra hne
  exact (h.disjoint n n' r r' hr hr' hne).not_covers hp hp'

theorem admits_iff (h : s.Current tr m) : s.admits r = true ↔
    0 < r.len ∧ ∀ n r', s.pending n = some r' → r.Disjoint r'.toPageRange := by
  unfold admits
  rw [Bool.and_eq_true, decide_eq_true_eq, List.all_eq_true]
  refine and_congr_right ?_
  intro _
  constructor
  · intro hall n r' hr'
    have hn := hall n (List.mem_range.mpr (h.below n r' hr'))
    simpa [hr'] using hn
  · intro hall n _
    cases hr' : s.pending n with
    | none => rfl
    | some r' => exact decide_eq_true (hall n r' hr')

theorem pending_accept (s : IoStore D) (r : IoRequest D) (n : Nat) :
    (s.accept r).pending n = if n = s.next then some r else s.pending n :=
  Function.update_apply ..

/-- A request in progress after one more has begun. -/
theorem accept_cases {r' : IoRequest D} (hr' : (s.accept r).pending n = some r') :
    (n = s.next ∧ r' = r) ∨ (n ≠ s.next ∧ s.pending n = some r') := by
  rw [pending_accept] at hr'
  split at hr'
  case isTrue heq => exact .inl ⟨heq, (Option.some.inj hr').symm⟩
  case isFalse hne => exact .inr ⟨hne, hr'⟩

theorem Current.pending_of_accept (h : s.Current tr m) {r' : IoRequest D}
    (hr' : s.pending n = some r') : (s.accept r).pending n = some r' := by
  have hne : n ≠ s.next := by
    intro heq
    rw [heq, h.next_none] at hr'
    cases hr'
  rw [pending_accept, if_neg hne, hr']

theorem Current.writing_of_accept (h : s.Current tr m) {p : Nat} (hp : s.Writing p) :
    (s.accept r).Writing p := by
  obtain ⟨n, r', hr', hdata, hcov⟩ := hp
  exact ⟨n, r', h.pending_of_accept hr', hdata, hcov⟩

theorem Current.accept (h : s.Current tr m) (hr : s.admits r = true) :
    (s.accept r).Current tr m := by
  rw [admits_iff h] at hr
  constructor
  case below =>
    intro n r' hr'
    show n < s.next + 1
    cases accept_cases hr' with
    | inl hnew => omega
    | inr hold =>
        have hlt := h.below n r' hold.2
        omega
  case pos =>
    intro n r' hr'
    cases accept_cases hr' with
    | inl hnew =>
        rw [hnew.2]
        exact hr.1
    | inr hold => exact h.pos n r' hold.2
  case disjoint =>
    intro n n' r₁ r₂ hr₁ hr₂ hne
    cases accept_cases hr₁ with
    | inl hnew₁ =>
        cases accept_cases hr₂ with
        | inl hnew₂ => exact absurd (hnew₁.1.trans hnew₂.1.symm) hne
        | inr hold₂ =>
            rw [hnew₁.2]
            exact hr.2 n' r₂ hold₂.2
    | inr hold₁ =>
        cases accept_cases hr₂ with
        | inl hnew₂ =>
            rw [hnew₂.2]
            exact (hr.2 n r₁ hold₁.2).symm
        | inr hold₂ => exact h.disjoint n n' r₁ r₂ hold₁.2 hold₂.2 hne
  case written =>
    intro p d hlast hnot
    exact h.written p d hlast fun hp => hnot (h.writing_of_accept hp)
  case coherent => exact h.coherent

/-- The backing copy may change where it is being written. -/
theorem Current.rewrite (h : s.Current tr m) {m' : Nat → D}
    (hm : ∀ p, ¬ s.Writing p → m' p = m p) : s.Current tr m' where
  below := h.below
  pos := h.pos
  disjoint := h.disjoint
  written := by
    intro p d hlast hnot
    rw [hm p hnot]
    exact h.written p d hlast hnot
  coherent := h.coherent

/-! Of a request that has ended nothing is left but its events. -/

theorem pending_finish (s : IoStore D) (n : Nat) (value : D) (n' : Nat) :
    (s.finish n value).1.pending n' = if n' = n then none else s.pending n' := by
  unfold finish
  cases hr : s.pending n with
  | none =>
      by_cases heq : n' = n
      · rw [if_pos heq, heq]
        exact hr
      · rw [if_neg heq]
  | some r => exact Function.update_apply ..

@[simp] theorem next_finish (s : IoStore D) (n : Nat) (value : D) :
    (s.finish n value).1.next = s.next := by
  unfold finish
  split <;> rfl

theorem finish_none {value : D} (hr : s.pending n = none) : s.finish n value = (s, []) := by
  rw [finish, hr]

theorem finish_read {value : D} (hr : s.pending n = some r) (hdata : r.data = none) :
    (s.finish n value).2 = [.read r.start value] := by
  rw [finish, hr]
  simp [hdata]

theorem finish_write {value : D} {f : Nat → D} (hr : s.pending n = some r) (hdata : r.data = some f) :
    (s.finish n value).2 = [.wrote r.toPageRange f] := by
  rw [finish, hr]
  simp [hdata]

theorem finish_cases {value : D} {n' : Nat} {r' : IoRequest D}
    (hr' : (s.finish n value).1.pending n' = some r') : n' ≠ n ∧ s.pending n' = some r' := by
  rw [pending_finish] at hr'
  split at hr'
  case isTrue => cases hr'
  case isFalse hne => exact ⟨hne, hr'⟩

/-- A page is still being written, or was by the request that has ended. -/
theorem writing_of_finish {p : Nat} {value : D} (hp : s.Writing p)
    (hr : s.pending n = some r) (hnot : ¬ (r.data ≠ none ∧ r.Covers p)) :
    (s.finish n value).1.Writing p := by
  obtain ⟨n', r', hr', hdata, hcov⟩ := hp
  refine ⟨n', r', ?_, hdata, hcov⟩
  have hne : n' ≠ n := by
    intro heq
    rw [heq, hr] at hr'
    exact hnot (Option.some.inj hr' ▸ ⟨hdata, hcov⟩)
  rw [pending_finish, if_neg hne, hr']

/-- No write is in progress with a read of its page. -/
theorem Current.not_writing_of_read (h : s.Current tr m) (hr : s.pending n = some r)
    (hdata : r.data = none) : ¬ s.Writing r.start := by
  intro hw
  obtain ⟨n', r', hr', hdata', hcov⟩ := hw
  have heq := h.eq_of_covers hr hr' (PageRange.covers_start (h.pos n r hr)) hcov
  rw [← heq, hr] at hr'
  rw [← Option.some.inj hr'] at hdata'
  exact hdata' hdata

/-- A request that ends keeps the history coherent: a read that returns what the backing
copy has, and a write that the backing copy has. -/
theorem Current.finish (h : s.Current tr m) {value : D}
    (hread : ∀ r, s.pending n = some r → r.data = none → value = m r.start)
    (hwrite : ∀ r f, s.pending n = some r → r.data = some f → ∀ p, r.Covers p →
      m p = f (p - r.start)) :
    (s.finish n value).1.Current (tr ++ (s.finish n value).2) m := by
  cases hr : s.pending n with
  | none =>
      rw [finish_none hr, List.append_nil]
      exact h
  | some r =>
      have hwriting : ∀ p, ¬ (s.finish n value).1.Writing p → ¬ (r.data ≠ none ∧ r.Covers p) →
          ¬ s.Writing p := fun p hnot hr' hp => hnot (writing_of_finish hp hr hr')
      constructor
      case below =>
        intro n' r' hr'
        rw [next_finish]
        exact h.below n' r' (finish_cases hr').2
      case pos => exact fun n' r' hr' => h.pos n' r' (finish_cases hr').2
      case disjoint =>
        intro n₁ n₂ r₁ r₂ hr₁ hr₂ hne
        exact h.disjoint n₁ n₂ r₁ r₂ (finish_cases hr₁).2 (finish_cases hr₂).2 hne
      case written =>
        intro p d hlast hnot
        cases hdata : r.data with
        | none =>
            rw [finish_read hr hdata, lastWrite_concat] at hlast
            exact h.written p d hlast (hwriting p hnot fun hw => hw.1 hdata)
        | some f =>
            rw [finish_write hr hdata, lastWrite_concat, afterEvent] at hlast
            split at hlast
            case isTrue hp =>
              rw [hwrite r f hr hdata p hp]
              exact Option.some.inj hlast
            case isFalse hp =>
              exact h.written p d hlast (hwriting p hnot fun hw => hp hw.2)
      case coherent =>
        cases hdata : r.data with
        | none =>
            rw [finish_read hr hdata]
            refine h.coherent.concat ?_
            intro p v heq d hlast
            have hv := IoEvent.read.inj heq
            rw [← hv.1] at hlast
            rw [← hv.2, hread r hr hdata]
            exact h.written r.start d hlast (h.not_writing_of_read hr hdata)
        | some f =>
            rw [finish_write hr hdata]
            refine h.coherent.concat ?_
            intro p v heq
            cases heq

end IoStore

/-! ## Outstanding writes -/

structure PageWrite (D : Type) extends PageRange where
  data : Nat → D

/-- What a disk with the contents `disk` has once the outstanding writes have come through,
the newest one first in the list. -/
def settled (disk : Nat → D) (writes : List (PageWrite D)) : Nat → D :=
  writes.foldr (fun w m => overlay m w.start w.len w.data) disk

section Settled

variable {disk : Nat → D} {w : PageWrite D} {writes newer older : List (PageWrite D)} {p : Nat}

theorem settled_cons_of_covers (hp : w.Covers p) :
    settled disk (w :: writes) p = w.data (p - w.start) :=
  overlay_of_mem hp

theorem settled_cons_of_not_covers (hp : ¬ w.Covers p) :
    settled disk (w :: writes) p = settled disk writes p :=
  overlay_of_not_mem hp

/-- Writes of other pages do not matter. -/
theorem settled_append_of_not_covers (hp : ∀ w ∈ newer, ¬ w.Covers p) :
    settled disk (newer ++ older) p = settled disk older p := by
  induction newer with
  | nil => rfl
  | cons w newer ih =>
      rw [List.cons_append, settled_cons_of_not_covers (hp w List.mem_cons_self)]
      exact ih fun w' hw' => hp w' (List.mem_cons_of_mem w hw')

/-- The first write that covers a page decides. -/
theorem settled_append_of_agree {d : D} (hp : ∃ w ∈ newer, w.Covers p)
    (hagree : ∀ w ∈ newer, w.Covers p → w.data (p - w.start) = d) :
    settled disk (newer ++ older) p = d := by
  induction newer with
  | nil => simp at hp
  | cons w newer ih =>
      rw [List.cons_append]
      by_cases hw : w.Covers p
      · rw [settled_cons_of_covers hw]
        exact hagree w List.mem_cons_self hw
      · rw [settled_cons_of_not_covers hw]
        obtain ⟨w', hw', hcov⟩ := hp
        refine ih ⟨w', ?_, hcov⟩ fun w'' hw'' => hagree w'' (List.mem_cons_of_mem w hw'')
        exact (List.mem_cons.mp hw').resolve_left fun heq => hw (heq ▸ hcov)

/-- A write may come through before older ones that it does not overlap with. -/
theorem settled_overlay (hapart : ∀ w' ∈ older, w.Disjoint w'.toPageRange) :
    settled (overlay disk w.start w.len w.data) older =
      overlay (settled disk older) w.start w.len w.data := by
  induction older with
  | nil => rfl
  | cons w' older ih =>
      have hrest := ih fun w'' hw'' => hapart w'' (List.mem_cons_of_mem w' hw'')
      funext p
      by_cases hw' : w'.Covers p
      · have hw := (hapart w' List.mem_cons_self).symm.not_covers hw'
        rw [settled_cons_of_covers hw', overlay_of_not_mem hw, settled_cons_of_covers hw']
      · rw [settled_cons_of_not_covers hw', hrest]
        unfold overlay
        split
        case isTrue => rfl
        case isFalse => exact (settled_cons_of_not_covers hw').symm

theorem settled_complete (hapart : ∀ w' ∈ older, w.Disjoint w'.toPageRange) :
    settled (overlay disk w.start w.len w.data) (newer ++ older) =
      settled disk (newer ++ w :: older) := by
  unfold settled at *
  rw [List.foldr_append, List.foldr_append, List.foldr_cons]
  exact congrArg (fun m => newer.foldr _ m) (settled_overlay hapart)

/-- What the disk has of a page that no outstanding write covers. -/
theorem settled_of_not_covers (hp : ∀ w ∈ writes, ¬ w.Covers p) : settled disk writes p = disk p := by
  rw [← List.append_nil writes]
  exact settled_append_of_not_covers hp

end Settled

end Memtrade
