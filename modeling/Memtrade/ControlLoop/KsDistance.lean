import Memtrade.AvlTree.Refinement
import Memtrade.Lib.EmpiricalCdf
import Memtrade.Lib.Scan
import Mathlib.Data.List.TakeWhile
import Mathlib.Tactic.Ring

/-!
# Samples and get_ks_distance

`perf_point` and the merge loop that measures how far the recent samples have
dropped below the baseline. Floating-point values are read as exact rationals;
only finite measurements ever become a `PerfPoint`.
-/

namespace Memtrade.ControlLoop

open BinaryTree AvlTree

structure PerfPoint where
  timestamp : Int
  performance : ℚ
deriving DecidableEq, Repr

namespace PerfPoint

/-- The overloaded operators `<`, `>`, `<=` and `>=`: the comparison `op` of the
performances, the other way round unless higher is better. -/
def compares (higherBetter : Bool) (op : ℚ → ℚ → Prop) (p q : PerfPoint) : Prop :=
  if higherBetter then op p.performance q.performance else op q.performance p.performance

/-- The position of a sample in the "higher is always better" order. -/
def key (higherBetter : Bool) (p : PerfPoint) : ℚ :=
  if higherBetter then p.performance else -p.performance

theorem compares_iff_key (higherBetter : Bool) {op : ℚ → ℚ → Prop}
    (hop : ∀ a b, op (-a) (-b) ↔ op b a) (p q : PerfPoint) :
    compares higherBetter op p q ↔ op (key higherBetter p) (key higherBetter q) := by
  cases higherBetter
  · exact (hop p.performance q.performance).symm
  · exact Iff.rfl

end PerfPoint

section Model

variable (higherBetter : Bool)

/-- `while (it && test(*it)) { cdf += step; ++it; }`. -/
def advanceWhile (tree : AvlTree PerfPoint) (step : ℚ) (test : PerfPoint → Bool) :
    Nat → Iterator → ℚ → Option (Iterator × ℚ)
  | fuel, it, cur =>
      if it.valid then
        match fuel with
        | 0 => none
        | fuel + 1 => do
            if test (← it.deref tree) then
              advanceWhile tree step test fuel (← it.advance tree) (cur + step)
            else
              some (it, cur)
      else
        some (it, cur)

/-- The outer loop. The source reads `*recent_iterator` into `cur_perf` at the
end of each round; it is the value read here at the start of the next. -/
def ksLoop (baselineTree recentTree : AvlTree PerfPoint) (baselineStep recentStep : ℚ) :
    Nat → Iterator → Iterator → ℚ → ℚ → ℚ → Option ℚ
  | fuel, recentIterator, baselineIterator, recentCurCdf, baselineCurCdf, ksDistance =>
      if recentIterator.valid then
        match fuel with
        | 0 => none
        | fuel + 1 => do
            let curPerf ← recentIterator.deref recentTree
            let (recentIterator, recentCurCdf) ←
              advanceWhile recentTree recentStep
                (fun p => curPerf.key higherBetter = p.key higherBetter)
                recentTree.heap.next recentIterator recentCurCdf
            let (baselineIterator, baselineCurCdf) ←
              advanceWhile baselineTree baselineStep
                (fun p => p.key higherBetter ≤ curPerf.key higherBetter)
                baselineTree.heap.next baselineIterator baselineCurCdf
            ksLoop baselineTree recentTree baselineStep recentStep fuel recentIterator
              baselineIterator recentCurCdf baselineCurCdf
              (max ksDistance (recentCurCdf - baselineCurCdf))
      else
        some ksDistance

def getKsDistance (baselineTree recentTree : AvlTree PerfPoint) : Option ℚ := do
  let recentIterator ← Iterator.new recentTree
  let baselineIterator ← Iterator.new baselineTree
  ksLoop higherBetter baselineTree recentTree (1 / baselineTree.size) (1 / recentTree.size)
    recentTree.heap.next recentIterator baselineIterator 0 0 0

end Model

/-! ## The inner loops -/

theorem advanceWhile_eq {tree : AvlTree PerfPoint} {t : BinaryTree (Label PerfPoint)}
    {pre rest : List (Label PerfPoint)} {it : Iterator} {fuel : Nat} (step : ℚ)
    (test : PerfPoint → Bool) (cur : ℚ) (h : Holds tree t) (ht : t.inorder = pre ++ rest)
    (hat : it.At rest) (hfuel : rest.length ≤ fuel) :
    ∃ it', it'.At (rest.dropWhile fun x => test x.2) ∧
      advanceWhile tree step test fuel it cur =
        some (it', cur + (rest.takeWhile fun x => test x.2).length * step) := by
  induction rest generalizing it pre fuel cur with
  | nil =>
      refine ⟨it, hat, ?_⟩
      unfold advanceWhile
      rw [hat.valid_nil]
      simp
  | cons x rest ih =>
      obtain ⟨fuel, rfl⟩ := Nat.exists_eq_add_of_le' (show 1 ≤ fuel by simp at hfuel; omega)
      simp only [List.length_cons, Nat.add_le_add_iff_right] at hfuel
      obtain ⟨it', hadv, hat'⟩ := hat.advance h ht
      have ht' : t.inorder = (pre ++ [x]) ++ rest := by rw [ht]; simp
      unfold advanceWhile
      rw [if_pos hat.valid_cons]
      simp only [hat.deref h ht, Option.bind_eq_bind, Option.bind_some]
      cases htest : test x.2 with
      | false =>
          refine ⟨it, ?_, ?_⟩
          · simpa [htest] using hat
          · simp [htest]
      | true =>
          obtain ⟨it'', hat'', heq⟩ := ih (cur + step) ht' hat' hfuel
          refine ⟨it'', ?_, ?_⟩
          · simpa [htest] using hat''
          · simp only [hadv, Option.bind_some, if_true, heq, List.takeWhile_cons, htest,
              List.length_cons]
            congr 2
            push_cast
            ring

/-! ## The merge -/

/-- The keys of a tree in order. -/
def keys (higherBetter : Bool) (t : BinaryTree (Label PerfPoint)) : List ℚ :=
  (values t).map (PerfPoint.key higherBetter)

/-- A run of a sorted list up to `v`: what is taken is at most `v`, what is
left above it. -/
private theorem cut_sorted {l : List (Label PerfPoint)} {f : Label PerfPoint → ℚ} {v : ℚ}
    (test : Label PerfPoint → Bool) (hsort : l.Pairwise fun a b => f a ≤ f b)
    (htest : ∀ x ∈ l, test x = true ↔ f x ≤ v) :
    (∀ x ∈ l.takeWhile test, f x ≤ v) ∧ ∀ x ∈ l.dropWhile test, v < f x := by
  constructor
  · intro x hx
    exact (htest x ((List.takeWhile_sublist test).mem hx)).mp (List.mem_takeWhile_imp hx)
  · intro x hx
    have hmono : l.Pairwise fun a b => test b = true → test a = true := by
      refine hsort.imp_of_mem ?_
      intro a b ha hb hab hb'
      exact (htest a ha).mpr (le_trans hab ((htest b hb).mp hb'))
    rw [dropWhile_eq_filter hmono, List.mem_filter] at hx
    by_contra hle
    have htrue := (htest x hx.1).mpr (not_lt.mp hle)
    rw [htrue] at hx
    cases hx.2

private theorem head_run {f : Label PerfPoint → ℚ} {x : Label PerfPoint}
    {tail : List (Label PerfPoint)} (hsort : (x :: tail).Pairwise fun a b => f a ≤ f b) :
    (∀ y ∈ (x :: tail).takeWhile fun y => decide (f x = f y), f y = f x) ∧
      (∀ y ∈ (x :: tail).dropWhile fun y => decide (f x = f y), f x < f y) ∧
      ((x :: tail).dropWhile fun y => decide (f x = f y)).length ≤ tail.length := by
  have hhead : ∀ y ∈ x :: tail, f x ≤ f y := by
    intro y hy
    rcases List.mem_cons.mp hy with rfl | hy
    · exact le_rfl
    · exact (List.pairwise_cons.mp hsort).1 y hy
  -- nothing is below the first value, so "equal" and "at most" cut alike
  have htest : ∀ y ∈ x :: tail, decide (f x = f y) = true ↔ f y ≤ f x := by
    intro y hy
    rw [decide_eq_true_eq]
    exact ⟨fun heq => heq.ge, fun hle => le_antisymm (hhead y hy) hle⟩
  obtain ⟨htake, hdrop⟩ := cut_sorted (fun y => decide (f x = f y)) hsort htest
  refine ⟨?_, hdrop, ?_⟩
  · intro y hy
    exact le_antisymm (htake y hy) (hhead y ((List.takeWhile_sublist _).mem hy))
  · rw [List.dropWhile_cons_of_pos (by simp)]
    exact (List.dropWhile_sublist _).length_le

theorem keys_eq (higherBetter : Bool) (t : BinaryTree (Label PerfPoint)) :
    keys higherBetter t = t.inorder.map fun x => x.2.key higherBetter := by
  simp [keys, values]

section Merge

variable {higherBetter : Bool} {baselineTree recentTree : AvlTree PerfPoint}
  {b r : BinaryTree (Label PerfPoint)}

/-- The counter after the samples `l` of the tree `t`. -/
private def share (t : BinaryTree (Label PerfPoint)) (l : List (Label PerfPoint)) : ℚ :=
  l.length * (1 / (t.inorder.length : ℚ))

private theorem share_append (t : BinaryTree (Label PerfPoint))
    (l₁ l₂ : List (Label PerfPoint)) :
    share t l₁ + l₂.length * (1 / (t.inorder.length : ℚ)) = share t (l₁ ++ l₂) := by
  rw [share, share, List.length_append, Nat.cast_add, add_mul]

/-- The counters are distribution functions: `pre` has been counted and
contains what is at most `v`. -/
private theorem cdf_keys {t : BinaryTree (Label PerfPoint)} {pre rest : List (Label PerfPoint)}
    {v : ℚ} (ht : t.inorder = pre ++ rest) (hpre : ∀ x ∈ pre, x.2.key higherBetter ≤ v)
    (hrest : ∀ x ∈ rest, v < x.2.key higherBetter) :
    cdf (keys higherBetter t : Multiset ℚ) v = share t pre := by
  rw [keys_eq, share, ht, List.map_append, cdf_append]
  · simp [div_eq_mul_inv]
  · exact List.forall_mem_map.mpr hpre
  · exact List.forall_mem_map.mpr hrest

/-- The state between two rounds of the outer loop: the samples `pre` of the
recent tree and `base` of the baseline tree have been counted. -/
private structure Merged (higherBetter : Bool) (b r : BinaryTree (Label PerfPoint))
    (pre rest base ahead : List (Label PerfPoint)) (rit bit : Iterator) (ks : ℚ) : Prop where
  recent : r.inorder = pre ++ rest
  baseline : b.inorder = base ++ ahead
  recentAt : rit.At rest
  baselineAt : bit.At ahead
  counted : ∀ x ∈ pre ++ base, ∀ y ∈ rest, x.2.key higherBetter ≤ y.2.key higherBetter
  soFar : KsSoFar (keys higherBetter b : Multiset ℚ) (keys higherBetter r)
    (pre.map fun x => x.2.key higherBetter) ks

private theorem length_le_next {tree : AvlTree PerfPoint} {t : BinaryTree (Label PerfPoint)}
    {pre rest : List (Label PerfPoint)} (h : Holds tree t) (ht : t.inorder = pre ++ rest) :
    rest.length ≤ tree.heap.next := by
  have hle : t.numNodes ≤ tree.heap.next := h.numNodes_le
  rw [← length_inorder, ht, List.length_append] at hle
  omega

/-- One round: all samples equal to the next recent value are counted, and all
baseline samples up to it. -/
private theorem Merged.round (hb : WellFormed (PerfPoint.key higherBetter) baselineTree b)
    (hr : WellFormed (PerfPoint.key higherBetter) recentTree r)
    {pre tail base ahead : List (Label PerfPoint)} {x : Label PerfPoint} {rit bit : Iterator}
    {ks : ℚ} (h : Merged higherBetter b r pre (x :: tail) base ahead rit bit ks) :
    ∃ new rest' run ahead' rit' bit',
      advanceWhile recentTree (1 / r.inorder.length)
        (fun p => x.2.key higherBetter = p.key higherBetter) recentTree.heap.next rit
        (share r pre) = some (rit', share r (pre ++ new)) ∧
      advanceWhile baselineTree (1 / b.inorder.length)
        (fun p => p.key higherBetter ≤ x.2.key higherBetter) baselineTree.heap.next bit
        (share b base) = some (bit', share b (base ++ run)) ∧
      rest'.length ≤ tail.length ∧
      Merged higherBetter b r (pre ++ new) rest' (base ++ run) ahead' rit' bit'
        (max ks (share r (pre ++ new) - share b (base ++ run))) := by
  obtain ⟨hrin, hbin, hrat, hbat, hcounted, hks⟩ := h
  have hrsort := (ordered_iff_sorted _ _).mp hr.ordered
  have hbsort := (ordered_iff_sorted _ _).mp hb.ordered
  rw [hrin, List.pairwise_append] at hrsort
  rw [hbin, List.pairwise_append] at hbsort
  obtain ⟨rit', hrat', hrloop⟩ := advanceWhile_eq (1 / (r.inorder.length : ℚ))
    (fun p => x.2.key higherBetter = p.key higherBetter)
    (share r pre) hr.holds hrin hrat (length_le_next hr.holds hrin)
  obtain ⟨bit', hbat', hbloop⟩ := advanceWhile_eq (1 / (b.inorder.length : ℚ))
    (fun p => p.key higherBetter ≤ x.2.key higherBetter)
    (share b base) hb.holds hbin hbat (length_le_next hb.holds hbin)
  obtain ⟨hnew, hrest', hlen⟩ := head_run hrsort.2.1
  obtain ⟨hrun, hahead'⟩ := cut_sorted (v := x.2.key higherBetter)
    (fun y => y.2.key higherBetter ≤ x.2.key higherBetter) hbsort.2.1 (fun y _ => by simp)
  set new := (x :: tail).takeWhile fun y => decide (x.2.key higherBetter = y.2.key higherBetter)
  set rest' := (x :: tail).dropWhile fun y => decide (x.2.key higherBetter = y.2.key higherBetter)
  set run := ahead.takeWhile fun y => decide (y.2.key higherBetter ≤ x.2.key higherBetter)
  set ahead' := ahead.dropWhile fun y => decide (y.2.key higherBetter ≤ x.2.key higherBetter)
  have hpre' : ∀ y ∈ pre ++ new, y.2.key higherBetter ≤ x.2.key higherBetter := by
    intro y hy
    rcases List.mem_append.mp hy with hy | hy
    · exact hcounted y (by simp [hy]) x (by simp)
    · exact (hnew y hy).le
  have hbase' : ∀ y ∈ base ++ run, y.2.key higherBetter ≤ x.2.key higherBetter := by
    intro y hy
    rcases List.mem_append.mp hy with hy | hy
    · exact hcounted y (by simp [hy]) x (by simp)
    · exact hrun y hy
  have hrin' : r.inorder = (pre ++ new) ++ rest' := by
    rw [hrin, List.append_assoc, List.takeWhile_append_dropWhile]
  have hbin' : b.inorder = (base ++ run) ++ ahead' := by
    rw [hbin, List.append_assoc, List.takeWhile_append_dropWhile]
  refine ⟨new, rest', run, ahead', rit', bit', ?_, ?_, hlen,
    ⟨hrin', hbin', hrat', hbat', ?_, ?_⟩⟩
  · rw [hrloop, share_append]
  · rw [hbloop, share_append]
  · intro y hy z hz
    rcases List.mem_append.mp hy with hy | hy
    · exact le_trans (hpre' y hy) (hrest' z hz).le
    · exact le_trans (hbase' y hy) (hrest' z hz).le
  · rw [← cdf_keys hrin' hpre' hrest', ← cdf_keys hbin' hbase' hahead', List.map_append]
    apply hks.append
    intro u hu
    obtain ⟨y, hy, rfl⟩ := List.mem_map.mp hu
    exact hnew y hy

private theorem Merged.ksLoop (hb : WellFormed (PerfPoint.key higherBetter) baselineTree b)
    (hr : WellFormed (PerfPoint.key higherBetter) recentTree r)
    {pre rest base ahead : List (Label PerfPoint)} {rit bit : Iterator} {ks : ℚ} {fuel : Nat}
    (h : Merged higherBetter b r pre rest base ahead rit bit ks) (hfuel : rest.length ≤ fuel) :
    ∃ d, ksLoop higherBetter baselineTree recentTree (1 / b.inorder.length) (1 / r.inorder.length)
        fuel rit bit (share r pre) (share b base) ks = some d ∧
      IsKsDistance (keys higherBetter b : Multiset ℚ) (keys higherBetter r) d := by
  induction fuel generalizing pre rest base ahead rit bit ks with
  | zero =>
      obtain rfl : rest = [] := List.eq_nil_of_length_eq_zero (by omega)
      refine ⟨ks, ?_, h.soFar.isKsDistance ?_⟩
      · unfold ControlLoop.ksLoop
        rw [h.recentAt.valid_nil]
        rfl
      · simp [keys_eq, h.recent]
  | succ fuel ih =>
      cases rest with
      | nil =>
          refine ⟨ks, ?_, h.soFar.isKsDistance ?_⟩
          · unfold ControlLoop.ksLoop
            rw [h.recentAt.valid_nil]
            rfl
          · simp [keys_eq, h.recent]
      | cons x tail =>
          obtain ⟨new, rest', run, ahead', rit', bit', hrloop, hbloop, hlen, h'⟩ := h.round hb hr
          simp only [List.length_cons, Nat.add_le_add_iff_right] at hfuel
          obtain ⟨d, heq, hd⟩ := ih h' (le_trans hlen hfuel)
          refine ⟨d, ?_, hd⟩
          unfold ControlLoop.ksLoop
          rw [if_pos h.recentAt.valid_cons]
          simp only [h.recentAt.deref hr.holds h.recent, hrloop, hbloop, heq,
            Option.bind_eq_bind, Option.bind_some]

/-- The merge loop ends and returns the one-sided distance between the samples
of the two trees, over all arguments; `0` when there is no recent sample. -/
theorem getKsDistance_eq (hb : WellFormed (PerfPoint.key higherBetter) baselineTree b)
    (hr : WellFormed (PerfPoint.key higherBetter) recentTree r) :
    ∃ d, getKsDistance higherBetter baselineTree recentTree = some d ∧
      IsKsDistance (keys higherBetter b : Multiset ℚ) (keys higherBetter r) d := by
  obtain ⟨rit, hrnew, hrat⟩ := Iterator.new_at hr.holds
  obtain ⟨bit, hbnew, hbat⟩ := Iterator.new_at hb.holds
  have hstart : Merged higherBetter b r [] r.inorder [] b.inorder rit bit 0 :=
    ⟨rfl, rfl, hrat, hbat, by simp, ksSoFar_nil _ _⟩
  obtain ⟨d, heq, hd⟩ := hstart.ksLoop hb hr (length_le_next hr.holds (List.nil_append _).symm)
  refine ⟨d, ?_, hd⟩
  have hbsize : (baselineTree.size : ℚ) = b.inorder.length := by
    rw [size, hb.count, length_inorder]
    rfl
  have hrsize : (recentTree.size : ℚ) = r.inorder.length := by
    rw [size, hr.count, length_inorder]
    rfl
  simp only [getKsDistance, hrnew, hbnew, hbsize, hrsize, Option.bind_eq_bind, Option.bind_some]
  simpa [share] using heq

end Merge

/-! ## Trees built by calls -/

instance decidableComparesLe (higherBetter : Bool) (p q : PerfPoint) :
    Decidable (p.compares higherBetter (· ≤ ·) q) :=
  inferInstanceAs (Decidable (if higherBetter then p.performance ≤ q.performance
    else q.performance ≤ p.performance))

/-- The fraction of the samples that are at most `v` in the order of
`perf_point`, `0` when there is none. -/
def fractionAtMost (higherBetter : Bool) (m : Multiset PerfPoint) (v : PerfPoint) : ℚ :=
  (m.countP fun p => p.compares higherBetter (· ≤ ·) v : ℚ) / (m.card : ℚ)

theorem fractionAtMost_eq_cdf (higherBetter : Bool) (l : List PerfPoint) (v : PerfPoint) :
    fractionAtMost higherBetter l v =
      cdf (l.map (PerfPoint.key higherBetter) : Multiset ℚ) (v.key higherBetter) := by
  have hcount : (l : Multiset PerfPoint).countP (fun p => p.compares higherBetter (· ≤ ·) v) =
      (l.map (PerfPoint.key higherBetter) : Multiset ℚ).countP (· ≤ v.key higherBetter) := by
    rw [← Multiset.map_coe, Multiset.countP_map, ← Multiset.countP_eq_card_filter]
    apply Multiset.countP_congr rfl
    intro p _
    rw [PerfPoint.compares_iff_key higherBetter (fun a b => neg_le_neg_iff)]
  unfold fractionAtMost cdf
  rw [← hcount, Multiset.coe_card, Multiset.coe_card, List.length_map]

theorem exists_key_eq (higherBetter : Bool) (v : ℚ) :
    ∃ p : PerfPoint, p.key higherBetter = v := by
  cases higherBetter
  · exact ⟨⟨0, -v⟩, neg_neg v⟩
  · exact ⟨⟨0, v⟩, rfl⟩

/-- On any two trees built by calls `get_ks_distance` returns, and what it
returns is the greatest of `0` and the differences of the two distribution
functions over all values, `0` when there is no recent sample. -/
theorem getKsDistance_isGreatest (higherBetter : Bool)
    (baselineOps recentOps : List (Op PerfPoint)) :
    ∃ baselineTree recentTree d,
      run (PerfPoint.key higherBetter) baselineOps = some baselineTree ∧
      run (PerfPoint.key higherBetter) recentOps = some recentTree ∧
      getKsDistance higherBetter baselineTree recentTree = some d ∧
      IsGreatest (insert 0 (Set.range fun v =>
        fractionAtMost higherBetter (contents (PerfPoint.key higherBetter) recentOps) v -
          fractionAtMost higherBetter (contents (PerfPoint.key higherBetter) baselineOps) v)) d ∧
      (contents (PerfPoint.key higherBetter) recentOps = 0 → d = 0) := by
  obtain ⟨baselineTree, b, hbrun, hb⟩ := exists_wellFormed (PerfPoint.key higherBetter) baselineOps
  obtain ⟨recentTree, r, hrrun, hr⟩ := exists_wellFormed (PerfPoint.key higherBetter) recentOps
  obtain ⟨d, hd, hks⟩ := getKsDistance_eq hb hr
  refine ⟨baselineTree, recentTree, d, hbrun, hrrun, hd, ?_, ?_⟩
  · have hrange : (Set.range fun v =>
        fractionAtMost higherBetter (values r) v - fractionAtMost higherBetter (values b) v) =
        Set.range fun v => cdf (keys higherBetter r : Multiset ℚ) v -
          cdf (keys higherBetter b : Multiset ℚ) v := by
      ext e
      simp only [Set.mem_range, fractionAtMost_eq_cdf, keys]
      constructor
      · rintro ⟨p, rfl⟩
        exact ⟨p.key higherBetter, rfl⟩
      · rintro ⟨v, rfl⟩
        obtain ⟨p, rfl⟩ := exists_key_eq higherBetter v
        exact ⟨p, rfl⟩
    rw [contents_eq hbrun hb, contents_eq hrrun hr, hrange]
    exact hks
  · intro hempty
    rw [contents_eq hrrun hr, Multiset.coe_eq_zero] at hempty
    apply hks.unique
    apply isKsDistance_of_bounds le_rfl (Or.inl rfl)
    intro u hu
    simp [keys, hempty] at hu

end Memtrade.ControlLoop
