import Memtrade.Tswap.Requests
import Memtrade.Tswap.RingHistory

/-!
# What goes on without a call

The discharge thread, the completions of its writes, the clock and the prefetch
requests run between the calls. They leave the data of a slot where a load finds
it as long as no prefetch can bring other data: what its reads have delivered is
the data, and no other prefetch of the slot runs beside one that has not read yet.
-/

namespace Memtrade.Tswap

variable {P : Type} {k : Kernel} {s s' : St P} {e : EntryId} {en : Entry} {t : TreeId}
  {tree : RadixTree} {p : PageId} {c : Option P} {x : Slot} {d : P}

/-! ## Prefetch requests -/

/-- The slot that the `i`-th pop from now on returns. -/
def PrefetchRing.request (size : Nat) : Nat → PrefetchRing → Option Slot
  | 0, r => (r.pop size).map Prod.fst
  | i + 1, r => (r.pop size).bind fun q => PrefetchRing.request size i q.2

/-- A prefetch request waits in the ring, is a job, or is a read in flight. -/
inductive Request where
  | queued (i : Nat)
  | job (j : Nat)
  | read (b : BioId)

namespace Request

/-- The slot of a request; one in the ring counts only if the slot's map bit is set. -/
def slot? (k : Kernel) (s : St P) : Request → Option Slot
  | .queued i => (s.ring.request k.prefetchBufferSize i).filter s.frontswapMap
  | .job j => (s.jobs.cell j).map PrefetchJob.slot
  | .read b => (s.reads.cell b).map ReadBio.slot

/-- The device has delivered the contents. -/
def delivered (s : St P) : Request → Bool
  | .read b => (s.reads.cell b).any ReadBio.done
  | .queued _ | .job _ => false

end Request

/-- A prefetch of the slot is under way or may start. -/
def Prefetching (k : Kernel) (s : St P) (x : Slot) : Prop := ∃ q : Request, q.slot? k s = some x

/-- The reads of the slot that the device has served brought `d`. -/
def Carries (s : St P) (x : Slot) (d : P) : Prop :=
  ∀ b bio, s.reads.cell b = some bio → bio.slot = x → bio.done = true →
    s.dataContents (some bio.page) = some d

/-- No prefetch of the slot has found the slot vacant and is still to read it. -/
def NoneAhead (s : St P) (x : Slot) : Prop :=
  (∀ j job, s.jobs.cell j = some job → job.slot = x → job.missed = false) ∧
    ∀ b bio, s.reads.cell b = some bio → bio.slot = x → bio.done = true

/-- A prefetch of the slot that is still to read it is the only one. -/
def Alone (k : Kernel) (s : St P) (x : Slot) : Prop :=
  ∀ q q' : Request, q.slot? k s = some x → q'.slot? k s = some x → q.delivered s = false → q = q'

theorem Alone.of_map (h : Alone k s x) (f : Request → Request)
    (hslot : ∀ q, q.slot? k s' = some x → (f q).slot? k s = some x)
    (hopen : ∀ q, q.slot? k s' = some x → q.delivered s' = false → (f q).delivered s = false)
    (hinj : ∀ q q', q.slot? k s' = some x → q'.slot? k s' = some x → f q = f q' → q = q') :
    Alone k s' x := by
  intro q q' hq hq' hdone
  exact hinj q q' hq hq' (h (f q) (f q') (hslot q hq) (hslot q' hq') (hopen q hq hdone))

theorem Alone.of_sub (h : Alone k s x)
    (hslot : ∀ q : Request, q.slot? k s' = some x → q.slot? k s = some x)
    (hopen : ∀ q : Request, q.slot? k s' = some x → q.delivered s' = false →
      q.delivered s = false) : Alone k s' x :=
  h.of_map id hslot hopen fun _ _ _ _ heq => heq

theorem slot?_congr (hring : s'.ring = s.ring) (hmap : s'.frontswapMap = s.frontswapMap)
    (hjobs : s'.jobs = s.jobs) (hreads : s'.reads = s.reads) (q : Request) :
    q.slot? k s' = q.slot? k s := by
  cases q with
  | queued i => simp only [Request.slot?, hring, hmap]
  | job j => simp only [Request.slot?, hjobs]
  | read b => simp only [Request.slot?, hreads]

theorem delivered_congr (hreads : s'.reads = s.reads) (q : Request) :
    q.delivered s' = q.delivered s := by
  cases q with
  | read b => simp only [Request.delivered, hreads]
  | _ => rfl

/-- The requests are those of before. -/
structure Unasked (s s' : St P) : Prop where
  ring : s'.ring = s.ring
  map : s'.frontswapMap = s.frontswapMap
  jobs : s'.jobs = s.jobs
  reads : s'.reads = s.reads

theorem RingBook.unasked (h : RingBook s s') : Unasked s s' := ⟨h.ring, h.map, h.jobs, h.reads⟩

theorem Unasked.slot? (h : Unasked s s') (q : Request) : q.slot? k s' = q.slot? k s :=
  slot?_congr h.ring h.map h.jobs h.reads q

theorem Unasked.alone_iff (h : Unasked s s') : Alone k s' x ↔ Alone k s x := by
  unfold Alone
  simp only [h.slot?, delivered_congr h.reads]

theorem Unasked.noneAhead_iff (h : Unasked s s') : NoneAhead s' x ↔ NoneAhead s x := by
  unfold NoneAhead
  rw [h.jobs, h.reads]

theorem map_of_event {a : Action P} {r : St P × List (Event P)} {ev : Event P} (h : Inv s)
    (hs : step k s a = some r) (hev : ev ∈ r.2) : r.1.frontswapMap = s.frontswapMap := by
  funext y
  cases callStep_of_step h hs y with
  | same _ hm => exact hm
  | missed _ _ _ _ _ _ hm => exact hm
  | returned _ _ _ _ _ hm => exact hm
  | mapped _ hnil => simp [hnil] at hev
  | area hnil => simp [hnil] at hev

/-! ## Background steps -/

/-- Steps that happen without a call: the discharge thread, the completions of
its writes, the prefetch requests, the clock. -/
def Action.isBackground : Action P → Bool
  | .dischargeOuter | .dischargeScan | .dischargeSubmit _ | .dischargeEnd _ _ _ | .tick _ => true
  | .prefetchPop | .prefetchLookup _ | .prefetchSubmit _ _ | .prefetchRead _
  | .prefetchEnd _ _ _ _ => true
  | _ => false

theorem unasked_of_background {a : Action P} {r : St P × List (Event P)} (h : Inv s)
    (hs : step k s a = some r) (ha : a.isBackground = true) (hpre : a.isPrefetch = false) :
    Unasked s r.1 := by
  cases a <;> simp only [Action.isBackground, Action.isPrefetch, Bool.false_eq_true,
    Bool.true_eq_false] at ha hpre
  case dischargeOuter =>
    obtain ⟨-, rfl⟩ := step_dischargeOuter.mp hs
    exact ⟨rfl, rfl, rfl, rfl⟩
  case dischargeScan =>
    obtain ⟨n, -, rfl⟩ := step_dischargeScan.mp hs
    exact (book_dischargeScan h n).unasked
  case dischargeSubmit bioOk =>
    obtain ⟨n, e, hpc, rfl⟩ := step_dischargeSubmit.mp hs
    exact (book_dischargeSubmit h hpc bioOk).unasked
  case dischargeEnd b ok junk =>
    obtain ⟨bio, hb, rfl⟩ := step_dischargeEnd.mp hs
    exact (book_dischargeEnd h hb ok junk).unasked
  case tick jiffies =>
    obtain rfl := Option.some.inj hs
    exact ⟨rfl, rfl, rfl, rfl⟩

theorem areas_of_background {a : Action P} {r : St P × List (Event P)} (h : Inv s)
    (hs : step k s a = some r) (ha : a.isBackground = true) (hpre : a.isPrefetch = false) :
    r.1.areas = s.areas := by
  cases a <;> simp only [Action.isBackground, Action.isPrefetch, Bool.false_eq_true,
    Bool.true_eq_false] at ha hpre
  case dischargeOuter =>
    obtain ⟨-, rfl⟩ := step_dischargeOuter.mp hs
    rfl
  case dischargeScan =>
    obtain ⟨n, -, rfl⟩ := step_dischargeScan.mp hs
    exact (book_dischargeScan h n).areas
  case dischargeSubmit bioOk =>
    obtain ⟨n, e, hpc, rfl⟩ := step_dischargeSubmit.mp hs
    exact (book_dischargeSubmit h hpc bioOk).areas
  case dischargeEnd b ok junk =>
    obtain ⟨bio, hb, rfl⟩ := step_dischargeEnd.mp hs
    exact (book_dischargeEnd h hb ok junk).areas
  case tick jiffies =>
    obtain rfl := Option.some.inj hs
    rfl

theorem roots_of_background {a : Action P} {r : St P × List (Event P)} (h : Inv s)
    (hs : step k s a = some r) (ha : a.isBackground = true) :
    r.1.tswapTreeRoots = s.tswapTreeRoots := by
  cases a <;> simp only [Action.isBackground, Bool.false_eq_true] at ha
  case dischargeOuter =>
    obtain ⟨-, rfl⟩ := step_dischargeOuter.mp hs
    rfl
  case dischargeScan =>
    obtain ⟨n, -, rfl⟩ := step_dischargeScan.mp hs
    rcases dischargeScan_cases h k n with heq | ⟨e, rest, m, -, heq⟩ |
      ⟨e, rest, en, t, tree, p, c, -, -, -, -, heq⟩ <;> rw [heq]
  case dischargeSubmit bioOk =>
    obtain ⟨n, e, hpc, rfl⟩ := step_dischargeSubmit.mp hs
    obtain ⟨en, t, tree, p, c, hin, hst⟩ := h.of_outstanding (e := e) (by simp [outstanding, hpc])
    cases bioOk with
    | true => rw [dischargeSubmit_ok hin n]
    | false =>
        rw [dischargeSubmit_fail hin hst n]
        simp only
        split <;> rfl
  case dischargeEnd b ok junk =>
    obtain ⟨bio, hb, rfl⟩ := step_dischargeEnd.mp hs
    have hpos : 0 < s.writes.count fun b' => b'.entry == bio.entry := Heap.count_pos hb (by simp)
    obtain ⟨en, t, tree, p, c, hin, hst⟩ := h.of_outstanding (e := bio.entry) (by
      unfold outstanding
      omega)
    obtain ⟨m, heq⟩ := stepDischargeEnd_eq hin hst b ok junk
    rw [heq]
    simp only
    split <;> rfl
  case prefetchPop =>
    obtain ⟨y, ring, -, ⟨-, rfl⟩ | ⟨-, rfl⟩⟩ := step_prefetchPop.mp hs <;> rfl
  case prefetchLookup j =>
    obtain ⟨job, -, -, ⟨-, rfl⟩ | ⟨-, rfl⟩⟩ := step_prefetchLookup.mp hs <;> rfl
  case prefetchSubmit j o =>
    obtain ⟨job, -, -, rfl⟩ := step_prefetchSubmit.mp hs
    rcases prefetchSubmit_cases (inv_jobs h (s.jobs.free j) s.ring) job.slot job.seen o with
      hu | heq
    · obtain ⟨entries, pages, stat, heq, -⟩ := hu
      rw [heq]
    · rw [heq]
  case prefetchRead b =>
    obtain ⟨bio, -, -, rfl⟩ := step_prefetchRead.mp hs
    rfl
  case prefetchEnd b ok lockFree nodeOk =>
    obtain ⟨bio, hb, -, rfl⟩ := step_prefetchEnd.mp hs
    obtain ⟨en, c, hcell, hroot, -, hdata, -, hpage⟩ := h.of_read hb
    have hroots : ∀ ty t, s.tswapTreeRoots ty = some t → (s.trees t).isSome := fun ty t ht =>
      (h.index.roots ty t ht).2.1
    unfold stepPrefetchEnd
    simp only
    rcases prefetchAsyncIoEnd_cases (s := { s with reads := s.reads.free b }) hroots hcell hroot
      hdata hpage k ok lockFree nodeOk with ⟨i, f, n, heq⟩ | ⟨t, tree, ts, i, -, -, -, -, heq⟩ <;>
      rw [heq] <;> rfl
  case tick jiffies =>
    obtain rfl := Option.some.inj hs
    rfl

theorem alone_prefetchPop {y : Slot} {ring : PrefetchRing}
    (hpop : s.ring.pop k.prefetchBufferSize = some (y, ring)) (h : Alone k s x) :
    (s.frontswapMap y = true →
      Alone k { s with ring := ring, jobs := s.jobs.alloc ⟨y, s.opCount y, false⟩ } x) ∧
    Alone k { s with ring := ring } x := by
  have hlater : ∀ i, s.ring.request k.prefetchBufferSize (i + 1) =
      ring.request k.prefetchBufferSize i := by
    intro i
    simp [PrefetchRing.request, hpop]
  constructor
  · -- the popped request is the new job
    intro hmap
    refine h.of_map (fun q => match q with
      | .queued i => .queued (i + 1)
      | .job j => if j = s.jobs.next then .queued 0 else .job j
      | .read b => .read b) ?_ ?_ ?_
    · intro q hq
      cases q with
      | queued i => simpa only [Request.slot?, hlater] using hq
      | read b => exact hq
      | job j =>
          simp only [Request.slot?, Heap.cell_alloc] at hq
          by_cases hj : j = s.jobs.next
          · simp only [hj, if_true, Option.map_some, Option.some.injEq] at hq
            rw [hq] at hmap hpop
            simp [Request.slot?, hj, PrefetchRing.request, hpop, Option.filter, hmap]
          · simpa only [Request.slot?, if_neg hj] using hq
    · intro q _ hopen
      cases q with
      | queued i => rfl
      | read b => exact hopen
      | job j =>
          simp only
          split <;> rfl
    · intro q q' _ _ heq
      cases q <;> cases q' <;> simp only at heq <;> grind
  · refine h.of_map (fun q => match q with
      | .queued i => .queued (i + 1)
      | q => q) ?_ ?_ ?_
    · intro q hq
      cases q with
      | queued i => simpa only [Request.slot?, hlater] using hq
      | _ => exact hq
    · intro q _ hopen
      cases q with
      | queued i => rfl
      | _ => exact hopen
    · intro q q' _ _ heq
      cases q <;> cases q' <;> simp_all

theorem alone_prefetchSubmit {j : Nat} {job : PrefetchJob} (hj : s.jobs.cell j = some job)
    (h : Inv s) (o : PrefetchOutcome) (hal : Alone k s x) :
    Alone k (prefetchSubmit { s with jobs := s.jobs.free j } job.slot job.seen o) x := by
  have hjobs : ∀ i y, ((s.jobs.free j).cell i).map PrefetchJob.slot = some y →
      i ≠ j ∧ (s.jobs.cell i).map PrefetchJob.slot = some y := by
    intro i y hi
    rw [Heap.cell_free] at hi
    split at hi
    · cases hi
    · rename_i hne
      exact ⟨hne, hi⟩
  rcases prefetchSubmit_cases (inv_jobs h (s.jobs.free j) s.ring) job.slot job.seen o with hu | heq
  · obtain ⟨entries, pages, stat, heq, -⟩ := hu
    rw [heq]
    refine hal.of_sub ?_ ?_
    · intro q hq
      cases q with
      | job i => exact (hjobs i x hq).2
      | _ => exact hq
    · intro q _ hopen
      cases q <;> exact hopen
  · -- the new read takes the place of the job
    rw [heq]
    refine hal.of_map (fun q => match q with
      | .read b => if b = s.reads.next then .job j else .read b
      | q => q) ?_ ?_ ?_
    · intro q hq
      cases q with
      | queued i => exact hq
      | job i => exact (hjobs i x hq).2
      | read b =>
          simp only [Request.slot?, Heap.cell_alloc] at hq
          by_cases hb : b = s.reads.next
          · simp only [hb, if_true, Option.map_some, Option.some.injEq] at hq
            simp [Request.slot?, hb, hj, hq]
          · simpa only [Request.slot?, if_neg hb] using hq
    · intro q _ hopen
      cases q with
      | queued i => rfl
      | job i => rfl
      | read b =>
          simp only [Request.delivered, Heap.cell_alloc] at hopen
          simp only
          split
          · rfl
          · rename_i hb
            simpa only [Request.delivered, if_neg hb] using hopen
    · intro q q' hq hq' heq
      cases q <;> cases q' <;> simp only at heq
      case job.read i b =>
        split at heq
        · exact ((hjobs i x hq).1 (by simpa using heq)).elim
        · cases heq
      case read.job b i =>
        split at heq
        · exact ((hjobs i x hq').1 (by simpa using heq.symm)).elim
        · cases heq
      all_goals grind

theorem Alone.step {a : Action P} {r : St P × List (Event P)} (h : Inv s) (hal : Alone k s x)
    (hs : step k s a = some r) (ha : a.isBackground = true) : Alone k r.1 x := by
  cases hpre : a.isPrefetch with
  | false =>
      exact (unasked_of_background h hs ha hpre).alone_iff.mpr hal
  | true =>
      cases a <;> simp only [Action.isPrefetch, Bool.false_eq_true] at hpre
      case prefetchPop =>
        obtain ⟨y, ring, hpop, ⟨hmap, rfl⟩ | ⟨-, rfl⟩⟩ := step_prefetchPop.mp hs
        · exact (alone_prefetchPop hpop hal).1 hmap
        · exact (alone_prefetchPop hpop hal).2
      case prefetchLookup j =>
        obtain ⟨job, hj, -, ⟨-, rfl⟩ | ⟨-, rfl⟩⟩ := step_prefetchLookup.mp hs
        · refine hal.of_sub ?_ fun q _ hopen => by cases q <;> exact hopen
          intro q hq
          cases q with
          | job i =>
              simp only [Request.slot?, Heap.cell_free] at hq
              split at hq
              · cases hq
              · exact hq
          | _ => exact hq
        · refine hal.of_sub ?_ fun q _ hopen => by cases q <;> exact hopen
          intro q hq
          cases q with
          | job i =>
              simp only [Request.slot?, Heap.cell_write hj] at hq
              split at hq
              · rename_i hi
                simpa [Request.slot?, hi, hj] using hq
              · exact hq
          | _ => exact hq
      case prefetchSubmit j o =>
        obtain ⟨job, hj, -, rfl⟩ := step_prefetchSubmit.mp hs
        exact alone_prefetchSubmit hj h o hal
      case prefetchRead b =>
        obtain ⟨bio, hb, -, rfl⟩ := step_prefetchRead.mp hs
        refine hal.of_sub ?_ ?_
        · intro q hq
          cases q with
          | read i =>
              simp only [Request.slot?, stepPrefetchRead, Heap.cell_write hb] at hq
              split at hq
              · rename_i hi
                simpa [Request.slot?, hi, hb] using hq
              · exact hq
          | _ => exact hq
        · intro q _ hopen
          cases q with
          | read i =>
              simp only [Request.delivered, stepPrefetchRead, Heap.cell_write hb] at hopen
              split at hopen
              · cases hopen
              · exact hopen
          | _ => exact hopen
      case prefetchEnd b ok lockFree nodeOk =>
        obtain ⟨bio, hb, -, rfl⟩ := step_prefetchEnd.mp hs
        have he := prefetchEnded h k hb ok lockFree nodeOk
        have hring := (ring_of_step h hs).resolve_right (by simp [Action.stackOp])
        refine hal.of_sub ?_ ?_
        · intro q hq
          cases q with
          | queued i => simpa only [Request.slot?, hring.2, he.map] using hq
          | job j => simpa only [Request.slot?, he.jobs] using hq
          | read i =>
              simp only [Request.slot?, he.reads, Heap.cell_free] at hq
              split at hq
              · cases hq
              · exact hq
        · intro q hq hopen
          cases q with
          | read i =>
              simp only [Request.slot?, Request.delivered, he.reads, Heap.cell_free] at hq hopen
              split at hopen
              · rename_i hi
                simp [hi] at hq
              · exact hopen
          | _ => exact hopen

/-! ## The data of a slot in the background -/

/-- No prefetch of the slot can bring anything but `d`. -/
structure Harmless (k : Kernel) (s : St P) (x : Slot) (d : P) : Prop where
  carries : Carries s x d
  ahead : Vacant s x ∨ NoneAhead s x
  alone : Alone k s x

/-- The data of the slot is `d` and stays so in the background. Without a tree for its
type a prefetch cannot insert anything. -/
structure Settled (k : Kernel) (s : St P) (x : Slot) (d : P) : Prop where
  current : Current s x d
  harmless : s.tswapTreeRoots x.type = none ∨ Harmless k s x d

theorem events_of_background {a : Action P} {r : St P × List (Event P)} {ev : Event P}
    (hs : step k s a = some r) (ha : a.isBackground = true) (hev : ev ∈ r.2) :
    ∃ y data, ev = .prefetched y data := by
  have hemits := emits_of_mem hs hev
  cases a <;> simp only [Action.isBackground, Bool.false_eq_true] at ha <;>
    cases ev <;> simp_all [Action.Emits]

/-- What a background step does to a slot in service. -/
inductive BackgroundStep (s s' : St P) (evs : List (Event P)) (x : Slot) : Prop where
  | frame : SlotFrame s s' x → BackgroundStep s s' evs x
  | writeBack : ¬ Vacant s x → (∀ d, Current s x d → Current s' x d) → BackgroundStep s s' evs x
  | prefetched (data : Option P) : .prefetched x data ∈ evs →
      (∀ d, data = some d → Current s' x d) → BackgroundStep s s' evs x

theorem backgroundStep_of_step {a : Action P} {r : St P × List (Event P)} (h : Inv s)
    (hs : step k s a = some r) (ha : a.isBackground = true) (harea : s.areas x.type = none) :
    BackgroundStep s r.1 r.2 x := by
  cases slotStep_of_step h hs x with
  | frame hf => exact .frame hf
  | writeBack hocc _ hkeep => exact .writeBack hocc hkeep
  | prefetched data _ hev _ hc => exact .prefetched data (by simp [hev]) hc
  | kernelWrite page hw => simp [hw, Action.isBackground] at ha
  | filled page hev =>
      have hmem : .stored x page 0 ∈ r.2 := by simp [hev]
      obtain ⟨y, data, hno⟩ := events_of_background hs ha hmem
      cases hno
  | cleared hcl =>
      obtain ⟨ev, hev, hclears⟩ := hcl
      have hmem : ev ∈ r.2 := by simp [hev]
      obtain ⟨y, data, rfl⟩ := events_of_background hs ha hmem
      exact hclears.elim
  | area hinv =>
      rcases hinv with hinv | hinv
      · exact (hinv.1 harea).elim
      · have hmem : .invalidatedArea x.type ∈ r.2 := by simp [hinv]
        obtain ⟨y, data, hno⟩ := events_of_background hs ha hmem
        cases hno

theorem Settled.current_step {a : Action P} {r : St P × List (Event P)} (h : Inv s)
    (hset : Settled k s x d) (hs : step k s a = some r) (ha : a.isBackground = true) :
    Current r.1 x d := by
  cases backgroundStep_of_step h hs ha hset.current.area with
  | frame hf => exact hf.current hset.current
  | writeBack _ hkeep => exact hkeep d hset.current
  | prefetched data hev hc =>
      obtain ⟨b, bio, ok, lockFree, nodeOk, -, hb, hslot, hdone, hins, hdata, -⟩ :=
        inserts_of_prefetched h hs hev
      rcases hset.harmless with hroot | hharmless
      · have htree := hins.2.1
        rw [hslot, hroot] at htree
        cases htree
      · exact hc d (hdata.trans (hharmless.carries b bio hb hslot hdone))

theorem Harmless.carries_step {a : Action P} {r : St P × List (Event P)} (h : Inv s)
    (hc : Current s x d) (hh : Harmless k s x d) (hs : step k s a = some r) :
    Carries r.1 x d := by
  intro b bio hb hslot hdone
  rcases reads_step h hs hb with ⟨hold, hsame⟩ | ⟨hundone, -⟩ |
    ⟨bio', hold, hslot', -, ⟨hundone, -⟩, hcontents⟩
  · rw [hsame]
    exact hh.carries b bio hold hslot hdone
  · rw [hundone] at hdone
    cases hdone
  · -- the slot is vacant, so what the device delivers is the data
    rw [hcontents, hslot]
    cases hh.ahead with
    | inl hv =>
        cases hc.holds with
        | inMemory e en hcopy => exact (hv e en hcopy.toOccupies).elim
        | onDisk _ hd => rw [hd]
    | inr hnone =>
        rw [hnone.2 b bio' hold (hslot'.trans hslot)] at hundone
        cases hundone

theorem noneAhead_of_prefetched {a : Action P} {r : St P × List (Event P)} {data : Option P}
    (h : Inv s) (hal : Alone k s x) (hs : step k s a = some r)
    (hev : .prefetched x data ∈ r.2) : NoneAhead r.1 x := by
  obtain ⟨b, bio, ok, lockFree, nodeOk, rfl, hb, hslot, hdone, -⟩ := inserts_of_prefetched h hs hev
  obtain ⟨bio', hb', -, rfl⟩ := step_prefetchEnd.mp hs
  have he := prefetchEnded h k hb' ok lockFree nodeOk
  have hread : (Request.read b).slot? k s = some x := by simp [Request.slot?, hb, hslot]
  have hopen : (Request.read b).delivered s = true := by simp [Request.delivered, hb, hdone]
  constructor
  · intro j job hj hjslot
    rw [he.jobs] at hj
    have heq := hal (.job j) (.read b) (by simp [Request.slot?, hj, hjslot]) hread rfl
    cases heq
  · intro i bio₁ hi hislot
    rw [he.reads, Heap.cell_free] at hi
    split at hi
    · cases hi
    · rename_i hne
      by_contra hundone
      have heq := hal (.read i) (.read b) (by simp [Request.slot?, hi, hislot]) hread
        (by simpa [Request.delivered, hi] using hundone)
      simp only [Request.read.injEq] at heq
      exact hne heq

theorem Harmless.ahead_step {a : Action P} {r : St P × List (Event P)} (h : Inv s)
    (hc : Current s x d) (hh : Harmless k s x d) (hs : step k s a = some r)
    (ha : a.isBackground = true) : Vacant r.1 x ∨ NoneAhead r.1 x := by
  by_cases hv : Vacant s x
  · cases backgroundStep_of_step h hs ha hc.area with
    | frame hf => exact .inl (hf.vacant hv)
    | writeBack hocc => exact (hocc hv).elim
    | prefetched data hev => exact .inr (noneAhead_of_prefetched h hh.alone hs hev)
  · -- an entry of the slot keeps the requests to come from missing it
    have hnone := hh.ahead.resolve_left hv
    refine .inr ⟨?_, ?_⟩
    · intro j job hj hjslot
      rcases jobs_step h hs hj with hold | ⟨-, -, hmiss⟩ | ⟨job', -, -, -, hl⟩
      · exact hnone.1 j job hold hjslot
      · exact hmiss
      · rw [hjslot] at hl
        exact (hv (h.vacant_of_lookup hc.area hl)).elim
    · intro b bio hb hbslot
      rcases reads_step h hs hb with ⟨hold, -⟩ | ⟨-, j, job, hj, hjslot, -, hmiss⟩ |
        ⟨-, -, -, -, ⟨-, hdone⟩, -⟩
      · exact hnone.2 b bio hold hbslot
      · rw [hnone.1 j job hj (hjslot.trans hbslot)] at hmiss
        cases hmiss
      · exact hdone

theorem Settled.step {a : Action P} {r : St P × List (Event P)} (h : Inv s)
    (hset : Settled k s x d) (hs : step k s a = some r) (ha : a.isBackground = true) :
    Settled k r.1 x d := by
  refine ⟨hset.current_step h hs ha, ?_⟩
  rcases hset.harmless with hroot | hh
  · exact .inl (by rw [roots_of_background h hs ha, hroot])
  · exact .inr ⟨hh.carries_step h hset.current hs, hh.ahead_step h hset.current hs ha,
      hh.alone.step h hs ha⟩

/-! ## Later loads -/

/-- The states that background steps lead to. -/
inductive Later (k : Kernel) (s : St P) : St P → Prop where
  | refl : Later k s s
  | step {s₁ : St P} {a : Action P} {r : St P × List (Event P)} : Later k s s₁ →
      a.isBackground = true → Tswap.step k s₁ a = some r → Later k s r.1

theorem Later.inv (h : Inv s) {s₁ : St P} (hl : Later k s s₁) : Inv s₁ := by
  induction hl with
  | refl => exact h
  | step _ _ hs ih => exact inv_step k _ ih hs

theorem Later.settled (h : Inv s) (hset : Settled k s x d) {s₁ : St P} (hl : Later k s s₁) :
    Settled k s₁ x d := by
  induction hl with
  | refl => exact hset
  | step hl ha hs ih => exact ih.step (hl.inv h) hs ha

/-- What a load delivers when nothing in it fails. -/
def laterLoad (k : Kernel) (s : St P) (x : Slot) (junk : P) : Option P × Int :=
  match atomicEntryLookupLock s x with
  | some e => (loadFromEntry s e true).2
  | none => (loadFromDevice k s x (.readOk junk)).2

/-- Whatever happens in the background, a later load delivers `d`. -/
def Retrievable (k : Kernel) (s : St P) (x : Slot) (d : P) : Prop :=
  ∀ s', Later k s s' → ∀ junk, laterLoad k s' x junk = (some d, 0)

theorem laterLoad_vacant (h : Inv s) (hv : Vacant s x) (junk : P) :
    laterLoad k s x junk = (some (s.disk x), 0) := by
  unfold laterLoad loadFromDevice
  simp only [h.lookup_vacant hv]
  split <;> rfl

theorem Current.laterLoad (h : Inv s) (hc : Current s x d) (junk : P) :
    laterLoad k s x junk = (some d, 0) := by
  cases hc.holds with
  | onDisk hv hd => rw [laterLoad_vacant h hv, hd]
  | inMemory _ _ hcopy =>
      have hlook := h.lookup_occupies hc.area hcopy.toOccupies
      simp [Tswap.laterLoad, hlook, loadFromEntry, hcopy.cell, hcopy.contents]

theorem Settled.retrievable (h : Inv s) (hset : Settled k s x d) : Retrievable k s x d :=
  fun _ hl junk => (hl.settled h hset).current.laterLoad (hl.inv h) junk

end Memtrade.Tswap
