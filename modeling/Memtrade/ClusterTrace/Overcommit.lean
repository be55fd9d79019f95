import Mathlib.Order.Bounds.Basic
import Memtrade.ClusterTrace.Simulator

/-!
# Which producers can take a request

Whether a producer is a candidate is decided behind the loop over its slots, from the value
that the loop variable was left with. A producer that is short of memory in its last slot
only leaves the value of a loop that went through.
-/

namespace Memtrade.ClusterTrace

variable {M : Type} {cfg : Config} {req : Request} {now : Nat} {size memory : ℚ}

/-- The producer has the slots, and the free memory in each of them. -/
def Covers (cfg : Config) (req : Request) (now : Nat) (trace : List ℚ) : Prop :=
  now + req.duration ≤ trace.length ∧
    ∀ usage ∈ slots trace req now, req.memory ≤ cfg.producerSize - usage

def freeMemory (size : ℚ) (usages : List ℚ) : Set ℚ := { x | ∃ usage ∈ usages, x = size - usage }

/-- The candidates are the producers that cover the request, each with its least free
memory. -/
def Exact (cfg : Config) (producer : Producers M) (req : Request) (now : Nat) : Prop :=
  ∀ m v, (m, v) ∈ availableMachines cfg producer req now ↔
    ∃ trace, (m, trace) ∈ producer.entries ∧ Covers cfg req now trace ∧
      IsLeast (freeMemory cfg.producerSize (slots trace req now)) v

/-- The slots before the last are covered, the last is not. -/
def ShortInLastSlot (cfg : Config) (req : Request) (now : Nat) (trace : List ℚ) : Prop :=
  now + req.duration ≤ trace.length ∧
    (∀ usage ∈ (slots trace req now).dropLast, req.memory ≤ cfg.producerSize - usage) ∧
    ∃ usage ∈ (slots trace req now).getLast?, cfg.producerSize - usage < req.memory

/-- No producer is short in its last slot only. -/
def LastSlotsOk (cfg : Config) (producer : Producers M) (req : Request) (now : Nat) : Prop :=
  ∀ e ∈ producer.entries, ¬ ShortInLastSlot cfg req now e.2

/-- No producer has more free memory in every slot than `min_memory` begins with. -/
def BelowInitialMin (cfg : Config) (producer : Producers M) (req : Request) (now : Nat) : Prop :=
  ∀ e ∈ producer.entries, Covers cfg req now e.2 →
    ∃ usage ∈ slots e.2 req now, cfg.producerSize - usage ≤ 1000000

/-! ## The loop over the slots -/

/-- The loop gets to the last slot exactly if the ones before are covered. -/
theorem slotLoop_reaches_iff (size memory : ℚ) (usages : List ℚ) :
    ∀ (t : Nat) (r : Nat × ℚ), usages ≠ [] →
      (t + usages.length ≤ (slotLoop size memory t r usages).1 + 1 ↔
        ∀ usage ∈ usages.dropLast, memory ≤ size - usage) := by
  induction usages with
  | nil =>
      intro t r hne
      exact absurd rfl hne
  | cons usage rest ih =>
      intro t r _
      by_cases hshort : size - usage < memory
      · have hloop : slotLoop size memory t r (usage :: rest) = (t, r.2) := by
          simp [slotLoop, hshort]
        rw [hloop]
        cases rest with
        | nil => simp
        | cons next rest => simp [hshort]
      · have hloop : slotLoop size memory t r (usage :: rest) =
            slotLoop size memory (t + 1)
              (t, if r.2 > size - usage then size - usage else r.2) rest := by
          simp [slotLoop, hshort]
        rw [hloop]
        cases rest with
        | nil => simp [slotLoop]
        | cons next rest =>
            have hsum : t + (usage :: next :: rest).length = t + 1 + (next :: rest).length := by
              simp only [List.length_cons]
              omega
            rw [hsum, ih _ _ (List.cons_ne_nil next rest), List.dropLast_cons_cons, List.forall_mem_cons]
            simp [not_lt.mp hshort]

/-- Over covered slots `min_memory` becomes the least of them and its first value. -/
theorem slotLoop_isLeast (usages : List ℚ) :
    ∀ {t : Nat} {r : Nat × ℚ}, (∀ usage ∈ usages, memory ≤ size - usage) →
      IsLeast (insert r.2 (freeMemory size usages)) (slotLoop size memory t r usages).2 := by
  induction usages with
  | nil =>
      intro t r _
      simp [slotLoop, freeMemory]
  | cons usage rest ih =>
      intro t r hcover
      have hfirst : ¬ size - usage < memory := not_lt.mpr (hcover usage List.mem_cons_self)
      have hrest : ∀ u ∈ rest, memory ≤ size - u :=
        fun u hu => hcover u (List.mem_cons_of_mem _ hu)
      have hmin : (if r.2 > size - usage then size - usage else r.2) = min r.2 (size - usage) := by
        by_cases hlt : size - usage < r.2
        · rw [if_pos hlt, min_eq_right hlt.le]
        · rw [if_neg hlt, min_eq_left (not_lt.mp hlt)]
      have hloop : slotLoop size memory t r (usage :: rest) =
          slotLoop size memory (t + 1) (t, min r.2 (size - usage)) rest := by
        rw [slotLoop, hmin, if_neg hfirst]
      have hset : freeMemory size (usage :: rest) = insert (size - usage) (freeMemory size rest) := by
        ext x
        simp [freeMemory]
      obtain ⟨hmem, hleast⟩ := ih (t := t + 1) (r := (t, min r.2 (size - usage))) hrest
      rw [hloop, hset]
      constructor
      · cases Set.mem_insert_iff.mp hmem with
        | inl heq =>
            rw [heq]
            cases min_choice r.2 (size - usage) with
            | inl hleft => rw [hleft]; exact Set.mem_insert _ _
            | inr hright => rw [hright]; exact Set.mem_insert_of_mem _ (Set.mem_insert _ _)
        | inr hin => exact Set.mem_insert_of_mem _ (Set.mem_insert_of_mem _ hin)
      · have hbound := hleast (Set.mem_insert _ _)
        intro x hx
        rcases hx with rfl | rfl | hin
        · exact hbound.trans (min_le_left _ _)
        · exact hbound.trans (min_le_right _ _)
        · exact hleast (Set.mem_insert_of_mem _ hin)

theorem slotLoop_snd (usages : List ℚ) :
    ∀ {t t' a b : Nat} {v : ℚ},
      (slotLoop size memory t (a, v) usages).2 = (slotLoop size memory t' (b, v) usages).2 := by
  induction usages with
  | nil =>
      intro t t' a b v
      rfl
  | cons usage rest ih =>
      intro t t' a b v
      by_cases hshort : size - usage < memory
      · simp [slotLoop, hshort]
      · simp only [slotLoop, hshort, if_false]
        exact ih

/-! ## The candidates -/

/-- The minimum that is reported for a candidate. -/
def reportedMin (cfg : Config) (req : Request) (now : Nat) (trace : List ℚ) : ℚ :=
  (slotLoop cfg.producerSize req.memory 0 (0, 1000000) (slots trace req now)).2

/-- The slots are there and those before the last are covered. -/
def Accepted (cfg : Config) (req : Request) (now : Nat) (trace : List ℚ) : Prop :=
  now + req.duration ≤ trace.length ∧
    ∀ usage ∈ (slots trace req now).dropLast, req.memory ≤ cfg.producerSize - usage

theorem length_slots {trace : List ℚ} (h : now + req.duration ≤ trace.length) :
    (slots trace req now).length = req.duration := by
  unfold slots
  rw [List.length_take, List.length_drop]
  omega

theorem mem_availableLoop (hd : 1 ≤ req.duration) (entries : List (M × List ℚ)) (m : M) (v : ℚ) :
    ∀ {t : Nat}, (m, v) ∈ availableLoop cfg req now t entries ↔
      ∃ trace, (m, trace) ∈ entries ∧ Accepted cfg req now trace ∧
        v = reportedMin cfg req now trace := by
  induction entries with
  | nil =>
      intro t
      simp [availableLoop]
  | cons e rest ih =>
      intro t
      obtain ⟨m', trace⟩ := e
      have hsplit : (∃ tr, (m, tr) ∈ (m', trace) :: rest ∧ Accepted cfg req now tr ∧
          v = reportedMin cfg req now tr) ↔
          (m = m' ∧ Accepted cfg req now trace ∧ v = reportedMin cfg req now trace) ∨
            ∃ tr, (m, tr) ∈ rest ∧ Accepted cfg req now tr ∧ v = reportedMin cfg req now tr := by
        constructor
        · intro h
          obtain ⟨tr, hmem, hacc, hv⟩ := h
          cases List.mem_cons.mp hmem with
          | inl heq =>
              rw [Prod.mk.injEq] at heq
              rw [heq.2] at hacc hv
              exact .inl ⟨heq.1, hacc, hv⟩
          | inr hin => exact .inr ⟨tr, hin, hacc, hv⟩
        · intro h
          cases h with
          | inl hhead => exact ⟨trace, by rw [hhead.1]; exact List.mem_cons_self, hhead.2⟩
          | inr hin =>
              obtain ⟨tr, hmem, hrest⟩ := hin
              exact ⟨tr, List.mem_cons_of_mem _ hmem, hrest⟩
      rw [hsplit]
      by_cases hlong : trace.length < now + req.duration
      · have hnot : ¬ Accepted cfg req now trace := fun hacc => absurd hacc.1 (not_le.mpr hlong)
        have hloop : availableLoop cfg req now t ((m', trace) :: rest) =
            availableLoop cfg req now t rest := by
          rw [availableLoop, if_pos hlong]
        rw [hloop, ih]
        simp [hnot]
      · have hlen := length_slots (not_lt.mp hlong)
        have hne : slots trace req now ≠ [] := by
          intro hnil
          rw [hnil, List.length_nil] at hlen
          omega
        have hreach := slotLoop_reaches_iff cfg.producerSize req.memory (slots trace req now) 0
          (t, 1000000) hne
        rw [hlen, zero_add] at hreach
        have hsnd : (slotLoop cfg.producerSize req.memory 0 (t, 1000000) (slots trace req now)).2 =
            reportedMin cfg req now trace := slotLoop_snd _
        rw [availableLoop, if_neg hlong]
        by_cases hacc : Accepted cfg req now trace
        · rw [if_pos (hreach.mpr hacc.2), List.mem_cons, Prod.mk.injEq, hsnd, ih]
          simp [hacc]
        · have hstop : ¬ req.duration ≤ (slotLoop cfg.producerSize req.memory 0 (t, 1000000)
              (slots trace req now)).1 + 1 :=
            fun hle => hacc ⟨not_lt.mp hlong, hreach.mp hle⟩
          rw [if_neg hstop, ih]
          simp [hacc]

theorem mem_availableMachines (hd : 1 ≤ req.duration) (producer : Producers M) (m : M) (v : ℚ) :
    (m, v) ∈ availableMachines cfg producer req now ↔
      ∃ trace, (m, trace) ∈ producer.entries ∧ Accepted cfg req now trace ∧
        v = reportedMin cfg req now trace :=
  mem_availableLoop hd producer.entries m v

theorem Covers.accepted {trace : List ℚ} (h : Covers cfg req now trace) :
    Accepted cfg req now trace :=
  ⟨h.1, fun usage hu => h.2 usage ((List.dropLast_sublist _).subset hu)⟩

/-- A candidate covers the request unless it is short in its last slot. -/
theorem Accepted.covers_or {trace : List ℚ} (h : Accepted cfg req now trace) :
    Covers cfg req now trace ∨ ShortInLastSlot cfg req now trace := by
  by_cases hlast : ∃ usage ∈ (slots trace req now).getLast?, cfg.producerSize - usage < req.memory
  · exact .inr ⟨h.1, h.2, hlast⟩
  · left
    refine ⟨h.1, ?_⟩
    intro usage hu
    cases hsome : (slots trace req now).getLast? with
    | none =>
        rw [List.getLast?_eq_none_iff.mp hsome] at hu
        cases hu
    | some last =>
        have hsplit := List.dropLast_append_getLast? last hsome
        rw [← hsplit] at hu
        cases List.mem_append.mp hu with
        | inl hinit => exact h.2 usage hinit
        | inr hin =>
            rw [List.mem_singleton.mp hin]
            exact not_lt.mp fun hshort => hlast ⟨last, hsome, hshort⟩

theorem ShortInLastSlot.not_covers {trace : List ℚ} (h : ShortInLastSlot cfg req now trace) :
    ¬ Covers cfg req now trace := by
  intro hcover
  obtain ⟨usage, hlast, hshort⟩ := h.2.2
  exact absurd (hcover.2 usage (List.mem_of_getLast? hlast)) (not_le.mpr hshort)

theorem Covers.isLeast {trace : List ℚ} (h : Covers cfg req now trace) :
    IsLeast (insert 1000000 (freeMemory cfg.producerSize (slots trace req now)))
      (reportedMin cfg req now trace) :=
  slotLoop_isLeast (slots trace req now) h.2

/-- The first value of `min_memory` does not matter where a slot is below it. -/
theorem Covers.isLeast_of_le {trace : List ℚ} {usage : ℚ} (h : Covers cfg req now trace)
    (hu : usage ∈ slots trace req now) (hle : cfg.producerSize - usage ≤ 1000000) :
    IsLeast (freeMemory cfg.producerSize (slots trace req now)) (reportedMin cfg req now trace) := by
  obtain ⟨hmem, hleast⟩ := h.isLeast
  have hfree : cfg.producerSize - usage ∈ freeMemory cfg.producerSize (slots trace req now) :=
    ⟨usage, hu, rfl⟩
  constructor
  · cases Set.mem_insert_iff.mp hmem with
    | inl heq =>
        have hge := hleast (Set.mem_insert_of_mem _ hfree)
        rw [heq] at hge ⊢
        rw [le_antisymm hge hle]
        exact hfree
    | inr hin => exact hin
  · exact fun x hx => hleast (Set.mem_insert_of_mem _ hx)

theorem Producers.trace_unique {producer : Producers M} {m : M} {trace trace' : List ℚ}
    (h : (m, trace) ∈ producer.entries) (h' : (m, trace') ∈ producer.entries) : trace = trace' := by
  have heq : (m, trace) = (m, trace') := List.inj_on_of_nodup_map producer.nodup h h' rfl
  exact (Prod.mk.inj heq).2

theorem exact_iff (hd : 1 ≤ req.duration) (producer : Producers M) :
    Exact cfg producer req now ↔
      LastSlotsOk cfg producer req now ∧ BelowInitialMin cfg producer req now := by
  constructor
  · intro hexact
    constructor
    · intro e he hshort
      have hmem := (mem_availableMachines hd producer e.1 (reportedMin cfg req now e.2)).mpr
        ⟨e.2, he, ⟨hshort.1, hshort.2.1⟩, rfl⟩
      obtain ⟨trace, htrace, hcover, -⟩ := (hexact _ _).mp hmem
      rw [producer.trace_unique htrace he] at hcover
      exact hshort.not_covers hcover
    · intro e he hcover
      have hmem := (mem_availableMachines hd producer e.1 (reportedMin cfg req now e.2)).mpr
        ⟨e.2, he, hcover.accepted, rfl⟩
      obtain ⟨trace, htrace, -, hleast⟩ := (hexact _ _).mp hmem
      rw [producer.trace_unique htrace he] at hleast
      obtain ⟨usage, hu, heq⟩ := hleast.1
      have hle := hcover.isLeast.2 (Set.mem_insert _ _)
      rw [heq] at hle
      exact ⟨usage, hu, hle⟩
  · intro hok m v
    rw [mem_availableMachines hd]
    constructor
    · intro h
      obtain ⟨trace, hmem, hacc, hv⟩ := h
      have hcover := hacc.covers_or.resolve_right (hok.1 (m, trace) hmem)
      obtain ⟨usage, hu, hle⟩ := hok.2 (m, trace) hmem hcover
      refine ⟨trace, hmem, hcover, ?_⟩
      rw [hv]
      exact hcover.isLeast_of_le hu hle
    · intro h
      obtain ⟨trace, hmem, hcover, hleast⟩ := h
      obtain ⟨usage, hu, hle⟩ := hok.2 (m, trace) hmem hcover
      exact ⟨trace, hmem, hcover.accepted, hleast.unique (hcover.isLeast_of_le hu hle)⟩

/-! ## The usage of the producers -/

/-- No producer uses more than its size in any slot. -/
def Bounded (cfg : Config) (producer : Producers M) : Prop :=
  ∀ e ∈ producer.entries, ∀ usage ∈ e.2, usage ≤ cfg.producerSize

/-- In the state before a turn that looks for a producer, none is short of the piece in its
last slot only. -/
def AttemptOk (cfg : Config) (s : Sim M) (_ : Unit) : Prop :=
  ∀ served p turns splitDone waiting, s.phase = .place served p (turns + 1) splitDone waiting →
    LastSlotsOk cfg s.producer (nextPiece cfg p).request s.time

theorem mem_of_findGreedyBestMach {candidate : List (M × ℚ)} {m : M}
    (h : findGreedyBestMach candidate = some m) : ∃ v, (m, v) ∈ candidate := by
  unfold findGreedyBestMach at h
  obtain ⟨best, hbest, heq⟩ := Option.map_eq_some_iff.mp h
  have hmem := (List.mem_insertionSort _).mp (List.mem_of_head? hbest)
  refine ⟨best.2, ?_⟩
  rw [← heq]
  exact hmem

theorem getElem_mem_slots {usages : List ℚ} {i : Nat} (hi : i < usages.length) (hle : now ≤ i)
    (hlt : i < now + req.duration) : usages[i] ∈ slots usages req now := by
  have hindex : i - now < ((usages.drop now).take req.duration).length := by
    rw [List.length_take, List.length_drop]
    omega
  have hget : ((usages.drop now).take req.duration)[i - now] = usages[i] := by
    rw [List.getElem_take, List.getElem_drop]
    congr 1
    omega
  rw [← hget]
  exact List.getElem_mem hindex

theorem addRequestToMachine_bounded {usages : List ℚ}
    (hbound : ∀ usage ∈ usages, usage ≤ cfg.producerSize)
    (hcover : ∀ usage ∈ slots usages req now, req.memory ≤ cfg.producerSize - usage) :
    ∀ usage ∈ addRequestToMachine usages req now, usage ≤ cfg.producerSize := by
  intro usage hu
  obtain ⟨i, hi, heq⟩ := List.mem_mapIdx.mp hu
  rw [← heq]
  by_cases hin : now ≤ i ∧ i < now + req.duration
  · have hfree := hcover _ (getElem_mem_slots hi hin.1 hin.2)
    rw [if_pos hin]
    exact le_sub_iff_add_le'.mp hfree
  · rw [if_neg hin]
    exact hbound _ (List.getElem_mem hi)

variable [DecidableEq M] {s s' : Sim M} {evs tr : List (Event M)} {producer : Producers M}
  {requests : List (Nat × List Request)}

theorem Bounded.update {m : M} {v : ℚ} (hbound : Bounded cfg producer)
    (hlast : LastSlotsOk cfg producer req now)
    (hm : (m, v) ∈ availableMachines cfg producer req now) :
    Bounded cfg (producer.update m fun trace => addRequestToMachine trace req now) := by
  intro e he usage hu
  obtain ⟨e₀, he₀, heq⟩ := List.mem_map.mp he
  rw [← heq] at hu
  by_cases hkey : e₀.1 = m
  · rw [if_pos hkey] at hu
    by_cases hd : 1 ≤ req.duration
    · obtain ⟨trace, htrace, hacc, -⟩ := (mem_availableMachines hd producer m v).mp hm
      have he₀' : (m, e₀.2) ∈ producer.entries := by rw [← hkey]; exact he₀
      rw [producer.trace_unique htrace he₀'] at hacc
      have hcover := hacc.covers_or.resolve_right (hlast e₀ he₀)
      exact addRequestToMachine_bounded (hbound e₀ he₀) hcover.2 usage hu
    · -- a request without slots adds nothing
      apply addRequestToMachine_bounded (hbound e₀ he₀) ?_ usage hu
      intro u hslot
      have hzero : req.duration = 0 := by omega
      unfold slots at hslot
      rw [hzero, List.take_zero] at hslot
      cases hslot
  · rw [if_neg hkey] at hu
    exact hbound e₀ he₀ usage hu

theorem bounded_step (hbound : Bounded cfg s.producer) (hok : AttemptOk cfg s ())
    (hs : step cfg s = some (s', evs)) : Bounded cfg s'.producer := by
  cases turn_of_step hs with
  | arrives _ _ => exact hbound
  | removes _ => exact hbound
  | opens _ => exact hbound
  | assigns _ _ => exact hbound
  | settles _ _ => exact hbound
  | misses _ => exact hbound
  | places hphase hm =>
      obtain ⟨v, hv⟩ := mem_of_findGreedyBestMach hm
      exact hbound.update (hok _ _ _ _ _ hphase) hv

/-- A run in which no attempt meets a producer that is short in its last slot only. -/
theorem bounded_of_exec (hstart : Bounded cfg producer)
    (h : (runSimulator cfg producer requests).Exec (AttemptOk cfg) s tr) :
    Bounded cfg s.producer := by
  apply h.invariant (I := fun s _ => Bounded cfg s.producer)
  · intro s hs
    rw [hs]
    exact hstart
  · intro s _ _ s' evs hbound hok hs
    exact bounded_step hbound hok hs

/-- The candidates are the right ones exactly if no producer is short in its last slot only
and the first value of `min_memory` is not reported; and no run over such attempts
overcommits a producer. -/
theorem placement_sound (cfg : Config) (producer : Producers M)
    (requests : List (Nat × List Request)) :
    (∀ (producer : Producers M) (req : Request) (now : Nat), 1 ≤ req.duration →
      (Exact cfg producer req now ↔
        LastSlotsOk cfg producer req now ∧ BelowInitialMin cfg producer req now)) ∧
      (Bounded cfg producer → ∀ s tr,
        (runSimulator cfg producer requests).Exec (AttemptOk cfg) s tr → Bounded cfg s.producer) :=
  ⟨fun producer _ _ hd => exact_iff hd producer, fun hstart _ _ h => bounded_of_exec hstart h⟩

/-- An executable test for `AttemptOk`: every slot of every producer has room for the piece. -/
def hasRoom (cfg : Config) (s : Sim M) : Bool :=
  match s.phase with
  | .place _ p (_ + 1) _ _ =>
      s.producer.entries.all fun e => (slots e.2 (nextPiece cfg p).request s.time).all fun usage =>
        (nextPiece cfg p).request.memory ≤ cfg.producerSize - usage
  | _ => true

omit [DecidableEq M] in
theorem attemptOk_of_hasRoom {a : Unit} (h : hasRoom cfg s = true) : AttemptOk cfg s a := by
  intro served p turns splitDone waiting hphase e he hshort
  obtain ⟨usage, hlast, hlt⟩ := hshort.2.2
  simp only [hasRoom, hphase, List.all_eq_true, decide_eq_true_eq] at h
  exact absurd (h e he usage (List.mem_of_getLast? hlast)) (not_le.mpr hlt)

/-- For both slots the producer is a candidate, with the 64 that are free in them; and the
run that places the request keeps it within its size. -/
theorem placement_sound_sample :
    Exact wholeConfig freeProducer ⟨2, 8⟩ 0 ∧
      ∃ s tr, (runSimulator wholeConfig freeProducer oneRequest).Exec (AttemptOk wholeConfig) s tr ∧
        s.producer.entries = [(0, [8, 8])] ∧ Bounded wholeConfig s.producer := by
  have hlast : LastSlotsOk wholeConfig freeProducer ⟨2, 8⟩ 0 := by
    intro e he hshort
    obtain ⟨usage, hu, hlt⟩ := hshort.2.2
    rw [List.mem_singleton.mp he] at hu
    cases hu
    exact absurd hlt (by decide +kernel)
  have hbelow : BelowInitialMin wholeConfig freeProducer ⟨2, 8⟩ 0 := by
    intro e he _
    rw [List.mem_singleton.mp he]
    exact ⟨0, List.mem_cons_self, by decide +kernel⟩
  have hstart : Bounded wholeConfig freeProducer := by
    intro e he
    rw [List.mem_singleton.mp he]
    decide
  have hmeets : (runSimulator wholeConfig freeProducer oneRequest).Meets (AttemptOk wholeConfig)
      (start freeProducer oneRequest) [(), (), (), ()] :=
    System.meets_of_check
      (fun s _ (h : hasRoom wholeConfig s = true) => attemptOk_of_hasRoom h) (by decide +kernel)
  have hexec := System.exec_final (M := runSimulator wholeConfig freeProducer oneRequest) rfl hmeets
  have hsound := placement_sound wholeConfig freeProducer oneRequest
  refine ⟨(hsound.1 freeProducer ⟨2, 8⟩ 0 (Nat.le_succ 1)).mpr ⟨hlast, hbelow⟩, _, _, hexec, ?_,
    hsound.2 hstart _ _ hexec⟩
  decide +kernel

/-- A producer of 64 that is free at first and full then. -/
def lateProducer : Producers Nat := ⟨[(0, [0, 64])], by decide⟩

def sampleRequests : List (Nat × List Request) := [(0, [⟨2, 1⟩])]

/-- The full slot is the last of the request, which is placed all the same. -/
theorem last_slot_overcommitted :
    ¬ ∀ s, (runSimulator wholeConfig lateProducer sampleRequests).Reachable s →
      Bounded wholeConfig s.producer := by
  intro hall
  have hbound := hall _ (System.reachable_final rfl [(), (), ()])
  have hlate : ((runSimulator wholeConfig lateProducer sampleRequests).final
      (start lateProducer sampleRequests) [(), (), ()]).producer.entries = [(0, [1, 65])] := by
    decide +kernel
  have hover := hbound (0, [1, 65]) (by rw [hlate]; exact List.mem_singleton_self _) 65 (by simp)
  exact absurd hover (by decide)

end Memtrade.ClusterTrace
