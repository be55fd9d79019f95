import Mathlib.Algebra.BigOperators.Group.List.Basic
import Mathlib.Tactic.Ring
import Memtrade.ClusterTrace.Simulator

/-!
# The pieces of a request

A request is placed in `split_factor` pieces. The field that holds the size of the next
piece is divided again before each piece, so only a piece that is tried first in the first
round has its share of the request. Conservation holds along the runs that place no other
piece.
-/

namespace Memtrade.ClusterTrace

variable {M : Type} {cfg : Config} {s s' : Sim M} {evs tr : List (Event M)} {id : Nat}
  {p q : Pending}

/-! ## What has been placed for a request -/

def Event.amountFor (id : Nat) : Event M → ℚ
  | .placed i _ _ req => if i = id then req.memory else 0
  | .assigned _ => 0

/-- The sum of the amounts added to producers for a request. -/
def amountFor (tr : List (Event M)) (id : Nat) : ℚ := (tr.map (Event.amountFor id)).sum

theorem amountFor_append (tr evs : List (Event M)) (id : Nat) :
    amountFor (tr ++ evs) id = amountFor tr id + amountFor evs id := by
  simp [amountFor]

/-- No event is about a piece of this request. -/
def Untouched (evs : List (Event M)) (id : Nat) : Prop := ∀ m t req, .placed id m t req ∉ evs

theorem Untouched.amountFor (h : Untouched evs id) : amountFor evs id = 0 := by
  apply List.sum_eq_zero
  intro v hv
  obtain ⟨ev, hev, heq⟩ := List.mem_map.mp hv
  rw [← heq]
  cases ev with
  | assigned i => rfl
  | placed i m t req =>
      have hne : i ≠ id := by
        intro hi
        rw [hi] at hev
        exact h m t req hev
      simp [Event.amountFor, hne]

theorem Untouched.append (h : Untouched evs id) (tr : List (Event M)) :
    ClusterTrace.amountFor (tr ++ evs) id = ClusterTrace.amountFor tr id := by
  rw [amountFor_append, h.amountFor, add_zero]

/-- What a producer has got in a slot. -/
def Event.addedTo [DecidableEq M] (m : M) (i : Nat) : Event M → ℚ
  | .placed _ m' t req => if m' = m ∧ t ≤ i ∧ i < t + req.duration then req.memory else 0
  | .assigned _ => 0

def addedTo [DecidableEq M] (tr : List (Event M)) (m : M) (i : Nat) : ℚ :=
  (tr.map (Event.addedTo m i)).sum

/-- The events account for the whole change of the table. -/
def Accounted [DecidableEq M] (producer : Producers M) (s : Sim M) (tr : List (Event M)) : Prop :=
  s.producer.entries = producer.entries.map fun e =>
    (e.1, e.2.mapIdx fun i usage => usage + addedTo tr e.1 i)

theorem Accounted.quiet [DecidableEq M] {producer : Producers M} (h : Accounted producer s tr)
    (hsame : s'.producer = s.producer) (hquiet : ∀ m i, addedTo evs m i = 0) :
    Accounted producer s' (tr ++ evs) := by
  have hadded : ∀ m i, addedTo (tr ++ evs) m i = addedTo tr m i := by
    intro m i
    have hzero := hquiet m i
    simp only [addedTo, List.map_append, List.sum_append] at hzero ⊢
    rw [hzero, add_zero]
  unfold Accounted
  simp only [hsame, hadded]
  exact h

theorem Accounted.places [DecidableEq M] {producer : Producers M} (h : Accounted producer s tr)
    {m : M} {now : Nat} {req : Request} {i : Nat} {phase : Phase} :
    Accounted producer { s with
      producer := s.producer.update m fun trace => addRequestToMachine trace req now
      phase := phase } (tr ++ [.placed i m now req]) := by
  unfold Accounted
  change (s.producer.entries.map fun e =>
    if e.1 = m then (e.1, addRequestToMachine e.2 req now) else e) = _
  rw [h, List.map_map]
  apply List.map_congr_left
  intro e _
  simp only [Function.comp_apply, addedTo, List.map_append, List.sum_append, List.map_cons,
    List.map_nil, List.sum_singleton, Event.addedTo]
  by_cases hkey : e.1 = m
  · simp only [hkey, if_true, true_and, addRequestToMachine, List.mapIdx_mapIdx]
    refine Prod.ext rfl (List.mapIdx_eq_mapIdx_iff.mpr ?_)
    intro j hj
    simp only [Function.comp_apply]
    split
    · rw [add_assoc]
    · rw [add_zero]
  · simp [hkey, Ne.symm hkey]

/-! ## Pending requests -/

def Phase.ids : Phase → List Nat
  | .arrive pending => pending.map Pending.id
  | .serve served waiting => served.map Pending.id ++ waiting.map Pending.id
  | .place served p _ _ waiting => served.map Pending.id ++ p.id :: waiting.map Pending.id

/-- The pending requests without the one whose pieces are being tried. -/
def Phase.settled : Phase → List Pending
  | .arrive pending => pending
  | .serve served waiting => served ++ waiting
  | .place served _ _ _ waiting => served ++ waiting

/-- The pending requests whose pieces may still be placed in this round. -/
def Phase.toServe : Phase → List Pending
  | .arrive _ => []
  | .serve _ waiting => waiting
  | .place _ p _ _ waiting => p :: waiting

/-- A turn that places a piece does so with the whole share: the request is not split, it
asks for nothing, or all its pieces are left and this is the first of them. -/
def PieceOk [DecidableEq M] (cfg : Config) (s : Sim M) (_ : Unit) : Prop :=
  ∀ served p turns splitDone waiting m, s.phase = .place served p (turns + 1) splitDone waiting →
    findGreedyBestMach
      (availableMachines cfg s.producer (nextPiece cfg p).request s.time) = some m →
    cfg.splitFactor = 1 ∨ p.mem = 0 ∨ (p.left = cfg.splitFactor ∧ turns + 1 = cfg.splitFactor)

/-- A pending request between two rounds. -/
structure Settled (cfg : Config) (tr : List (Event M)) (q : Pending) : Prop where
  left_le : q.left ≤ cfg.splitFactor
  memory : q.request.memory = q.mem * (q.left / cfg.splitFactor)
  amount : amountFor tr q.id = q.mem * (cfg.splitFactor - q.left) / cfg.splitFactor
  durations : ∀ m t req, .placed q.id m t req ∈ tr → req.duration = q.request.duration

/-- The request whose pieces are being tried. -/
structure Placing (cfg : Config) (tr : List (Event M)) (p : Pending) (turns splitDone : Nat) :
    Prop where
  left_le : p.left ≤ cfg.splitFactor
  turns_le : turns + splitDone ≤ p.left
  memory : p.request.memory =
    p.mem * (p.left / cfg.splitFactor) / cfg.splitFactor ^ (p.left - turns)
  amount : amountFor tr p.id =
    p.mem * (cfg.splitFactor - p.left) / cfg.splitFactor + splitDone * (p.mem / cfg.splitFactor)
  durations : ∀ m t req, .placed p.id m t req ∈ tr → req.duration = p.request.duration

theorem Config.splitFactor_ne_zero (cfg : Config) : (cfg.splitFactor : ℚ) ≠ 0 := by
  have hpos := cfg.splitFactor_pos
  exact Nat.cast_ne_zero.mpr (by omega)

theorem Settled.frame (h : Settled cfg tr q) (hquiet : Untouched evs q.id) :
    Settled cfg (tr ++ evs) q where
  left_le := h.left_le
  memory := h.memory
  amount := (hquiet.append tr).trans h.amount
  durations m t req hmem := by
    cases List.mem_append.mp hmem with
    | inl hold => exact h.durations m t req hold
    | inr hnew => exact absurd hnew (hquiet m t req)

theorem Placing.frame {turns splitDone : Nat} (h : Placing cfg tr p turns splitDone)
    (hquiet : Untouched evs p.id) : Placing cfg (tr ++ evs) p turns splitDone where
  left_le := h.left_le
  turns_le := h.turns_le
  memory := h.memory
  amount := (hquiet.append tr).trans h.amount
  durations m t req hmem := by
    cases List.mem_append.mp hmem with
    | inl hold => exact h.durations m t req hold
    | inr hnew => exact absurd hnew (hquiet m t req)

theorem Settled.placing (h : Settled cfg tr p) : Placing cfg tr p p.left 0 where
  left_le := h.left_le
  turns_le := le_refl _
  memory := by
    rw [h.memory, Nat.sub_self, pow_zero, div_one]
  amount := by
    rw [h.amount, Nat.cast_zero, zero_mul, add_zero]
  durations := h.durations

theorem Placing.misses {turns splitDone : Nat} (h : Placing cfg tr p (turns + 1) splitDone) :
    Placing cfg tr (nextPiece cfg p) turns splitDone where
  left_le := h.left_le
  turns_le := by
    have hle := h.turns_le
    change turns + splitDone ≤ p.left
    omega
  memory := by
    have hle := h.turns_le
    have hpow : p.left - turns = p.left - (turns + 1) + 1 := by omega
    change p.request.memory / cfg.splitFactor = p.mem * (p.left / cfg.splitFactor) /
      cfg.splitFactor ^ (p.left - turns)
    rw [h.memory, hpow, pow_succ, div_div]
  amount := h.amount
  durations := h.durations

theorem Placing.settle {splitDone : Nat} (h : Placing cfg tr p 0 splitDone) :
    Settled cfg tr (settle cfg p splitDone) := by
  have hle := h.turns_le
  rw [zero_add] at hle
  constructor
  · exact (Nat.sub_le ..).trans h.left_le
  · rfl
  · change amountFor tr p.id =
      p.mem * (cfg.splitFactor - ((p.left - splitDone : Nat) : ℚ)) / cfg.splitFactor
    rw [h.amount, Nat.cast_sub hle]
    ring
  · exact h.durations

theorem Placing.share {turns splitDone : Nat} (h : Placing cfg tr p (turns + 1) splitDone)
    (hok : cfg.splitFactor = 1 ∨ p.mem = 0 ∨
      (p.left = cfg.splitFactor ∧ turns + 1 = cfg.splitFactor)) :
    (nextPiece cfg p).request.memory = p.mem / cfg.splitFactor := by
  have hk := cfg.splitFactor_ne_zero
  have hmemory := h.misses.memory
  have hle := h.turns_le
  have hleft := h.left_le
  change _ = p.mem * (p.left / cfg.splitFactor) / cfg.splitFactor ^ (p.left - turns) at hmemory
  rw [hmemory]
  rcases hok with hone | hzero | ⟨hall, hfirst⟩
  · have hp : p.left = 1 := by omega
    simp [hone, hp]
  · simp [hzero]
  · have hexp : p.left - turns = 1 := by omega
    rw [hexp, pow_one, hall, div_self hk, mul_one]

theorem Placing.places {turns splitDone : Nat} {m : M} {time : Nat}
    (h : Placing cfg tr p (turns + 1) splitDone)
    (hok : cfg.splitFactor = 1 ∨ p.mem = 0 ∨
      (p.left = cfg.splitFactor ∧ turns + 1 = cfg.splitFactor)) :
    Placing cfg (tr ++ [.placed p.id m time (nextPiece cfg p).request]) (nextPiece cfg p) turns
      (splitDone + 1) where
  left_le := h.left_le
  turns_le := by
    have hle := h.turns_le
    change turns + (splitDone + 1) ≤ p.left
    omega
  memory := h.misses.memory
  amount := by
    have hpiece : amountFor [Event.placed p.id m time (nextPiece cfg p).request] p.id =
        p.mem / cfg.splitFactor := by
      simp [amountFor, Event.amountFor, h.share hok]
    change amountFor (tr ++ _) p.id = p.mem * (cfg.splitFactor - p.left) / cfg.splitFactor +
      (splitDone + 1 : Nat) * (p.mem / cfg.splitFactor)
    rw [amountFor_append, hpiece, h.amount, Nat.cast_add, Nat.cast_one]
    ring
  durations m' t req hmem := by
    cases List.mem_append.mp hmem with
    | inl hold => exact h.durations m' t req hold
    | inr hnew =>
        cases List.mem_singleton.mp hnew
        rfl

/-! ## The invariant of a run -/

/-- The request numbers are distinct, and the pieces of every request are accounted for. -/
structure Conserving (cfg : Config) (phase : Phase) (requestCount : Nat)
    (moved : List Pending) (tr : List (Event M)) : Prop where
  nodup : phase.ids.Nodup
  known : ∀ i ∈ phase.ids, i < requestCount
  placed_known : ∀ i m t req, .placed i m t req ∈ tr → i < requestCount
  settled : ∀ q ∈ phase.settled, Settled cfg tr q
  placing : ∀ served p turns splitDone waiting,
    phase = .place served p turns splitDone waiting → Placing cfg tr p turns splitDone
  assigned : ∀ q ∈ moved, amountFor tr q.id = q.mem
  assigned_done : ∀ q ∈ moved, q.id ∉ phase.toServe.map Pending.id

variable {phase : Phase} {requestCount turns splitDone : Nat}
  {pending served waiting assigned : List Pending}

theorem conserving_start : Conserving (M := M) cfg (.arrive []) 0 [] [] := by
  constructor <;> simp [Phase.ids, Phase.settled]

theorem settled_arrival {time : Nat} {reqs : List Request}
    (hknown : ∀ i m t req, .placed i m t req ∈ tr → i < requestCount)
    (hq : q ∈ arrivals cfg requestCount time reqs) : Settled cfg tr q := by
  obtain ⟨i, hi, heq⟩ := List.mem_mapIdx.mp hq
  have hk := cfg.splitFactor_ne_zero
  have hnone : Untouched tr q.id := by
    intro m t req hmem
    have hlt := hknown q.id m t req hmem
    rw [← heq] at hlt
    exact absurd hlt (by simp)
  constructor
  · rw [← heq]
  · rw [← heq]
    simp [hk]
  · rw [hnone.amountFor, ← heq]
    simp
  · intro m t req hmem
    exact absurd hmem (hnone m t req)

theorem arrivals_ids (cfg : Config) (requestCount time : Nat) (reqs : List Request) :
    (arrivals cfg requestCount time reqs).map Pending.id =
      (List.range reqs.length).map fun i => requestCount + i := by
  apply List.ext_getElem
  · simp [arrivals]
  · intro i hi hi'
    simp [arrivals]

theorem Conserving.arrives (h : Conserving cfg (.arrive pending) requestCount assigned tr)
    (time : Nat) (reqs : List Request) :
    Conserving cfg (.serve [] (pending ++ arrivals cfg requestCount time reqs))
      (requestCount + reqs.length) [] tr := by
  have hfresh : ∀ i ∈ (arrivals cfg requestCount time reqs).map Pending.id,
      requestCount ≤ i ∧ i < requestCount + reqs.length := by
    intro i hi
    rw [arrivals_ids] at hi
    obtain ⟨j, hj, heq⟩ := List.mem_map.mp hi
    have hlt := List.mem_range.mp hj
    omega
  constructor
  · change ((pending ++ arrivals cfg requestCount time reqs).map Pending.id).Nodup
    rw [List.map_append]
    apply h.nodup.append
    · rw [arrivals_ids]
      exact List.nodup_range.map (add_right_injective _)
    · intro i hold hnew
      have hlt := h.known i hold
      have hge := (hfresh i hnew).1
      omega
  · intro i hi
    change i ∈ (pending ++ arrivals cfg requestCount time reqs).map Pending.id at hi
    rw [List.map_append] at hi
    cases List.mem_append.mp hi with
    | inl hold =>
        have hlt := h.known i hold
        omega
    | inr hnew => exact (hfresh i hnew).2
  · intro i m t req hmem
    have hlt := h.placed_known i m t req hmem
    omega
  · intro q hq
    change q ∈ pending ++ arrivals cfg requestCount time reqs at hq
    cases List.mem_append.mp hq with
    | inl hold => exact h.settled q hold
    | inr hnew => exact settled_arrival h.placed_known hnew
  · intro served p turns splitDone waiting hplace
    cases hplace
  · intro q hq
    cases hq
  · intro q hq
    cases hq

theorem foldl_erase_sublist (assigned pending : List Pending) :
    (assigned.foldl List.erase pending).Sublist pending := by
  induction assigned generalizing pending with
  | nil => exact List.Sublist.refl pending
  | cons q assigned ih => exact (ih (pending.erase q)).trans List.erase_sublist

theorem Conserving.removes (h : Conserving cfg (.serve served []) requestCount assigned tr) :
    Conserving cfg (.arrive (assigned.foldl List.erase served)) requestCount assigned tr := by
  have hsub := foldl_erase_sublist assigned served
  have hids : (Phase.serve served []).ids = served.map Pending.id := List.append_nil _
  have hsettled : (Phase.serve served []).settled = served := List.append_nil _
  constructor
  · have hnodup := h.nodup
    rw [hids] at hnodup
    exact hnodup.sublist (hsub.map Pending.id)
  · intro i hi
    apply h.known
    rw [hids]
    exact (hsub.map Pending.id).subset hi
  · exact h.placed_known
  · intro q hq
    apply h.settled
    rw [hsettled]
    exact hsub.subset hq
  · intro served' p turns splitDone waiting hplace
    cases hplace
  · exact h.assigned
  · intro q hq
    exact List.not_mem_nil

theorem Conserving.opens
    (h : Conserving cfg (.serve served (p :: waiting)) requestCount assigned tr) :
    Conserving cfg (.place served p p.left 0 waiting) requestCount assigned tr := by
  constructor
  · exact h.nodup
  · exact h.known
  · exact h.placed_known
  · intro q hq
    apply h.settled q
    cases List.mem_append.mp hq with
    | inl hserved => exact List.mem_append_left _ hserved
    | inr hwaiting => exact List.mem_append_right _ (List.mem_cons_of_mem p hwaiting)
  · intro served' p' turns splitDone waiting' hplace
    cases hplace
    exact (h.settled p (List.mem_append_right _ List.mem_cons_self)).placing
  · exact h.assigned
  · exact h.assigned_done

/-- After the last turn of a request. It goes to the served ones, and to the assigned ones
if nothing is left of it. -/
theorem Conserving.settles {assigned' : List Pending}
    (h : Conserving cfg (.place served p 0 splitDone waiting) requestCount assigned tr)
    (hassigned : ∀ q ∈ assigned', q ∈ assigned ∨
      (q = settle cfg p splitDone ∧ (settle cfg p splitDone).left = 0)) :
    Conserving cfg (.serve (served ++ [settle cfg p splitDone]) waiting) requestCount assigned'
      tr := by
  have hp := (h.placing _ _ _ _ _ rfl).settle
  have hids : (Phase.serve (served ++ [settle cfg p splitDone]) waiting).ids =
      (Phase.place served p 0 splitDone waiting).ids := by
    simp [Phase.ids, settle]
  constructor
  · rw [hids]
    exact h.nodup
  · rw [hids]
    exact h.known
  · exact h.placed_known
  · intro q hq
    change q ∈ (served ++ [settle cfg p splitDone]) ++ waiting at hq
    rw [List.append_assoc] at hq
    rcases List.mem_append.mp hq with hserved | hrest
    · exact h.settled q (List.mem_append_left _ hserved)
    · cases List.mem_cons.mp hrest with
      | inl heq =>
          rw [heq]
          exact hp
      | inr hwaiting => exact h.settled q (List.mem_append_right _ hwaiting)
  · intro served' p' turns splitDone' waiting' hplace
    cases hplace
  · intro q hq
    cases hassigned q hq with
    | inl hold => exact h.assigned q hold
    | inr hnew =>
        have hk := cfg.splitFactor_ne_zero
        rw [hnew.1, hp.amount, hnew.2, Nat.cast_zero, sub_zero, mul_div_assoc, div_self hk, mul_one]
  · intro q hq
    have htail : (p.id :: waiting.map Pending.id).Nodup := h.nodup.of_append_right
    cases hassigned q hq with
    | inl hold => exact fun hmem => h.assigned_done q hold (List.mem_cons_of_mem p.id hmem)
    | inr hnew =>
        rw [hnew.1]
        exact (List.nodup_cons.mp htail).1

theorem Conserving.misses
    (h : Conserving cfg (.place served p (turns + 1) splitDone waiting) requestCount assigned tr) :
    Conserving cfg (.place served (nextPiece cfg p) turns splitDone waiting) requestCount assigned
      tr := by
  constructor
  · exact h.nodup
  · exact h.known
  · exact h.placed_known
  · exact h.settled
  · intro served' p' turns' splitDone' waiting' hplace
    cases hplace
    exact (h.placing _ _ _ _ _ rfl).misses
  · exact h.assigned
  · exact h.assigned_done

theorem Conserving.places {m : M} {time : Nat}
    (h : Conserving cfg (.place served p (turns + 1) splitDone waiting) requestCount assigned tr)
    (hok : cfg.splitFactor = 1 ∨ p.mem = 0 ∨
      (p.left = cfg.splitFactor ∧ turns + 1 = cfg.splitFactor)) :
    Conserving cfg (.place served (nextPiece cfg p) turns (splitDone + 1) waiting) requestCount
      assigned (tr ++ [.placed p.id m time (nextPiece cfg p).request]) := by
  have hother : ∀ i, i ≠ p.id →
      Untouched [Event.placed p.id m time (nextPiece cfg p).request] i := by
    intro i hi m' t req hmem
    cases List.mem_singleton.mp hmem
    exact hi rfl
  have hp : p.id ∉ served.map Pending.id ++ waiting.map Pending.id := by
    exact (List.nodup_cons.mp (List.nodup_middle.mp h.nodup)).1
  constructor
  · exact h.nodup
  · exact h.known
  · intro i m' t req hmem
    cases List.mem_append.mp hmem with
    | inl hold => exact h.placed_known i m' t req hold
    | inr hnew =>
        cases List.mem_singleton.mp hnew
        exact h.known p.id (List.mem_append_right _ List.mem_cons_self)
  · intro q hq
    apply (h.settled q hq).frame
    apply hother
    intro heq
    apply hp
    rw [← heq, ← List.map_append]
    exact List.mem_map_of_mem hq
  · intro served' p' turns' splitDone' waiting' hplace
    cases hplace
    exact (h.placing _ _ _ _ _ rfl).places hok
  · intro q hq
    have hne : q.id ≠ p.id := fun heq => h.assigned_done q hq (heq ▸ List.mem_cons_self)
    rw [(hother q.id hne).append]
    exact h.assigned q hq
  · exact h.assigned_done

theorem Conserving.announced (h : Conserving cfg phase requestCount assigned tr) (i : Nat) :
    Conserving cfg phase requestCount assigned (tr ++ [.assigned i]) := by
  have hquiet : ∀ j, Untouched [Event.assigned (M := M) i] j := by
    intro j m t req hmem
    cases List.mem_singleton.mp hmem
  constructor
  · exact h.nodup
  · exact h.known
  · intro j m t req hmem
    cases List.mem_append.mp hmem with
    | inl hold => exact h.placed_known j m t req hold
    | inr hnew => exact absurd hnew (hquiet j m t req)
  · exact fun q hq => (h.settled q hq).frame (hquiet q.id)
  · intro served p turns splitDone waiting hplace
    exact (h.placing _ _ _ _ _ hplace).frame (hquiet p.id)
  · intro q hq
    rw [(hquiet q.id).append]
    exact h.assigned q hq
  · exact h.assigned_done

variable [DecidableEq M]

theorem conserving_step (h : Conserving cfg s.phase s.requestCount s.assigned tr)
    (hok : PieceOk cfg s ()) (hs : step cfg s = some (s', evs)) :
    Conserving cfg s'.phase s'.requestCount s'.assigned (tr ++ evs) := by
  cases turn_of_step hs with
  | arrives hphase _ =>
      rw [hphase] at h
      rw [List.append_nil]
      exact h.arrives _ _
  | removes hphase =>
      rw [hphase] at h
      rw [List.append_nil]
      exact h.removes
  | opens hphase =>
      rw [hphase] at h
      rw [List.append_nil]
      exact h.opens
  | assigns hphase hleft =>
      rw [hphase] at h
      apply Conserving.announced
      apply h.settles
      intro q hq
      cases List.mem_append.mp hq with
      | inl hold => exact .inl hold
      | inr hnew => exact .inr ⟨List.mem_singleton.mp hnew, hleft⟩
  | settles hphase _ =>
      rw [hphase] at h
      rw [List.append_nil]
      exact h.settles fun q hq => .inl hq
  | misses hphase =>
      rw [hphase] at h
      rw [List.append_nil]
      exact h.misses
  | places hphase hm =>
      rw [hphase] at h
      exact h.places (hok _ _ _ _ _ _ hphase hm)

theorem accounted_step {producer : Producers M} (h : Accounted producer s tr)
    (hs : step cfg s = some (s', evs)) : Accounted producer s' (tr ++ evs) := by
  have hnil : ∀ (m : M) i, addedTo [] m i = 0 := fun _ _ => rfl
  cases turn_of_step hs with
  | arrives _ _ => exact h.quiet rfl hnil
  | removes _ => exact h.quiet rfl hnil
  | opens _ => exact h.quiet rfl hnil
  | assigns _ _ => exact h.quiet rfl fun m i => by simp [addedTo, Event.addedTo]
  | settles _ _ => exact h.quiet rfl hnil
  | misses _ => exact h.quiet rfl hnil
  | places _ _ => exact h.places

theorem accounted_of_exec {ok : Sim M → Unit → Prop} {producer : Producers M}
    {requests : List (Nat × List Request)}
    (h : (runSimulator cfg producer requests).Exec ok s tr) : Accounted producer s tr := by
  apply h.invariant (I := fun s tr => Accounted producer s tr)
  · intro s hs
    have hself : ∀ e : M × List ℚ,
        (e.1, e.2.mapIdx fun i usage => usage + addedTo [] e.1 i) = e := by
      intro e
      refine Prod.ext rfl (List.ext_getElem (by simp) ?_)
      intro i hi hi'
      simp [addedTo]
    rw [hs]
    unfold Accounted
    simp only [hself]
    exact (List.map_id' _).symm
  · intro s tr _ s' evs hacc _ hs
    exact accounted_step hacc hs

theorem conserving_of_exec {producer : Producers M} {requests : List (Nat × List Request)}
    (h : (runSimulator cfg producer requests).Exec (PieceOk cfg) s tr) :
    Conserving cfg s.phase s.requestCount s.assigned tr := by
  apply h.invariant (I := fun s tr => Conserving cfg s.phase s.requestCount s.assigned tr)
  · intro s hs
    rw [hs]
    exact conserving_start
  · intro s tr _ s' evs hc hok hs
    exact conserving_step hc hok hs

/-- Along a run that places only whole shares, what was placed for a pending request is the
part of it that is not left, always for its whole duration, and what was placed for an
assigned one is all of it; the amounts are those that the producers have got. -/
theorem splits_conserve {producer : Producers M} {requests : List (Nat × List Request)}
    (h : (runSimulator cfg producer requests).Exec (PieceOk cfg) s tr) :
    (∀ q ∈ s.phase.settled,
      amountFor tr q.id = q.mem * (cfg.splitFactor - q.left) / cfg.splitFactor ∧
        ∀ m t req, .placed q.id m t req ∈ tr → req.duration = q.request.duration) ∧
      (∀ q ∈ s.assigned, amountFor tr q.id = q.mem) ∧ Accounted producer s tr := by
  have hc := conserving_of_exec h
  refine ⟨?_, hc.assigned, accounted_of_exec h⟩
  intro q hq
  exact ⟨(hc.settled q hq).amount, (hc.settled q hq).durations⟩

/-- Two pieces for each request. -/
def twoConfig : Config := ⟨64, 2, Nat.le_succ 1⟩

/-- A request of 100, which no producer can take whole. -/
def largeRequest : List (Nat × List Request) := [(0, [⟨2, 100⟩])]

/-- An executable test for `PieceOk`. -/
def placesWhole (cfg : Config) (s : Sim M) : Bool :=
  match s.phase with
  | .place _ p (turns + 1) _ _ =>
      (availableMachines cfg s.producer (nextPiece cfg p).request s.time).isEmpty ||
        p.left == cfg.splitFactor && turns + 1 == cfg.splitFactor
  | _ => true

theorem pieceOk_of_placesWhole {cfg : Config} {s : Sim M} {a : Unit}
    (h : placesWhole cfg s = true) : PieceOk cfg s a := by
  intro served p turns splitDone waiting m hphase hm
  simp only [placesWhole, hphase, Bool.or_eq_true, List.isEmpty_iff, Bool.and_eq_true,
    beq_iff_eq] at h
  rcases h with hnone | hwhole
  · simp [hnone, findGreedyBestMach] at hm
  · exact .inr (.inr hwhole)

/-- In one piece the request is assigned in four turns. In two pieces half of the large one
is placed, and the other half is pending. -/
theorem splits_conserve_sample :
    (∃ s tr, (runSimulator wholeConfig freeProducer oneRequest).Exec (PieceOk wholeConfig) s tr ∧
      s.assigned.map Pending.id = [0] ∧ ∀ q ∈ s.assigned, amountFor tr q.id = q.mem) ∧
    ∃ s tr, (runSimulator twoConfig freeProducer largeRequest).Exec (PieceOk twoConfig) s tr ∧
      s.phase.settled = [⟨0, ⟨2, 50⟩, 0, 1, 100⟩] ∧
      ∀ q ∈ s.phase.settled, amountFor tr q.id =
        q.mem * (twoConfig.splitFactor - q.left) / twoConfig.splitFactor := by
  constructor
  · have hmeets : (runSimulator wholeConfig freeProducer oneRequest).Meets (PieceOk wholeConfig)
        (start freeProducer oneRequest) [(), (), (), ()] :=
      System.meets_of_forall (fun _ _ _ _ _ _ _ _ _ _ _ => .inl rfl) _
    have hexec := System.exec_final (M := runSimulator wholeConfig freeProducer oneRequest) rfl
      hmeets
    refine ⟨_, _, hexec, ?_, (splits_conserve hexec).2.1⟩
    decide +kernel
  · have hmeets : (runSimulator twoConfig freeProducer largeRequest).Meets (PieceOk twoConfig)
        (start freeProducer largeRequest) [(), (), (), (), ()] :=
      System.meets_of_check
        (fun s _ (h : placesWhole twoConfig s = true) => pieceOk_of_placesWhole h) (by decide +kernel)
    have hexec := System.exec_final (M := runSimulator twoConfig freeProducer largeRequest) rfl
      hmeets
    refine ⟨_, _, hexec, ?_, fun q hq => ((splits_conserve hexec).1 q hq).1⟩
    decide +kernel

/-- The pieces are 4 and 2: the second is half of the first and not of the request. -/
theorem second_piece_halved :
    ¬ ∀ s tr, (runSimulator twoConfig freeProducer oneRequest).Exec (fun _ _ => True) s tr →
      ∀ q ∈ s.assigned, amountFor tr q.id = q.mem := by
  intro hall
  have hmeets : (runSimulator twoConfig freeProducer oneRequest).Meets (fun _ _ => True)
      (start freeProducer oneRequest) [(), (), (), (), ()] :=
    System.meets_of_forall (fun _ _ _ => trivial) _
  have hexec := System.exec_final (M := runSimulator twoConfig freeProducer oneRequest) rfl hmeets
  have hassigned : ((runSimulator twoConfig freeProducer oneRequest).final
      (start freeProducer oneRequest) [(), (), (), (), ()]).assigned = [⟨0, ⟨2, 0⟩, 0, 0, 8⟩] := by
    decide +kernel
  have hsix : amountFor ((runSimulator twoConfig freeProducer oneRequest).trace
      (start freeProducer oneRequest) [(), (), (), (), ()]) 0 = 6 := by
    decide +kernel
  have height := hall _ _ hexec ⟨0, ⟨2, 0⟩, 0, 0, 8⟩ (by rw [hassigned]; exact List.mem_cons_self)
  rw [hsix] at height
  exact absurd height (by decide)

end Memtrade.ClusterTrace
