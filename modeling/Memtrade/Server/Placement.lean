import Memtrade.Server.Registered
import Mathlib.Algebra.BigOperators.Group.List.Basic

/-!
# One call of find_placement

The whole loop, when nothing is handled between its rounds. What it chooses depends
on the copy alone; the tables and the messages follow the choices one by one. A round
that does not fit takes `spot_size - (available_slabs - 1)` slabs, which is more than
the producer has as soon as it has at most half of the request.
-/

namespace Memtrade.Server

open CText

namespace Broker

/-- The loop of `find_placement` over the sorted copy. -/
def placeLoop (consumerId spotSize : Int) :
    Broker → Int → List ProducerEntry → Broker × List BrokerEvent
  | b, _, [] => (b, [])
  | b, allocated, e :: rest =>
      if allocated < spotSize then
        match pick spotSize allocated e.availableSlabs with
        | none => placeLoop consumerId spotSize b allocated rest
        | some pAlloc =>
            let r := b.assign consumerId e pAlloc
            let r' := placeLoop consumerId spotSize r.1 (allocated + pAlloc) rest
            (r'.1, r.2 ++ r'.2)
      else
        (b, [])

/-- `order` is the result of `qsort`. -/
def findPlacement (b : Broker) (consumerId spotSize : Int) (order : List ProducerEntry) :
    Broker × List BrokerEvent :=
  placeLoop consumerId spotSize b 0 order

/-! ## The choices -/

/-- The entries that the loop picks, with the slabs it takes out of each. -/
def picks (spotSize : Int) : Int → List ProducerEntry → List (ProducerEntry × Int)
  | _, [] => []
  | allocated, e :: rest =>
      if allocated < spotSize then
        match pick spotSize allocated e.availableSlabs with
        | none => picks spotSize allocated rest
        | some pAlloc => (e, pAlloc) :: picks spotSize (allocated + pAlloc) rest
      else
        []

def assignAll (consumerId : Int) : Broker → List (ProducerEntry × Int) → Broker × List BrokerEvent
  | b, [] => (b, [])
  | b, p :: ps =>
      let r := b.assign consumerId p.1 p.2
      let r' := assignAll consumerId r.1 ps
      (r'.1, r.2 ++ r'.2)

theorem placeLoop_eq_assignAll (consumerId spotSize : Int) (b : Broker) (allocated : Int)
    (order : List ProducerEntry) :
    placeLoop consumerId spotSize b allocated order =
      assignAll consumerId b (picks spotSize allocated order) := by
  induction order generalizing b allocated with
  | nil => rfl
  | cons e rest ih =>
      unfold placeLoop picks
      by_cases hlt : allocated < spotSize
      · rw [if_pos hlt, if_pos hlt]
        cases pick spotSize allocated e.availableSlabs with
        | none => exact ih b allocated
        | some pAlloc => simp only [ih, assignAll]
      · rw [if_neg hlt, if_neg hlt]
        rfl

theorem picks_sublist (spotSize allocated : Int) (order : List ProducerEntry) :
    ((picks spotSize allocated order).map Prod.fst).Sublist order := by
  induction order generalizing allocated with
  | nil => exact List.Sublist.refl _
  | cons e rest ih =>
      unfold picks
      by_cases hlt : allocated < spotSize
      · rw [if_pos hlt]
        cases pick spotSize allocated e.availableSlabs with
        | none => exact (ih allocated).cons e
        | some pAlloc => exact (ih (allocated + pAlloc)).cons_cons e
      · rw [if_neg hlt]
        exact List.nil_sublist _

/-! ## Tables and messages after the choices -/

/-- What one choice emits: the choice, and a message to each side with its size. -/
def choiceEvents (b : Broker) (consumerId producerId size : Int) : List BrokerEvent :=
  let p := b.producerList producerId
  let c := b.consumerList consumerId
  [.placed producerId consumerId size,
    .sent p.sock (assignmentMsg .spotAssignmentProducer (cstr c.ip) c.port size c.id),
    .sent c.sock (assignmentMsg .spotAssignmentConsumer (cstr p.ip) p.port size p.id)]

theorem assign_producerList (b : Broker) (consumerId : Int) (e : ProducerEntry) (pAlloc : Int) :
    (b.assign consumerId e pAlloc).1.producerList = Function.update b.producerList e.id
      { b.producerList e.id with availableSlabs := max 0 (e.availableSlabs - pAlloc) } := rfl

theorem choiceEvents_assign (b : Broker) (consumerId : Int) (e : ProducerEntry)
    (pAlloc producerId size : Int) :
    (b.assign consumerId e pAlloc).1.choiceEvents consumerId producerId size =
      b.choiceEvents consumerId producerId size := by
  have hentry : ∀ i, ∃ n, (b.assign consumerId e pAlloc).1.producerList i =
      { b.producerList i with availableSlabs := n } := by
    intro i
    rw [assign_producerList]
    by_cases hi : i = e.id
    · rw [hi, Function.update_self]
      exact ⟨_, rfl⟩
    · rw [Function.update_of_ne hi]
      exact ⟨_, rfl⟩
  obtain ⟨n, hn⟩ := hentry producerId
  unfold choiceEvents
  rw [hn]
  rfl

theorem assign_events (b : Broker) (consumerId : Int) (e : ProducerEntry) (pAlloc : Int) :
    (b.assign consumerId e pAlloc).2 = b.choiceEvents consumerId e.id pAlloc := by
  rw [← choiceEvents_assign b consumerId e pAlloc]
  rfl

theorem assignAll_events (consumerId : Int) (b : Broker) (ps : List (ProducerEntry × Int)) :
    (assignAll consumerId b ps).2 =
      ps.flatMap fun p => b.choiceEvents consumerId p.1.id p.2 := by
  induction ps generalizing b with
  | nil => rfl
  | cons p ps ih =>
      simp only [assignAll, ih, choiceEvents_assign, assign_events, List.flatMap_cons]

theorem assignAll_of_notMem (consumerId : Int) {b : Broker} {ps : List (ProducerEntry × Int)}
    {i : Int} (h : ∀ p ∈ ps, p.1.id ≠ i) :
    (assignAll consumerId b ps).1.producerList i = b.producerList i := by
  induction ps generalizing b with
  | nil => rfl
  | cons p ps ih =>
      have hp : i ≠ p.1.id := (h p List.mem_cons_self).symm
      have hrest := ih (b := (b.assign consumerId p.1 p.2).1)
        fun q hq => h q (List.mem_cons_of_mem p hq)
      rw [assign_producerList, Function.update_of_ne hp] at hrest
      exact hrest

theorem assignAll_of_mem (consumerId : Int) {b : Broker} {ps : List (ProducerEntry × Int)}
    (hids : (ps.map fun p => p.1.id).Nodup) {p : ProducerEntry × Int} (hp : p ∈ ps) :
    (assignAll consumerId b ps).1.producerList p.1.id =
      { b.producerList p.1.id with availableSlabs := max 0 (p.1.availableSlabs - p.2) } := by
  induction ps generalizing b with
  | nil => cases hp
  | cons q ps ih =>
      rw [List.map_cons, List.nodup_cons] at hids
      obtain ⟨hq, hids⟩ := hids
      have hnot : ∀ r ∈ ps, r.1.id ≠ q.1.id := by
        intro r hr heq
        exact hq (List.mem_map.mpr ⟨r, hr, heq⟩)
      rcases List.mem_cons.mp hp with heq | hmem
      · have hlast := assignAll_of_notMem consumerId (b := (b.assign consumerId q.1 q.2).1) hnot
        rw [assign_producerList, Function.update_self] at hlast
        rw [heq]
        exact hlast
      · have hlater := ih (b := (b.assign consumerId q.1 q.2).1) hids hmem
        rw [assign_producerList, Function.update_of_ne (hnot p hmem)] at hlater
        exact hlater

/-! ## Within what the producers have -/

/-- The producers chosen, with the sizes assigned. -/
def chosen (evs : List BrokerEvent) : List (Int × Int) :=
  evs.filterMap fun
    | .placed producerId _ size => some (producerId, size)
    | .sent _ _ => none

/-- The call turned `b` into `r.1` and emitted `r.2`: every producer is chosen at most
once, gets between 0 and what it had, the sizes add up to at most the request, a
chosen entry loses its size, every other entry is untouched, and each choice comes with
two messages that carry its size. -/
structure PlacementRespected (b : Broker) (consumerId spotSize : Int)
    (r : Broker × List BrokerEvent) : Prop where
  once : ((chosen r.2).map Prod.fst).Nodup
  bounds : ∀ p ∈ chosen r.2, 0 ≤ p.2 ∧ p.2 ≤ (b.producerList p.1).availableSlabs
  total : ((chosen r.2).map Prod.snd).sum ≤ spotSize
  drops : ∀ p ∈ chosen r.2, r.1.producerList p.1 = { b.producerList p.1 with
    availableSlabs := (b.producerList p.1).availableSlabs - p.2 }
  others : ∀ i, (∀ p ∈ chosen r.2, p.1 ≠ i) → r.1.producerList i = b.producerList i
  messages : r.2 = (chosen r.2).flatMap fun p => b.choiceEvents consumerId p.1 p.2

/-- Up to the first producer that has all that is still needed, each one has more than
half of the request. -/
def Covered (spotSize : Int) : Int → List ProducerEntry → Prop
  | _, [] => True
  | needed, e :: rest =>
      needed ≤ e.availableSlabs ∨ spotSize + minFree ≤ 2 * e.availableSlabs ∧
        Covered spotSize (needed - (spotSize + minFree - e.availableSlabs)) rest

theorem chosen_choiceEvents (b : Broker) (consumerId : Int) (ps : List (ProducerEntry × Int)) :
    chosen (ps.flatMap fun p => b.choiceEvents consumerId p.1.id p.2) =
      ps.map fun p => (p.1.id, p.2) := by
  induction ps with
  | nil => rfl
  | cons p ps ih =>
      rw [List.flatMap_cons, chosen, List.filterMap_append, List.map_cons, ← ih]
      rfl

theorem picks_done {spotSize allocated : Int} (h : spotSize ≤ allocated)
    (order : List ProducerEntry) : picks spotSize allocated order = [] := by
  cases order with
  | nil => rfl
  | cons e rest =>
      unfold picks
      rw [if_neg (by omega)]

/-- The sizes are within bounds exactly when the producers cover the request. -/
theorem picks_within_iff {spotSize allocated : Int} (order : List ProducerEntry)
    (h0 : 0 ≤ allocated) (hlt : allocated < spotSize) :
    ((∀ p ∈ picks spotSize allocated order, 0 ≤ p.2 ∧ p.2 ≤ p.1.availableSlabs) ∧
        allocated + ((picks spotSize allocated order).map Prod.snd).sum ≤ spotSize) ↔
      Covered spotSize (spotSize - allocated) order := by
  induction order generalizing allocated with
  | nil => simp [picks, Covered, hlt.le]
  | cons e rest ih =>
      unfold picks Covered
      rw [if_pos hlt]
      unfold pick minFree
      by_cases hfit : spotSize - allocated ≤ e.availableSlabs
      · -- the producer has what is needed and the loop ends
        rw [if_pos hfit]
        simp only [picks_done (show spotSize ≤ allocated + (spotSize - allocated) by omega),
          List.mem_singleton, forall_eq, List.map_cons, List.map_nil, List.sum_cons, List.sum_nil]
        constructor
        · intro _
          exact Or.inl hfit
        · intro _
          exact ⟨⟨by omega, hfit⟩, by omega⟩
      · rw [if_neg hfit, if_pos (by omega)]
        simp only [List.forall_mem_cons, List.map_cons, List.sum_cons]
        by_cases hhalf : spotSize + 1 ≤ 2 * e.availableSlabs
        · have hrest := ih (show 0 ≤ allocated + (spotSize - (e.availableSlabs - 1)) by omega)
            (by omega)
          have hneed : spotSize - (allocated + (spotSize - (e.availableSlabs - 1))) =
              spotSize - allocated - (spotSize + 1 - e.availableSlabs) := by omega
          rw [hneed] at hrest
          rw [← hrest]
          constructor
          · intro h
            exact Or.inr ⟨hhalf, h.1.2, by omega⟩
          · intro h
            have h' := (h.resolve_left hfit).2
            exact ⟨⟨⟨by omega, by omega⟩, h'.1⟩, by omega⟩
        · constructor
          · intro h
            have hle := h.1.1.2
            omega
          · intro h
            exact absurd (h.resolve_left hfit).1 hhalf

theorem eq_entry_of_mem_candidates {b : Broker} {e : ProducerEntry}
    (hown : ∀ i, (b.producerList i).availableSlabs ≠ 0 → b.Registered i)
    (he : e ∈ b.candidates) : b.producerList e.id = e := by
  obtain ⟨hne, i, rfl⟩ := mem_candidates he
  rw [hown i hne]

/-- The call keeps to what the producers have if and only if they cover the request in
the order in which the loop comes to them. -/
theorem placementRespected_iff {b : Broker} {order : List ProducerEntry} {spotSize : Int}
    (hown : ∀ i, (b.producerList i).availableSlabs ≠ 0 → b.Registered i)
    (hspot : 0 < spotSize) (horder : order.Perm b.candidates) (consumerId : Int) :
    PlacementRespected b consumerId spotSize (b.findPlacement consumerId spotSize order) ↔
      Covered spotSize spotSize order := by
  have hsub := picks_sublist spotSize 0 order
  have hids : ((picks spotSize 0 order).map fun p => p.1.id).Nodup := by
    have hnodup := ((horder.map ProducerEntry.id).nodup_iff).mpr (distinct_candidates hown)
    have h := (hsub.map ProducerEntry.id).nodup hnodup
    rw [List.map_map] at h
    exact h
  have hcopy : ∀ p ∈ picks spotSize 0 order,
      b.producerList p.1.id = p.1 := by
    intro p hp
    apply eq_entry_of_mem_candidates hown
    exact horder.subset (hsub.subset (List.mem_map_of_mem hp))
  have hrun := placeLoop_eq_assignAll consumerId spotSize b 0 order
  have hevs := assignAll_events consumerId b (picks spotSize 0 order)
  have hchosen := chosen_choiceEvents b consumerId (picks spotSize 0 order)
  rw [← hevs] at hchosen
  have hwithin := picks_within_iff order le_rfl hspot
  rw [Int.sub_zero, Int.zero_add] at hwithin
  rw [← hwithin, findPlacement, hrun]
  constructor
  · intro h
    have hbounds := h.bounds
    have htotal := h.total
    rw [hchosen] at hbounds htotal
    constructor
    · intro p hp
      have hp' := hbounds (p.1.id, p.2) (List.mem_map.mpr ⟨p, hp, rfl⟩)
      rw [hcopy p hp] at hp'
      exact hp'
    · rw [List.map_map] at htotal
      exact htotal
  · intro h
    constructor
    · rw [hchosen, List.map_map]
      exact hids
    · rw [hchosen]
      intro q hq
      obtain ⟨p, hp, rfl⟩ := List.mem_map.mp hq
      rw [hcopy p hp]
      exact h.1 p hp
    · rw [hchosen, List.map_map]
      exact h.2
    · rw [hchosen]
      intro q hq
      obtain ⟨p, hp, rfl⟩ := List.mem_map.mp hq
      have hle := (h.1 p hp).2
      rw [assignAll_of_mem consumerId hids hp, hcopy p hp, max_eq_right (by omega)]
    · rw [hchosen]
      intro i hi
      apply assignAll_of_notMem
      intro p hp
      exact hi (p.1.id, p.2) (List.mem_map.mpr ⟨p, hp, rfl⟩)
    · rw [hchosen, List.flatMap_map]
      exact hevs

end Broker

/-! ## In the market -/

/-- In every state of the market an entry with slabs carries its own index. -/
theorem Market.registered_of_slabs {s : Market} (h : market.Reachable s) (i : Int)
    (hi : (s.broker.producerList i).availableSlabs ≠ 0) : s.broker.Registered i := by
  have hknown : Known s := by
    apply h.invariant (I := Known)
    · intro s hinit
      exact Known.initial hinit
    · intro s a s' evs hs hstep
      exact hs.step hstep
  exact hknown.slabs i hi

/-- The rounds of a placement that nothing comes between are the loop of
`find_placement`. -/
theorem Market.run_place {s : Market} {consumerId spotSize allocated : Int}
    {rest : List ProducerEntry} (h : s.placing = some ⟨consumerId, spotSize, allocated, rest⟩) :
    ∃ n s', market.run s (List.replicate n MarketAction.place ++ [MarketAction.unlock]) =
        some (s', (Broker.placeLoop consumerId spotSize s.broker allocated rest).2) ∧
      s'.placing = none ∧
      s'.broker = (Broker.placeLoop consumerId spotSize s.broker allocated rest).1 := by
  induction rest generalizing s allocated with
  | nil =>
      refine ⟨0, { s with placing := none }, ?_, rfl, rfl⟩
      simp [System.run, market, Market.step, h, Broker.placeLoop]
  | cons e rest ih =>
      unfold Broker.placeLoop
      by_cases hlt : allocated < spotSize
      · rw [if_pos hlt]
        cases hpick : Broker.pick spotSize allocated e.availableSlabs with
        | none =>
            obtain ⟨n, s', hrun, hdone, hbroker⟩ :=
              ih (s := { s with placing := some ⟨consumerId, spotSize, allocated, rest⟩ }) rfl
            refine ⟨n + 1, s', ?_, hdone, hbroker⟩
            have hstep : market.step s .place =
                some ({ s with placing := some ⟨consumerId, spotSize, allocated, rest⟩ }, []) := by
              simp [market, Market.step, h, hlt, Market.placeOne, hpick]
            rw [List.replicate_succ, List.cons_append, System.run, hstep]
            simp only [hrun, List.nil_append]
        | some pAlloc =>
            have hstep : ∃ s₁, market.step s .place =
                  some (s₁, (s.broker.assign consumerId e pAlloc).2) ∧
                s₁.placing = some ⟨consumerId, spotSize, allocated + pAlloc, rest⟩ ∧
                s₁.broker = (s.broker.assign consumerId e pAlloc).1 := by
              simp [market, Market.step, h, hlt, Market.placeOne, hpick, Market.brokerStep]
            obtain ⟨s₁, hstep, hplacing, hbroker₁⟩ := hstep
            obtain ⟨n, s', hrun, hdone, hbroker⟩ := ih hplacing
            rw [hbroker₁] at hrun hbroker
            refine ⟨n + 1, s', ?_, hdone, hbroker⟩
            rw [List.replicate_succ, List.cons_append, System.run, hstep]
            simp only [hrun]
      · rw [if_neg hlt]
        refine ⟨0, { s with placing := none }, ?_, rfl, rfl⟩
        simp [System.run, market, Market.step, h, not_lt.mp hlt]

namespace Broker

/-! ## Samples -/

/-- A table with two registered producers. -/
def twoProducers (n₀ n₁ : Int) : Broker :=
  { Broker.start with
    producerList := fun i =>
      if i = 0 then ⟨"10.0.0.3".toList, 9702, 256, n₀, 0, some (.producer 0)⟩
      else if i = 1 then ⟨"10.0.0.4".toList, 9702, 256, n₁, 1, some (.producer 1)⟩
      else ⟨[], 0, 0, 0, 0, none⟩
    producerId := 2 }

theorem twoProducers_own (n₀ n₁ i : Int)
    (h : ((twoProducers n₀ n₁).producerList i).availableSlabs ≠ 0) :
    (twoProducers n₀ n₁).Registered i := by
  unfold Registered
  unfold twoProducers at h ⊢
  dsimp only at h ⊢
  split
  · rename_i h0
    rw [h0]
  · rename_i h0
    rw [if_neg h0] at h
    split
    · rename_i h1
      rw [h1]
    · rename_i h1
      rw [if_neg h1] at h
      exact absurd rfl h

/-- A request for 6 slabs out of 5 and 4: two of the first producer, four of the second. -/
theorem placementRespected_sample :
    PlacementRespected (twoProducers 5 4) 0 6
      ((twoProducers 5 4).findPlacement 0 6 (twoProducers 5 4).candidates) := by
  have hcovered : Covered 6 6 (twoProducers 5 4).candidates := by
    have hcand : (twoProducers 5 4).candidates =
        [(twoProducers 5 4).producerList 0, (twoProducers 5 4).producerList 1] := by
      decide +kernel
    rw [hcand]
    exact Or.inr ⟨by decide, Or.inl (by decide)⟩
  exact (placementRespected_iff (twoProducers_own 5 4) (by decide) (List.Perm.refl _) 0).mpr
    hcovered

/-- A request for 6 slabs out of 2 and 2: the first producer alone is to give 5. -/
theorem placement_exceeds_availability :
    ¬ ∀ (b : Broker) (consumerId spotSize : Int) (order : List ProducerEntry),
      (∀ i, 0 ≤ (b.producerList i).availableSlabs) →
      (∀ i, (b.producerList i).availableSlabs ≠ 0 → b.Registered i) → 0 < spotSize →
      order.Perm b.candidates →
      PlacementRespected b consumerId spotSize (b.findPlacement consumerId spotSize order) := by
  intro hall
  have hnonneg : ∀ i, 0 ≤ ((twoProducers 2 2).producerList i).availableSlabs := by
    intro i
    unfold twoProducers
    dsimp only
    split
    · decide
    · split <;> decide
  have h := hall (twoProducers 2 2) 0 6 (twoProducers 2 2).candidates hnonneg
    (twoProducers_own 2 2) (by decide) (List.Perm.refl _)
  have hmem : (0, 5) ∈ chosen ((twoProducers 2 2).findPlacement 0 6
      (twoProducers 2 2).candidates).2 := by
    decide +kernel
  have hle := (h.bounds (0, 5) hmem).2
  exact absurd hle (by decide)

end Broker

end Memtrade.Server
