import Memtrade.Server.Registered

/-!
# Slabs assigned out of a producer

A report overwrites what the broker has left of a producer, whatever has been
assigned out of it, and a round that does not fit takes `spot_size - (available - 1)`
slabs, which may be more than there are. While no report promises assigned slabs again
and no round takes more than the entry has, the slabs assigned out of a producer are
at most the largest availability that it has reported.
-/

namespace Memtrade.Server

open CText

/-- The condition on a step: a report leaves out what has been assigned, and the entry
that a round comes to has enough for the branch that is taken. -/
def Market.fits (s : Market) : MarketAction → Bool
  | .handle k _ locals _ =>
      match s.toBroker k with
      | [] => true
      | msg :: _ =>
          match scanMessage locals msg with
          | .producerAvailability p v _ => decide (s.assigned p + v ≤ max (s.largest p) v)
          | _ => true
  | .place =>
      match s.placing with
      | some ⟨_, spotSize, allocated, e :: _⟩ =>
          decide (spotSize - allocated ≤ e.availableSlabs ∨ spotSize + minFree ≤ 2 * e.availableSlabs)
      | _ => true
  | _ => true

/-- What has been assigned and what is left are within the largest report, in the table
and in the copy that a placement works on. -/
structure Accounted (s : Market) : Prop where
  assigned : ∀ p, s.assigned p ≤ s.largest p
  left : ∀ p, s.assigned p + (s.broker.producerList p).availableSlabs ≤ s.largest p
  copied : ∀ pl, s.placing = some pl → ∀ e ∈ pl.rest,
    s.assigned e.id + e.availableSlabs ≤ s.largest e.id
  distinct : ∀ pl, s.placing = some pl → (pl.rest.map ProducerEntry.id).Nodup

theorem Broker.pick_le {spotSize allocated availableSlabs pAlloc : Int}
    (h : pick spotSize allocated availableSlabs = some pAlloc)
    (hfits : spotSize - allocated ≤ availableSlabs ∨ spotSize + minFree ≤ 2 * availableSlabs) :
    pAlloc ≤ availableSlabs := by
  unfold pick at h
  unfold minFree at h hfits
  split at h
  · rename_i henough
    have hpick := Option.some.inj h
    omega
  · split at h
    · have hpick := Option.some.inj h
      omega
    · cases h

namespace Accounted

variable {s : Market}

theorem initial (h : s.Initial) : Accounted s := by
  refine ⟨?_, ?_, ?_, ?_⟩
  · intro p
    rw [h.assigned, h.largest]
  · intro p
    rw [h.assigned, h.largest, h.broker]
    exact le_rfl
  · intro pl hpl
    rw [h.placing] at hpl
    cases hpl
  · intro pl hpl
    rw [h.placing] at hpl
    cases hpl

theorem unchanged (h : Accounted s) {s' : Market} (hassigned : s'.assigned = s.assigned)
    (hlargest : s'.largest = s.largest) (hplacing : s'.placing = s.placing)
    (hleft : ∀ p, (s'.broker.producerList p).availableSlabs = 0 ∨
      (s'.broker.producerList p).availableSlabs = (s.broker.producerList p).availableSlabs) :
    Accounted s' := by
  refine ⟨?_, ?_, ?_, ?_⟩
  · rw [hassigned, hlargest]
    exact h.assigned
  · intro p
    rw [hassigned, hlargest]
    have hle := h.assigned p
    have hsum := h.left p
    rcases hleft p with hzero | hsame
    · omega
    · omega
  · rw [hassigned, hlargest, hplacing]
    exact h.copied
  · rw [hplacing]
    exact h.distinct

theorem setAvailability (h : Accounted s) {p v : Int} (n : Int)
    (hfits : s.assigned p + v ≤ max (s.largest p) v) :
    Accounted { s with
      broker := s.broker.setAvailability p v n
      largest := Function.update s.largest p (max (s.largest p) v) } := by
  have hgrow : ∀ q, s.largest q ≤ Function.update s.largest p (max (s.largest p) v) q := by
    intro q
    by_cases hq : q = p
    · subst hq
      rw [Function.update_self]
      exact le_max_left _ _
    · rw [Function.update_of_ne hq]
  refine ⟨?_, ?_, ?_, h.distinct⟩
  · intro q
    exact le_trans (h.assigned q) (hgrow q)
  · intro q
    show s.assigned q + (Function.update s.broker.producerList p _ q).availableSlabs ≤
      Function.update s.largest p (max (s.largest p) v) q
    by_cases hq : q = p
    · subst hq
      rw [Function.update_self, Function.update_self]
      exact hfits
    · rw [Function.update_of_ne hq, Function.update_of_ne hq]
      exact h.left q
  · intro pl hpl e he
    exact le_trans (h.copied pl hpl e he) (hgrow e.id)

theorem copy (h : Accounted s) (hk : Known s) (consumerId spotSize : Int)
    {order : List ProducerEntry} (hperm : order.Perm s.broker.candidates) :
    Accounted { s with placing := some ⟨consumerId, spotSize, 0, order⟩ } := by
  refine ⟨h.assigned, h.left, ?_, ?_⟩
  · intro pl hpl e he
    cases hpl
    obtain ⟨hne, i, hi⟩ := Broker.mem_candidates (hperm.mem_iff.mp he)
    have hreg : s.broker.Registered i := hk.slabs i (hi ▸ hne)
    have hid : e.id = i := by rw [hi]; exact hreg
    show s.assigned e.id + e.availableSlabs ≤ s.largest e.id
    rw [hid, hi]
    exact h.left i
  · intro pl hpl
    cases hpl
    exact ((hperm.map ProducerEntry.id).nodup_iff).mpr (Broker.distinct_candidates hk.slabs)

theorem shrink (h : Accounted s) {placing : Option Placement}
    (hrest : ∀ pl, placing = some pl → ∃ pl', s.placing = some pl' ∧ pl.rest.Sublist pl'.rest) :
    Accounted { s with placing := placing } := by
  refine ⟨h.assigned, h.left, ?_, ?_⟩
  · intro pl hpl e he
    obtain ⟨pl', hpl', hsub⟩ := hrest pl hpl
    exact h.copied pl' hpl' e (hsub.subset he)
  · intro pl hpl
    obtain ⟨pl', hpl', hsub⟩ := hrest pl hpl
    exact (h.distinct pl' hpl').sublist (hsub.map ProducerEntry.id)

theorem assign (h : Accounted s) {pl : Placement} {e : ProducerEntry} {rest : List ProducerEntry}
    (hpl : s.placing = some pl) (hcopy : pl.rest = e :: rest) {pAlloc : Int}
    (hle : pAlloc ≤ e.availableSlabs) :
    Accounted (Market.brokerStep
      { s with
        placing := some { pl with allocated := pl.allocated + pAlloc, rest := rest }
        assigned := Function.update s.assigned e.id (s.assigned e.id + pAlloc) }
      (s.broker.assign pl.consumerId e pAlloc)).1 := by
  have hentry := h.copied pl hpl e (by rw [hcopy]; simp)
  have hdistinct := h.distinct pl hpl
  rw [hcopy, List.map_cons, List.nodup_cons] at hdistinct
  refine ⟨?_, ?_, ?_, ?_⟩
  · intro p
    show Function.update s.assigned e.id (s.assigned e.id + pAlloc) p ≤ s.largest p
    by_cases hp : p = e.id
    · subst hp
      rw [Function.update_self]
      omega
    · rw [Function.update_of_ne hp]
      exact h.assigned p
  · intro p
    show Function.update s.assigned e.id (s.assigned e.id + pAlloc) p +
      (Function.update s.broker.producerList e.id _ p).availableSlabs ≤ s.largest p
    by_cases hp : p = e.id
    · subst hp
      rw [Function.update_self, Function.update_self]
      show s.assigned e.id + pAlloc + max 0 (e.availableSlabs - pAlloc) ≤ s.largest e.id
      omega
    · rw [Function.update_of_ne hp, Function.update_of_ne hp]
      exact h.left p
  · intro pl' hpl' x hx
    cases hpl'
    have hne : x.id ≠ e.id := by
      intro heq
      exact hdistinct.1 (heq ▸ List.mem_map_of_mem hx)
    show Function.update s.assigned e.id _ x.id + x.availableSlabs ≤ s.largest x.id
    rw [Function.update_of_ne hne]
    exact h.copied pl hpl x (by rw [hcopy]; exact List.mem_cons_of_mem e hx)
  · intro pl' hpl'
    cases hpl'
    exact hdistinct.2

theorem placeOne (h : Accounted s) {pl : Placement} {e : ProducerEntry}
    {rest : List ProducerEntry} (hpl : s.placing = some pl) (hcopy : pl.rest = e :: rest)
    (hfits : pl.spotSize - pl.allocated ≤ e.availableSlabs ∨
      pl.spotSize + minFree ≤ 2 * e.availableSlabs) :
    Accounted (s.placeOne pl e rest).1 := by
  unfold Market.placeOne
  split
  · apply h.shrink
    intro pl' hpl'
    cases hpl'
    refine ⟨pl, hpl, ?_⟩
    rw [hcopy]
    exact List.sublist_cons_self e rest
  · rename_i pAlloc hpick
    exact h.assign hpl hcopy (Broker.pick_le hpick hfits)

theorem dispatch (h : Accounted s) (hk : Known s) {sock : Sock} {more : Text}
    {order : List ProducerEntry} {m : ClientMsg}
    (hreport : ∀ p v n, m = .producerAvailability p v n → s.assigned p + v ≤ max (s.largest p) v)
    {r : Market × List BrokerEvent} (hs : s.dispatch sock more order m = some r) :
    Accounted r.1 := by
  cases m with
  | producerReg ip port =>
      cases hs
      refine h.unchanged rfl rfl rfl ?_
      intro p
      show (Function.update s.broker.producerList s.broker.producerId _ p).availableSlabs = 0 ∨
        (Function.update s.broker.producerList s.broker.producerId _ p).availableSlabs = _
      by_cases hp : p = s.broker.producerId
      · subst hp
        rw [Function.update_self]
        exact .inl rfl
      · rw [Function.update_of_ne hp]
        exact .inr rfl
  | producerAvailability p v n =>
      cases hs
      exact h.setAvailability n (hreport p v n rfl)
  | spotRequest c size lease =>
      simp only [Market.dispatch] at hs
      split at hs
      · rename_i hguard
        cases hs
        exact h.copy hk c size hguard.2
      · cases hs
  | consumerReg | producerReady | unknown =>
      cases hs
      exact h.unchanged rfl rfl rfl fun _ => .inr rfl

theorem step (h : Accounted s) (hk : Known s) {a : MarketAction} (hfits : s.fits a = true)
    {s' : Market} {evs : List BrokerEvent} (hs : s.step a = some (s', evs)) : Accounted s' := by
  cases a with
  | accept k more =>
      cases hs
      exact h.unchanged rfl rfl rfl fun _ => .inr rfl
  | harvest k availableMemory =>
      cases hs
      exact h.unchanged rfl rfl rfl fun _ => .inr rfl
  | receive k n locals =>
      simp only [Market.step] at hs
      split at hs
      · cases hs
      · cases hs
        exact h.unchanged rfl rfl rfl fun _ => .inr rfl
  | handle k n locals order =>
      simp only [Market.step] at hs
      split at hs
      · cases hs
      · rename_i msg rest hq
        have hdrop : Known { s with toBroker := Function.update s.toBroker k (rest.drop n) } :=
          hk.drop (mem_of_mem_update hq n) fun _ _ hbytes => hbytes
        have hsame : Accounted { s with toBroker := Function.update s.toBroker k (rest.drop n) } :=
          h.unchanged rfl rfl rfl fun _ => .inr rfl
        refine hsame.dispatch hdrop ?_ hs
        intro p v total hscan
        simp only [Market.fits, hq, hscan] at hfits
        exact of_decide_eq_true hfits
  | consumer k msg locals order =>
      refine h.dispatch hk ?_ hs
      intro p v n hscan
      exact absurd hscan (msg.scan_ne locals p v n)
  | place =>
      simp only [Market.step] at hs
      split at hs
      · rename_i hpl
        split at hs
        · simp only [Market.fits, hpl] at hfits
          have hplaced := h.placeOne hpl rfl (of_decide_eq_true hfits)
          rw [Option.some.inj hs] at hplaced
          exact hplaced
        · cases hs
      · cases hs
  | unlock =>
      simp only [Market.step] at hs
      split at hs
      · split at hs
        · cases hs
          apply h.shrink
          intro pl hpl
          cases hpl
        · cases hs
      · cases hs

end Accounted

/-- In every run of the market, whatever the order of reports, requests and rounds, all
of whose steps fit: no more slabs have been assigned out of a producer than the largest
availability that it has reported. -/
theorem assigned_le_largest {s : Market} {tr : List BrokerEvent}
    (h : market.Exec (fun s a => s.fits a = true) s tr) (p : Int) : s.assigned p ≤ s.largest p := by
  have hinv : Known s ∧ Accounted s := by
    apply h.invariant (I := fun s _ => Known s ∧ Accounted s)
    · intro s hinit
      exact ⟨Known.initial hinit, Accounted.initial hinit⟩
    · intro s _ a s' evs hs hfits hstep
      exact ⟨hs.1.step hstep, hs.2.step hs.1 hfits hstep⟩
  exact hinv.2.assigned p

/-- Nobody has connected yet; the producers have 16 GB each. -/
def Market.sample : Market where
  broker := .start
  placing := none
  producers := fun _ => .start "10.0.0.3".toList 9702 (2 ^ 34) fun _ => ⟨[], 0, 0, 0, 0, .stop⟩
  toBroker := fun _ => []
  toProducer := fun _ => []
  assigned := fun _ => 0
  largest := fun _ => 0

theorem Market.sample_initial : Market.sample.Initial :=
  ⟨rfl, rfl, fun _ => ⟨_, _, _, _, rfl⟩, fun _ => rfl, fun _ => rfl, fun _ => rfl, fun _ => rfl⟩

/-- Locals of the broker that begin as zeros. -/
def zeroBrokerLocals : BrokerLocals := ⟨0, [], 0, 0, 0, 0, 0, 0, 0, 0, []⟩

/-- The entry of the first producer, with `n` slabs left. -/
def sampleEntry (n : Int) : ProducerEntry :=
  ⟨"10.0.0.3".toList, 9702, 256, n, 0, some (.producer 0)⟩

/-- A producer registers, harvests one node and reports it; a consumer gets it. -/
def firstAssignment : List MarketAction :=
  [.accept 0 [], .receive 0 0 zeroLocals, .handle 0 0 zeroBrokerLocals [], .receive 0 0 zeroLocals,
    .consumer 0 (.registration "10.0.0.2".toList 9704) zeroBrokerLocals [],
    .harvest 0 (2 ^ 33), .handle 0 0 zeroBrokerLocals [],
    .consumer 0 (.spotRequest 0 1 1) zeroBrokerLocals [sampleEntry 1], .place, .unlock]

theorem assigned_le_largest_sample :
    (market.final Market.sample firstAssignment).assigned 0 = 1 ∧
      (market.final Market.sample firstAssignment).assigned 0 ≤
        (market.final Market.sample firstAssignment).largest 0 := by
  have hmeets : market.Meets (fun s a => s.fits a = true) Market.sample firstAssignment :=
    System.meets_of_check (fun _ _ h => h) (by decide +kernel)
  exact ⟨by decide +kernel,
    assigned_le_largest (System.exec_final Market.sample_initial hmeets) 0⟩

/-- A request fits into the producer that its first round comes to. -/
def Market.requestFits (s : Market) : MarketAction → Bool
  | .place =>
      match s.placing with
      | some ⟨_, spotSize, allocated, e :: _⟩ => decide (spotSize - allocated ≤ e.availableSlabs)
      | _ => true
  | _ => true

/-- The producer harvests a second node and reports two, although one is assigned; a
request for two slabs fits into what the broker believes to be left. -/
def secondAssignment : List MarketAction :=
  firstAssignment ++ [.harvest 0 (2 ^ 33), .handle 0 0 zeroBrokerLocals [],
    .consumer 0 (.spotRequest 0 2 1) zeroBrokerLocals [sampleEntry 2], .place]

/-- Even when every request fits into one producer, three slabs are assigned out of the
two that the producer has. -/
theorem slabs_promised_twice :
    ¬ ∀ s tr, market.Exec (fun s a => s.requestFits a = true) s tr →
      ∀ p, s.assigned p ≤ s.largest p := by
  intro hall
  have hmeets : market.Meets (fun s a => s.requestFits a = true) Market.sample secondAssignment :=
    System.meets_of_check (fun _ _ h => h) (by decide +kernel)
  have hle := hall _ _ (System.exec_final Market.sample_initial hmeets) 0
  exact absurd hle (by decide +kernel)

end Memtrade.Server
