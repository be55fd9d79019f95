import Memtrade.Server.Market
import Mathlib.Data.List.Nodup

/-!
# Reports name registered producers

An entry that is registered carries its own index. The id travels from the broker
to the producer in an acknowledgement and comes back in every report, so an entry
that has slabs is registered, in every state of the market.
-/

namespace Memtrade.Server

open CText

/-- The entry carries its own index. -/
def Broker.Registered (b : Broker) (p : Int) : Prop := (b.producerList p).id = p

/-- What a producer writes. -/
inductive FromProducer (b : Broker) : Text → Prop where
  | registration (ip : Text) (port : Int) : FromProducer b (registrationMsg .producerReg ip port)
  | availability (p available total : Int) :
      b.Registered p → FromProducer b (recordMsg .producerAvailability p available total)
  | ready (p c port : Int) : FromProducer b (recordMsg .producerReady p c port)

/-- What the broker writes to a producer. -/
inductive ToProducer (b : Broker) : Text → Prop where
  | connectionAck (more : Text) :
      ToProducer b (BrokerMsg.connectionAck.bytes .spotAssignmentProducer more)
  | registrationAck (id : Int) (more : Text) : b.Registered id →
      ToProducer b ((BrokerMsg.registrationAck id).bytes .spotAssignmentProducer more)
  | other (type : MsgType) (rest : Text) : type ≠ .connectionAck → type ≠ .registrationAck →
      ToProducer b (sep (decimal type.code) ',' rest)

/-- A producer that reports does so under a registered id. -/
def Enrolled (b : Broker) (p : Producer) : Prop := p.status = .registered → b.Registered p.id

structure Known (s : Market) : Prop where
  slabs : ∀ i, (s.broker.producerList i).availableSlabs ≠ 0 → s.broker.Registered i
  producers : ∀ k, Enrolled s.broker (s.producers k)
  toBroker : ∀ k, ∀ msg ∈ s.toBroker k, FromProducer s.broker msg
  toProducer : ∀ k, ∀ bytes ∈ s.toProducer k, ToProducer s.broker bytes
  placing : ∀ pl, s.placing = some pl → ∀ e ∈ pl.rest, s.broker.Registered e.id

theorem FromProducer.mono {b b' : Broker} (hkeep : ∀ p, b.Registered p → b'.Registered p)
    {msg : Text} (h : FromProducer b msg) : FromProducer b' msg := by
  cases h with
  | registration ip port => exact .registration ip port
  | availability p available total hp => exact .availability p available total (hkeep p hp)
  | ready p c port => exact .ready p c port

theorem ToProducer.mono {b b' : Broker} (hkeep : ∀ p, b.Registered p → b'.Registered p)
    {bytes : Text} (h : ToProducer b bytes) : ToProducer b' bytes := by
  cases h with
  | connectionAck more => exact .connectionAck more
  | registrationAck id more hid => exact .registrationAck id more (hkeep id hid)
  | other type rest h0 h3 => exact .other type rest h0 h3

theorem Market.mem_written {evs : List BrokerEvent} {k : Nat} {bytes : Text} :
    bytes ∈ written evs k ↔ .sent (some (.producer k)) bytes ∈ evs := by
  unfold written
  rw [List.mem_filterMap]
  constructor
  · rintro ⟨ev, hev, heq⟩
    split at heq
    · split at heq
      · rename_i hk
        rw [← Option.some.inj heq, ← hk]
        exact hev
      · cases heq
    · cases heq
  · intro h
    exact ⟨_, h, by simp⟩

theorem Market.mem_messages {evs : List ProducerEvent} {msg : Text} :
    msg ∈ messages evs ↔ .sent msg ∈ evs := by
  unfold messages
  rw [List.mem_filterMap]
  constructor
  · rintro ⟨ev, hev, heq⟩
    split at heq
    · rw [← Option.some.inj heq]
      exact hev
    · cases heq
  · intro h
    exact ⟨_, h, rfl⟩

/-! ## Texts -/

theorem scanMessage_availability (locals : BrokerLocals) (p available total : Int) :
    scanMessage locals (recordMsg .producerAvailability p available total) =
      .producerAvailability p available total := by
  unfold scanMessage
  rw [scanInts_recordMsg]
  unfold recordMsg
  rw [scanInts_sep]
  rfl

theorem scanMessage_ready (locals : BrokerLocals) (p c port : Int) :
    scanMessage locals (recordMsg .producerReady p c port) = .producerReady p c port := by
  unfold scanMessage
  rw [scanInts_recordMsg]
  unfold recordMsg
  rw [scanInts_sep]
  rfl

theorem scanMessage_spotRequest (locals : BrokerLocals) (c size lease : Int) :
    scanMessage locals (recordMsg .spotRequest c size lease) = .spotRequest c size lease := by
  unfold scanMessage
  rw [scanInts_recordMsg]
  unfold recordMsg
  rw [scanInts_sep]
  rfl

theorem scanMessage_producerReg (locals : BrokerLocals) (ip : Text) (port : Int) :
    ∃ ip' port', scanMessage locals (registrationMsg .producerReg ip port) =
      .producerReg ip' port' := by
  unfold scanMessage registrationMsg
  rw [scanInts_sep 0]
  exact ⟨_, _, rfl⟩

theorem scanMessage_consumerReg (locals : BrokerLocals) (ip : Text) (port : Int) :
    ∃ ip' port', scanMessage locals (registrationMsg .consumerReg ip port) =
      .consumerReg ip' port' := by
  unfold scanMessage registrationMsg
  rw [scanInts_sep 0]
  exact ⟨_, _, rfl⟩

theorem FromProducer.registered {b : Broker} {msg : Text} (h : FromProducer b msg)
    {locals : BrokerLocals} {p v n : Int}
    (hscan : scanMessage locals msg = .producerAvailability p v n) : b.Registered p := by
  cases h with
  | registration ip port =>
      obtain ⟨ip', port', hreg⟩ := scanMessage_producerReg locals ip port
      rw [hreg] at hscan
      cases hscan
  | availability p' v' n' hp =>
      rw [scanMessage_availability] at hscan
      cases hscan
      exact hp
  | ready p' c port =>
      rw [scanMessage_ready] at hscan
      cases hscan

theorem FromProducer.scan_ne {b : Broker} {msg : Text} (h : FromProducer b msg)
    (locals : BrokerLocals) (ip : Text) (port : Int) :
    scanMessage locals msg ≠ .consumerReg ip port := by
  intro hscan
  cases h with
  | registration ip' port' =>
      obtain ⟨ip'', port'', hreg⟩ := scanMessage_producerReg locals ip' port'
      rw [hreg] at hscan
      cases hscan
  | availability p v n =>
      rw [scanMessage_availability] at hscan
      cases hscan
  | ready p c port' =>
      rw [scanMessage_ready] at hscan
      cases hscan

theorem ConsumerMsg.scan_ne (msg : ConsumerMsg) (locals : BrokerLocals) (p v n : Int) :
    scanMessage locals msg.text ≠ .producerAvailability p v n := by
  intro hscan
  cases msg with
  | registration ip port =>
      obtain ⟨ip', port', hreg⟩ := scanMessage_consumerReg locals ip port
      rw [text, hreg] at hscan
      cases hscan
  | spotRequest c size lease =>
      rw [text, scanMessage_spotRequest] at hscan
      cases hscan

/-! ## The producers -/

namespace Producer

/-- The id and the status stay, and what is written is for the broker. -/
structure Quiet (b : Broker) (p : Producer) (r : Producer × List ProducerEvent) : Prop where
  id : r.1.id = p.id
  status : r.1.status = p.status
  messages : ∀ msg, .sent msg ∈ r.2 → FromProducer b msg

theorem Quiet.enrolled {b : Broker} {p : Producer} {r : Producer × List ProducerEvent}
    (h : Quiet b p r) (hp : Enrolled b p) : Enrolled b r.1 := by
  intro hstatus
  rw [h.id]
  exact hp (h.status ▸ hstatus)

theorem Quiet.append {b : Broker} {p q : Producer} {evs : List ProducerEvent}
    {r : Producer × List ProducerEvent} (h : Quiet b p (q, evs)) (hr : Quiet b q r) :
    Quiet b p (r.1, evs ++ r.2) := by
  refine ⟨hr.id.trans h.id, hr.status.trans h.status, ?_⟩
  intro msg hmsg
  rcases List.mem_append.mp hmsg with hmsg | hmsg
  · exact h.messages msg hmsg
  · exact hr.messages msg hmsg

theorem quiet_report {b : Broker} {p q : Producer} (hp : Enrolled b p) (hid : q.id = p.id)
    (hstatus : q.status = p.status) : Quiet b p (q, q.report) := by
  refine ⟨hid, hstatus, ?_⟩
  intro msg hmsg
  unfold report at hmsg
  split at hmsg
  · rename_i hreg
    obtain rfl : msg = _ := ProducerEvent.sent.inj (List.mem_singleton.mp hmsg)
    apply FromProducer.availability
    rw [hid]
    exact hp (hstatus ▸ hreg)
  · cases hmsg

theorem quiet_harvestDecision {b : Broker} {p : Producer} (hp : Enrolled b p)
    (availableMemory : Int) : Quiet b p (p.harvestDecision availableMemory) := by
  unfold harvestDecision
  simp only []
  split
  · exact quiet_report hp rfl rfl
  · split
    · exact quiet_report hp rfl rfl
    · exact quiet_report hp rfl rfl

theorem quiet_portalParser (b : Broker) (p : Producer) (locals : Locals) (msg : Text) :
    Quiet b p (p.portalParser locals msg) := by
  apply portalParser_invariant (I := Quiet b p)
  · intro n r h
    exact ⟨h.id, h.status, h.messages⟩
  · intro id addr port size r h
    refine ⟨h.id, h.status, ?_⟩
    intro msg hmsg
    rcases List.mem_append.mp hmsg with hmsg | hmsg
    · exact h.messages msg hmsg
    · cases List.mem_singleton.mp hmsg
  · exact ⟨rfl, rfl, by simp⟩

theorem quiet_runSpotManager (b : Broker) (p : Producer) (consumerId : Int) :
    Quiet b p (p.runSpotManager consumerId) := by
  unfold runSpotManager
  split
  · refine ⟨rfl, rfl, ?_⟩
    intro msg hmsg
    simp only [List.mem_cons, reduceCtorEq, List.not_mem_nil, or_false, false_or] at hmsg
    rw [ProducerEvent.sent.inj hmsg]
    exact .ready _ _ _
  · refine ⟨rfl, rfl, ?_⟩
    intro msg hmsg
    simp only [List.mem_cons, reduceCtorEq, List.not_mem_nil, or_false, false_or] at hmsg
    rw [ProducerEvent.sent.inj hmsg]
    exact .ready _ _ _

theorem quiet_visit (b : Broker) (p : Producer) (i : Int) : Quiet b p (p.visit i) := by
  have haccess : Quiet b p (p, [.access i]) := ⟨rfl, rfl, by simp⟩
  unfold visit
  split
  · exact haccess.append (quiet_runSpotManager b p _)
  · exact haccess

theorem quiet_visits (b : Broker) (p : Producer) (n : Nat) : Quiet b p (p.visits n) := by
  induction n with
  | zero => exact ⟨rfl, rfl, by simp [visits]⟩
  | succ n ih => exact ih.append (quiet_visit b _ n)

theorem quiet_handleMessage (b : Broker) (p : Producer) (locals : Locals) {type : MsgType}
    (h0 : type ≠ .connectionAck) (h3 : type ≠ .registrationAck) (rest : Text) :
    Quiet b p (p.handleMessage locals (sep (decimal type.code) ',' rest)) := by
  have hnone : Quiet b p (p, []) := ⟨rfl, rfl, by simp⟩
  unfold handleMessage
  rw [scanInts_sep 0]
  cases type with
  | connectionAck => exact absurd rfl h0
  | registrationAck => exact absurd rfl h3
  | spotAssignmentProducer =>
      exact (quiet_portalParser b p locals _).append (quiet_visits b _ _)
  | producerReg | consumerReg | producerAvailability | spotRequest | spotAssignmentConsumer |
      producerReady => exact hnone

/-- What a producer makes of a write of the broker, whatever comes with it. -/
theorem receive_enrolled {b : Broker} {p : Producer} (hp : Enrolled b p) {bytes : Text}
    (hbytes : ToProducer b bytes) (tail : Text) (locals : Locals) :
    Enrolled b (p.receive locals (bytes ++ tail)).1 ∧
      ∀ msg, .sent msg ∈ (p.receive locals (bytes ++ tail)).2 → FromProducer b msg := by
  unfold receive
  simp only []
  generalize hp' : { p with buffer := memcpy p.buffer (bytes ++ tail) } = p'
  have henrolled : Enrolled b p' := by
    rw [← hp']
    exact hp
  cases hbytes with
  | connectionAck more =>
      have htext : cstr (memcpy p.buffer
          (BrokerMsg.connectionAck.bytes .spotAssignmentProducer more ++ tail)) =
          decimal MsgType.connectionAck.code := by
        rw [BrokerMsg.bytes, List.append_assoc, List.cons_append]
        exact cstr_terminated (nul_not_mem_decimal _) _ _
      rw [htext]
      unfold handleMessage
      rw [scanInts_last]
      refine ⟨?_, ?_⟩
      · intro hstatus
        cases hstatus
      · intro msg hmsg
        rw [ProducerEvent.sent.inj (List.mem_singleton.mp hmsg)]
        exact .registration _ _
  | registrationAck id more hid =>
      have htext : cstr (memcpy p.buffer
          ((BrokerMsg.registrationAck id).bytes .spotAssignmentProducer more ++ tail)) =
          sep (decimal MsgType.registrationAck.code) ',' (decimal id) := by
        have hstring : nul ∉ sep (decimal MsgType.registrationAck.code) ',' (decimal id) :=
          nul_not_mem_sep (nul_not_mem_decimal _) (by decide) (nul_not_mem_decimal _)
        rw [BrokerMsg.bytes, List.append_assoc, List.cons_append]
        exact cstr_terminated hstring _ _
      rw [htext]
      unfold handleMessage
      rw [scanInts_sep, scanInts_sep, scanInts_last]
      exact ⟨fun _ => hid, by simp [MsgType.code]⟩
  | other type rest h0 h3 =>
      have hstring : nul ∉ decimal type.code ++ [','] := by
        have hcomma : nul ≠ ',' := by decide
        simp [nul_not_mem_decimal, hcomma]
      have htext : ∃ rest', cstr (memcpy p.buffer (sep (decimal type.code) ',' rest ++ tail)) =
          sep (decimal type.code) ',' rest' := by
        unfold memcpy sep
        refine ⟨cstr (rest ++ tail ++ p.buffer.drop (decimal type.code ++ ',' :: rest ++ tail).length),
          ?_⟩
        have happend := cstr_append hstring
          (rest ++ tail ++ p.buffer.drop (decimal type.code ++ ',' :: rest ++ tail).length)
        simpa [List.append_assoc] using happend
      obtain ⟨rest', htext⟩ := htext
      rw [htext]
      have hquiet := quiet_handleMessage b p' locals h0 h3 rest'
      exact ⟨hquiet.enrolled henrolled, hquiet.messages⟩

end Producer

/-! ## The market -/

namespace Known

variable {s : Market}

theorem initial (h : s.Initial) : Known s := by
  refine ⟨?_, ?_, ?_, ?_, ?_⟩
  · intro i hne
    rw [h.broker] at hne
    exact absurd rfl hne
  · intro k hstatus
    obtain ⟨ip, port, totalMemory, memory, hstart⟩ := h.producers k
    rw [hstart] at hstatus
    cases hstatus
  · intro k msg hmsg
    rw [h.toBroker k] at hmsg
    cases hmsg
  · intro k bytes hbytes
    rw [h.toProducer k] at hbytes
    cases hbytes
  · intro pl hpl
    rw [h.placing] at hpl
    cases hpl

/-- The broker may change its tables as long as registrations and their slabs stay known. -/
theorem brokerStep (h : Known s) {r : Broker × List BrokerEvent}
    (hkeep : ∀ p, s.broker.Registered p → r.1.Registered p)
    (hslabs : ∀ i, (r.1.producerList i).availableSlabs ≠ 0 → r.1.Registered i)
    (hwrites : ∀ k bytes, .sent (some (.producer k)) bytes ∈ r.2 → ToProducer r.1 bytes) :
    Known (s.brokerStep r).1 := by
  refine ⟨hslabs, ?_, ?_, ?_, ?_⟩
  · intro k hstatus
    exact hkeep _ (h.producers k hstatus)
  · intro k msg hmsg
    exact (h.toBroker k msg hmsg).mono hkeep
  · intro k bytes hbytes
    rcases List.mem_append.mp hbytes with hbytes | hbytes
    · exact (h.toProducer k bytes hbytes).mono hkeep
    · exact hwrites k bytes (Market.mem_written.mp hbytes)
  · intro pl hpl e he
    exact hkeep _ (h.placing pl hpl e he)

theorem producerStep (h : Known s) {k : Nat} {r : Producer × List ProducerEvent}
    (hr : Enrolled s.broker r.1) (hsent : ∀ msg, .sent msg ∈ r.2 → FromProducer s.broker msg) :
    Known (s.producerStep k r) := by
  refine ⟨h.slabs, ?_, ?_, h.toProducer, h.placing⟩
  · intro j
    show Enrolled s.broker (Function.update s.producers k r.1 j)
    by_cases hj : j = k
    · subst hj
      rw [Function.update_self]
      exact hr
    · rw [Function.update_of_ne hj]
      exact h.producers j
  · intro j msg hmsg
    change msg ∈ Function.update s.toBroker k (s.toBroker k ++ Market.messages r.2) j at hmsg
    show FromProducer s.broker msg
    by_cases hj : j = k
    · subst hj
      rw [Function.update_self] at hmsg
      rcases List.mem_append.mp hmsg with hmsg | hmsg
      · exact h.toBroker j msg hmsg
      · exact hsent msg (Market.mem_messages.mp hmsg)
    · rw [Function.update_of_ne hj] at hmsg
      exact h.toBroker j msg hmsg

theorem drop (h : Known s) {toBroker toProducer : Nat → List Text}
    (hb : ∀ k, ∀ msg ∈ toBroker k, msg ∈ s.toBroker k)
    (hp : ∀ k, ∀ bytes ∈ toProducer k, bytes ∈ s.toProducer k) :
    Known { s with toBroker := toBroker, toProducer := toProducer } :=
  ⟨h.slabs, h.producers, fun k msg hmsg => h.toBroker k msg (hb k msg hmsg),
    fun k bytes hbytes => h.toProducer k bytes (hp k bytes hbytes), h.placing⟩

theorem place (h : Known s) (placing : Option Placement) (assigned : Int → Int)
    (hplacing : ∀ pl, placing = some pl → ∀ e ∈ pl.rest, s.broker.Registered e.id) :
    Known { s with placing := placing, assigned := assigned } :=
  ⟨h.slabs, h.producers, h.toBroker, h.toProducer, hplacing⟩

end Known

theorem mem_of_mem_update {q : Nat → List Text} {k : Nat} {head : Text} {rest : List Text}
    (hq : q k = head :: rest) (n j : Nat) :
    ∀ msg ∈ Function.update q k (rest.drop n) j, msg ∈ q j := by
  intro msg hmsg
  by_cases hj : j = k
  · subst hj
    rw [Function.update_self] at hmsg
    rw [hq]
    exact List.mem_cons_of_mem head (List.mem_of_mem_drop hmsg)
  · rw [Function.update_of_ne hj] at hmsg
    exact hmsg

namespace Broker

variable {b : Broker}

theorem registered_registerProducer (ip : Text) (port : Int) (sock : Sock) (more : Text) (p : Int)
    (h : b.Registered p ∨ p = b.producerId) :
    (b.registerProducer ip port sock more).1.Registered p := by
  show (Function.update b.producerList b.producerId _ p).id = p
  by_cases hp : p = b.producerId
  · subst hp
    rw [Function.update_self]
  · rw [Function.update_of_ne hp]
    exact h.resolve_right hp

theorem registered_update (b : Broker) {b' : Broker} {i : Int} {e : ProducerEntry}
    (hlist : b'.producerList = Function.update b.producerList i e)
    (he : e.id = (b.producerList i).id) (p : Int) : b'.Registered p ↔ b.Registered p := by
  unfold Registered
  rw [hlist]
  by_cases hp : p = i
  · subst hp
    rw [Function.update_self, he]
  · rw [Function.update_of_ne hp]

theorem mem_candidates {e : ProducerEntry} (h : e ∈ b.candidates) :
    e.availableSlabs ≠ 0 ∧ ∃ i : Nat, e = b.producerList i := by
  unfold candidates at h
  rw [List.mem_filter, List.mem_map] at h
  obtain ⟨⟨i, -, he⟩, hne⟩ := h
  exact ⟨of_decide_eq_true hne, i, he.symm⟩

theorem distinct_candidates
    (h : ∀ i, (b.producerList i).availableSlabs ≠ 0 → b.Registered i) :
    (b.candidates.map ProducerEntry.id).Nodup := by
  unfold candidates
  rw [List.filter_map, List.map_map]
  have hids : ((List.range maxProducer).filter
      ((fun e => decide (e.availableSlabs ≠ 0)) ∘ fun i : Nat => b.producerList i)).map
        (ProducerEntry.id ∘ fun i : Nat => b.producerList i) =
      ((List.range maxProducer).filter
        ((fun e => decide (e.availableSlabs ≠ 0)) ∘ fun i : Nat => b.producerList i)).map
          (fun i : Nat => (i : Int)) := by
    apply List.map_congr_left
    intro i hi
    exact h i (of_decide_eq_true (List.mem_filter.mp hi).2)
  rw [hids]
  apply List.Nodup.map
  · exact Nat.cast_injective
  · exact List.Nodup.filter _ List.nodup_range

end Broker

namespace Known

variable {s : Market}

theorem write (h : Known s) {ev : BrokerEvent}
    (hev : ∀ k bytes, ev = .sent (some (.producer k)) bytes → ToProducer s.broker bytes) :
    Known (s.brokerStep (s.broker, [ev])).1 := by
  apply h.brokerStep (fun _ hp => hp) h.slabs
  intro k bytes hmem
  exact hev k bytes (List.mem_singleton.mp hmem).symm

theorem registerProducer (h : Known s) (ip : Text) (port : Int) (sock : Sock) (more : Text) :
    Known (s.brokerStep (s.broker.registerProducer ip port sock more)).1 := by
  have hkeep : ∀ p, s.broker.Registered p →
      (s.broker.registerProducer ip port sock more).1.Registered p := by
    intro p hp
    exact Broker.registered_registerProducer ip port sock more p (.inl hp)
  apply h.brokerStep hkeep
  · intro i hne
    change (Function.update s.broker.producerList s.broker.producerId _ i).availableSlabs ≠ 0 at hne
    by_cases hi : i = s.broker.producerId
    · exact Broker.registered_registerProducer ip port sock more i (.inr hi)
    · rw [Function.update_of_ne hi] at hne
      exact hkeep i (h.slabs i hne)
  · intro k bytes hmem
    have hev := List.mem_singleton.mp hmem
    rw [(BrokerEvent.sent.inj hev).2]
    apply ToProducer.registrationAck
    exact Broker.registered_registerProducer ip port sock more _ (.inr rfl)

theorem registerConsumer (h : Known s) (ip : Text) (port : Int) (k : Nat) (more : Text) :
    Known (s.brokerStep (s.broker.registerConsumer ip port (.consumer k) more)).1 := by
  apply h.brokerStep
  · exact fun _ hp => hp
  · exact h.slabs
  · intro j bytes hmem
    cases List.mem_singleton.mp hmem

theorem setAvailability (h : Known s) {p : Int} (hp : s.broker.Registered p) (v n : Int)
    (largest : Int → Int) :
    Known { s with broker := s.broker.setAvailability p v n, largest := largest } := by
  have hkeep : ∀ q, (s.broker.setAvailability p v n).Registered q ↔ s.broker.Registered q :=
    Broker.registered_update s.broker rfl rfl
  refine ⟨?_, ?_, ?_, ?_, ?_⟩
  · intro i hne
    rw [hkeep]
    change (Function.update s.broker.producerList p _ i).availableSlabs ≠ 0 at hne
    by_cases hi : i = p
    · rw [hi]
      exact hp
    · rw [Function.update_of_ne hi] at hne
      exact h.slabs i hne
  · intro k hstatus
    exact (hkeep _).mpr (h.producers k hstatus)
  · intro k msg hmsg
    exact (h.toBroker k msg hmsg).mono fun q => (hkeep q).mpr
  · intro k bytes hbytes
    exact (h.toProducer k bytes hbytes).mono fun q => (hkeep q).mpr
  · intro pl hpl e he
    exact (hkeep _).mpr (h.placing pl hpl e he)

theorem assign (h : Known s) (consumerId : Int) {e : ProducerEntry}
    (he : s.broker.Registered e.id) (pAlloc : Int) :
    Known (s.brokerStep (s.broker.assign consumerId e pAlloc)).1 := by
  have hkeep : ∀ q, (s.broker.assign consumerId e pAlloc).1.Registered q ↔ s.broker.Registered q :=
    Broker.registered_update s.broker rfl rfl
  apply h.brokerStep fun q => (hkeep q).mpr
  · intro i hne
    rw [hkeep]
    change (Function.update s.broker.producerList e.id _ i).availableSlabs ≠ 0 at hne
    by_cases hi : i = e.id
    · rw [hi]
      exact he
    · rw [Function.update_of_ne hi] at hne
      exact h.slabs i hne
  · intro k bytes hmem
    unfold Broker.assign at hmem
    simp only [List.mem_cons, reduceCtorEq, List.not_mem_nil, or_false, false_or,
      BrokerEvent.sent.injEq] at hmem
    rcases hmem with ⟨-, rfl⟩ | ⟨-, rfl⟩
    · exact .other _ _ (by decide) (by decide)
    · exact .other _ _ (by decide) (by decide)

theorem dispatch (h : Known s) {sock : Sock} {more : Text} {order : List ProducerEntry}
    {m : ClientMsg} (hreport : ∀ p v n, m = .producerAvailability p v n → s.broker.Registered p)
    (hconsumer : ∀ ip port, m = .consumerReg ip port → ∃ k, sock = .consumer k)
    {r : Market × List BrokerEvent} (hs : s.dispatch sock more order m = some r) : Known r.1 := by
  cases m with
  | producerReg ip port =>
      cases hs
      exact h.registerProducer ip port sock more
  | consumerReg ip port =>
      obtain ⟨k, rfl⟩ := hconsumer ip port rfl
      cases hs
      exact h.registerConsumer ip port k more
  | producerAvailability p v n =>
      cases hs
      exact h.setAvailability (hreport p v n rfl) v n _
  | spotRequest c size lease =>
      simp only [Market.dispatch] at hs
      split at hs
      · rename_i hguard
        cases hs
        apply h.place
        intro pl hpl e he
        cases hpl
        obtain ⟨hne, i, hi⟩ := Broker.mem_candidates (hguard.2.mem_iff.mp he)
        have hreg : s.broker.Registered i := h.slabs i (hi ▸ hne)
        have hid : e.id = i := by rw [hi]; exact hreg
        rw [hid]
        exact hreg
      · cases hs
  | producerReady p c port =>
      cases hs
      apply h.write
      intro k bytes hev
      rw [(BrokerEvent.sent.inj hev).2.symm]
      show ToProducer s.broker (recordMsg .producerReady p c port ++ nul :: more)
      unfold recordMsg sep
      rw [List.append_assoc, List.cons_append]
      exact .other .producerReady _ (by decide) (by decide)
  | unknown =>
      cases hs
      exact h

theorem placeOne (h : Known s) {pl : Placement} {e : ProducerEntry} {rest : List ProducerEntry}
    (hpl : s.placing = some pl) (hcopy : pl.rest = e :: rest) :
    Known (s.placeOne pl e rest).1 := by
  have he : s.broker.Registered e.id := by
    apply h.placing pl hpl
    rw [hcopy]
    exact List.mem_cons_self
  have hrest : ∀ x ∈ rest, s.broker.Registered x.id := by
    intro x hx
    apply h.placing pl hpl
    rw [hcopy]
    exact List.mem_cons_of_mem e hx
  unfold Market.placeOne
  split
  · apply h.place
    intro pl' hpl' x hx
    cases hpl'
    exact hrest x hx
  · rename_i pAlloc _
    have hplaced := h.place (some { pl with allocated := pl.allocated + pAlloc, rest := rest })
      (Function.update s.assigned e.id (s.assigned e.id + pAlloc)) (by
        intro pl' hpl' x hx
        cases hpl'
        exact hrest x hx)
    exact hplaced.assign pl.consumerId he pAlloc

theorem step (h : Known s) {a : MarketAction} {s' : Market} {evs : List BrokerEvent}
    (hs : s.step a = some (s', evs)) : Known s' := by
  cases a with
  | accept k more =>
      cases hs
      apply h.write
      intro j bytes hev
      rw [(BrokerEvent.sent.inj hev).2.symm]
      exact .connectionAck more
  | harvest k availableMemory =>
      cases hs
      have hquiet := Producer.quiet_harvestDecision (h.producers k) availableMemory
      exact h.producerStep (hquiet.enrolled (h.producers k)) hquiet.messages
  | receive k n locals =>
      simp only [Market.step] at hs
      split at hs
      · cases hs
      · rename_i bytes rest hq
        cases hs
        have hdrop := h.drop (fun _ _ hmsg => hmsg) (mem_of_mem_update hq n)
        have hbytes : ToProducer s.broker bytes := h.toProducer k bytes (by rw [hq]; simp)
        obtain ⟨henrolled, hsent⟩ := Producer.receive_enrolled (h.producers k) hbytes
          (rest.take n).flatten locals
        exact hdrop.producerStep henrolled hsent
  | handle k n locals order =>
      simp only [Market.step] at hs
      split at hs
      · cases hs
      · rename_i msg rest hq
        have hdrop := h.drop (mem_of_mem_update hq n) (fun _ _ hbytes => hbytes)
        have hmsg : FromProducer s.broker msg := h.toBroker k msg (by rw [hq]; simp)
        refine hdrop.dispatch ?_ ?_ hs
        · intro p v total hscan
          exact hmsg.registered hscan
        · intro ip port hscan
          exact absurd hscan (hmsg.scan_ne locals ip port)
  | consumer k msg locals order =>
      refine h.dispatch ?_ (fun _ _ _ => ⟨k, rfl⟩) hs
      intro p v n hscan
      exact absurd hscan (msg.scan_ne locals p v n)
  | place =>
      simp only [Market.step] at hs
      split at hs
      · rename_i hpl
        split at hs
        · have hplaced := h.placeOne hpl rfl
          rw [Option.some.inj hs] at hplaced
          exact hplaced
        · cases hs
      · cases hs
  | unlock =>
      simp only [Market.step] at hs
      split at hs
      · split at hs
        · cases hs
          apply h.place
          intro pl hpl
          cases hpl
        · cases hs
      · cases hs

end Known

end Memtrade.Server
