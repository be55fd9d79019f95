import Memtrade.Server.Producer

/-!
# Bounds of the producer's table

The parser indexes the table by the id fields of the text, the loop behind it by
every number below `consumer_count`. Both stay inside if and only if the id fields
do and at most two assignments are handled: the table has two entries more than the
counter counts at the start.
-/

namespace Memtrade.Server.Producer

open CText

/-- The index is one of `consumer_list[MAX_CONSUMER + 2]`. -/
def Inside (i : Int) : Prop := 0 ≤ i ∧ i < maxConsumer + 2

def AccessesInside (evs : List ProducerEvent) : Prop := ∀ i, .access i ∈ evs → Inside i

/-- The fields that the parser takes for ids, from token number `k` on. -/
def idFields : Nat → List Text → List Int
  | _, [] => []
  | k, tok :: toks =>
      if 2 ≤ k ∧ k % 4 = 1 then atoi tok :: idFields (k + 1) toks else idFields (k + 1) toks

/-- In every assignment that is handled, what is read as an id is one of the table. -/
def FieldsInside : Text → List Delivery → Prop
  | _, [] => True
  | buf, d :: ds =>
      let buf := memcpy buf (d.bytes .spotAssignmentProducer)
      (d.msg.isAssignment = true →
        ∀ id ∈ idFields 0 (portalTokens d.locals.junk (cstr buf)), Inside id) ∧
      FieldsInside buf ds

theorem accessesInside_append {evs evs' : List ProducerEvent} :
    AccessesInside (evs ++ evs') ↔ AccessesInside evs ∧ AccessesInside evs' := by
  unfold AccessesInside
  constructor
  · intro h
    exact ⟨fun i hi => h i (List.mem_append_left _ hi), fun i hi => h i (List.mem_append_right _ hi)⟩
  · rintro ⟨h, h'⟩ i hi
    rcases List.mem_append.mp hi with hi | hi
    · exact h i hi
    · exact h' i hi

/-! ## The parser -/

/-- An entry with slabs carries its own index. -/
def Indexed (p : Producer) : Prop :=
  ∀ i, Inside i → (p.consumerList i).nslabs ≠ 0 → (p.consumerList i).id = i

theorem Indexed.setPeer {r : Producer × List ProducerEvent} (h : r.1.Indexed) (id : Int)
    (addr : Text) (port size : Int) : (Producer.setPeer id addr port size r).1.Indexed := by
  intro i hi hne
  change (Function.update r.1.consumerList id _ i).nslabs ≠ 0 at hne
  show (Function.update r.1.consumerList id _ i).id = i
  by_cases hid : i = id
  · subst hid
    rw [Function.update_self]
    rfl
  · rw [Function.update_of_ne hid] at hne ⊢
    exact h i hi hne

/-- From the third token on, the loop accesses the id fields and nothing else. -/
theorem portalLoop_spec {k : Nat} (hk : 2 ≤ k) (toks : List Text)
    (l : Scan (Producer × List ProducerEvent)) (h : l.state.1.Indexed) :
    (portalLoop setCount setPeer k toks l).state.1.Indexed ∧
    (portalLoop setCount setPeer k toks l).state.1.consumerCount = l.state.1.consumerCount ∧
    (portalLoop setCount setPeer k toks l).state.1.buffer = l.state.1.buffer ∧
    (portalLoop setCount setPeer k toks l).state.2 =
      l.state.2 ++ (idFields k toks).map .access := by
  induction toks generalizing k l with
  | nil => exact ⟨h, rfl, rfl, by simp [idFields, portalLoop]⟩
  | cons tok toks ih =>
      have hk0 : k ≠ 0 := by omega
      have hk1 : k ≠ 1 := by omega
      unfold portalLoop idFields portalToken
      rw [if_neg hk0, if_neg hk1]
      by_cases h2 : k % 4 = 2
      · rw [if_pos h2, if_neg (by omega)]
        exact ih (by omega) _ h
      · rw [if_neg h2]
        by_cases h3 : k % 4 = 3
        · rw [if_pos h3, if_neg (by omega)]
          exact ih (by omega) _ h
        · rw [if_neg h3]
          by_cases h0 : k % 4 = 0
          · rw [if_pos h0, if_neg (by omega)]
            exact ih (by omega) _ h
          · rw [if_neg h0, if_pos (by omega)]
            have hset := h.setPeer (atoi tok) l.addr l.port l.size
            obtain ⟨hindexed, hcount, hbuf, hevs⟩ := ih (k := k + 1) (by omega)
              { l with state := Producer.setPeer (atoi tok) l.addr l.port l.size l.state } hset
            refine ⟨hindexed, hcount, hbuf, ?_⟩
            rw [hevs]
            simp [Producer.setPeer]

/-- An assignment makes the counter grow by one, and the parser accesses its id fields. -/
theorem portalParser_spec {p : Producer} (h : p.Indexed) (locals : Locals) (a : Assignment)
    (rest : Text) :
    (p.portalParser locals (a.text .spotAssignmentProducer ++ rest)).1.Indexed ∧
    (p.portalParser locals (a.text .spotAssignmentProducer ++ rest)).1.consumerCount =
      p.consumerCount + 1 ∧
    (p.portalParser locals (a.text .spotAssignmentProducer ++ rest)).1.buffer = p.buffer ∧
    (p.portalParser locals (a.text .spotAssignmentProducer ++ rest)).2 =
      (idFields 0 (portalTokens locals.junk (a.text .spotAssignmentProducer ++ rest))).map .access := by
  obtain ⟨toks, htoks⟩ := a.portalTokens_two .spotAssignmentProducer locals.junk rest
  have hone : atoi (decimal 1) = 1 := by decide
  unfold portalParser Server.portalParser
  rw [htoks]
  have hspec := portalLoop_spec (k := 2) (Nat.le_refl 2) toks
    ⟨locals.addr, locals.port, locals.size, setCount 1 (p, [])⟩ h
  have hloop : portalLoop setCount setPeer 0
      (decimal MsgType.spotAssignmentProducer.code :: decimal 1 :: toks)
      ⟨locals.addr, locals.port, locals.size, (p, [])⟩ =
      portalLoop setCount setPeer 2 toks
        ⟨locals.addr, locals.port, locals.size, setCount 1 (p, [])⟩ := by
    simp [portalLoop, portalToken, hone]
  rw [hloop]
  exact hspec

/-! ## The loop over the consumers -/

theorem mem_visit (p : Producer) (i : Int) : .access i ∈ (p.visit i).2 := by
  unfold visit
  split <;> simp

theorem mem_visits (p : Producer) {n i : Nat} (hi : i < n) : .access (i : Int) ∈ (p.visits n).2 := by
  induction n with
  | zero => omega
  | succ n ih =>
      unfold visits
      rcases Nat.lt_succ_iff_lt_or_eq.mp hi with hlt | rfl
      · exact List.mem_append_left _ (ih hlt)
      · exact List.mem_append_right _ (mem_visit _ _)

theorem runSpotManager_spec {p : Producer} (h : p.Indexed) {i : Int} (hi : Inside i) :
    (p.runSpotManager i).1.Indexed ∧ (p.runSpotManager i).1.consumerCount = p.consumerCount ∧
      (p.runSpotManager i).1.buffer = p.buffer ∧ AccessesInside (p.runSpotManager i).2 := by
  unfold runSpotManager
  split
  · refine ⟨h, rfl, rfl, ?_⟩
    intro j hj
    simp [sendProducerReadyMsg] at hj
    exact hj ▸ hi
  · refine ⟨?_, rfl, rfl, ?_⟩
    · intro j hj hne
      change (Function.update p.consumerList i _ j).nslabs ≠ 0 at hne
      show (Function.update p.consumerList i _ j).id = j
      by_cases hij : j = i
      · subst hij
        rw [Function.update_self] at hne ⊢
        exact h j hj hne
      · rw [Function.update_of_ne hij] at hne ⊢
        exact h j hj hne
    · intro j hj
      simp [sendProducerReadyMsg] at hj
      exact hj ▸ hi

theorem visit_spec {p : Producer} (h : p.Indexed) {i : Int} (hi : Inside i) :
    (p.visit i).1.Indexed ∧ (p.visit i).1.consumerCount = p.consumerCount ∧
      (p.visit i).1.buffer = p.buffer ∧ AccessesInside (p.visit i).2 := by
  unfold visit
  split
  · rename_i hne
    obtain ⟨hindexed, hcount, hbuf, hevs⟩ := runSpotManager_spec h hi
    rw [h i hi hne]
    refine ⟨hindexed, hcount, hbuf, ?_⟩
    intro j hj
    rcases List.mem_cons.mp hj with heq | hj
    · cases heq
      exact hi
    · exact hevs j hj
  · refine ⟨h, rfl, rfl, ?_⟩
    intro j hj
    cases List.mem_singleton.mp hj
    exact hi

theorem visits_spec {p : Producer} (h : p.Indexed) {n : Nat} (hn : (n : Int) ≤ maxConsumer + 2) :
    (p.visits n).1.Indexed ∧ (p.visits n).1.consumerCount = p.consumerCount ∧
      (p.visits n).1.buffer = p.buffer ∧ AccessesInside (p.visits n).2 := by
  induction n with
  | zero => exact ⟨h, rfl, rfl, by simp [visits, AccessesInside]⟩
  | succ n ih =>
      obtain ⟨hindexed, hcount, hbuf, hevs⟩ := ih (by omega)
      obtain ⟨hindexed', hcount', hbuf', hevs'⟩ :=
        visit_spec hindexed (i := (n : Int)) ⟨by omega, by omega⟩
      unfold visits
      exact ⟨hindexed', hcount'.trans hcount, hbuf'.trans hbuf,
        accessesInside_append.mpr ⟨hevs, hevs'⟩⟩

theorem visits_inside_iff {p : Producer} (h : p.Indexed) (n : Nat) :
    AccessesInside (p.visits n).2 ↔ (n : Int) ≤ maxConsumer + 2 := by
  constructor
  · intro hinside
    by_contra hgt
    have hlast : ((n - 1 : Nat) : Int) < maxConsumer + 2 :=
      (hinside _ (p.mem_visits (show n - 1 < n by simp only [maxConsumer] at hgt; omega))).2
    omega
  · intro hle
    exact (visits_spec h hle).2.2.2

theorem accessesInside_fields (ids : List Int) :
    AccessesInside (ids.map .access) ↔ ∀ id ∈ ids, Inside id := by
  simp [AccessesInside]

/-! ## Messages -/

theorem deliver_other {p : Producer} {d : Delivery} (hd : d.msg.isAssignment = false)
    (h : p.Indexed) :
    (p.deliver d).1.Indexed ∧ (p.deliver d).1.consumerCount = p.consumerCount ∧
      (p.deliver d).1.buffer = memcpy p.buffer (d.bytes .spotAssignmentProducer) ∧
      AccessesInside (p.deliver d).2 := by
  have hcomma : nul ≠ ',' := by decide
  unfold deliver receive Delivery.bytes
  cases hmsg : d.msg with
  | connectionAck =>
      simp only [BrokerMsg.bytes, cstr_terminated (nul_not_mem_decimal _)]
      unfold handleMessage
      rw [scanInts_last]
      exact ⟨h, rfl, rfl, by simp [AccessesInside, MsgType.code]⟩
  | registrationAck id =>
      have hstring : nul ∉ sep (decimal MsgType.registrationAck.code) ',' (decimal id) :=
        nul_not_mem_sep (nul_not_mem_decimal _) hcomma (nul_not_mem_decimal _)
      simp only [BrokerMsg.bytes, cstr_terminated hstring]
      unfold handleMessage
      rw [scanInts_sep]
      exact ⟨h, rfl, rfl, by simp [AccessesInside, MsgType.code]⟩
  | assignment a =>
      rw [hmsg] at hd
      cases hd
  | producerReady q k port =>
      simp only [BrokerMsg.bytes, cstr_terminated (nul_not_mem_recordMsg _ _ _ _)]
      unfold handleMessage
      rw [show scanInts 1 (recordMsg .producerReady q k port) = [MsgType.producerReady.code] from
        scanInts_sep 0 _ _]
      exact ⟨h, rfl, rfl, by simp [AccessesInside, MsgType.code]⟩

/-- The parser and the loop over the consumers, one after the other. -/
theorem handleMessage_assignment (p : Producer) (locals : Locals) (a : Assignment) (rest : Text) :
    let parsed := p.portalParser locals (a.text .spotAssignmentProducer ++ rest)
    p.handleMessage locals (a.text .spotAssignmentProducer ++ rest) =
      ((parsed.1.visits parsed.1.consumerCount.toNat).1,
        parsed.2 ++ (parsed.1.visits parsed.1.consumerCount.toNat).2) := by
  unfold handleMessage
  rw [a.scan_type]
  rfl

/-- An assignment stays inside the table if and only if its id fields and the counter
do. -/
theorem handleMessage_inside_iff {p : Producer} (h : p.Indexed) {n : Nat}
    (hcount : p.consumerCount = maxConsumer + n) (locals : Locals) (a : Assignment) (rest : Text) :
    AccessesInside (p.handleMessage locals (a.text .spotAssignmentProducer ++ rest)).2 ↔
      n + 1 ≤ 2 ∧ ∀ id ∈ idFields 0 (portalTokens locals.junk
        (a.text .spotAssignmentProducer ++ rest)), Inside id := by
  obtain ⟨hindexed, hcounted, -, hevs⟩ := portalParser_spec h locals a rest
  rw [handleMessage_assignment, accessesInside_append, hevs, accessesInside_fields,
    visits_inside_iff hindexed, hcounted, hcount, and_comm]
  simp only [maxConsumer]
  constructor
  · rintro ⟨hle, hfields⟩
    exact ⟨by omega, hfields⟩
  · rintro ⟨hle, hfields⟩
    exact ⟨by omega, hfields⟩

theorem handleMessage_spec {p : Producer} (h : p.Indexed) {n : Nat}
    (hcount : p.consumerCount = maxConsumer + n) (hn : n + 1 ≤ 2) (locals : Locals) (a : Assignment)
    (rest : Text) :
    (p.handleMessage locals (a.text .spotAssignmentProducer ++ rest)).1.Indexed ∧
    (p.handleMessage locals (a.text .spotAssignmentProducer ++ rest)).1.consumerCount =
      maxConsumer + (n + 1 : Nat) ∧
    (p.handleMessage locals (a.text .spotAssignmentProducer ++ rest)).1.buffer = p.buffer := by
  obtain ⟨hindexed, hcounted, hbuf, -⟩ := portalParser_spec h locals a rest
  rw [handleMessage_assignment]
  obtain ⟨hindexed', hcounted', hbuf', -⟩ := visits_spec hindexed
    (n := (p.portalParser locals (a.text .spotAssignmentProducer ++ rest)).1.consumerCount.toNat)
    (by rw [hcounted, hcount]; simp only [maxConsumer]; omega)
  refine ⟨hindexed', ?_, hbuf'.trans hbuf⟩
  rw [hcounted', hcounted, hcount]
  push_cast
  omega

/-- What an assignment does to the table, and when it stays inside. -/
theorem deliver_assignment {p : Producer} {d : Delivery} (hd : d.msg.isAssignment = true)
    (h : p.Indexed) {n : Nat} (hcount : p.consumerCount = maxConsumer + n) :
    (AccessesInside (p.deliver d).2 ↔
      n + 1 ≤ 2 ∧ ∀ id ∈ idFields 0 (portalTokens d.locals.junk
        (cstr (memcpy p.buffer (d.bytes .spotAssignmentProducer)))), Inside id) ∧
    (n + 1 ≤ 2 →
      (p.deliver d).1.Indexed ∧ (p.deliver d).1.consumerCount = maxConsumer + (n + 1 : Nat) ∧
        (p.deliver d).1.buffer = memcpy p.buffer (d.bytes .spotAssignmentProducer)) := by
  obtain ⟨a, hmsg⟩ : ∃ a, d.msg = .assignment a := by
    cases hm : d.msg with
    | assignment a => exact ⟨a, rfl⟩
    | connectionAck | registrationAck | producerReady =>
        rw [hm] at hd
        cases hd
  have hbytes : d.bytes .spotAssignmentProducer = a.text .spotAssignmentProducer ++ d.more := by
    simp [Delivery.bytes, hmsg, BrokerMsg.bytes]
  have htext : cstr (memcpy p.buffer (d.bytes .spotAssignmentProducer)) =
      a.text .spotAssignmentProducer ++
        cstr (d.more ++ p.buffer.drop (a.text .spotAssignmentProducer ++ d.more).length) := by
    rw [hbytes, a.cstr_bytes]
  unfold deliver receive
  simp only []
  generalize hp' : { p with buffer := memcpy p.buffer (d.bytes .spotAssignmentProducer) } = p'
  have hbuf : p'.buffer = memcpy p.buffer (d.bytes .spotAssignmentProducer) := by rw [← hp']
  have hindexed : p'.Indexed := by
    rw [← hp']
    exact h
  have hcounted : p'.consumerCount = maxConsumer + n := by
    rw [← hp']
    exact hcount
  rw [htext]
  refine ⟨handleMessage_inside_iff hindexed hcounted d.locals a _, ?_⟩
  intro hn
  rw [← hbuf]
  exact handleMessage_spec hindexed hcounted hn d.locals a _

/-! ## Runs -/

/-- From a state in which `n` assignments were handled, a run stays inside the table if
and only if there are at most two assignments in all and their id fields are inside. -/
theorem run_inside_iff {p : Producer} (h : p.Indexed) {n : Nat}
    (hcount : p.consumerCount = maxConsumer + n) (hn : n ≤ 2) (ds : List Delivery) :
    AccessesInside (p.run ds).2 ↔
      n + (ds.filter fun d => d.msg.isAssignment).length ≤ 2 ∧ FieldsInside p.buffer ds := by
  induction ds generalizing p n with
  | nil => simp [run, AccessesInside, FieldsInside, hn]
  | cons d ds ih =>
      rw [FieldsInside]
      show AccessesInside ((p.deliver d).2 ++ ((p.deliver d).1.run ds).2) ↔ _
      rw [accessesInside_append]
      cases hd : d.msg.isAssignment with
      | false =>
          obtain ⟨hindexed, hcounted, hbuf, hevs⟩ := deliver_other hd h
          rw [ih hindexed (hcounted.trans hcount) hn, hbuf]
          simp [hd, hevs]
      | true =>
          have hfilter : ((d :: ds).filter fun d => d.msg.isAssignment).length =
              (ds.filter fun d => d.msg.isAssignment).length + 1 := by
            simp [hd]
          obtain ⟨hinside, hspec⟩ := deliver_assignment hd h hcount
          rw [hfilter, hinside]
          by_cases hlast : n + 1 ≤ 2
          · obtain ⟨hindexed, hcounted, hbuf⟩ := hspec hlast
            rw [ih hindexed hcounted hlast, hbuf]
            constructor
            · rintro ⟨⟨-, hfields⟩, hle, hrest⟩
              exact ⟨by omega, fun _ => hfields, hrest⟩
            · rintro ⟨hle, hfields, hrest⟩
              exact ⟨⟨hlast, hfields rfl⟩, by omega, hrest⟩
          · constructor
            · rintro ⟨⟨hle, -⟩, -⟩
              exact absurd hle hlast
            · rintro ⟨hle, -⟩
              omega

theorem start_indexed (ip : Text) (port totalMemory : Int) (memory : PeerTable) :
    (start ip port totalMemory memory).Indexed := by
  intro i hi hne
  exfalso
  apply hne
  obtain ⟨hlo, hhi⟩ := hi
  unfold start
  simp only []
  by_cases hlt : i < maxConsumer
  · rw [if_pos ⟨hlo, hlt⟩]
  · rw [if_neg (fun h => hlt h.2), if_pos ⟨by omega, hhi⟩]

/-- For every sequence of messages after `init`: all indices into the table are inside
it if and only if at most two assignments are handled and every field that is read as
an id is inside the table. -/
theorem accessesInside_iff (ip : Text) (port totalMemory : Int) (memory : PeerTable)
    (ds : List Delivery) :
    AccessesInside ((start ip port totalMemory memory).run ds).2 ↔
      (ds.filter fun d => d.msg.isAssignment).length ≤ 2 ∧ FieldsInside [] ds := by
  have h := run_inside_iff (start_indexed ip port totalMemory memory) (n := 0)
    (by simp [start]) (by omega) ds
  rw [Nat.zero_add] at h
  exact h

/-! ## What the broker sends -/

/-- Every assignment names a consumer, and fewer than four tokens stand behind it in the
buffer and on the stack. -/
def NamesConsumers : Text → List Delivery → Prop
  | _, [] => True
  | buf, d :: ds =>
      (∀ a, d.msg = .assignment a → a.ip ≠ [] ∧ 0 ≤ a.id ∧ a.id < maxConsumer ∧
        (strayTokens (cstr (cstr (d.more ++
          buf.drop (d.bytes .spotAssignmentProducer).length) ++ d.locals.junk))).length < 4) ∧
      NamesConsumers (memcpy buf (d.bytes .spotAssignmentProducer)) ds

theorem idFields_assignment {a : Assignment} (hip : a.ip ≠ []) (junk rest : Text)
    (hfew : (strayTokens (cstr (rest ++ junk))).length < 4) :
    idFields 0 (portalTokens junk (a.text .spotAssignmentProducer ++ rest)) = [a.id] := by
  obtain ⟨last, hid, htoks⟩ := a.portalTokens_eq hip .spotAssignmentProducer junk rest
  have hstray : ∀ toks : List Text, toks.length < 4 → idFields 6 toks = [] := by
    intro toks hlen
    match toks, hlen with
    | [], _ => rfl
    | [_], _ => rfl
    | [_, _], _ => rfl
    | [_, _, _], _ => rfl
  rw [htoks]
  show atoi last :: idFields 6 (strayTokens (cstr (rest ++ junk))) = [a.id]
  rw [hstray _ hfew, hid]

theorem fieldsInside_of_namesConsumers {buf : Text} {ds : List Delivery}
    (h : NamesConsumers buf ds) : FieldsInside buf ds := by
  induction ds generalizing buf with
  | nil => trivial
  | cons d ds ih =>
      refine ⟨?_, ih h.2⟩
      intro hd id hid
      cases hmsg : d.msg with
      | connectionAck | registrationAck | producerReady =>
          rw [hmsg] at hd
          cases hd
      | assignment a =>
          obtain ⟨hip, hlo, hhi, hfew⟩ := h.1 a hmsg
          have hbytes : d.bytes .spotAssignmentProducer =
              a.text .spotAssignmentProducer ++ d.more := by
            simp [Delivery.bytes, hmsg, BrokerMsg.bytes]
          rw [hbytes] at hid hfew
          rw [a.cstr_bytes, idFields_assignment hip _ _ hfew, List.mem_singleton] at hid
          rw [hid]
          exact ⟨hlo, by omega⟩

theorem accessesInside_of_namesConsumers (ip : Text) (port totalMemory : Int) (memory : PeerTable)
    {ds : List Delivery} (h : NamesConsumers [] ds)
    (htwo : (ds.filter fun d => d.msg.isAssignment).length ≤ 2) :
    AccessesInside ((start ip port totalMemory memory).run ds).2 :=
  (run_inside_iff (start_indexed ip port totalMemory memory) (n := 0) (by simp [start]) (by omega)
    ds).mpr ⟨by omega, fieldsInside_of_namesConsumers h⟩

/-- Two slabs for consumer 1. -/
def sampleAssignment : Assignment where
  ip := "10.0.0.1".toList
  port := 9704
  size := 2
  id := 1
  ipFree := free_of_all (by decide)
  ipString := by decide

/-- The third assignment makes the loop read the entry behind the table. -/
theorem third_assignment_leaves_table :
    ¬ AccessesInside ((start "10.0.0.2".toList 9702 (2 ^ 34) fun _ => ⟨[], 0, 0, 0, 0, .stop⟩).run
      (List.replicate 3 ⟨.assignment sampleAssignment, [], ⟨[], [], 0, 0, 0, 0, 0, 0⟩⟩)).2 := by
  rw [run_inside_iff (start_indexed _ _ _ _) (n := 0) (by simp [start]) (by omega)]
  rintro ⟨hle, -⟩
  exact absurd hle (by decide)

end Memtrade.Server.Producer
