import Memtrade.Server.Consumer
import Memtrade.Server.Producer

/-!
# Assignments over a byte stream

The broker writes assignments without a terminator, the transport may hand several
of them to one `recv`, and the client reads its buffer as one string, whose end may
be that of an older message. An assignment is recorded as it was sent when it comes
alone, little stands behind it, the arrays that its address is copied into end where it
ends, and the slabs of the peer stay within an `int`.
-/

namespace Memtrade.Server

open CText

/-- One result of `recv`: whole assignments, and the locals of the call that handles
them. -/
structure Batch where
  msgs : List Assignment
  locals : Locals

def Batch.bytes (type : MsgType) (b : Batch) : Text := (b.msgs.map (Assignment.text type)).flatten

def sent (bs : List Batch) : List Assignment := bs.flatMap Batch.msgs

theorem sent_nil : sent [] = [] := rfl

theorem sent_cons (b : Batch) (bs : List Batch) : sent (b :: bs) = b.msgs ++ sent bs := rfl

def sentTo (id : Int) (msgs : List Assignment) : List Assignment := msgs.filter fun a => a.id = id

/-- The table has what was sent: the sizes for an id are added up, and the last message
for it gives its address. -/
structure Recorded (before after : PeerTable) (msgs : List Assignment) : Prop where
  nslabs : ∀ id, (after id).nslabs =
    (before id).nslabs + ((sentTo id msgs).map Assignment.size).sum
  address : ∀ id a, (sentTo id msgs).getLast? = some a →
    cstr (after id).ip = a.ip ∧ (after id).port = a.port

/-- The condition on one result of `recv`, the buffer and the table before it. -/
def Clean (type : MsgType) (buffer : Text) (table : PeerTable) (b : Batch) : Prop :=
  ∃ a, b.msgs = [a] ∧ a.ip ≠ [] ∧
    (strayTokens (cstr (cstr (buffer.drop (a.text type).length) ++ b.locals.junk))).length < 4 ∧
    cstr (b.locals.addr.drop a.ip.length) = [] ∧
    cstr ((table a.id).ip.drop a.ip.length) = [] ∧
    InInt ((table a.id).nslabs + a.size)

/-- The entry has the same address and slabs. -/
def SameRecord (p q : PeerInfo) : Prop := q.ip = p.ip ∧ q.port = p.port ∧ q.nslabs = p.nslabs

theorem SameRecord.refl (p : PeerInfo) : SameRecord p p := ⟨rfl, rfl, rfl⟩

theorem SameRecord.trans {p q r : PeerInfo} (h : SameRecord p q) (h' : SameRecord q r) :
    SameRecord p r :=
  ⟨h'.1.trans h.1, h'.2.1.trans h.2.1, h'.2.2.trans h.2.2⟩

theorem sameRecord_update {table : PeerTable} {i : Int} {q : PeerInfo} (h : SameRecord (table i) q)
    (j : Int) : SameRecord (table j) (Function.update table i q j) := by
  by_cases hj : j = i
  · subst hj
    rw [Function.update_self]
    exact h
  · rw [Function.update_of_ne hj]
    exact .refl _

theorem recorded_nil (table : PeerTable) : Recorded table table [] :=
  ⟨by simp [sentTo], by simp [sentTo]⟩

theorem Recorded.assign {before table after : PeerTable} {msgs : List Assignment}
    (h : Recorded before table msgs) {a : Assignment} {addr : Text}
    (haddr : cstr (addr.drop a.ip.length) = [])
    (hfield : cstr ((table a.id).ip.drop a.ip.length) = [])
    (hslabs : InInt ((table a.id).nslabs + a.size))
    (hafter : ∀ i, SameRecord (setPeer a.id (memcpy addr a.ip) a.port a.size table i) (after i)) :
    Recorded before after (msgs ++ [a]) := by
  have hcopied : cstr (memcpy addr a.ip) = a.ip := by
    unfold memcpy
    rw [cstr_append a.ipString, haddr, List.append_nil]
  have hother : ∀ i, i ≠ a.id → setPeer a.id (memcpy addr a.ip) a.port a.size table i = table i := by
    intro i hi
    exact Function.update_of_ne hi _ _
  have hself : setPeer a.id (memcpy addr a.ip) a.port a.size table a.id =
      (table a.id).assign a.id (memcpy addr a.ip) a.port a.size := Function.update_self _ _ _
  have hsent : ∀ i, sentTo i (msgs ++ [a]) =
      if a.id = i then sentTo i msgs ++ [a] else sentTo i msgs := by
    intro i
    by_cases hi : a.id = i <;> simp [sentTo, hi]
  refine ⟨?_, ?_⟩
  · intro i
    rw [(hafter i).2.2, hsent]
    by_cases hi : a.id = i
    · subst hi
      rw [if_pos rfl, hself]
      show wrapInt ((table a.id).nslabs + a.size) = _
      rw [wrapInt_of_inInt hslabs, h.nslabs]
      simp [Int.add_assoc]
    · rw [if_neg hi, hother i (fun heq => hi heq.symm)]
      exact h.nslabs i
  · intro i b hb
    rw [(hafter i).1, (hafter i).2.1]
    rw [hsent] at hb
    by_cases hi : a.id = i
    · subst hi
      rw [if_pos rfl] at hb
      have hba : b = a := by simpa using hb.symm
      rw [hself, hba]
      refine ⟨?_, rfl⟩
      show cstr (memcpy (table a.id).ip (cstr (memcpy addr a.ip))) = a.ip
      rw [hcopied]
      unfold memcpy
      rw [cstr_append a.ipString, hfield, List.append_nil]
    · rw [if_neg hi] at hb
      rw [hother i (fun heq => hi heq.symm)]
      exact h.address i b hb

/-! ## Receiving -/

/-- A peer as the stream sees it; `type` is that of the assignments to it. -/
structure Receiver (σ : Type) where
  type : MsgType
  buffer : σ → Text
  table : σ → PeerTable
  receive : σ → Locals → Text → σ

namespace Receiver

variable {σ : Type} (R : Receiver σ)

def receiveAll (s : σ) : List Batch → σ
  | [] => s
  | b :: bs => receiveAll (R.receive s b.locals (b.bytes R.type)) bs

/-- Every result of `recv` in the run is clean when it comes. -/
def CleanRun (s : σ) : List Batch → Prop
  | [] => True
  | b :: bs =>
      Clean R.type (R.buffer s) (R.table s) b ∧
        CleanRun (R.receive s b.locals (b.bytes R.type)) bs

/-- An assignment that comes alone, with little behind it, goes into the table as one
entry. -/
def RecordsAlone : Prop :=
  ∀ (s : σ) (locals : Locals) (a : Assignment), a.ip ≠ [] →
    (strayTokens (cstr (cstr ((R.buffer s).drop (a.text R.type).length) ++ locals.junk))).length < 4 →
    ∀ i, SameRecord (setPeer a.id (memcpy locals.addr a.ip) a.port a.size (R.table s) i)
      (R.table (R.receive s locals (a.text R.type)) i)

variable {R}

theorem recorded_receive (hR : R.RecordsAlone) {before : PeerTable} {msgs : List Assignment} {s : σ}
    (h : Recorded before (R.table s) msgs) {b : Batch}
    (hclean : Clean R.type (R.buffer s) (R.table s) b) :
    Recorded before (R.table (R.receive s b.locals (b.bytes R.type))) (msgs ++ b.msgs) := by
  obtain ⟨a, hb, hip, hfew, haddr, hfield, hslabs⟩ := hclean
  have hbytes : b.bytes R.type = a.text R.type := by simp [Batch.bytes, hb]
  rw [hb, hbytes]
  apply h.assign haddr hfield hslabs
  exact hR s b.locals a hip hfew

theorem recorded_receiveAll (hR : R.RecordsAlone) {before : PeerTable} {msgs : List Assignment}
    {s : σ} (h : Recorded before (R.table s) msgs) {bs : List Batch} (hclean : R.CleanRun s bs) :
    Recorded before (R.table (R.receiveAll s bs)) (msgs ++ sent bs) := by
  induction bs generalizing s msgs with
  | nil =>
      rw [sent_nil, List.append_nil]
      exact h
  | cons b bs ih =>
      rw [sent_cons, ← List.append_assoc]
      exact ih (recorded_receive hR h hclean.1) hclean.2

end Receiver

/-! ## Consumers -/

namespace Consumer

def receiver : Receiver Consumer where
  type := .spotAssignmentConsumer
  buffer := buffer
  table := producerList
  receive := fun c locals data => (c.receive locals data).1

theorem sameRecord_onProducerReady (c : Consumer) (locals : Locals) (msg : Text) (i : Int) :
    SameRecord (c.producerList i) ((c.onProducerReady locals msg).1.producerList i) := by
  unfold onProducerReady
  apply sameRecord_update
  exact ⟨rfl, rfl, rfl⟩

theorem handleMessage_alone (c : Consumer) (locals : Locals) {a : Assignment} (hip : a.ip ≠ [])
    {rest : Text} (hfew : (strayTokens (cstr (rest ++ locals.junk))).length < 4) (i : Int) :
    SameRecord (setPeer a.id (memcpy locals.addr a.ip) a.port a.size c.producerList i)
      ((c.handleMessage locals (a.text .spotAssignmentConsumer ++ rest)).1.producerList i) := by
  have hparsed : portalParser locals (a.text .spotAssignmentConsumer ++ rest) c.producerList =
      setPeer a.id (memcpy locals.addr a.ip) a.port a.size c.producerList :=
    a.portalParser_eq hip .spotAssignmentConsumer locals rest c.producerList hfew
  unfold handleMessage
  rw [a.scan_type, ← hparsed]
  exact sameRecord_onProducerReady { c with
    producerList := portalParser locals (a.text .spotAssignmentConsumer ++ rest) c.producerList }
    locals (a.text .spotAssignmentConsumer ++ rest) i

theorem recordsAlone : receiver.RecordsAlone := by
  intro c locals a hip hfew i
  have htable : ∀ c' : Consumer, c'.producerList = c.producerList →
      SameRecord (setPeer a.id (memcpy locals.addr a.ip) a.port a.size c.producerList i)
        ((c'.handleMessage locals (a.text .spotAssignmentConsumer ++
          cstr (c.buffer.drop (a.text .spotAssignmentConsumer).length))).1.producerList i) := by
    intro c' hc'
    rw [← hc']
    exact handleMessage_alone c' locals hip hfew i
  simp only [receiver, receive, a.cstr_alone]
  exact htable _ rfl

end Consumer

/-! ## Producers -/

namespace Producer

def receiver : Receiver Producer where
  type := .spotAssignmentProducer
  buffer := buffer
  table := consumerList
  receive := fun p locals data => (p.receive locals data).1

theorem sameRecord_runSpotManager (p : Producer) (id i : Int) :
    SameRecord (p.consumerList i) ((p.runSpotManager id).1.consumerList i) := by
  unfold runSpotManager
  split
  · exact .refl _
  · apply sameRecord_update
    exact ⟨rfl, rfl, rfl⟩

theorem sameRecord_visits (p : Producer) (n : Nat) (i : Int) :
    SameRecord (p.consumerList i) ((p.visits n).1.consumerList i) := by
  induction n with
  | zero => exact .refl _
  | succ n ih =>
      apply ih.trans
      show SameRecord _ (((p.visits n).1.visit n).1.consumerList i)
      unfold visit
      split
      · exact sameRecord_runSpotManager _ _ _
      · exact .refl _

theorem handleMessage_alone (p : Producer) (locals : Locals) {a : Assignment} (hip : a.ip ≠ [])
    {rest : Text} (hfew : (strayTokens (cstr (rest ++ locals.junk))).length < 4) (i : Int) :
    SameRecord (Server.setPeer a.id (memcpy locals.addr a.ip) a.port a.size p.consumerList i)
      ((p.handleMessage locals (a.text .spotAssignmentProducer ++ rest)).1.consumerList i) := by
  have hparsed : p.portalParser locals (a.text .spotAssignmentProducer ++ rest) =
      setPeer a.id (memcpy locals.addr a.ip) a.port a.size (setCount 1 (p, [])) :=
    a.portalParser_eq hip .spotAssignmentProducer locals rest (p, []) hfew
  unfold handleMessage
  rw [a.scan_type]
  show SameRecord _ (((p.portalParser locals (a.text .spotAssignmentProducer ++ rest)).1.visits
    _).1.consumerList i)
  rw [hparsed]
  exact sameRecord_visits _ _ i

theorem recordsAlone : receiver.RecordsAlone := by
  intro p locals a hip hfew i
  have htable : ∀ p' : Producer, p'.consumerList = p.consumerList →
      SameRecord (Server.setPeer a.id (memcpy locals.addr a.ip) a.port a.size p.consumerList i)
        ((p'.handleMessage locals (a.text .spotAssignmentProducer ++
          cstr (p.buffer.drop (a.text .spotAssignmentProducer).length))).1.consumerList i) := by
    intro p' hp'
    rw [← hp']
    exact handleMessage_alone p' locals hip hfew i
  simp only [receiver, receive, a.cstr_alone]
  exact htable _ rfl

end Producer

/-! ## Runs -/

/-- A peer that assignments are written to. -/
inductive Client where
  | consumer (c : Consumer)
  | producer (p : Producer)

namespace Client

/-- The table of the peers that have been assigned to it. -/
def table : Client → PeerTable
  | .consumer c => c.producerList
  | .producer p => p.consumerList

def receiveAll (bs : List Batch) : Client → Client
  | .consumer c => .consumer (Consumer.receiver.receiveAll c bs)
  | .producer p => .producer (Producer.receiver.receiveAll p bs)

def CleanRun (bs : List Batch) : Client → Prop
  | .consumer c => Consumer.receiver.CleanRun c bs
  | .producer p => Producer.receiver.CleanRun p bs

end Client

/-- For every peer, every sequence of assignments to it and every way in which they are
received, as long as each result of `recv` is clean: the table has what was sent. -/
theorem recorded_of_clean (client : Client) (bs : List Batch) (hclean : client.CleanRun bs) :
    Recorded client.table (client.receiveAll bs).table (sent bs) := by
  cases client with
  | consumer c =>
      exact Receiver.recorded_receiveAll Consumer.recordsAlone (recorded_nil c.producerList) hclean
  | producer p =>
      exact Receiver.recorded_receiveAll Producer.recordsAlone (recorded_nil p.consumerList) hclean

/-- An assignment of three slabs of producer 7. -/
def nextAssignment : Assignment where
  ip := "10.0.0.7".toList
  port := 9702
  size := 3
  id := 7
  ipFree := free_of_all (by decide)
  ipString := by decide

/-- A consumer with no producers yet. -/
def sampleClient : Client := .consumer (.start "10.0.0.2".toList 9704 5 1)

/-- Two assignments in two results of `recv`. -/
theorem recorded_of_clean_sample :
    Recorded sampleClient.table
      (sampleClient.receiveAll
        [⟨[Consumer.sampleAssignment], zeroLocals⟩, ⟨[nextAssignment], zeroLocals⟩]).table
      [Consumer.sampleAssignment, nextAssignment] := by
  apply recorded_of_clean sampleClient
    [⟨[Consumer.sampleAssignment], zeroLocals⟩, ⟨[nextAssignment], zeroLocals⟩]
  refine ⟨?_, ?_, trivial⟩
  · exact ⟨Consumer.sampleAssignment, rfl, by decide, by decide, by decide, by decide, by decide⟩
  · exact ⟨nextAssignment, rfl, by decide, by decide, by decide, by decide, by decide⟩

/-- The same two in one result: the fields of the second are read one place too early,
and producer 7 gets no slabs. -/
theorem coalesced_assignment_lost :
    ¬ Recorded sampleClient.table
      (sampleClient.receiveAll [⟨[Consumer.sampleAssignment, nextAssignment], zeroLocals⟩]).table
      [Consumer.sampleAssignment, nextAssignment] := by
  intro hrecorded
  have hslabs := hrecorded.nslabs 7
  exact absurd hslabs (by decide)

end Memtrade.Server
