import Memtrade.Server.Portal

/-!
# The consumer of the spot market

`handle_message` of `consumer.c`. The case of `SPOT_ASSIGNMENT_CONSUMER` has no
`break`: it runs on into the case of `PRODUCER_READY`, which scans the text of the
assignment with the format of a readiness message.
-/

namespace Memtrade.Server

open CText

structure Consumer where
  /-- The receive buffer of `main`, up to the zeros at its end. -/
  buffer : Text
  ip : Text
  port : Int
  id : Int
  spotSize : Int
  leaseTime : Int
  producerList : PeerTable

inductive ConsumerEvent where
  | sent (msg : Text)
  /-- `run_consumer_app`, with the address that it puts on the command line. -/
  | startApp (producerId : Int) (ip : Text) (managerPort : Int)
deriving DecidableEq, Repr

namespace Consumer

def portalParser (locals : Locals) (msg : Text) (table : PeerTable) : PeerTable :=
  Server.portalParser (fun _ table => table) setPeer locals msg table

def sendRegistrationMsg (c : Consumer) : ConsumerEvent :=
  .sent (registrationMsg .consumerReg c.ip c.port)

def sendSpotRequest (c : Consumer) : ConsumerEvent :=
  .sent (recordMsg .spotRequest c.id c.spotSize c.leaseTime)

def runConsumerApp (c : Consumer) (producerId : Int) : ConsumerEvent :=
  .startApp producerId (cstr (c.producerList producerId).ip) (c.producerList producerId).managerPort

/-- The case of `PRODUCER_READY`; a conversion that fails leaves its variable as it is. -/
def onProducerReady (c : Consumer) (locals : Locals) (msg : Text) : Consumer × List ConsumerEvent :=
  let values := scanInts 4 msg
  let producerId := values.getD 1 locals.producerId
  let managerPort := values.getD 3 locals.managerPort
  let c := { c with
    producerList := Function.update c.producerList producerId
      { c.producerList producerId with managerPort := managerPort, managerState := .running } }
  (c, [c.runConsumerApp producerId])

def handleMessage (c : Consumer) (locals : Locals) (msg : Text) : Consumer × List ConsumerEvent :=
  let type := (scanInts 1 msg).getD 0 locals.type
  if type = MsgType.connectionAck.code then (c, [c.sendRegistrationMsg])
  else if type = MsgType.registrationAck.code then
    let c := { c with id := (scanInts 2 msg).getD 1 c.id }
    (c, [c.sendSpotRequest])
  else if type = MsgType.spotAssignmentConsumer.code then
    onProducerReady { c with producerList := portalParser locals msg c.producerList } locals msg
  else if type = MsgType.producerReady.code then onProducerReady c locals msg
  else (c, [])

/-- One round of the receive loop of `main`; `recv` writes no terminator. -/
def receive (c : Consumer) (locals : Locals) (data : Text) : Consumer × List ConsumerEvent :=
  let c := { c with buffer := memcpy c.buffer data }
  handleMessage c locals (cstr c.buffer)

/-! ## Readiness -/

def deliver (c : Consumer) (d : Delivery) : Consumer × List ConsumerEvent :=
  c.receive d.locals (d.bytes .spotAssignmentConsumer)

/-- The producer that a readiness message names. -/
def readyProducer : BrokerMsg → Option Int
  | .producerReady p _ _ => some p
  | .connectionAck | .registrationAck _ | .assignment _ => none

/-- The manager fields of every producer that is not named stay as they are, and no
application is started against it. -/
def KeepsManagers (c : Consumer) (d : Delivery) : Prop :=
  ∀ q, readyProducer d.msg ≠ some q →
    ((c.deliver d).1.producerList q).managerState = (c.producerList q).managerState ∧
    ((c.deliver d).1.producerList q).managerPort = (c.producerList q).managerPort ∧
    ∀ ip port, .startApp q ip port ∉ (c.deliver d).2

/-- Every message of a run keeps the managers that it does not name. -/
def ManagersKept (c : Consumer) : List Delivery → Prop
  | [] => True
  | d :: ds => c.KeepsManagers d ∧ (c.deliver d).1.ManagersKept ds

theorem handle_connectionAck (c : Consumer) (locals : Locals) :
    c.handleMessage locals (decimal MsgType.connectionAck.code) = (c, [c.sendRegistrationMsg]) := by
  unfold handleMessage
  rw [scanInts_last]
  rfl

theorem handle_registrationAck (c : Consumer) (locals : Locals) (id : Int) :
    c.handleMessage locals (sep (decimal MsgType.registrationAck.code) ',' (decimal id)) =
      ({ c with id := id }, [sendSpotRequest { c with id := id }]) := by
  unfold handleMessage
  rw [scanInts_sep, scanInts_sep, scanInts_last]
  rfl

theorem handle_producerReady (c : Consumer) (locals : Locals) (p k port : Int) :
    c.handleMessage locals (recordMsg .producerReady p k port) =
      ({ c with
          producerList := Function.update c.producerList p
            { c.producerList p with managerPort := port, managerState := .running } },
        [.startApp p (cstr (c.producerList p).ip) port]) := by
  unfold handleMessage recordMsg
  rw [scanInts_sep]
  show onProducerReady c locals (recordMsg .producerReady p k port) = _
  unfold onProducerReady
  rw [scanInts_recordMsg]
  simp [runConsumerApp]

/-- An assignment starts an application, whatever its text is read as. -/
theorem handle_assignment (c : Consumer) (locals : Locals) (a : Assignment) (rest : Text) :
    ∃ p ip port, .startApp p ip port ∈
      (c.handleMessage locals (a.text .spotAssignmentConsumer ++ rest)).2 := by
  unfold handleMessage
  rw [a.scan_type]
  show ∃ p ip port, .startApp p ip port ∈ (onProducerReady _ _ _).2
  exact ⟨_, _, _, List.mem_singleton.mpr rfl⟩

theorem keepsManagers_iff (c : Consumer) (d : Delivery) :
    c.KeepsManagers d ↔ d.msg.isAssignment = false := by
  have hcomma : nul ≠ ',' := by decide
  unfold KeepsManagers deliver receive Delivery.bytes
  cases d.msg with
  | connectionAck =>
      simp only [BrokerMsg.bytes, cstr_terminated (nul_not_mem_decimal _), handle_connectionAck]
      simp [BrokerMsg.isAssignment, sendRegistrationMsg]
  | registrationAck id =>
      have hstring : nul ∉ sep (decimal MsgType.registrationAck.code) ',' (decimal id) :=
        nul_not_mem_sep (nul_not_mem_decimal _) hcomma (nul_not_mem_decimal _)
      simp only [BrokerMsg.bytes, cstr_terminated hstring, handle_registrationAck]
      simp [BrokerMsg.isAssignment, sendSpotRequest]
  | assignment a =>
      simp only [BrokerMsg.bytes, a.cstr_bytes]
      generalize { c with buffer := _ } = c'
      obtain ⟨p, ip, port, hstart⟩ := handle_assignment c' d.locals a _
      simp only [BrokerMsg.isAssignment, Bool.true_eq_false, iff_false]
      intro hkept
      exact (hkept p (by simp [readyProducer])).2.2 ip port hstart
  | producerReady p k port =>
      simp only [BrokerMsg.bytes, cstr_terminated (nul_not_mem_recordMsg _ _ _ _),
        handle_producerReady]
      simp only [BrokerMsg.isAssignment, readyProducer, iff_true]
      intro q hq
      have hne : q ≠ p := fun h => hq (by rw [h])
      simp [hne]

/-- For every sequence of messages: managers are started and recorded on readiness
messages alone if and only if the sequence has no assignment. -/
theorem managersKept_iff (c : Consumer) (ds : List Delivery) :
    c.ManagersKept ds ↔ ∀ d ∈ ds, d.msg.isAssignment = false := by
  induction ds generalizing c with
  | nil => simp [ManagersKept]
  | cons d ds ih =>
      rw [ManagersKept, keepsManagers_iff, ih, List.forall_mem_cons]

/-- A consumer after `init`. -/
def start (ip : Text) (port spotSize leaseTime : Int) : Consumer where
  buffer := []
  ip := ip
  port := port
  id := 0
  spotSize := spotSize
  leaseTime := leaseTime
  producerList := fun _ => ⟨[], 0, 0, 0, 0, .stop⟩

/-- An assignment of two slabs of producer 6. -/
def sampleAssignment : Assignment where
  ip := "10.0.0.6".toList
  port := 9702
  size := 2
  id := 6
  ipFree := free_of_all (by decide)
  ipString := by decide

/-- The assignment marks the manager of producer 1 as running: the second field of an
assignment is always 1, and it is read as the id of a producer. -/
theorem assignment_marks_manager :
    ¬ (start "10.0.0.2".toList 9704 5 1).ManagersKept
      [⟨.assignment sampleAssignment, [], ⟨[], [], 0, 0, 0, 0, 0, 77⟩⟩] := by
  intro hkept
  have hstate := (hkept.1 1 (by decide)).1
  exact absurd hstate (by decide)

end Consumer

end Memtrade.Server
