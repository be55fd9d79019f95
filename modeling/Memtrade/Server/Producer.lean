import Memtrade.Server.Portal

/-!
# The producer of the spot market

The network thread of `producer.c`. `consumer_count` starts at the size of the
table and grows with every assignment, and the loop behind the parser runs up to
it. Every index into `consumer_list` is recorded as an event.
-/

namespace Memtrade.Server

open CText

def maxConsumer : Int := 128

def nodeSize : Int := 64 * 2 ^ 20

def managerPortInit : Int := 9704

/-- `enum producer_state`. -/
inductive ProducerStatus where
  | init
  | connected
  | registered
deriving DecidableEq, Repr

structure Producer where
  /-- The receive buffer of `init_network`, up to the zeros at its end. -/
  buffer : Text
  ip : Text
  port : Int
  id : Int
  status : ProducerStatus
  totalMemory : Int
  harvestedMemory : Int
  estAvailableMemory : Int
  consumerCount : Int
  consumerList : PeerTable

inductive ProducerEvent where
  /-- An index into `consumer_list`. -/
  | access (index : Int)
  | sent (msg : Text)
  /-- The server that `run_spot_manager` starts, with its port and memory. -/
  | startManager (consumerId managerPort size : Int)
deriving DecidableEq, Repr

namespace Producer

def setCount (count : Int) (r : Producer × List ProducerEvent) : Producer × List ProducerEvent :=
  ({ r.1 with consumerCount := r.1.consumerCount + count }, r.2)

def setPeer (id : Int) (addr : Text) (port size : Int) (r : Producer × List ProducerEvent) :
    Producer × List ProducerEvent :=
  ({ r.1 with consumerList := Server.setPeer id addr port size r.1.consumerList }, r.2 ++ [.access id])

def portalParser (p : Producer) (locals : Locals) (msg : Text) : Producer × List ProducerEvent :=
  Server.portalParser setCount setPeer locals msg (p, [])

def sendProducerReadyMsg (p : Producer) (consumerId : Int) : ProducerEvent :=
  .sent (recordMsg .producerReady p.id consumerId (p.consumerList consumerId).managerPort)

def runSpotManager (p : Producer) (consumerId : Int) : Producer × List ProducerEvent :=
  if (p.consumerList consumerId).managerState = .running then
    (p, [.access consumerId, p.sendProducerReadyMsg consumerId])
  else
    let p' := { p with
      consumerList := Function.update p.consumerList consumerId
        { p.consumerList consumerId with managerState := .running } }
    (p', [.access consumerId,
      .startManager consumerId (p.consumerList consumerId).managerPort
        ((p.consumerList consumerId).nslabs * nodeSize),
      p'.sendProducerReadyMsg consumerId])

/-- One round of the loop over the consumers. -/
def visit (p : Producer) (i : Int) : Producer × List ProducerEvent :=
  if (p.consumerList i).nslabs ≠ 0 then
    let (p', evs) := p.runSpotManager (p.consumerList i).id
    (p', .access i :: evs)
  else (p, [.access i])

/-- The first `n` rounds of the loop. -/
def visits (p : Producer) : Nat → Producer × List ProducerEvent
  | 0 => (p, [])
  | n + 1 =>
      let (p, evs) := p.visits n
      let (p, evs') := p.visit n
      (p, evs ++ evs')

def handleMessage (p : Producer) (locals : Locals) (msg : Text) : Producer × List ProducerEvent :=
  let type := (scanInts 1 msg).getD 0 locals.type
  if type = MsgType.connectionAck.code then
    ({ p with status := .connected }, [.sent (registrationMsg .producerReg p.ip p.port)])
  else if type = MsgType.registrationAck.code then
    ({ p with id := (scanInts 2 msg).getD 1 p.id, status := .registered }, [])
  else if type = MsgType.spotAssignmentProducer.code then
    let (p, evs) := p.portalParser locals msg
    let (p, evs') := p.visits p.consumerCount.toNat
    (p, evs ++ evs')
  else (p, [])

/-- One round of the receive loop; `recv` writes no terminator. -/
def receive (p : Producer) (locals : Locals) (data : Text) : Producer × List ProducerEvent :=
  let p := { p with buffer := memcpy p.buffer data }
  handleMessage p locals (cstr p.buffer)

/-- A producer after `init`; `memory` is what lies around the table. -/
def start (ip : Text) (port totalMemory : Int) (memory : PeerTable) : Producer where
  buffer := []
  ip := ip
  port := port
  id := 0
  status := .init
  totalMemory := totalMemory
  harvestedMemory := 0
  estAvailableMemory := 0
  consumerCount := maxConsumer
  consumerList := fun i =>
    if 0 ≤ i ∧ i < maxConsumer then ⟨[], 0, 0, 0, managerPortInit + i * 2, .stop⟩
    else if maxConsumer ≤ i ∧ i < maxConsumer + 2 then ⟨[], 0, 0, 0, 0, .stop⟩
    else memory i

/-! ## Deliveries -/

def deliver (p : Producer) (d : Delivery) : Producer × List ProducerEvent :=
  p.receive d.locals (d.bytes .spotAssignmentProducer)

def run (p : Producer) : List Delivery → Producer × List ProducerEvent
  | [] => (p, [])
  | d :: ds =>
      let (p, evs) := p.deliver d
      let (p, evs') := p.run ds
      (p, evs ++ evs')

end Producer

end Memtrade.Server
