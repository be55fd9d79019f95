import Memtrade.Server.Portal

/-!
# The broker of the spot market

`broker.c`. A report overwrites `available_slabs`. `find_placement` walks a sorted
copy of the entries that have slabs; the copy is taken under a lock that the
handling of reports does not take, so the loop is modelled round by round.
-/

namespace Memtrade.Server

open CText

def maxProducer : Nat := 128

def minFree : Int := 1

/-- A connection; `k` tells those of one role apart. -/
inductive Sock where
  | producer (k : Nat)
  | consumer (k : Nat)
deriving DecidableEq, Repr

/-- `struct producer_info_t` of the broker. An entry that is not registered has no
connection. -/
structure ProducerEntry where
  ip : Text
  port : Int
  nslabs : Int
  availableSlabs : Int
  id : Int
  sock : Option Sock
deriving DecidableEq, Repr

/-- `struct consumer_info_t` of the broker. -/
structure ConsumerEntry where
  ip : Text
  port : Int
  id : Int
  sock : Option Sock
deriving DecidableEq, Repr

structure Broker where
  producerList : Int → ProducerEntry
  consumerList : Int → ConsumerEntry
  producerId : Int
  consumerId : Int

inductive BrokerEvent where
  | sent (sock : Option Sock) (bytes : Text)
  /-- A choice of `find_placement`. -/
  | placed (producerId consumerId size : Int)
deriving DecidableEq, Repr

/-- Uninitialised locals of `handle_message`, and of the array that it prints into. -/
structure BrokerLocals where
  type : Int
  ip : Text
  port : Int
  producerId : Int
  consumerId : Int
  availableSlab : Int
  nslab : Int
  clientId : Int
  spotSize : Int
  leaseTime : Int
  more : Text
deriving DecidableEq, Repr

/-! ## Messages of the clients -/

/-- What `handle_message` makes of a text. -/
inductive ClientMsg where
  | producerReg (ip : Text) (port : Int)
  | consumerReg (ip : Text) (port : Int)
  | producerAvailability (producerId availableSlab nslab : Int)
  | spotRequest (clientId spotSize leaseTime : Int)
  | producerReady (producerId consumerId port : Int)
  | unknown
deriving DecidableEq, Repr

/-- The second and the third token of the text. -/
def ipParser (ip : Text) (port : Int) (msg : Text) : Text × Int :=
  let toks := tokens isDelim msg
  (toks[1]?.getD ip, (toks[2]?.map atoi).getD port)

/-- The scans of `handle_message`; a conversion that fails leaves its variable as it is. -/
def scanMessage (locals : BrokerLocals) (msg : Text) : ClientMsg :=
  let type := (scanInts 1 msg).getD 0 locals.type
  let values := scanInts 4 msg
  if type = MsgType.producerReg.code then
    .producerReg (ipParser locals.ip locals.port msg).1 (ipParser locals.ip locals.port msg).2
  else if type = MsgType.consumerReg.code then
    .consumerReg (ipParser locals.ip locals.port msg).1 (ipParser locals.ip locals.port msg).2
  else if type = MsgType.producerAvailability.code then
    .producerAvailability (values.getD 1 locals.producerId) (values.getD 2 locals.availableSlab)
      (values.getD 3 locals.nslab)
  else if type = MsgType.spotRequest.code then
    .spotRequest (values.getD 1 locals.clientId) (values.getD 2 locals.spotSize)
      (values.getD 3 locals.leaseTime)
  else if type = MsgType.producerReady.code then
    .producerReady (values.getD 1 locals.producerId) (values.getD 2 locals.consumerId)
      (values.getD 3 locals.port)
  else .unknown

namespace Broker

/-- The tables before anybody registers. -/
def start : Broker where
  producerList := fun _ => ⟨[], 0, 0, 0, 0, none⟩
  consumerList := fun _ => ⟨[], 0, 0, none⟩
  producerId := 0
  consumerId := 0

def sendConnectionAck (sock : Sock) (more : Text) : BrokerEvent :=
  .sent sock (BrokerMsg.connectionAck.bytes .spotAssignmentProducer more)

def sendRegisterAck (sock : Sock) (id : Int) (more : Text) : BrokerEvent :=
  .sent sock ((BrokerMsg.registrationAck id).bytes .spotAssignmentProducer more)

def sendProducerReadyMsg (b : Broker) (producerId consumerId port : Int) (more : Text) :
    BrokerEvent :=
  .sent (b.consumerList consumerId).sock
    ((BrokerMsg.producerReady producerId consumerId port).bytes .spotAssignmentConsumer more)

/-- `register_client` for a producer. -/
def registerProducer (b : Broker) (ip : Text) (port : Int) (sock : Sock) (more : Text) :
    Broker × List BrokerEvent :=
  let id := b.producerId
  ({ b with
      producerId := b.producerId + 1
      producerList := Function.update b.producerList id
        ⟨memcpy (b.producerList id).ip ip, port, 0, 0, id, sock⟩ },
    [sendRegisterAck sock id more])

/-- `register_client` for a consumer. -/
def registerConsumer (b : Broker) (ip : Text) (port : Int) (sock : Sock) (more : Text) :
    Broker × List BrokerEvent :=
  let id := b.consumerId
  ({ b with
      consumerId := b.consumerId + 1
      consumerList := Function.update b.consumerList id
        ⟨memcpy (b.consumerList id).ip ip, port, id, sock⟩ },
    [sendRegisterAck sock id more])

/-- The case of `PRODUCER_AVAILABILITY`. -/
def setAvailability (b : Broker) (producerId availableSlab nslab : Int) : Broker :=
  { b with
    producerList := Function.update b.producerList producerId
      { b.producerList producerId with nslabs := nslab, availableSlabs := availableSlab } }

/-! ## Placement -/

/-- The entries that `find_placement` copies. -/
def candidates (b : Broker) : List ProducerEntry :=
  ((List.range maxProducer).map fun i : Nat => b.producerList i).filter fun e => e.availableSlabs ≠ 0

/-- The slabs that one round takes, if it picks the producer. -/
def pick (spotSize allocated availableSlabs : Int) : Option Int :=
  if availableSlabs ≥ spotSize - allocated then some (spotSize - allocated)
  else if spotSize - (availableSlabs - minFree) ≥ 0 then some (spotSize - (availableSlabs - minFree))
  else none

/-- A picked producer: its entry is written from the copy `e`, and both sides get a
message. -/
def assign (b : Broker) (consumerId : Int) (e : ProducerEntry) (pAlloc : Int) :
    Broker × List BrokerEvent :=
  let b := { b with
    producerList := Function.update b.producerList e.id
      { b.producerList e.id with availableSlabs := max 0 (e.availableSlabs - pAlloc) } }
  let p := b.producerList e.id
  let c := b.consumerList consumerId
  (b, [.placed e.id consumerId pAlloc,
    .sent p.sock (assignmentMsg .spotAssignmentProducer (cstr c.ip) c.port pAlloc c.id),
    .sent c.sock (assignmentMsg .spotAssignmentConsumer (cstr p.ip) p.port pAlloc p.id)])

end Broker

end Memtrade.Server
