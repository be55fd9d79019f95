import Memtrade.Lib.System
import Memtrade.Server.Broker
import Memtrade.Server.Harvest
import Mathlib.Data.List.Perm.Basic

/-!
# The spot market

The broker with any number of producers, which harvest, report and register as
`producer.c` does, and with consumers, which may send registrations and requests
at any time. Connections keep the order of what is written to them. The threads
of the broker interleave: between two rounds of `find_placement` other messages
may be handled, except requests, which wait for its lock.
-/

namespace Memtrade.Server

open CText

/-- The locals of `find_placement`; `rest` is what the loop has not come to. -/
structure Placement where
  consumerId : Int
  spotSize : Int
  allocated : Int
  rest : List ProducerEntry

structure Market where
  broker : Broker
  /-- The run of `find_placement` that holds the lock. -/
  placing : Option Placement
  producers : Nat → Producer
  /-- What a producer has written and the broker has not read. -/
  toBroker : Nat → List Text
  /-- What the broker has written and a producer has not read. -/
  toProducer : Nat → List Text
  /-- History: the slabs that have been assigned out of a producer. -/
  assigned : Int → Int
  /-- History: the largest availability that the broker has read for a producer. -/
  largest : Int → Int

/-- What a consumer writes to the broker. -/
inductive ConsumerMsg where
  | registration (ip : Text) (port : Int)
  | spotRequest (clientId spotSize leaseTime : Int)
deriving DecidableEq, Repr

def ConsumerMsg.text : ConsumerMsg → Text
  | .registration ip port => registrationMsg .consumerReg ip port
  | .spotRequest clientId spotSize leaseTime => recordMsg .spotRequest clientId spotSize leaseTime

inductive MarketAction where
  /-- The broker accepts the connection of a producer. -/
  | accept (k : Nat) (more : Text)
  /-- A producer runs one round of `harvest_decision`. -/
  | harvest (k : Nat) (availableMemory : Int)
  /-- A producer receives the oldest write of the broker, with `n` more behind it. -/
  | receive (k n : Nat) (locals : Locals)
  /-- The broker receives the oldest message of a producer, with `n` more behind it that
  it does not look at. `order` is the result of `qsort` if this is a request. -/
  | handle (k n : Nat) (locals : BrokerLocals) (order : List ProducerEntry)
  | consumer (k : Nat) (msg : ConsumerMsg) (locals : BrokerLocals) (order : List ProducerEntry)
  /-- One round of the loop of `find_placement`. -/
  | place
  /-- The loop ends. -/
  | unlock

namespace Market

/-- The writes to a producer among the events. -/
def written (evs : List BrokerEvent) (k : Nat) : List Text :=
  evs.filterMap fun
    | .sent (some (.producer j)) bytes => if j = k then some bytes else none
    | _ => none

/-- The messages that a producer writes. -/
def messages (evs : List ProducerEvent) : List Text :=
  evs.filterMap fun
    | .sent msg => some msg
    | _ => none

/-- The broker changes its tables and writes. -/
def brokerStep (s : Market) (r : Broker × List BrokerEvent) : Market × List BrokerEvent :=
  ({ s with broker := r.1, toProducer := fun k => s.toProducer k ++ written r.2 k }, r.2)

/-- A producer changes its state and writes. -/
def producerStep (s : Market) (k : Nat) (r : Producer × List ProducerEvent) : Market :=
  { s with
    producers := Function.update s.producers k r.1
    toBroker := Function.update s.toBroker k (s.toBroker k ++ messages r.2) }

/-- `handle_message` of the broker, up to the loop of `find_placement`. -/
def dispatch (s : Market) (sock : Sock) (more : Text) (order : List ProducerEntry) :
    ClientMsg → Option (Market × List BrokerEvent)
  | .producerReg ip port => some (s.brokerStep (s.broker.registerProducer ip port sock more))
  | .consumerReg ip port => some (s.brokerStep (s.broker.registerConsumer ip port sock more))
  | .producerAvailability producerId availableSlab nslab =>
      some ({ s with
        broker := s.broker.setAvailability producerId availableSlab nslab
        largest := Function.update s.largest producerId (max (s.largest producerId) availableSlab) },
        [])
  | .spotRequest clientId spotSize _ =>
      if s.placing.isNone ∧ order.Perm s.broker.candidates then
        some ({ s with placing := some ⟨clientId, spotSize, 0, order⟩ }, [])
      else none
  | .producerReady producerId consumerId port =>
      some (s.brokerStep
        (s.broker, [s.broker.sendProducerReadyMsg producerId consumerId port more]))
  | .unknown => some (s, [])

/-- A round of `find_placement` that has come to the entry `e`. -/
def placeOne (s : Market) (pl : Placement) (e : ProducerEntry) (rest : List ProducerEntry) :
    Market × List BrokerEvent :=
  match Broker.pick pl.spotSize pl.allocated e.availableSlabs with
  | none => ({ s with placing := some { pl with rest := rest } }, [])
  | some pAlloc =>
      brokerStep
        { s with
          placing := some { pl with allocated := pl.allocated + pAlloc, rest := rest }
          assigned := Function.update s.assigned e.id (s.assigned e.id + pAlloc) }
        (s.broker.assign pl.consumerId e pAlloc)

def step (s : Market) : MarketAction → Option (Market × List BrokerEvent)
  | .accept k more => some (s.brokerStep (s.broker, [Broker.sendConnectionAck (.producer k) more]))
  | .harvest k availableMemory =>
      some (s.producerStep k ((s.producers k).harvestDecision availableMemory), [])
  | .receive k n locals =>
      match s.toProducer k with
      | [] => none
      | bytes :: rest =>
          some (producerStep
            { s with toProducer := Function.update s.toProducer k (rest.drop n) } k
            ((s.producers k).receive locals (bytes ++ (rest.take n).flatten)), [])
  | .handle k n locals order =>
      match s.toBroker k with
      | [] => none
      | msg :: rest =>
          dispatch { s with toBroker := Function.update s.toBroker k (rest.drop n) } (.producer k)
            locals.more order (scanMessage locals msg)
  | .consumer k msg locals order =>
      s.dispatch (.consumer k) locals.more order (scanMessage locals msg.text)
  | .place =>
      match s.placing with
      | some ⟨consumerId, spotSize, allocated, e :: rest⟩ =>
          if allocated < spotSize then
            some (s.placeOne ⟨consumerId, spotSize, allocated, e :: rest⟩ e rest)
          else none
      | _ => none
  | .unlock =>
      match s.placing with
      | some ⟨_, spotSize, allocated, rest⟩ =>
          if rest = [] ∨ spotSize ≤ allocated then some ({ s with placing := none }, []) else none
      | none => none

/-- Nobody has connected. -/
structure Initial (s : Market) : Prop where
  broker : s.broker = .start
  placing : s.placing = none
  producers : ∀ k, ∃ ip port totalMemory memory,
    s.producers k = .start ip port totalMemory memory
  toBroker : ∀ k, s.toBroker k = []
  toProducer : ∀ k, s.toProducer k = []
  assigned : ∀ p, s.assigned p = 0
  largest : ∀ p, s.largest p = 0

end Market

def market : System Market MarketAction BrokerEvent where
  init := Market.Initial
  step := Market.step

end Memtrade.Server
