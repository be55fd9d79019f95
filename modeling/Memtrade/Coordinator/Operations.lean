import Memtrade.Coordinator.Bitmap
import Memtrade.Lib.CText
import Memtrade.Lib.Heap
import Memtrade.Lib.System

/-!
# The coordinator of the remote-memory framework

Producers register their memory, consumers ask for slabs and give them back; one
completed receive is one step. The producer list stands between two sentinels, so
a walk that does not stop early comes to the tail, whose `producer` is NULL. A
step that fails an assertion or follows a NULL or freed pointer halts the
coordinator. An access outside an array is recorded as a fault and changes none of
the memory modelled here; `BUG()`, which is `__builtin_unreachable()`, is recorded
too. After these two the run goes on, as compiled code may.

`grants` is a history field: the grants that their peers have not given back.
-/

namespace Memtrade.Coordinator

open CText

def maxProducer : Nat := 128

/-- `RDMA_PRODUCER_SLAB_SIZE`. -/
def slabSize : Nat := 131072

/-! ## State -/

structure ProducerInfo where
  lstptr : Option Nat
  ip : Text
  port : Int
  rdmakey : Nat
  nslabs : Nat
  availableSlabs : Int
  memaddr : BitVec 64
  id : Nat
  slabAvailabilityFlag : Bitmap
deriving DecidableEq, Repr

/-- A node of the producer list; `producer` is the address of its struct. -/
structure Node where
  addr : Nat
  producer : Nat
deriving DecidableEq, Repr

/-- A range of slabs as `MSG_SLAB_ADD_PARTIAL` hands it out, with the registration
it comes from and its first slab there. -/
structure Grant where
  peer : Nat
  producer : Nat
  slab : Nat
  nslabs : Nat
  id : Nat
  addr : BitVec 64
deriving DecidableEq, Repr

inductive Fault where
  /-- `BUG()`. -/
  | bug
  /-- An `ASSERT` of `find_available_slabs` or `alloc_next_slabs`. -/
  | assertSlab
  /-- The NULL producer of a sentinel was read. -/
  | sentinel
  /-- `assert(cli->producer == NULL)`. -/
  | assertPeer
  /-- A NULL or freed pointer was followed. -/
  | dangling
  | outOfBounds
deriving DecidableEq, Repr

inductive Event where
  | added (ip : Text) (port : Int) (id : Nat)
  | done (peer : Nat)
  | slabAddPartial (ip : Text) (port : Int) (rdmakey : Nat) (grant : Grant)
  | doneSlabAdd (peer : Nat)
  | fault (f : Fault)
deriving DecidableEq, Repr

structure State where
  producers : Heap ProducerInfo
  list : List Node
  nextNode : Nat
  producerMap : Nat → Text
  producerId : Nat
  /-- `cli->producer` of each connected peer. -/
  peers : Nat → Option Nat
  halted : Bool
  grants : List Grant

/-- `producerlist_init` and the initial values of the globals. -/
def initState : State where
  producers := Heap.empty
  list := []
  nextNode := 0
  producerMap := fun _ => []
  producerId := 1
  peers := fun _ => none
  halted := false
  grants := []

def fail (s : State) (f : Fault) : State × List Event := ({ s with halted := true }, [.fault f])

/-! ## Producer list -/

/-- The text that identifies an endpoint in the producer map. -/
def hash (ip : Text) (port : Int) : Text := ip ++ ':' :: decimal port

/-- The producers on the list that pass a test, front first. -/
def findListed (s : State) (test : ProducerInfo → Bool) : Option Node :=
  s.list.find? fun node => (s.producers.cell node.producer).any test

def findProducerById (s : State) (id : Int) : Option Nat :=
  (findListed s fun p => (p.id : Int) == id).map Node.producer

/-- The search of `get_producer_id`. -/
def findHash (s : State) (h : Text) : Option Nat :=
  (List.range (min maxProducer s.producerId)).find? fun i => decide (1 ≤ i) && s.producerMap i == h

/-- `get_producer_id`: the id of a known endpoint, else a new one with an entry
of its own in `producer_map[MAX_PRODUCER + 2]`. -/
def getProducerId (s : State) (ip : Text) (port : Int) : State × Nat :=
  match findHash s (hash ip port) with
  | some i => (s, i)
  | none =>
      let s' := { s with
        producerId := s.producerId + 1
        producerMap :=
          if s.producerId < maxProducer + 2 then
            Function.update s.producerMap s.producerId (hash ip port)
          else s.producerMap }
      (s', s.producerId)

/-- The text of a new id may be printed behind the end of the map. -/
def mapFaults (id : Nat) : List Event :=
  if id < maxProducer + 2 then [] else [.fault .outOfBounds]

def sameEndpoint (ip : Text) (port : Int) (p : ProducerInfo) : Bool :=
  p.ip == ip && p.port == port

/-- `producerlist_add` with `is_duplicate_producer`: a producer without a port is
not listed, one whose endpoint is listed takes over that node and its id. -/
def producerlistAdd (s : State) (ptr : Nat) (p : ProducerInfo) : State × ProducerInfo :=
  if p.port = 0 then (s, p)
  else
    match findListed s (sameEndpoint p.ip p.port) with
    | some node =>
        let p := { p with
          lstptr := (s.producers.cell node.producer).bind ProducerInfo.lstptr
          id := ((s.producers.cell node.producer).map ProducerInfo.id).getD p.id }
        ({ s with
          producers := s.producers.write ptr p
          list := s.list.map fun n => if n.addr = node.addr then { n with producer := ptr } else n },
          p)
    | none =>
        let p := { p with lstptr := some s.nextNode }
        ({ s with
          producers := s.producers.write ptr p
          list := ⟨s.nextNode, ptr⟩ :: s.list
          nextNode := s.nextNode + 1 }, p)

/-- `producerlist_remove`: the node goes, with the producer that it holds now. -/
def producerlistRemove (s : State) (lstptr : Option Nat) : Except Fault State :=
  match lstptr with
  | none => .error .dangling
  | some addr =>
      match s.list.find? fun n => n.addr == addr with
      | none => .error .dangling
      | some node =>
          .ok { s with
            producers := s.producers.free node.producer
            list := s.list.filter fun n => n.addr != addr }

/-! ## Slabs -/

def isSlabAvailable (p : ProducerInfo) (slab : Nat) : Bool :=
  if slab > p.nslabs then false else !getBit p.slabAvailabilityFlag slab

/-- `find_available_slabs`; no result means that its assertion fails. -/
def findAvailableSlabs (p : ProducerInfo) : Option Nat :=
  (List.range p.nslabs).find? fun slab => isSlabAvailable p slab

/-- A product of C `int`s as it is added to a 64-bit address. -/
def slabOffset (slabs : Int) : BitVec 64 := (BitVec.ofInt 32 (slabs * slabSize)).signExtend 64

def addrFromSlab (p : ProducerInfo) (slab : Int) : BitVec 64 :=
  if slab < 0 ∨ slab ≥ p.nslabs then 0#64 else p.memaddr + slabOffset slab

def slabFromAddr (p : ProducerInfo) (addr : BitVec 64) : Int :=
  if addr < p.memaddr ∨ addr ≥ p.memaddr + slabOffset p.nslabs then -1
  else (((addr - p.memaddr) / BitVec.ofNat 64 slabSize).truncate 32).toInt

/-- Mark `count` slabs from `slab` on. -/
def setBits (bitmap : Bitmap) (slab : Nat) : Nat → Bitmap
  | 0 => bitmap
  | count + 1 => setBit (setBits bitmap slab count) ((slab + count : Nat) : Int)

/-- One round of the walk of `alloc_next_slabs`, at a producer that has slabs left. -/
def grantSlabs (s : State) (peer ptr : Nat) (p : ProducerInfo) (slab requested : Nat) :
    State × Grant :=
  let granted := if p.nslabs - slab ≥ requested then requested else p.nslabs - slab
  let grant : Grant :=
    { peer := peer, producer := ptr, slab := slab, nslabs := granted, id := p.id,
      addr := addrFromSlab p slab }
  let p := { p with
    slabAvailabilityFlag := setBits p.slabAvailabilityFlag slab granted
    availableSlabs := p.availableSlabs - granted }
  ({ s with producers := s.producers.write ptr p, grants := grant :: s.grants }, grant)

/-- The walk of `alloc_next_slabs` over the producers of the nodes. -/
def allocFrom (s : State) (peer requested : Nat) :
    List (Option Nat) → Except Fault (Option (State × ProducerInfo × Grant))
  | [] => .ok none
  | none :: _ => .error .sentinel
  | some ptr :: rest =>
      match s.producers.cell ptr with
      | none => .error .dangling
      | some p =>
          if p.availableSlabs > 0 then
            match findAvailableSlabs p with
            | none => .error .assertSlab
            | some slab =>
                let (s', grant) := grantSlabs s peer ptr p slab requested
                .ok (some (s', p, grant))
          else allocFrom s peer requested rest

/-- `alloc_next_slabs`: the nodes between the sentinels, then the tail. -/
def allocNextSlabs (s : State) (peer requested : Nat) :
    Except Fault (Option (State × ProducerInfo × Grant)) :=
  allocFrom s peer requested (s.list.map (fun n => some n.producer) ++ [none])

/-- The loop of `on_recv_slabs_rem`. -/
def freeSlabs : Nat → Int → ProducerInfo → ProducerInfo
  | 0, _, p => p
  | count + 1, slab, p =>
      freeSlabs count (slab + 1) { p with
        slabAvailabilityFlag :=
          if inside p.slabAvailabilityFlag slab then clearBit p.slabAvailabilityFlag slab
          else p.slabAvailabilityFlag
        availableSlabs := p.availableSlabs + 1 }

/-- The loop may clear bits of words that the bitmap does not have. -/
def freeFaults (p : ProducerInfo) (slab : Int) (count : Nat) : List Event :=
  if (List.range count).all fun i => inside p.slabAvailabilityFlag (slab + i) then []
  else [.fault .outOfBounds]

/-! ## Messages -/

def onRecvProducerAdd (s : State) (peer : Nat) (ip : Text) (port : Int) (nslabs : Fin (2 ^ 31))
    (addr : BitVec 64) (rdmakey : Nat) : State × List Event :=
  match s.peers peer with
  | some _ => fail s .assertPeer
  | none =>
      let (s, id) := getProducerId s ip port
      let ptr := s.producers.next
      let p : ProducerInfo :=
        { lstptr := none, ip := ip, port := port, rdmakey := rdmakey, nslabs := nslabs
          availableSlabs := nslabs, memaddr := addr, id := id
          slabAvailabilityFlag := initBitmap nslabs }
      let s := { s with
        producers := s.producers.alloc p
        peers := Function.update s.peers peer (some ptr) }
      let (s, p) := producerlistAdd s ptr p
      (s, mapFaults id ++ [.added p.ip p.port p.id, .done peer])

def onRecvProducerRem (s : State) (peer : Nat) : State × List Event :=
  match s.peers peer with
  | none => fail s .dangling
  | some ptr =>
      match s.producers.cell ptr with
      | none => fail s .dangling
      | some p =>
          let s := { s with
            producers := s.producers.write ptr { p with nslabs := 0, availableSlabs := 0 }
            peers := Function.update s.peers peer none }
          match producerlistRemove s p.lstptr with
          | .error f => fail s f
          | .ok s => (s, [.done peer])

/-- The loop of `on_recv_slabs_add`. Every round but the last grants a slab, so
`requested + 1` rounds are enough. -/
def slabsAddLoop (peer : Nat) : Nat → Nat → State → State × List Event
  | 0, _, s => (s, [.doneSlabAdd peer])
  | fuel + 1, requested, s =>
      if requested = 0 then (s, [.doneSlabAdd peer])
      else
        match allocNextSlabs s peer requested with
        | .error f => fail s f
        | .ok none => (s, [.doneSlabAdd peer])
        | .ok (some (s, p, grant)) =>
            let (s, evs) := slabsAddLoop peer fuel (requested - grant.nslabs) s
            (s, .slabAddPartial p.ip p.port p.rdmakey grant :: evs)

def onRecvSlabsAdd (s : State) (peer nslabs : Nat) : State × List Event :=
  slabsAddLoop peer (nslabs + 1) nslabs s

/-- The grant that a release gives back. -/
def releasedGrant (s : State) (peer : Nat) (id : Int) (addr : BitVec 64) (nslabs : Nat) :
    Option Grant :=
  s.grants.find? fun g => g.peer == peer && (g.id : Int) == id && g.addr == addr && g.nslabs == nslabs

def forget (s : State) (grant : Option Grant) : State :=
  match grant with
  | none => s
  | some g => { s with grants := s.grants.erase g }

def onRecvSlabsRem (s : State) (peer : Nat) (id : Int) (addr : BitVec 64) (nslabs : Nat) :
    State × List Event :=
  let s := forget s (releasedGrant s peer id addr nslabs)
  match findProducerById s id with
  | none => (s, [.done peer])
  | some ptr =>
      match s.producers.cell ptr with
      | none => fail s .dangling
      | some p =>
          ({ s with producers := s.producers.write ptr (freeSlabs nslabs (slabFromAddr p addr) p) },
            freeFaults p (slabFromAddr p addr) nslabs ++ [.done peer])

/-! ## The system -/

instance neZero_intRange : NeZero (2 ^ 31 : Nat) := ⟨by decide⟩

inductive Message where
  | producerAdd (peer : Nat) (ip : Text) (port : Int) (nslabs : Fin (2 ^ 31)) (addr : BitVec 64)
      (rdmakey : Nat)
  | producerRem (peer : Nat)
  | slabAdd (peer nslabs : Nat)
  | slabRem (peer : Nat) (id : Int) (addr : BitVec 64) (nslabs : Nat)
deriving DecidableEq, Repr

/-- `on_completion` of a receive. The case of `MSG_SLAB_REM` has no `break`, so it
runs into the default case. -/
def onCompletion (s : State) : Message → State × List Event
  | .producerAdd peer ip port nslabs addr rdmakey =>
      onRecvProducerAdd s peer ip port nslabs addr rdmakey
  | .producerRem peer => onRecvProducerRem s peer
  | .slabAdd peer nslabs => onRecvSlabsAdd s peer nslabs
  | .slabRem peer id addr nslabs =>
      let (s, evs) := onRecvSlabsRem s peer id addr nslabs
      if s.halted then (s, evs) else (s, evs ++ [.fault .bug])

def coordinator : System State Message Event where
  init s := s = initState
  step s m := if s.halted then none else some (onCompletion s m)

end Memtrade.Coordinator
