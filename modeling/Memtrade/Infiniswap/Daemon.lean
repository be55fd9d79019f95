import Memtrade.Lib.FirstFit
import Memtrade.Lib.System
import Mathlib.Logic.Function.Basic

/-!
# The daemon that serves chunks of memory

`rdma_session` with its connections. Handlers of messages and of connection events are
one step each, and so is a round of the `free_mem` thread. `-1` in `sess_chunk_map` is
`none`; `conn_map` keeps the integers of the source, since what is stored in it may not
have been initialised. Addresses and keys of memory regions are left out, a key being set
or not.
-/

namespace Memtrade.Infiniswap

def maxClient : Nat := 32

/-- `MAX_FREE_MEM_GB`, which is `MAX_MR_SIZE_GB` as well. -/
def maxFreeMemGb : Nat := 32

def freeMemEvictThreshold : Int := 10

def freeMemExpandThreshold : Int := 20

def memEvictHitThreshold : Int := 1

def memExpandHitThreshold : Int := 20

inductive ConnState where
  | idle
  | connected
  | mapped
deriving DecidableEq, Repr

/-- `struct rdma_remote_mem`; `mallocMap` tells the chunks with `CHUNK_MALLOCED`. -/
structure RdmaRemoteMem where
  sizeGb : Int
  mappedSize : Int
  connMap : Fin maxFreeMemGb → Int
  mallocMap : Fin maxFreeMemGb → Bool

structure RdmaSession where
  connsState : Fin maxClient → ConnState
  connNum : Int
  rdmaRemote : RdmaRemoteMem

structure Connection where
  connIndex : Int
  sessChunkMap : Fin maxFreeMemGb → Option (Fin maxFreeMemGb)
  mappedChunkSize : Int

inductive MsgType where
  | done
  | info
  | infoSingle
  | freeSize
deriving DecidableEq, Repr

structure Message where
  type : MsgType
  sizeGb : Int
  rkey : Fin maxFreeMemGb → Bool

/-- The chunks in the order in which every loop goes through them. -/
def chunks : List (Fin maxFreeMemGb) := List.finRange maxFreeMemGb

namespace RdmaRemoteMem

/-- Allocated and unmapped. -/
def unmapped (r : RdmaRemoteMem) (i : Fin maxFreeMemGb) : Bool := r.mallocMap i && r.connMap i == -1

def setConn (r : RdmaRemoteMem) (i : Fin maxFreeMemGb) (conn : Int) : RdmaRemoteMem :=
  { r with connMap := Function.update r.connMap i conn }

def setMalloc (r : RdmaRemoteMem) (i : Fin maxFreeMemGb) (malloced : Bool) : RdmaRemoteMem :=
  { r with mallocMap := Function.update r.mallocMap i malloced }

end RdmaRemoteMem

namespace RdmaSession

/-- `rdma_session_init` with `free_mem_g` as `get_free_mem` has it. -/
def init (freeMemG : Int) : RdmaSession :=
  let freeMemG :=
    if freeMemG > freeMemExpandThreshold then
      freeMemG - (freeMemEvictThreshold + freeMemExpandThreshold) / 2
    else if freeMemG > freeMemEvictThreshold then freeMemG - freeMemEvictThreshold
    else 0
  let freeMemG := if freeMemG > maxFreeMemGb then (maxFreeMemGb : Int) else freeMemG
  { connsState := fun _ => .idle
    connNum := 0
    rdmaRemote := ⟨freeMemG, 0, fun _ => -1, fun i => decide ((i : Int) < freeMemG)⟩ }

/-- A store to `conns_state`; one outside of the array is not seen. -/
def setState (sess : RdmaSession) (index : Int) (state : ConnState) : RdmaSession :=
  if h : index.toNat < maxClient then
    if 0 ≤ index then
      { sess with connsState := Function.update sess.connsState ⟨index.toNat, h⟩ state }
    else sess
  else sess

/-- `build_connection`. Without an idle entry `conn_index` stays what `malloc` left
there, `left`. -/
def buildConnection (sess : RdmaSession) (left : Int) : RdmaSession × Connection :=
  match (List.finRange maxClient).find? fun i => sess.connsState i == .idle with
  | some i =>
      ({ sess with
          connsState := Function.update sess.connsState i .connected, connNum := sess.connNum + 1 },
        ⟨i, fun _ => none, 0⟩)
  | none => ({ sess with connNum := sess.connNum + 1 }, ⟨left, fun _ => none, 0⟩)

/-- An iteration of the loop of `destroy_connection`. -/
def unmapChunk (conn : Connection) (r : RdmaRemoteMem) (i : Fin maxFreeMemGb) : RdmaRemoteMem :=
  match conn.sessChunkMap i with
  | none => r
  | some index => r.setConn index (-1)

def destroyConnection (sess : RdmaSession) (conn : Connection) : RdmaSession :=
  let sess :=
    if conn.mappedChunkSize > 0 then
      let r := chunks.foldl (unmapChunk conn) sess.rdmaRemote
      { sess with rdmaRemote := { r with mappedSize := r.mappedSize - conn.mappedChunkSize } }
    else sess
  let sess := sess.setState conn.connIndex .idle
  { sess with connNum := sess.connNum - 1 }

/-- An iteration of the loops of `send_mr` and `send_single_mr` that finds a chunk; the
last component is `rkey` of the message. -/
def mapChunk (p : RdmaRemoteMem × Connection × (Fin maxFreeMemGb → Bool)) (i : Fin maxFreeMemGb) :
    RdmaRemoteMem × Connection × (Fin maxFreeMemGb → Bool) :=
  (p.1.setConn i p.2.1.connIndex,
    { p.2.1 with sessChunkMap := Function.update p.2.1.sessChunkMap i (some i) },
    Function.update p.2.2 i true)

/-- The loop of `send_mr`, and that of `send_single_mr` with the size 1. -/
def mapChunks (size : Int) (r : RdmaRemoteMem) (conn : Connection) :
    RdmaRemoteMem × Connection × (Fin maxFreeMemGb → Bool) :=
  (markFirst (fun p i => p.1.unmapped i) mapChunk size chunks 0 (r, conn, fun _ => false)).1

/-- What `send_mr` and `send_single_mr` share: `size` chunks are mapped and counted, and
the keys of these are sent. -/
def sendChunks (sess : RdmaSession) (conn : Connection) (size : Int) (type : MsgType) (sizeGb : Int) :
    RdmaSession × Connection × Message :=
  let p := mapChunks size sess.rdmaRemote conn
  ({ sess with rdmaRemote := { p.1 with mappedSize := p.1.mappedSize + size } },
    { p.2.1 with mappedChunkSize := p.2.1.mappedChunkSize + size }, ⟨type, sizeGb, p.2.2⟩)

def sendMr (sess : RdmaSession) (conn : Connection) (size : Int) :
    RdmaSession × Connection × Message :=
  sess.sendChunks conn size .info size

def sendSingleMr (sess : RdmaSession) (conn : Connection) (clientChunkIndex : Int) :
    RdmaSession × Connection × Message :=
  sess.sendChunks conn 1 .infoSingle clientChunkIndex

def sendFreeMemSize (sess : RdmaSession) : Message :=
  ⟨.freeSize, sess.rdmaRemote.sizeGb - sess.rdmaRemote.mappedSize, fun _ => false⟩

/-- An iteration of the loop of `recv_done`; a chunk that is not held is an index outside
of the arrays. -/
def stopChunk (msg : Message) (p : RdmaRemoteMem × Connection) (i : Fin maxFreeMemGb) :
    Option (RdmaRemoteMem × Connection) :=
  if msg.rkey i then
    match p.2.sessChunkMap i with
    | none => none
    | some index =>
        some ((p.1.setConn index (-1)).setMalloc index false,
          { p.2 with sessChunkMap := Function.update p.2.sessChunkMap i none })
  else some p

def recvDone (sess : RdmaSession) (conn : Connection) (msg : Message) :
    Option (RdmaSession × Connection) :=
  match chunks.foldlM (stopChunk msg) (sess.rdmaRemote, conn) with
  | none => none
  | some (r, conn) =>
      let r := { r with sizeGb := r.sizeGb - msg.sizeGb, mappedSize := r.mappedSize - msg.sizeGb }
      let conn := { conn with mappedChunkSize := conn.mappedChunkSize - msg.sizeGb }
      let sess := { sess with rdmaRemote := r }
      some (if conn.mappedChunkSize = 0 then sess.setState conn.connIndex .connected else sess, conn)

/-- The loop of `evict_mem`, which frees unmapped chunks. When there are too few of them
the source goes on to ask clients to stop using chunks; what these stop is told by `DONE`. -/
def evictMem (sess : RdmaSession) (stopG : Int) : RdmaSession :=
  let p := markFirst RdmaRemoteMem.unmapped (fun r i => r.setMalloc i false) stopG chunks 0
    sess.rdmaRemote
  let r := p.1
  let freedG := p.2
  if freedG = stopG then { sess with rdmaRemote := { r with sizeGb := r.sizeGb - stopG } }
  else { sess with rdmaRemote := { r with sizeGb := r.sizeGb - freedG } }

/-- The loop of `free_mem` that allocates chunks, with the count that follows it. -/
def expandMem (sess : RdmaSession) (expandSizeG : Int) : RdmaSession :=
  let r := (markFirst (fun r i => !r.mallocMap i) (fun r i => r.setMalloc i true) expandSizeG
    chunks 0 sess.rdmaRemote).1
  { sess with rdmaRemote := { r with sizeGb := r.sizeGb + expandSizeG } }

end RdmaSession

/-- The locals of `free_mem`. -/
structure FreeMem where
  lastFreeMemG : Int
  evictHitCount : Int
  expandHitCount : Int

/-- A round of `free_mem`. The filter is computed in floating point; its result is
given. -/
def FreeMem.round (m : FreeMem) (sess : RdmaSession) (filteredFreeMemG : Int) :
    FreeMem × RdmaSession :=
  let last := filteredFreeMemG
  if filteredFreeMemG < freeMemEvictThreshold then
    let evictHitCount := m.evictHitCount + 1
    if evictHitCount ≥ memEvictHitThreshold then
      let stopSizeG := freeMemEvictThreshold - last
      let stopSizeG := if sess.rdmaRemote.sizeGb < stopSizeG then sess.rdmaRemote.sizeGb else stopSizeG
      (⟨last + stopSizeG, 0, 0⟩, if stopSizeG > 0 then sess.evictMem stopSizeG else sess)
    else (⟨last, evictHitCount, 0⟩, sess)
  else if filteredFreeMemG > freeMemExpandThreshold then
    let expandHitCount := m.expandHitCount + 1
    if expandHitCount ≥ memExpandHitThreshold then
      let expandSizeG := last - freeMemExpandThreshold
      let expandSizeG :=
        if expandSizeG + sess.rdmaRemote.sizeGb > maxFreeMemGb then
          maxFreeMemGb - sess.rdmaRemote.sizeGb
        else expandSizeG
      (⟨last - expandSizeG, 0, 0⟩, sess.expandMem expandSizeG)
    else (⟨last, 0, expandHitCount⟩, sess)
  else (⟨last, m.evictHitCount, m.expandHitCount⟩, sess)

/-! ## The daemon as a system -/

/-- The session with the connections on the heap; `running` is cleared with the last of
these. -/
structure Daemon where
  session : RdmaSession
  clients : List Connection
  freeMem : FreeMem
  running : Bool

/-- A client is named by its place in the list. -/
inductive DaemonAction where
  | connect (left : Int)
  | established (client : Nat)
  | query (client : Nat)
  | bind (client : Nat) (size : Int)
  | bindSingle (client : Nat) (clientChunkIndex : Int)
  | done (client : Nat) (sizeGb : Int) (rkey : Fin maxFreeMemGb → Bool)
  | disconnect (client : Nat)
  | round (filteredFreeMemG : Int)

/-- A `DONE` names chunks that the client holds, and as many as it says. -/
def Connection.answers (conn : Connection) (msg : Message) : Bool :=
  (chunks.all fun i => !msg.rkey i || (conn.sessChunkMap i).isSome) &&
    msg.sizeGb == chunks.countP msg.rkey

namespace Daemon

/-- `on_completion` for the messages, `on_event` for the connections; the messages sent
are the events. -/
def step (d : Daemon) : DaemonAction → Option (Daemon × List Message)
  | .connect left =>
      let r := d.session.buildConnection left
      some ({ d with session := r.1, clients := r.2 :: d.clients }, [])
  | .established k => d.clients[k]?.map fun _ => (d, [d.session.sendFreeMemSize])
  | .query k => d.clients[k]?.map fun _ => (d, [d.session.sendFreeMemSize])
  | .bind k size => d.clients[k]?.map fun conn =>
      let r := d.session.sendMr conn size
      ({ d with
          session := r.1.setState conn.connIndex .mapped, clients := d.clients.set k r.2.1 }, [r.2.2])
  | .bindSingle k index => d.clients[k]?.map fun conn =>
      let r := d.session.sendSingleMr conn index
      ({ d with
          session := r.1.setState conn.connIndex .mapped, clients := d.clients.set k r.2.1 }, [r.2.2])
  | .done k sizeGb rkey => d.clients[k]?.bind fun conn =>
      if conn.answers ⟨.done, sizeGb, rkey⟩ then
        (d.session.recvDone conn ⟨.done, sizeGb, rkey⟩).map fun r =>
          ({ d with session := r.1, clients := d.clients.set k r.2 }, [])
      else none
  | .disconnect k => d.clients[k]?.map fun conn =>
      let sess := d.session.destroyConnection conn
      ({ d with
          session := sess, clients := d.clients.eraseIdx k,
          running := d.running && sess.connNum != 0 }, [])
  | .round filteredFreeMemG =>
      if d.running then
        let r := d.freeMem.round d.session filteredFreeMemG
        some ({ d with freeMem := r.1, session := r.2 }, [])
      else none

end Daemon

/-- The daemon after `rdma_session_init`. -/
def daemon : System Daemon DaemonAction Message where
  init d := ∃ freeMemG last : Int, d = ⟨.init freeMemG, [], ⟨last, 0, 0⟩, true⟩
  step := Daemon.step

end Memtrade.Infiniswap
