import Memtrade.Infiniswap.Contexts
import Memtrade.Lib.WriteThrough

/-!
# The block device

The device over its servers: requests go to the chunk of remote memory that is mapped
for their pages, or to the backup disk, which gets every write. `IS_request`,
`client_write_done`, `evict_handler` and `IS_disconnect_handler` are cut wherever another
thread can change what they have read: at each look at a map, at each load and store of a
bitmap word, and at their waits. The disk carries out an operation when it completes it.
Offsets and lengths are in pages.
-/

namespace Memtrade.Infiniswap

/-- Pages of `ONE_GB`. -/
def pagesPerChunk : Nat := 262144

def maxSglLen : Nat := 32

def maxMrSizeGb : Nat := 32

/-- A context: its server, the connection whose pool for that server it is in, and its
place in the pool. -/
structure CtxId where
  server : Nat
  conn : Nat
  index : Nat
deriving DecidableEq, Repr

/-- `enum cb_state`. -/
inductive CbState where
  | idle
  | connected
  | mapped
  | evicting
  | fail
deriving DecidableEq, Repr

/-- Where `IS_disconnect_handler` is with a server: in the loop that unmaps its chunks, before
`IS_bitmap_init` of one or after it; in the loop over the contexts, with those it is done with,
before it looks at the next one or with what it has found there; in the loop that forgets the
chunks; behind the release of the contexts. -/
inductive Phase where
  | up
  | wiping (i : Nat)
  | unmapping (i sessChunkIndex : Nat)
  | flushing (done : List CtxId)
  | handling (done : List CtxId) (ctx : CtxId) (inFlight : InFlight) (req : Option Nat)
  | closing (i : Nat)
  | closed
  | down
deriving DecidableEq, Repr

/-- What the session knows of its servers. `evicting` is the chunk of the device that a remote
chunk in an eviction had, `waited` are the contexts that `IS_chunk_wait_in_flight_requests` has
passed on a server, `evictList` are the chunks that `evict_handler` has still to forget, and
`binding` counts the calls of `IS_single_chunk_map` that wait for their chunk. -/
structure Maps where
  rdmaOn : Bool
  cbState : Nat → CbState
  phase : Nat → Phase
  cbIndexMap : Nat → Option Nat
  chunkMapCbChunk : Nat → Option Nat
  chunkMap : Chunk → Option Nat
  evicting : Chunk → Option Nat
  waited : Nat → List CtxId
  evictList : List (Nat × Nat)
  binding : Nat

/-- An array `bitmap_g`: each mapping of a remote chunk allocates a new one. -/
structure BitmapG where
  chunk : Chunk
  gen : Nat
deriving DecidableEq, Repr

/-- `IS_bitmap_group_set` or `IS_bitmap_group_clear` on its way: the next page, how many are
left, and the word that has been loaded for the next one. -/
structure GroupLoop where
  array : BitmapG
  page : Nat
  left : Nat
  word : Option (BitVec 32)
deriving DecidableEq, Repr

/-- Where `IS_request` is: what it has read of the maps; waiting for a context in
`IS_transfer_chunk`; before `IS_mq_request_stackbd`; or with the bits of a write over two
chunks. -/
inductive Progress where
  | start
  | server (cbIndex : Nat)
  | chunk (chunk : Chunk)
  | test (chunk : Chunk)
  | transfer (chunk : Chunk)
  | disk
  | firstOfTwo (cbIndex : Option Nat)
  | bothOfTwo (cbIndex cb2Index : Option Nat)
  | clearFirst (loop : GroupLoop) (cb2Index : Option Nat)
  | second (cb2Index : Option Nat)
  | clearSecond (loop : GroupLoop)
deriving DecidableEq, Repr

/-- `client_write_done` behind `CTX_IDLE`. The operation is history, and so is the number of
the array that its remote chunk had then. -/
structure Completion where
  op : RdmaOp CtxId
  gen : Nat
  loop : Option GroupLoop
deriving DecidableEq, Repr

/-- An operation handed to the disk: the backup write of a context, or one page of a request,
which ends with its last page. -/
inductive Bio where
  | backup (ctx : CtxId) (range : PageRange)
  | page (req page : Nat) (write last : Bool)
deriving DecidableEq, Repr

/-- The requests and what is on its way for them. `marking` are the operations whose context
is marked and that are not posted yet, `flushed` those of contexts that
`IS_disconnect_handler` has dealt with. The newest bio comes first. -/
structure Traffic (D : Type) where
  store : IoStore D
  progress : Nat → Option Progress
  contexts : Contexts CtxId D
  marking : List (RdmaOp CtxId)
  flushed : List (RdmaOp CtxId)
  completing : List Completion
  bios : List Bio

structure Device (D : Type) where
  maps : Maps
  gen : Chunk → Nat
  words : BitmapG → Nat → BitVec 32
  remote : Chunk → Nat → D
  disk : Nat → D
  io : Traffic D

/-- `left` is what the pages of a request have once it has ended. -/
inductive DeviceAction (D : Type) where
  | request (r : IoRequest D)
  | proceed (req : Nat)
  | getCtx (req : Nat) (ctx : CtxId)
  | post (op : RdmaOp CtxId)
  | rdmaDone (op : RdmaOp CtxId)
  | writeDone (e : Completion) (left : D)
  | bioDone (i : Nat) (left : D)
  | connect (server : Nat)
  | bind
  | map (selectChunk : Nat) (chunk : Chunk) (memory : Nat → D)
  | mapped
  | evict (chunk : Chunk)
  | waitCtx (ctx : CtxId)
  | evicted (chunk : Chunk)
  | evictedAll (server sessChunkIndex : Nat)
  | disconnect (server : Nat)
  | disconnecting (server : Nat)
  | flush (ctx : CtxId)
  | flushCtx (server : Nat) (left : D)

variable {D : Type}

/-- The chunk of the first page. -/
def gbIndex (r : IoRequest D) : Nat := r.start / pagesPerChunk

/-- The chunk of the last page. -/
def endIndex (r : IoRequest D) : Nat := (r.start + r.len - 1) / pagesPerChunk

def chunkOffset (r : IoRequest D) : Nat := r.start % pagesPerChunk

/-! ## Words of a bitmap -/

def wordSet (w : BitVec 32) (i : Nat) : BitVec 32 := w ||| 1#32 <<< (i % 32)

def wordClear (w : BitVec 32) (i : Nat) : BitVec 32 := w &&& ~~~(1#32 <<< (i % 32))

def wordTest (w : BitVec 32) (i : Nat) : Bool := (w &&& 1#32 <<< (i % 32)) != 0#32

/-! ## Contexts in smaller steps -/

namespace Contexts

variable {κ : Type} [DecidableEq κ]

/-- `IS_rdma_write` and `IS_rdma_read` up to the mark `in_flight`, with a context of the free
list. -/
def mark (p : Contexts κ D) (op : RdmaOp κ) : Contexts κ D :=
  match op.kind with
  | .read =>
      (p.take op.ctx).modify op.ctx fun x =>
        { x with req := some op.serial, chunkIndex := some op.chunk.index, inFlight := .read }
  | .write =>
      (p.take op.ctx).modify op.ctx fun x =>
        { x with
          req := some op.serial, offset := op.offset, len := op.len, chunkPtr := some op.chunk,
          chunkIndex := some op.chunk.index, inFlight := .write }

/-- `IS_rdma_write` and `IS_rdma_read` when they find `rdma_on` off. -/
def giveUp (p : Contexts κ D) (c : κ) : Contexts κ D :=
  (p.modify c fun x => { x with inFlight := .idle }).insertCtx c

/-- `mem_gather`, the backup write and `ib_post_send` of `IS_rdma_write`. -/
def postWrite (p : Contexts κ D) (op : RdmaOp κ) (data : Nat → D) : Contexts κ D :=
  { p.modify op.ctx fun x => { x with rdmaBuf := data } with
    diskOps := op.ctx :: p.diskOps
    rdmaOps := op :: p.rdmaOps }

/-- `ib_post_send` of `IS_rdma_read`. -/
def postRead (p : Contexts κ D) (op : RdmaOp κ) : Contexts κ D := { p with rdmaOps := op :: p.rdmaOps }

theorem rdmaWrite_eq (p : Contexts κ D) (op : RdmaOp κ) (hkind : op.kind = .write) (rdmaOn : Bool)
    (data : Nat → D) :
    p.rdmaWrite op.ctx rdmaOn true op.serial op.chunk op.offset op.len data =
      if rdmaOn then ((p.mark op).postWrite op data, false) else ((p.mark op).giveUp op.ctx, true) := by
  obtain ⟨serial, kind, ctx, chunk, offset, len⟩ := op
  cases hkind
  cases rdmaOn <;> rfl

theorem rdmaRead_eq (p : Contexts κ D) (op : RdmaOp κ) (hkind : op.kind = .read) (hlen : op.len = 1)
    (rdmaOn : Bool) :
    p.rdmaRead op.ctx rdmaOn true op.serial op.chunk op.offset =
      if rdmaOn then ((p.mark op).postRead op, false) else ((p.mark op).giveUp op.ctx, true) := by
  obtain ⟨serial, kind, ctx, chunk, offset, len⟩ := op
  cases hkind
  cases hlen
  cases rdmaOn <;> rfl

/-- `client_write_done` up to `CTX_IDLE`. -/
def writeIdle (p : Contexts κ D) (op : RdmaOp κ) : Contexts κ D :=
  { p.modify op.ctx fun x => { x with inFlight := .idle } with rdmaOps := p.rdmaOps.erase op }

/-- `client_write_done` behind the bitmap, with the request that it ends. -/
def writeEnd (p : Contexts κ D) (c : κ) : Contexts κ D × Option Nat :=
  (p.modify c fun x => { x with chunkIndex := none, chunkPtr := none, req := none }, (p.ctx c).req)

theorem clientWriteDone_eq (p : Contexts κ D) (op : RdmaOp κ) {chunk : Chunk}
    (hchunk : (p.ctx op.ctx).chunkPtr = some chunk) :
    p.clientWriteDone op =
      (((p.writeIdle op).writeEnd op.ctx).1,
        some (chunk, (p.ctx op.ctx).offset, (p.ctx op.ctx).len),
        ((p.writeIdle op).writeEnd op.ctx).2) := by
  simp [clientWriteDone, hchunk, writeIdle, writeEnd, modify]

end Contexts

/-! ## The disk -/

namespace Bio

def range : Bio → PageRange
  | .backup _ range => range
  | .page _ p _ _ => ⟨p, 1⟩

def writes : Bio → Bool
  | .backup _ _ => true
  | .page _ _ write _ => write

/-- The request that it carries a page of. -/
def req? : Bio → Option Nat
  | .backup _ _ => none
  | .page req _ _ _ => some req

/-- The request that it ends. -/
def ends? : Bio → Option Nat
  | .page req _ _ true => some req
  | _ => none

/-- The context that it returns. -/
def ctx? : Bio → Option CtxId
  | .backup ctx _ => some ctx
  | .page _ _ _ _ => none

end Bio

/-- The bios of `stackbd_make_request2` and `stackbd_make_request4`: one for each page, and
only the last one has an `end_io`. -/
def requestBios (req : Nat) (r : IoRequest D) : List Bio :=
  ((List.range r.len).map fun i => Bio.page req (r.start + i) r.data.isSome (i + 1 == r.len)).reverse

namespace Traffic

/-- `IS_mq_request_stackbd` and `IS_mq_request_stackbd2`. -/
def stackbd (io : Traffic D) (req : Nat) : Traffic D :=
  match io.store.pending req with
  | none => io
  | some r => { io with bios := requestBios req r ++ io.bios }

/-- What a write of the request puts on its page `p`. -/
def pageData (io : Traffic D) (req p : Nat) : Option D :=
  match io.store.pending req with
  | none => none
  | some r => r.data.map fun f => f (p - r.start)

/-- What an operation on the disk is going to write: a backup write has what is in `rdma_buf`. -/
def written (io : Traffic D) : Bio → Option (PageWrite D)
  | .backup ctx range => some ⟨range, (io.contexts.ctx ctx).rdmaBuf⟩
  | .page req p _ _ => (io.pageData req p).map fun d => ⟨⟨p, 1⟩, fun _ => d⟩

end Traffic

namespace Maps

/-- The remote chunk of a chunk of the device, from `cb_index_map` and
`chunk_map_cb_chunk`. -/
def route (m : Maps) (g : Nat) : Option Chunk :=
  match m.cbIndexMap g with
  | none => none
  | some cbIndex =>
      match m.chunkMapCbChunk g with
      | none => none
      | some chunkIndex => some ⟨cbIndex, chunkIndex⟩

def setPhase (m : Maps) (server : Nat) (phase : Phase) : Maps :=
  { m with phase := Function.update m.phase server phase }

end Maps

namespace Device

/-- What the disk has once everything has come through that is handed to it. -/
def backing (dv : Device D) : Nat → D := settled dv.disk (dv.io.bios.filterMap dv.io.written)

def setProgress (dv : Device D) (req : Nat) (progress : Option Progress) : Device D :=
  { dv with io.progress := Function.update dv.io.progress req progress }

/-! ## Bitmaps -/

/-- The array that a remote chunk has now. -/
def bitmapG (dv : Device D) (chunk : Chunk) : BitmapG := ⟨chunk, dv.gen chunk⟩

/-- `IS_bitmap_test`. -/
def bitmapTest (dv : Device D) (chunk : Chunk) (i : Nat) : Bool :=
  wordTest (dv.words (dv.bitmapG chunk) (i / 32)) i

/-- `IS_bitmap_init`. -/
def bitmapInit (dv : Device D) (chunk : Chunk) : Device D :=
  { dv with words := Function.update dv.words (dv.bitmapG chunk) fun _ => 0#32 }

/-- One load, or one store with the rest of its turn, of `IS_bitmap_group_set` and
`IS_bitmap_group_clear`. -/
def groupStep (dv : Device D) (change : BitVec 32 → Nat → BitVec 32) (l : GroupLoop) :
    Device D × GroupLoop :=
  match l.word with
  | none => (dv, { l with word := some (dv.words l.array (l.page / 32)) })
  | some w =>
      ({ dv with
        words := Function.update dv.words l.array
          (Function.update (dv.words l.array) (l.page / 32) (change w l.page)) },
        { l with page := l.page + 1, left := l.left - 1, word := none })

/-! ## Requests -/

/-- The array of the remote chunk that a write over two chunks finds for the chunk `g`. Without
an index the access is outside of `chunk_list`. -/
def groupClear (dv : Device D) (cbIndex g page len : Nat) : Option GroupLoop :=
  match dv.maps.chunkMapCbChunk g with
  | none => none
  | some chunkIndex => some ⟨dv.bitmapG ⟨cbIndex, chunkIndex⟩, page, len, none⟩

/-- One step of `IS_request`. -/
def isRequest (dv : Device D) (r : IoRequest D) : Progress → Option (Device D × Progress)
  | .start =>
      if gbIndex r = endIndex r then
        match dv.maps.cbIndexMap (gbIndex r) with
        | none => some (dv, .disk)
        | some cbIndex => some (dv, .server cbIndex)
      else some (dv, .firstOfTwo (dv.maps.cbIndexMap (gbIndex r)))
  | .server cbIndex =>
      match dv.maps.chunkMapCbChunk (gbIndex r) with
      | none => some (dv, .disk)
      | some chunkIndex => some (dv, .chunk ⟨cbIndex, chunkIndex⟩)
  | .chunk chunk =>
      if dv.maps.rdmaOn then
        if r.data.isSome then some (dv, .transfer chunk) else some (dv, .test chunk)
      else some (dv, .disk)
  | .test chunk =>
      if dv.bitmapTest chunk (chunkOffset r) then some (dv, .transfer chunk) else some (dv, .disk)
  | .firstOfTwo cbIndex => some (dv, .bothOfTwo cbIndex (dv.maps.cbIndexMap (endIndex r)))
  | .bothOfTwo none cb2Index => some (dv, .second cb2Index)
  | .bothOfTwo (some cbIndex) cb2Index =>
      if r.data.isSome then
        (dv.groupClear cbIndex (gbIndex r) (chunkOffset r) (pagesPerChunk - chunkOffset r)).map
          fun l => (dv, .clearFirst l cb2Index)
      else some (dv, .second cb2Index)
  | .clearFirst l cb2Index =>
      if l.left = 0 then some (dv, .second cb2Index)
      else some ((dv.groupStep wordClear l).1, .clearFirst (dv.groupStep wordClear l).2 cb2Index)
  | .second none => some (dv, .disk)
  | .second (some cb2Index) =>
      if r.data.isSome then
        (dv.groupClear cb2Index (endIndex r) 0 (chunkOffset r + r.len - pagesPerChunk)).map
          fun l => (dv, .clearSecond l)
      else some (dv, .disk)
  | .clearSecond l =>
      if l.left = 0 then some (dv, .disk)
      else some ((dv.groupStep wordClear l).1, .clearSecond (dv.groupStep wordClear l).2)
  | .transfer _ => none
  | .disk => none

/-- The disk gets a request that `IS_request` has brought there. -/
def proceed (dv : Device D) (req : Nat) : Option (Device D) :=
  match dv.io.store.pending req, dv.io.progress req with
  | some _, some .disk =>
      let dv' := dv.setProgress req none
      some { dv' with io := dv'.io.stackbd req }
  | some r, some progress =>
      (dv.isRequest r progress).map fun p => p.1.setProgress req (some p.2)
  | _, _ => none

/-- What the block layer submits: at most `MAX_SGL_LEN` pages, a single one for a read, and
none that is still in progress. -/
def submits (dv : Device D) (r : IoRequest D) : Bool :=
  dv.io.store.admits r && decide (r.len ≤ maxSglLen) && (r.data.isSome || r.len == 1)

def request (dv : Device D) (r : IoRequest D) : Device D :=
  { dv with
    io.store := dv.io.store.accept r
    io.progress := Function.update dv.io.progress dv.io.store.next (some .start) }

/-- The operation of a request with the context `c`. -/
def transferOp (req : Nat) (r : IoRequest D) (c : CtxId) (chunk : Chunk) : RdmaOp CtxId :=
  ⟨req, if r.data.isSome then .write else .read, c, chunk, chunkOffset r, r.len⟩

/-- `IS_get_ctx` has a context, which is marked. -/
def getCtx (dv : Device D) (req : Nat) (c : CtxId) : Option (Device D) :=
  match dv.io.store.pending req, dv.io.progress req with
  | some r, some (.transfer chunk) =>
      if c.server = chunk.server ∧ c ∈ dv.io.contexts.free then
        let op := transferOp req r c chunk
        let dv' := dv.setProgress req none
        some { dv' with
          io.contexts := dv.io.contexts.mark op
          io.marking := op :: dv.io.marking }
      else none
  | _, _ => none

/-- `IS_rdma_write` and `IS_rdma_read` behind the mark. -/
def post (dv : Device D) (op : RdmaOp CtxId) : Option (Device D) :=
  if op ∈ dv.io.marking then
    let dv' : Device D := { dv with io.marking := dv.io.marking.erase op }
    if dv.maps.rdmaOn then
      match op.kind with
      | .read => some { dv' with io.contexts := dv.io.contexts.postRead op }
      | .write =>
          match dv.io.store.pending op.serial with
          | none => none
          | some r =>
              r.data.map fun f => { dv' with
                io.contexts := dv.io.contexts.postWrite op f
                io.bios := .backup op.ctx r.toPageRange :: dv.io.bios }
    else
      let io := dv'.io.stackbd op.serial
      some { dv' with io := { io with contexts := dv.io.contexts.giveUp op.ctx } }
  else none

/-! ## Completions -/

/-- `blk_mq_end_request`. -/
def finish (dv : Device D) (req : Nat) (value : D) : Device D × List (IoEvent D) :=
  ({ dv with io.store := (dv.io.store.finish req value).1 }, (dv.io.store.finish req value).2)

/-- The end of the request that a context holds; one that it does not hold is not ended. -/
def finishHeld (dv : Device D) (req : Option Nat) (value : D) : Device D × List (IoEvent D) :=
  match req with
  | none => (dv, [])
  | some req => dv.finish req value

/-- An RDMA read completes: the page has come into `rdma_buf` and goes on to the request. -/
def readDone (dv : Device D) (op : RdmaOp CtxId) : Device D × List (IoEvent D) :=
  let value := dv.remote op.chunk op.offset
  let contexts := dv.io.contexts.modify op.ctx fun x =>
    { x with rdmaBuf := overlay x.rdmaBuf 0 1 fun _ => value }
  let p := contexts.clientReadDone op
  { dv with
    io.contexts := p.1
    io.flushed := dv.io.flushed.erase op }.finishHeld p.2 value

/-- An RDMA write completes: `rdma_buf` has gone to the remote chunk, and `client_write_done`
begins. -/
def writeLanded (dv : Device D) (op : RdmaOp CtxId) : Device D :=
  let x := dv.io.contexts.ctx op.ctx
  { dv with
    remote := Function.update dv.remote op.chunk
      (overlay (dv.remote op.chunk) op.offset op.len x.rdmaBuf)
    io.flushed := dv.io.flushed.erase op
    io.contexts :=
      match x.chunkPtr with
      | none => { dv.io.contexts with rdmaOps := dv.io.contexts.rdmaOps.erase op }
      | some _ => dv.io.contexts.writeIdle op
    io.completing :=
      match x.chunkPtr with
      | none => dv.io.completing
      | some _ => ⟨op, dv.gen op.chunk, none⟩ :: dv.io.completing }

/-- The next step of `client_write_done`. -/
def writeDone (dv : Device D) (e : Completion) (left : D) : Option (Device D × List (IoEvent D)) :=
  let rest := dv.io.completing.erase e
  let x := dv.io.contexts.ctx e.op.ctx
  match e.loop with
  | none =>
      x.chunkPtr.map fun chunk =>
        ({ dv with
          io.completing := { e with loop := some ⟨dv.bitmapG chunk, x.offset, x.len, none⟩ } :: rest }, [])
  | some l =>
      if l.left = 0 then
        some ({ dv with
          io.completing := rest
          io.contexts := (dv.io.contexts.writeEnd e.op.ctx).1 }.finishHeld x.req left)
      else
        some ({ (dv.groupStep wordSet l).1 with
          io.completing := { e with loop := some (dv.groupStep wordSet l).2 } :: rest }, [])

/-- The disk completes an operation: `IS_stackbd_end_io3` for a backup write, and
`IS_stackbd_end_io` or `IS_stackbd_end_io2` for the last page of a request. -/
def bioDone (dv : Device D) (i : Nat) (left : D) : Option (Device D × List (IoEvent D)) :=
  dv.io.bios[i]?.map fun b =>
    let dv' : Device D := { dv with io.bios := dv.io.bios.eraseIdx i }
    match b with
    | .backup c range =>
        ({ dv' with
          disk := overlay dv.disk range.start range.len (dv.io.contexts.ctx c).rdmaBuf
          io.contexts := dv.io.contexts.stackbdEndIo3 c }, [])
    | .page req p write last =>
        let d := (dv.io.pageData req p).getD left
        let dv' := { dv' with disk := if write then overlay dv.disk p 1 (fun _ => d) else dv.disk }
        if last then dv'.finish req (dv.disk p) else (dv', [])

/-! ## Mappings and evictions -/

/-- `IS_single_chunk_init`. The server gives a chunk that it has not given yet, with `memory`
in it. -/
def map (dv : Device D) (selectChunk : Nat) (chunk : Chunk) (memory : Nat → D) : Device D :=
  { dv with
    gen := Function.update dv.gen chunk (dv.gen chunk + 1)
    words := Function.update dv.words ⟨chunk, dv.gen chunk + 1⟩ fun _ => 0#32
    remote := Function.update dv.remote chunk memory
    maps := { dv.maps with
      chunkMapCbChunk := Function.update dv.maps.chunkMapCbChunk selectChunk (some chunk.index)
      chunkMap := Function.update dv.maps.chunkMap chunk (some selectChunk)
      cbIndexMap := Function.update dv.maps.cbIndexMap selectChunk (some chunk.server)
      cbState := Function.update dv.maps.cbState chunk.server .mapped } }

end Device

namespace Maps

/-- `IS_send_bind_single`. -/
def bind (m : Maps) : Maps := { m with binding := m.binding + 1 }

/-- The end of `IS_single_chunk_map`: its wait may be over just before `IS_single_chunk_init`. -/
def mapped (m : Maps) : Maps := { m with rdmaOn := true, binding := m.binding - 1 }

/-- `evict_handler` up to its wait, for one remote chunk. -/
def evict (m : Maps) (chunk : Chunk) (g : Nat) : Maps :=
  { m with
    cbIndexMap := Function.update m.cbIndexMap g none
    chunkMap := Function.update m.chunkMap chunk none
    evicting := Function.update m.evicting chunk (some g)
    waited := Function.update m.waited chunk.server [] }

/-- `IS_chunk_wait_in_flight_requests` at a context: it starts again when a request is in
flight on a remote chunk that is to be stopped. -/
def waitCtx (m : Maps) (c : CtxId) (inFlight : InFlight) (chunkIndex : Option Nat) : Maps :=
  let busy :=
    match inFlight, chunkIndex with
    | .idle, _ => false
    | _, none => false
    | _, some index => (m.chunkMap ⟨c.server, index⟩).isNone
  { m with
    waited := Function.update m.waited c.server (if busy then [] else c :: m.waited c.server) }

/-- `evict_handler` after its wait, for one remote chunk. -/
def evicted (m : Maps) (chunk : Chunk) (g : Nat) : Maps :=
  { m with
    evicting := Function.update m.evicting chunk none
    evictList := (chunk.server, g) :: m.evictList
    cbState := Function.update m.cbState chunk.server .evicting }

/-- The last loop of `evict_handler` for one chunk of the device, and `CB_MAPPED`. -/
def evictedAll (m : Maps) (server g : Nat) : Maps :=
  { m with
    chunkMapCbChunk := Function.update m.chunkMapCbChunk g none
    evictList := m.evictList.erase (server, g)
    cbState := Function.update m.cbState server .mapped }

/-- `IS_disconnect_handler` up to its first loop. -/
def disconnect (m : Maps) (server : Nat) : Maps :=
  if m.cbState server = .connected then
    { m.setPhase server .down with cbState := Function.update m.cbState server .fail }
  else
    { m.setPhase server (.wiping 0) with
      cbState := Function.update m.cbState server .fail
      rdmaOn := false }

end Maps

namespace Device

/-- The next step of `IS_disconnect_handler` outside of its loop over the contexts. -/
def disconnecting (dv : Device D) (all : List CtxId) (server : Nat) : Option (Device D) :=
  match dv.maps.phase server with
  | .wiping i =>
      if i < maxMrSizeGb then
        match dv.maps.chunkMap ⟨server, i⟩ with
        | none => some { dv with maps := dv.maps.setPhase server (.wiping (i + 1)) }
        | some g =>
            some { dv.bitmapInit ⟨server, i⟩ with maps := dv.maps.setPhase server (.unmapping i g) }
      else some { dv with maps := dv.maps.setPhase server (.flushing []) }
  | .unmapping i g =>
      some { dv with
        maps := { dv.maps.setPhase server (.wiping (i + 1)) with
          cbIndexMap := Function.update dv.maps.cbIndexMap g none } }
  | .flushing done =>
      if all.all fun c => c.server ≠ server || decide (c ∈ done) then
        some { dv with maps := dv.maps.setPhase server (.closing 0) }
      else none
  | .closing i =>
      if i < maxMrSizeGb then
        match dv.maps.chunkMap ⟨server, i⟩ with
        | none => some { dv with maps := dv.maps.setPhase server (.closing (i + 1)) }
        | some g =>
            some { dv with
              maps := { dv.maps.setPhase server (.closing (i + 1)) with
                chunkMapCbChunk := Function.update dv.maps.chunkMapCbChunk g none
                chunkMap := Function.update dv.maps.chunkMap ⟨server, i⟩ none } }
      else
        some { dv with
          maps := dv.maps.setPhase server .closed
          io.contexts := { dv.io.contexts with
            free := dv.io.contexts.free.filter fun c => c.server ≠ server } }
  | .closed => some { dv with maps := { dv.maps.setPhase server .down with rdmaOn := true } }
  | .up => none
  | .handling _ _ _ _ => none
  | .down => none

/-- `IS_disconnect_handler` looks at a context. -/
def flush (dv : Device D) (all : List CtxId) (c : CtxId) : Option (Device D) :=
  match dv.maps.phase c.server with
  | .flushing done =>
      if c ∈ all ∧ c ∉ done then
        let x := dv.io.contexts.ctx c
        some { dv with maps := dv.maps.setPhase c.server (.handling done c x.inFlight x.req) }
      else none
  | _ => none

/-- `IS_disconnect_handler` deals with the context that it has looked at: a read goes on to
the disk, a write is ended. -/
def flushCtx (dv : Device D) (server : Nat) (left : D) : Option (Device D × List (IoEvent D)) :=
  match dv.maps.phase server with
  | .handling done c inFlight req =>
      let maps := dv.maps.setPhase server (.flushing (c :: done))
      let contexts := dv.io.contexts.modify c fun x => { x with inFlight := .idle }
      let io : Traffic D := { dv.io with
        contexts := { contexts with rdmaOps := dv.io.contexts.rdmaOps.filter fun op => op.ctx ≠ c }
        flushed :=
          dv.io.contexts.rdmaOps.filter (fun op : RdmaOp CtxId => op.ctx = c) ++ dv.io.flushed }
      match inFlight with
      | .idle => some ({ dv with maps := maps }, [])
      | .read =>
          let io :=
            match req with
            | none => io
            | some req => io.stackbd req
          some ({ dv with maps := maps, io := { io with contexts := io.contexts.insertCtx c } }, [])
      | .write => some ({ dv with maps := maps, io := io }.finishHeld (dv.io.contexts.ctx c).req left)
  | _ => none

def step (all : List CtxId) (dv : Device D) : DeviceAction D → Option (Device D × List (IoEvent D))
  | .request r => if dv.submits r then some (dv.request r, []) else none
  | .proceed req => (dv.proceed req).map fun dv' => (dv', [])
  | .getCtx req c => (dv.getCtx req c).map fun dv' => (dv', [])
  | .post op => (dv.post op).map fun dv' => (dv', [])
  | .rdmaDone op =>
      if op ∈ dv.io.contexts.rdmaOps ++ dv.io.flushed then
        match op.kind with
        | .read => some (dv.readDone op)
        | .write => some (dv.writeLanded op, [])
      else none
  | .writeDone e left => if e ∈ dv.io.completing then dv.writeDone e left else none
  | .bioDone i left => dv.bioDone i left
  | .connect server =>
      if dv.maps.cbState server = .idle then
        some ({ dv with
          maps := { dv.maps with cbState := Function.update dv.maps.cbState server .connected } }, [])
      else none
  | .bind => some ({ dv with maps := dv.maps.bind }, [])
  | .map g chunk memory =>
      if dv.maps.cbState chunk.server ≠ .idle ∧ chunk.index < maxMrSizeGb ∧
          dv.maps.chunkMap chunk = none ∧ dv.maps.evicting chunk = none then
        some (dv.map g chunk memory, [])
      else none
  | .mapped =>
      if 0 < dv.maps.binding then some ({ dv with maps := dv.maps.mapped }, []) else none
  | .evict chunk =>
      (dv.maps.chunkMap chunk).map fun g => ({ dv with maps := dv.maps.evict chunk g }, [])
  | .waitCtx c =>
      let x := dv.io.contexts.ctx c
      some ({ dv with maps := dv.maps.waitCtx c x.inFlight x.chunkIndex }, [])
  | .evicted chunk =>
      if all.all fun c => c.server ≠ chunk.server || decide (c ∈ dv.maps.waited chunk.server) then
        (dv.maps.evicting chunk).map fun g =>
          ({ dv.bitmapInit chunk with maps := dv.maps.evicted chunk g }, [])
      else none
  | .evictedAll server g =>
      if (server, g) ∈ dv.maps.evictList then
        some ({ dv with maps := dv.maps.evictedAll server g }, [])
      else none
  | .disconnect server =>
      if dv.maps.phase server = .up ∧ dv.maps.cbState server ≠ .idle then
        some ({ dv with maps := dv.maps.disconnect server }, [])
      else none
  | .disconnecting server => (dv.disconnecting all server).map fun dv' => (dv', [])
  | .flush c => (dv.flush all c).map fun dv' => (dv', [])
  | .flushCtx server left => dv.flushCtx server left

end Device

/-- The device with the contexts `all`, before its first request and its first server. -/
def blockDevice (D : Type) (all : List CtxId) : System (Device D) (DeviceAction D) (IoEvent D) where
  init dv := all.Nodup ∧ ∃ words disk remote buf,
    dv =
      { maps := ⟨false, fun _ => .idle, fun _ => .up, fun _ => none, fun _ => none, fun _ => none,
          fun _ => none, fun _ => [], [], 0⟩
        gen := fun _ => 0
        words := words
        remote := remote
        disk := disk
        io := ⟨⟨fun _ => none, 0⟩, fun _ => none,
          ⟨fun _ => ⟨.idle, none, none, none, 0, 0, buf⟩, all, [], []⟩, [], [], [], []⟩ }
  step := Device.step all

end Memtrade.Infiniswap
