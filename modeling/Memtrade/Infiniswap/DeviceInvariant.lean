import Memtrade.Infiniswap.BlockDevice
import Mathlib.Data.List.Nodup

/-!
# Invariants of the block device

In four parts: the operations on their way with their contexts and requests (`Flight`), the
maps (`Routing`), the remote chunks that operations go to (`Slots`), and the copies
(`Copies`). A remote copy is used for a page when its bit is set; the invariant is that it
then equals what the disk is going to have unless the page is being written, and that a write
for a page with its bit set is going to the remote chunk, or to clear the bit.
-/

namespace Memtrade.Infiniswap

variable {D : Type}

/-! ## Pages of a request -/

theorem page_of_single {r : IoRequest D} (hr : gbIndex r = endIndex r) {p : Nat} (hp : r.Covers p) :
    p / pagesPerChunk = gbIndex r ∧ p % pagesPerChunk = chunkOffset r + (p - r.start) := by
  simp only [gbIndex, endIndex, chunkOffset, pagesPerChunk, PageRange.Covers] at *
  omega

theorem covers_of_offset {r : IoRequest D} {p : Nat} (hg : p / pagesPerChunk = gbIndex r)
    (hle : chunkOffset r ≤ p % pagesPerChunk) (hlt : p % pagesPerChunk < chunkOffset r + r.len) :
    r.Covers p := by
  simp only [gbIndex, chunkOffset, pagesPerChunk, PageRange.Covers] at *
  omega

/-- A request of the block layer has pages in two chunks at most. -/
theorem page_of_request {r : IoRequest D} (hlen : r.len ≤ maxSglLen) {p : Nat} (hp : r.Covers p) :
    (p / pagesPerChunk = gbIndex r ∧ chunkOffset r ≤ p % pagesPerChunk ∧
        p % pagesPerChunk < chunkOffset r + (pagesPerChunk - chunkOffset r)) ∨
      (p / pagesPerChunk = endIndex r ∧
        p % pagesPerChunk < 0 + (chunkOffset r + r.len - pagesPerChunk)) := by
  simp only [gbIndex, endIndex, chunkOffset, pagesPerChunk, maxSglLen, PageRange.Covers] at *
  omega

/-! ## Words of a bitmap -/

theorem wordTest_eq (w : BitVec 32) (i : Nat) : wordTest w i = w.getLsbD (i % 32) := by
  have hlt : i % 32 < 32 := Nat.mod_lt i (by omega)
  unfold wordTest
  rw [← BitVec.twoPow_eq, BitVec.and_twoPow]
  cases hbit : w.getLsbD (i % 32) with
  | false => simp
  | true =>
      have hne : BitVec.twoPow 32 (i % 32) ≠ 0#32 := by
        intro hzero
        have hget := BitVec.getLsbD_twoPow (w := 32) (i % 32) (i % 32)
        simp [hzero, hlt] at hget
      simpa using hne

theorem wordTest_set (w : BitVec 32) (i j : Nat) :
    wordTest (wordSet w i) j = (wordTest w j || decide (i % 32 = j % 32)) := by
  have hi : i % 32 < 32 := Nat.mod_lt i (by omega)
  have hj : j % 32 < 32 := Nat.mod_lt j (by omega)
  rw [wordTest_eq, wordTest_eq, wordSet, BitVec.getLsbD_or, ← BitVec.twoPow_eq,
    BitVec.getLsbD_twoPow]
  simp [hi, hj]

theorem wordTest_clear (w : BitVec 32) (i j : Nat) :
    wordTest (wordClear w i) j = (wordTest w j && !decide (i % 32 = j % 32)) := by
  have hi : i % 32 < 32 := Nat.mod_lt i (by omega)
  have hj : j % 32 < 32 := Nat.mod_lt j (by omega)
  rw [wordTest_eq, wordTest_eq, wordClear, BitVec.getLsbD_and, BitVec.getLsbD_not,
    ← BitVec.twoPow_eq, BitVec.getLsbD_twoPow]
  simp [hi, hj]

theorem wordTest_zero (i : Nat) : wordTest 0#32 i = false := by
  rw [wordTest_eq]
  simp

/-! ## The condition -/

namespace Device

/-- The remote copy of a page is used. -/
def trusted (dv : Device D) (p : Nat) : Bool :=
  match dv.maps.route (p / pagesPerChunk) with
  | none => false
  | some chunk => dv.bitmapTest chunk (p % pagesPerChunk)

def bitsClear (dv : Device D) (r : IoRequest D) : Prop :=
  ∀ i, i < r.len → dv.trusted (r.start + i) = false

/-- The word that has been loaded is still there, or its array is not in use any more. -/
def unraced (dv : Device D) (l : GroupLoop) : Prop :=
  match l.word with
  | none => True
  | some w => dv.gen l.array.chunk = l.array.gen → dv.words l.array (l.page / 32) = w

/-- What a step of `IS_request` has to meet: a write that is sent to the disk because
`rdma_on` is off finds the bits of its pages clear. -/
def mayProceed (dv : Device D) (r : IoRequest D) : Progress → Prop
  | .chunk _ => r.data.isSome = true → dv.maps.rdmaOn = false → dv.bitsClear r
  | .clearFirst l _ => dv.unraced l
  | .clearSecond l => dv.unraced l
  | _ => True

/-- Nothing is in flight or being completed with the context, and the remote chunk that the
request has found is still the one to go to. -/
def mayTransfer (dv : Device D) (r : IoRequest D) (c : CtxId) : Progress → Prop
  | .transfer chunk =>
      (∀ op ∈ dv.io.contexts.rdmaOps, op.ctx ≠ c) ∧ (∀ e ∈ dv.io.completing, e.op.ctx ≠ c) ∧
        dv.maps.route (gbIndex r) = some chunk ∧ (r.data.isNone = true → dv.trusted r.start = true)
  | _ => True

/-- The context that `IS_disconnect_handler` has looked at. -/
def handled (dv : Device D) (server : Nat) : Option CtxId :=
  match dv.maps.phase server with
  | .handling _ c _ _ => some c
  | _ => none

/-- The array is still that of `CTX_IDLE` when it is read, and its words are not changed in
between. -/
def mayComplete (dv : Device D) (e : Completion) : Prop :=
  match e.loop with
  | none => dv.gen e.op.chunk = e.gen
  | some l => dv.unraced l

/-- Operations on a common page complete in the order in which the disk has got them, and the
page that ends a request comes last. -/
def inOrder (dv : Device D) (i : Nat) (b : Bio) : Prop :=
  (∀ b' ∈ dv.io.bios.drop (i + 1), b'.writes = true → b.range.Disjoint b'.range) ∧
    ∀ req ∈ b.ends?, ∀ b' ∈ dv.io.bios.eraseIdx i, b'.req? ≠ some req

/-- Nothing is left of a server when its contexts are released. -/
def mayRelease (dv : Device D) (server : Nat) : Prop :=
  dv.maps.phase server = .closing maxMrSizeGb →
    (∀ b ∈ dv.io.bios, ∀ c ∈ b.ctx?, c.server ≠ server) ∧
      (∀ op ∈ dv.io.marking, op.ctx.server ≠ server) ∧
      ∀ e ∈ dv.io.completing, e.op.ctx.server ≠ server

/-- The conditions. -/
def careful (dv : Device D) : DeviceAction D → Prop
  | .proceed req => ∀ r ∈ dv.io.store.pending req, ∀ φ ∈ dv.io.progress req, dv.mayProceed r φ
  | .getCtx req c => ∀ r ∈ dv.io.store.pending req, ∀ φ ∈ dv.io.progress req, dv.mayTransfer r c φ
  | .post op => ∀ r ∈ dv.io.store.pending op.serial,
      r.data.isSome = true → dv.maps.rdmaOn = false → dv.bitsClear r
  | .rdmaDone op => op ∈ dv.io.contexts.rdmaOps ∧ dv.handled op.ctx.server ≠ some op.ctx
  | .writeDone e _ => dv.mayComplete e
  | .bioDone i _ => ∀ b ∈ dv.io.bios[i]?, dv.inOrder i b
  | .map _ chunk _ => dv.maps.phase chunk.server = .up
  | .disconnecting server => dv.mayRelease server
  | .flush c => ∀ op ∈ dv.io.marking, op.ctx ≠ c
  | _ => True

section Decidable

variable (dv : Device D)

instance decidableBitsClear (r : IoRequest D) : Decidable (dv.bitsClear r) :=
  inferInstanceAs (Decidable (∀ i, i < r.len → _))

instance decidableUnraced : (l : GroupLoop) → Decidable (dv.unraced l)
  | ⟨_, _, _, none⟩ => .isTrue trivial
  | ⟨array, page, _, some w⟩ =>
      inferInstanceAs (Decidable (dv.gen array.chunk = array.gen → dv.words array (page / 32) = w))

instance decidableMayProceed (r : IoRequest D) : (φ : Progress) → Decidable (dv.mayProceed r φ)
  | .chunk _ => inferInstanceAs (Decidable (_ → _ → dv.bitsClear r))
  | .clearFirst l _ => dv.decidableUnraced l
  | .clearSecond l => dv.decidableUnraced l
  | .start | .server _ | .test _ | .transfer _ | .disk | .firstOfTwo _ | .bothOfTwo _ _ | .second _ =>
      .isTrue trivial

instance decidableMayTransfer (r : IoRequest D) (c : CtxId) :
    (φ : Progress) → Decidable (dv.mayTransfer r c φ)
  | .transfer chunk => inferInstanceAs (Decidable (_ ∧ _ ∧ dv.maps.route (gbIndex r) = some chunk ∧ _))
  | .start | .server _ | .chunk _ | .test _ | .disk | .firstOfTwo _ | .bothOfTwo _ _ | .clearFirst _ _
  | .second _ | .clearSecond _ => .isTrue trivial

instance decidableMayComplete : (e : Completion) → Decidable (dv.mayComplete e)
  | ⟨op, gen, none⟩ => inferInstanceAs (Decidable (dv.gen op.chunk = gen))
  | ⟨_, _, some l⟩ => dv.decidableUnraced l

instance decidableCareful : (a : DeviceAction D) → Decidable (dv.careful a)
  | .proceed req => inferInstanceAs (Decidable (∀ r ∈ dv.io.store.pending req, _))
  | .getCtx req _ => inferInstanceAs (Decidable (∀ r ∈ dv.io.store.pending req, _))
  | .post op => inferInstanceAs (Decidable (∀ r ∈ dv.io.store.pending op.serial, _))
  | .rdmaDone _ => inferInstanceAs (Decidable (_ ∧ _))
  | .writeDone e _ => dv.decidableMayComplete e
  | .bioDone i _ => inferInstanceAs (Decidable (∀ b ∈ dv.io.bios[i]?, _ ∧ _))
  | .map _ _ _ => inferInstanceAs (Decidable (_ = _))
  | .disconnecting _ => inferInstanceAs (Decidable (_ → _ ∧ _ ∧ _))
  | .flush _ => inferInstanceAs (Decidable (∀ op ∈ dv.io.marking, _))
  | .request _ | .connect _ | .bind | .mapped | .evict _ | .waitCtx _ | .evicted _
  | .evictedAll _ _ | .disconnect _ | .flushCtx _ _ => .isTrue trivial

end Decidable

end Device

/-! ## Operations on their way -/

namespace Traffic

/-- The operations of marked contexts. -/
def busy (io : Traffic D) : List (RdmaOp CtxId) := io.marking ++ io.contexts.rdmaOps

/-- The operations that are to end their requests. -/
def ops (io : Traffic D) : List (RdmaOp CtxId) := io.busy ++ io.completing.map Completion.op

/-- The requests that something is going to end. -/
def owned (io : Traffic D) : List Nat := io.ops.map RdmaOp.serial ++ io.bios.filterMap Bio.ends?

end Traffic

/-- The context `x` holds what the completion of `op`, which is for `r`, needs. -/
structure Held (all : List CtxId) (x : RdmaCtx D) (op : RdmaOp CtxId) (r : IoRequest D) : Prop where
  single : gbIndex r = endIndex r
  offset : op.offset = chunkOffset r
  len : op.len = r.len
  server : op.ctx.server = op.chunk.server
  known : op.ctx ∈ all
  req : x.req = some op.serial
  read : op.kind = .read → r.data = none
  write : op.kind = .write → r.data ≠ none ∧ x.chunkPtr = some op.chunk ∧ x.offset = op.offset ∧
    x.len = op.len

/-- What `IS_request` has found out about the request. -/
def Progress.Fits (r : IoRequest D) : Progress → Prop
  | .server _ | .chunk _ | .transfer _ => gbIndex r = endIndex r
  | .test _ => gbIndex r = endIndex r ∧ r.data = none
  | .firstOfTwo _ | .bothOfTwo _ _ | .clearFirst _ _ | .second _ | .clearSecond _ =>
      gbIndex r ≠ endIndex r
  | .start | .disk => True

/-- Each operation on its way has its context and its request to itself, each context that is
marked has an operation, no buffer with an outstanding backup write can be taken, and no page
that is being read from the disk is handed to it for a write. -/
structure Flight (all : List CtxId) (io : Traffic D) : Prop where
  held : ∀ op ∈ io.ops, ∃ r, io.store.pending op.serial = some r ∧
    Held all (io.contexts.ctx op.ctx) op r
  busy : ∀ op ∈ io.busy, (io.contexts.ctx op.ctx).inFlight = op.kind.inFlight ∧
    (io.contexts.ctx op.ctx).chunkIndex = some op.chunk.index
  buffer : ∀ op ∈ io.contexts.rdmaOps, ∀ r f, io.store.pending op.serial = some r →
    r.data = some f → ∀ j, j < r.len → (io.contexts.ctx op.ctx).rdmaBuf j = f j
  completing : ∀ e ∈ io.completing, e.op.kind = .write ∧ ∀ l, e.loop = some l →
    l.array = ⟨e.op.chunk, e.gen⟩ ∧ e.op.offset ≤ l.page ∧ l.page + l.left = e.op.offset + e.op.len
  ctxs : (io.ops.map RdmaOp.ctx).Nodup
  owners : io.owned.Nodup
  submitting : ∀ n φ, io.progress n = some φ →
    n ∉ io.owned ∧ ∃ r, io.store.pending n = some r ∧ φ.Fits r
  sizes : ∀ n r, io.store.pending n = some r → r.len ≤ maxSglLen ∧ (r.data = none → r.len = 1)
  marked : ∀ c, (io.contexts.ctx c).inFlight ≠ .idle → ∃ op ∈ io.busy, op.ctx = c
  returned : (io.marking.map RdmaOp.ctx ++ io.contexts.returned).Nodup
  backups : (io.bios.filterMap Bio.ctx?).Perm io.contexts.diskOps
  pages : ∀ n p write last, Bio.page n p write last ∈ io.bios → n ∈ io.bios.filterMap Bio.ends? ∧
    ∃ r, io.store.pending n = some r ∧ r.Covers p ∧ write = r.data.isSome
  order : io.bios.Pairwise fun newer older => ∀ n p last, older = .page n p false last →
    newer.writes = true → ¬ newer.range.Covers p
  free : ∀ c ∈ io.contexts.free, c ∈ all
  disk : ∀ c ∈ io.contexts.diskOps, c ∈ all

/-! ## Maps -/

/-- The part of the first loop of `IS_disconnect_handler` that is before it. -/
def Phase.Reaches (m : Maps) (server g : Nat) : Phase → Prop
  | .up => True
  | .wiping i => ∃ j, i ≤ j ∧ m.chunkMap ⟨server, j⟩ = some g
  | .unmapping i g' => g = g' ∨ ∃ j, i + 1 ≤ j ∧ m.chunkMap ⟨server, j⟩ = some g
  | .flushing _ | .handling _ _ _ _ | .closing _ | .closed | .down => False

/-- The maps point at each other as far as requests follow them, and requests do not go to a
server that `IS_disconnect_handler` has unmapped. -/
structure Routing (m : Maps) : Prop where
  routed : ∀ g chunk, m.route g = some chunk → m.chunkMap chunk = some g
  alive : ∀ g server, m.cbIndexMap g = some server → (m.phase server).Reaches m server g
  mapped : ∀ g server, m.cbIndexMap g = some server → ∃ i, m.chunkMap ⟨server, i⟩ = some g
  known : ∀ chunk, m.chunkMap chunk ≠ none ∨ m.evicting chunk ≠ none →
    m.cbState chunk.server ≠ .idle ∧ m.cbState chunk.server ≠ .connected
  apart : ∀ chunk, m.chunkMap chunk ≠ none → m.evicting chunk = none
  bound : ∀ chunk, m.chunkMap chunk ≠ none → chunk.index < maxMrSizeGb
  waited : ∀ server c, c ∈ m.waited server → c.server = server

/-- The contexts of a server that `IS_disconnect_handler` is done with. -/
def Phase.Dealt (c : CtxId) : Phase → Prop
  | .flushing done => c ∈ done
  | .handling done c' inFlight _ => c ∈ done ∨ (c = c' ∧ inFlight = .idle)
  | .closing _ | .closed | .down => True
  | .up | .wiping _ | .unmapping _ _ => False

/-- A remote chunk with an operation on its way has not been given to another chunk of the
device, unless the operation has come there and `CTX_IDLE` has let an eviction go on; and the
contexts that a handler has passed have no operation that it waits for. -/
structure Slots (m : Maps) (gen : Chunk → Nat) (io : Traffic D) : Prop where
  busy : ∀ op ∈ io.busy, ∀ r, io.store.pending op.serial = some r →
    m.chunkMap op.chunk = some (gbIndex r) ∨ m.evicting op.chunk = some (gbIndex r)
  completing : ∀ e ∈ io.completing, ∀ r, io.store.pending e.op.serial = some r →
    gen e.op.chunk = e.gen → ∀ g,
    m.chunkMap e.op.chunk = some g ∨ m.evicting e.op.chunk = some g → g = gbIndex r
  gens : ∀ e ∈ io.completing, e.gen ≤ gen e.op.chunk
  waited : ∀ op ∈ io.busy, ∀ server, op.ctx ∈ m.waited server → m.evicting op.chunk = none
  dealt : ∀ op ∈ io.busy, ¬ (m.phase op.ctx.server).Dealt op.ctx
  handling : ∀ server done c inFlight req, m.phase server = .handling done c inFlight req →
    c.server = server ∧ (inFlight ≠ .idle → ∃ op ∈ io.contexts.rdmaOps,
      op.ctx = c ∧ inFlight = op.kind.inFlight ∧ req = some op.serial)

/-! ## Copies -/

/-- The submission is going to take the page `p`, which has its bit in `array`, to the remote
chunk, or to clear the bit. -/
def Progress.Accounts (r : IoRequest D) (p : Nat) (array : BitmapG) : Progress → Prop
  | .start => True
  | .server cbIndex => cbIndex = array.chunk.server
  | .chunk c | .test c | .transfer c => c = array.chunk
  | .disk => False
  | .firstOfTwo cbIndex => p / pagesPerChunk = gbIndex r → cbIndex = some array.chunk.server
  | .bothOfTwo cbIndex cb2Index =>
      (p / pagesPerChunk = gbIndex r → cbIndex = some array.chunk.server) ∧
        (p / pagesPerChunk = endIndex r → cb2Index = some array.chunk.server)
  | .clearFirst l cb2Index =>
      (p / pagesPerChunk = gbIndex r →
        l.array = array ∧ l.page ≤ p % pagesPerChunk ∧ p % pagesPerChunk < l.page + l.left) ∧
        (p / pagesPerChunk = endIndex r → cb2Index = some array.chunk.server)
  | .second cb2Index => p / pagesPerChunk = endIndex r ∧ cb2Index = some array.chunk.server
  | .clearSecond l =>
      p / pagesPerChunk = endIndex r ∧ l.array = array ∧ l.page ≤ p % pagesPerChunk ∧
        p % pagesPerChunk < l.page + l.left

/-- The request `n` is going to take the page to the remote chunk of `array`, or to clear its
bit there. -/
def Traffic.Accounts (io : Traffic D) (n : Nat) (r : IoRequest D) (p : Nat) (array : BitmapG) :
    Prop :=
  (∃ φ, io.progress n = some φ ∧ φ.Accounts r p array) ∨
    (∃ op ∈ io.busy, op.serial = n ∧ op.chunk = array.chunk) ∨
    ∃ e ∈ io.completing, e.op.serial = n ∧ e.op.chunk = array.chunk ∧ e.gen = array.gen

/-- The copies agree where they are used. -/
structure Copies (dv : Device D) : Prop where
  remote : ∀ p chunk, dv.maps.route (p / pagesPerChunk) = some chunk →
    dv.bitmapTest chunk (p % pagesPerChunk) = true → ¬ dv.io.store.Writing p →
    dv.remote chunk (p % pagesPerChunk) = dv.backing p
  accounted : ∀ n r p chunk, dv.io.store.pending n = some r → r.data ≠ none → r.Covers p →
    dv.maps.route (p / pagesPerChunk) = some chunk →
    dv.bitmapTest chunk (p % pagesPerChunk) = true → dv.io.Accounts n r p (dv.bitmapG chunk)
  handed : ∀ n r f p, dv.io.store.pending n = some r → r.data = some f →
    dv.io.progress n = none → n ∉ dv.io.marking.map RdmaOp.serial → r.Covers p →
    dv.backing p = f (p - r.start)
  landed : ∀ e ∈ dv.io.completing, ∀ r f, dv.io.store.pending e.op.serial = some r →
    r.data = some f → dv.gen e.op.chunk = e.gen → ∀ j, j < r.len →
    dv.remote e.op.chunk (e.op.offset + j) = f j
  reading : ∀ op ∈ dv.io.busy, op.kind = .read → ∀ r, dv.io.store.pending op.serial = some r →
    dv.remote op.chunk op.offset = dv.backing r.start

structure DeviceInv (all : List CtxId) (dv : Device D) (tr : List (IoEvent D)) : Prop where
  current : dv.io.store.Current tr dv.backing
  flight : Flight all dv.io
  routing : Routing dv.maps
  slots : Slots dv.maps dv.gen dv.io
  copies : Copies dv

end Memtrade.Infiniswap
