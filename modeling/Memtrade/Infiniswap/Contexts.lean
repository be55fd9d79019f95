import Memtrade.Lib.System
import Mathlib.Data.List.Perm.Subperm
import Mathlib.Logic.Function.Basic

/-!
# RDMA contexts of the block device

`rdma_ctx` with its free list. A write puts its context into the hands of two: the
completion of the RDMA write ends the request that it finds in the context, and the
completion of the backup write on the disk returns the context to the free list. A read
has one owner, whose completion does both. Offsets and lengths are in pages.
-/

namespace Memtrade.Infiniswap

/-- `CTX_IDLE`, `CTX_R_IN_FLIGHT`, `CTX_W_IN_FLIGHT`. -/
inductive InFlight where
  | idle
  | read
  | write
deriving DecidableEq, Repr

/-- A `remote_chunk_g`: its server and its place in `chunk_list`. -/
structure Chunk where
  server : Nat
  index : Nat
deriving DecidableEq, Repr

/-- `struct rdma_ctx`; requests are numbered in the order of their submission. -/
structure RdmaCtx (D : Type) where
  inFlight : InFlight
  req : Option Nat
  chunkIndex : Option Nat
  chunkPtr : Option Chunk
  offset : Nat
  len : Nat
  rdmaBuf : Nat → D

inductive OpKind where
  | read
  | write
deriving DecidableEq, Repr

def OpKind.inFlight : OpKind → InFlight
  | .read => .read
  | .write => .write

/-- A posted work request. Its completion names the context; the request that it was
posted for is history. -/
structure RdmaOp (κ : Type) where
  serial : Nat
  kind : OpKind
  ctx : κ
  chunk : Chunk
  offset : Nat
  len : Nat
deriving DecidableEq, Repr

/-- The contexts with what is in flight: RDMA operations and backup writes, the latter
by their context. The list of free contexts has its tail first. -/
structure Contexts (κ D : Type) where
  ctx : κ → RdmaCtx D
  free : List κ
  rdmaOps : List (RdmaOp κ)
  diskOps : List κ

namespace Contexts

variable {κ D : Type} [DecidableEq κ]

def getCtx (p : Contexts κ D) : Option κ := p.free.head?

/-- The context `c` leaves the free list. -/
def take (p : Contexts κ D) (c : κ) : Contexts κ D := { p with free := p.free.erase c }

def insertCtx (p : Contexts κ D) (c : κ) : Contexts κ D := { p with free := c :: p.free }

def modify (p : Contexts κ D) (c : κ) (f : RdmaCtx D → RdmaCtx D) : Contexts κ D :=
  { p with ctx := Function.update p.ctx c (f (p.ctx c)) }

/-- `IS_rdma_write` with the context `c`; `posted` is the result of `ib_post_send`. The
flag is returned when the request has been handed to the disk instead. -/
def rdmaWrite (p : Contexts κ D) (c : κ) (rdmaOn posted : Bool) (req : Nat) (chunk : Chunk)
    (offset len : Nat) (data : Nat → D) : Contexts κ D × Bool :=
  let p := (p.take c).modify c fun x =>
    { x with
      req := some req, offset := offset, len := len, chunkPtr := some chunk,
      chunkIndex := some chunk.index, inFlight := .write }
  if rdmaOn then
    let p := p.modify c fun x => { x with rdmaBuf := data }
    ({ p with
      diskOps := c :: p.diskOps
      rdmaOps := if posted then ⟨req, .write, c, chunk, offset, len⟩ :: p.rdmaOps else p.rdmaOps },
      false)
  else
    ((p.modify c fun x => { x with inFlight := .idle }).insertCtx c, true)

/-- `IS_rdma_read` with the context `c`. -/
def rdmaRead (p : Contexts κ D) (c : κ) (rdmaOn posted : Bool) (req : Nat) (chunk : Chunk)
    (offset : Nat) : Contexts κ D × Bool :=
  let p := (p.take c).modify c fun x =>
    { x with req := some req, chunkIndex := some chunk.index, inFlight := .read }
  if rdmaOn then
    ({ p with
      rdmaOps := if posted then ⟨req, .read, c, chunk, offset, 1⟩ :: p.rdmaOps else p.rdmaOps },
      false)
  else
    ((p.modify c fun x => { x with inFlight := .idle }).insertCtx c, true)

/-- `client_read_done`: the request that is ended is the one found in the context. -/
def clientReadDone (p : Contexts κ D) (op : RdmaOp κ) : Contexts κ D × Option Nat :=
  let p := { p with rdmaOps := p.rdmaOps.erase op }
  let x := p.ctx op.ctx
  ((p.modify op.ctx fun x => { x with inFlight := .idle, chunkIndex := none, req := none }).insertCtx
    op.ctx, x.req)

/-- `client_write_done`: the pages whose bits are set, and the request that is ended. -/
def clientWriteDone (p : Contexts κ D) (op : RdmaOp κ) :
    Contexts κ D × Option (Chunk × Nat × Nat) × Option Nat :=
  let p := { p with rdmaOps := p.rdmaOps.erase op }
  let x := p.ctx op.ctx
  match x.chunkPtr with
  | none => (p, none, none)
  | some chunk =>
      (p.modify op.ctx fun x =>
        { x with inFlight := .idle, chunkIndex := none, chunkPtr := none, req := none },
        some (chunk, x.offset, x.len), x.req)

def stackbdEndIo3 (p : Contexts κ D) (c : κ) : Contexts κ D :=
  { p with diskOps := p.diskOps.erase c }.insertCtx c

end Contexts

/-! ## One pool -/

/-- A pool of contexts, with the number of requests submitted to it and, as history, the
write requests whose RDMA write has been posted. -/
structure CtxPool (D : Type) where
  contexts : Contexts Nat D
  next : Nat
  writes : List Nat

inductive PoolAction (D : Type) where
  | write (rdmaOn posted : Bool) (chunk : Chunk) (offset len : Nat) (data : Nat → D)
  | read (rdmaOn posted : Bool) (chunk : Chunk) (offset : Nat)
  | rdmaDone (op : RdmaOp Nat)
  | diskDone (ctx : Nat)

inductive PoolEvent where
  /-- The request is ended by the completion of an operation posted for `op`. -/
  | ended (req op : Nat)
  /-- The request is handed to the disk. -/
  | redirected (req : Nat)
  /-- The post has failed and the request is refused. -/
  | failed (req : Nat)
  /-- A null request is dereferenced. -/
  | fault
deriving DecidableEq, Repr

namespace CtxPool

variable {D : Type}

/-- A submission waits until there is a context. -/
def step (s : CtxPool D) : PoolAction D → Option (CtxPool D × List PoolEvent)
  | .write rdmaOn posted chunk offset len data =>
      match s.contexts.getCtx with
      | none => none
      | some c =>
          let r := s.contexts.rdmaWrite c rdmaOn posted s.next chunk offset len data
          some (⟨r.1, s.next + 1, if rdmaOn && posted then s.writes ++ [s.next] else s.writes⟩,
            if r.2 then [.redirected s.next] else if posted then [] else [.failed s.next])
  | .read rdmaOn posted chunk offset =>
      match s.contexts.getCtx with
      | none => none
      | some c =>
          let r := s.contexts.rdmaRead c rdmaOn posted s.next chunk offset
          some (⟨r.1, s.next + 1, s.writes⟩,
            if r.2 then [.redirected s.next] else if posted then [] else [.failed s.next])
  | .rdmaDone op =>
      if op ∈ s.contexts.rdmaOps then
        match op.kind with
        | .read =>
            let r := s.contexts.clientReadDone op
            some ({ s with contexts := r.1 },
              match r.2 with
              | some req => [.ended req op.serial]
              | none => [.fault])
        | .write =>
            let r := s.contexts.clientWriteDone op
            some ({ s with contexts := r.1 }, (r.2.2.map fun req => .ended req op.serial).toList)
      else none
  | .diskDone ctx =>
      if ctx ∈ s.contexts.diskOps then
        some ({ s with contexts := s.contexts.stackbdEndIo3 ctx }, [])
      else none

end CtxPool

theorem nodup_of_subperm {α : Type} {l₁ l₂ : List α} (h : l₁.Subperm l₂) (hl : l₂.Nodup) :
    l₁.Nodup := by
  obtain ⟨l, hperm, hsub⟩ := h
  exact hperm.nodup_iff.1 (hl.sublist hsub)

namespace Contexts

section Fields

variable {κ D : Type} {p : Contexts κ D} {c : κ}

@[simp] theorem insertCtx_ctx : (p.insertCtx c).ctx = p.ctx := rfl

/-- The context of a read. -/
def readCtx (op : RdmaOp κ) : Option κ :=
  match op.kind with
  | .read => some op.ctx
  | .write => none

/-- The free contexts, and those that something in flight is going to return. -/
def returned (p : Contexts κ D) : List κ := p.free ++ p.diskOps ++ p.rdmaOps.filterMap readCtx

/-- The free contexts, and those of the operations in flight. -/
def used (p : Contexts κ D) : List κ := p.free ++ p.rdmaOps.map RdmaOp.ctx

end Fields

variable {κ D : Type} [DecidableEq κ] {p : Contexts κ D} {c : κ}

@[simp] theorem modify_free (f : RdmaCtx D → RdmaCtx D) : (p.modify c f).free = p.free := rfl

@[simp] theorem modify_rdmaOps (f : RdmaCtx D → RdmaCtx D) :
    (p.modify c f).rdmaOps = p.rdmaOps := rfl

@[simp] theorem modify_diskOps (f : RdmaCtx D → RdmaCtx D) :
    (p.modify c f).diskOps = p.diskOps := rfl

@[simp] theorem modify_ctx (f : RdmaCtx D → RdmaCtx D) :
    (p.modify c f).ctx = Function.update p.ctx c (f (p.ctx c)) := rfl

@[simp] theorem take_free : (p.take c).free = p.free.erase c := rfl

@[simp] theorem take_rdmaOps : (p.take c).rdmaOps = p.rdmaOps := rfl

@[simp] theorem take_diskOps : (p.take c).diskOps = p.diskOps := rfl

@[simp] theorem take_ctx : (p.take c).ctx = p.ctx := rfl

section Submission

variable (rdmaOn posted : Bool) (req : Nat) (chunk : Chunk) (offset len : Nat) (data : Nat → D)

end Submission

theorem filterMap_erase {op : RdmaOp κ} (hop : op ∈ p.rdmaOps) :
    (p.rdmaOps.filterMap readCtx).Perm
      ((readCtx op).toList ++ (p.rdmaOps.erase op).filterMap readCtx) := by
  have hperm := (List.perm_cons_erase hop).filterMap readCtx
  rw [List.filterMap_cons] at hperm
  cases hread : readCtx op with
  | none =>
      rw [hread] at hperm
      exact hperm
  | some c =>
      rw [hread] at hperm
      exact hperm

theorem returned_clientReadDone {op : RdmaOp κ} (hop : op ∈ p.rdmaOps) (hkind : op.kind = .read) :
    (p.clientReadDone op).1.returned.Perm p.returned := by
  have hreads := filterMap_erase hop
  have hctx : readCtx op = some op.ctx := by rw [readCtx, hkind]
  rw [hctx] at hreads
  refine List.Perm.trans ?_ (hreads.symm.append_left _)
  exact List.perm_middle.symm

end Contexts

/-! ## Invariants of the pool -/

namespace CtxPool

variable {D : Type} {s s' : CtxPool D} {a : PoolAction D} {tr evs : List PoolEvent}

/-- The disk returns a context only after its RDMA write. -/
def rdmaFirst (s : CtxPool D) : PoolAction D → Prop
  | .diskDone c => ∀ op ∈ s.contexts.rdmaOps, op.ctx ≠ c
  | _ => True

instance decidableRdmaFirst (s : CtxPool D) : (a : PoolAction D) → Decidable (s.rdmaFirst a)
  | .write .. => inferInstanceAs (Decidable True)
  | .read .. => inferInstanceAs (Decidable True)
  | .rdmaDone _ => inferInstanceAs (Decidable True)
  | .diskDone c => inferInstanceAs (Decidable (∀ op ∈ s.contexts.rdmaOps, op.ctx ≠ c))

/-- A context holds the request of the operation that is in flight on it. -/
def Holds (x : RdmaCtx D) (op : RdmaOp Nat) : Prop :=
  x.req = some op.serial ∧ (op.kind = .write → x.chunkPtr ≠ none)

/-- The invariant of the runs in which the RDMA write of a context comes first. -/
structure Inv (s : CtxPool D) (tr : List PoolEvent) : Prop where
  returned : s.contexts.returned.Nodup
  used : s.contexts.used.Nodup
  holds : ∀ op ∈ s.contexts.rdmaOps, Holds (s.contexts.ctx op.ctx) op
  serials : (s.contexts.rdmaOps.map RdmaOp.serial).Nodup
  below : ∀ r ∈ s.contexts.rdmaOps.map RdmaOp.serial, r < s.next
  ended : ∀ r n, .ended r n ∈ tr →
    n = r ∧ r < s.next ∧ r ∉ s.contexts.rdmaOps.map RdmaOp.serial
  once : ∀ r ∈ s.writes, r < s.next ∧
    tr.count (.ended r r) = if r ∈ s.contexts.rdmaOps.map RdmaOp.serial then 0 else 1

theorem Inv.free_idle (h : s.Inv tr) {c : Nat} (hc : c ∈ s.contexts.free) :
    ∀ op ∈ s.contexts.rdmaOps, op.ctx ≠ c := by
  intro op hop heq
  have hdisj := (List.nodup_append.1 h.used).2.2
  exact hdisj c hc op.ctx (List.mem_map_of_mem hop) heq.symm

theorem Inv.count_next (h : s.Inv tr) : tr.count (.ended s.next s.next) = 0 := by
  rw [List.count_eq_zero]
  intro hmem
  have hlt := (h.ended s.next s.next hmem).2.1
  omega

/-- A submission with the context `c`; `q` says whether its operation has been posted. -/
theorem Inv.submit (h : s.Inv tr) {c : Nat} (hc : c ∈ s.contexts.free) {p : Contexts Nat D}
    (hret : p.returned.Nodup) (hused : p.used.Nodup) (hother : ∀ c' ≠ c, p.ctx c' = s.contexts.ctx c')
    {q : Bool} {op : RdmaOp Nat}
    (hops : p.rdmaOps = if q then op :: s.contexts.rdmaOps else s.contexts.rdmaOps)
    (hserial : op.serial = s.next) (hctx : op.ctx = c) (hholds : q → Holds (p.ctx c) op)
    {writes : List Nat} (hwrites : writes = s.writes ∨ q ∧ writes = s.writes ++ [s.next])
    (hevs : ∀ r n, .ended r n ∉ evs) : Inv ⟨p, s.next + 1, writes⟩ (tr ++ evs) := by
  have hold : ∀ op' ∈ s.contexts.rdmaOps, Holds (p.ctx op'.ctx) op' := by
    intro op' hop'
    rw [hother _ (h.free_idle hc op' hop')]
    exact h.holds op' hop'
  have hserials : p.rdmaOps.map RdmaOp.serial =
      if q then s.next :: s.contexts.rdmaOps.map RdmaOp.serial
      else s.contexts.rdmaOps.map RdmaOp.serial := by
    rw [hops]
    cases q <;> simp [hserial]
  have hnext : s.next ∉ s.contexts.rdmaOps.map RdmaOp.serial := by
    intro hmem
    have hlt := h.below s.next hmem
    omega
  have hinFlight : ∀ r, r < s.next →
      (r ∈ p.rdmaOps.map RdmaOp.serial ↔ r ∈ s.contexts.rdmaOps.map RdmaOp.serial) := by
    intro r hr
    have hne : r ≠ s.next := by omega
    rw [hserials]
    cases q <;> simp [hne]
  have hcount : ∀ r, (tr ++ evs).count (.ended r r) = tr.count (.ended r r) := by
    intro r
    rw [List.count_append, List.count_eq_zero.2 (hevs r r), Nat.add_zero]
  constructor
  case returned => exact hret
  case used => exact hused
  case holds =>
    intro op' hop'
    rw [hops] at hop'
    cases q with
    | false => exact hold op' hop'
    | true =>
        cases List.mem_cons.1 hop' with
        | inl heq =>
            rw [heq, hctx]
            exact hholds rfl
        | inr hop' => exact hold op' hop'
  case serials =>
    rw [hserials]
    cases q with
    | false => exact h.serials
    | true => exact List.nodup_cons.2 ⟨hnext, h.serials⟩
  case below =>
    intro r hr
    rw [hserials] at hr
    have hcases : r = s.next ∨ r ∈ s.contexts.rdmaOps.map RdmaOp.serial := by
      cases q with
      | false => exact .inr hr
      | true => exact List.mem_cons.1 hr
    cases hcases with
    | inl heq => exact heq ▸ Nat.lt_succ_self _
    | inr hr => exact Nat.lt_succ_of_lt (h.below r hr)
  case ended =>
    intro r n hmem
    cases List.mem_append.1 hmem with
    | inl hmem =>
        have hr := h.ended r n hmem
        refine ⟨hr.1, Nat.lt_succ_of_lt hr.2.1, ?_⟩
        rw [hinFlight r hr.2.1]
        exact hr.2.2
    | inr hmem => exact absurd hmem (hevs r n)
  case once =>
    have hold : ∀ r ∈ s.writes, r < s.next + 1 ∧ (tr ++ evs).count (.ended r r) =
        if r ∈ p.rdmaOps.map RdmaOp.serial then 0 else 1 := by
      intro r hr
      have hr := h.once r hr
      refine ⟨by omega, ?_⟩
      rw [hcount, hr.2]
      simp only [hinFlight r hr.1]
    intro r hr
    cases hwrites with
    | inl heq =>
        rw [heq] at hr
        exact hold r hr
    | inr hq =>
        rw [hq.2] at hr
        cases List.mem_append.1 hr with
        | inl hr => exact hold r hr
        | inr hr =>
            have heq : r = s.next := List.mem_singleton.1 hr
            have hmem : s.next ∈ p.rdmaOps.map RdmaOp.serial := by
              rw [hserials, hq.1]
              exact List.mem_cons_self
            rw [heq, hcount, h.count_next, if_pos hmem]
            exact ⟨Nat.lt_succ_self _, rfl⟩

theorem Inv.complete (h : s.Inv tr) {op : RdmaOp Nat} (hop : op ∈ s.contexts.rdmaOps)
    {p : Contexts Nat D} (hret : p.returned.Nodup) (hused : p.used.Nodup)
    (hops : p.rdmaOps = s.contexts.rdmaOps.erase op)
    (hother : ∀ c ≠ op.ctx, p.ctx c = s.contexts.ctx c) :
    Inv { s with contexts := p } (tr ++ [PoolEvent.ended op.serial op.serial]) := by
  have hperm := List.perm_cons_erase hop
  have hctxs := (hperm.map RdmaOp.ctx).nodup_iff.1 (List.nodup_append.1 h.used).2.1
  have hserials := (hperm.map RdmaOp.serial).nodup_iff.1 h.serials
  have hinFlight : ∀ r, r ∈ p.rdmaOps.map RdmaOp.serial ↔
      r ∈ s.contexts.rdmaOps.map RdmaOp.serial ∧ r ≠ op.serial := by
    intro r
    rw [hops, (hperm.map RdmaOp.serial).mem_iff, List.map_cons, List.mem_cons]
    constructor
    · intro hr
      refine ⟨.inr hr, ?_⟩
      intro heq
      exact (List.nodup_cons.1 hserials).1 (heq ▸ hr)
    · intro hr
      exact hr.1.resolve_left hr.2
  constructor
  case returned => exact hret
  case used => exact hused
  case holds =>
    intro op' hop'
    rw [hops] at hop'
    have hne : op'.ctx ≠ op.ctx := by
      intro heq
      exact (List.nodup_cons.1 hctxs).1 (heq ▸ List.mem_map_of_mem hop')
    rw [hother _ hne]
    exact h.holds op' (List.mem_of_mem_erase hop')
  case serials =>
    rw [hops]
    exact (List.nodup_cons.1 hserials).2
  case below =>
    intro r hr
    exact h.below r ((hinFlight r).1 hr).1
  case ended =>
    intro r n hmem
    cases List.mem_append.1 hmem with
    | inl hmem =>
        have hr := h.ended r n hmem
        exact ⟨hr.1, hr.2.1, fun hmem => hr.2.2 ((hinFlight r).1 hmem).1⟩
    | inr hmem =>
        have heq := List.mem_singleton.1 hmem
        simp only [PoolEvent.ended.injEq] at heq
        refine ⟨heq.2.trans heq.1.symm, ?_, fun hmem => ((hinFlight r).1 hmem).2 heq.1⟩
        exact heq.1 ▸ h.below op.serial (List.mem_map_of_mem hop)
  case once =>
    intro r hr
    have hr := h.once r hr
    refine ⟨hr.1, ?_⟩
    rw [List.count_append, hr.2]
    by_cases heq : r = op.serial
    · subst heq
      have hmem : op.serial ∈ s.contexts.rdmaOps.map RdmaOp.serial := List.mem_map_of_mem hop
      have hnot : op.serial ∉ p.rdmaOps.map RdmaOp.serial := fun hmem => ((hinFlight _).1 hmem).2 rfl
      simp [hmem, hnot]
    · have hcount : [PoolEvent.ended op.serial op.serial].count (.ended r r) = 0 := by
        simp [Ne.symm heq]
      rw [hcount, Nat.add_zero]
      simp only [hinFlight r, heq, not_false_iff, and_true, ne_eq]

end CtxPool

section Runs

variable {D : Type} {depth : Nat} {s : CtxPool D} {tr : List PoolEvent}

end Runs

end Memtrade.Infiniswap
