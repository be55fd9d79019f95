import Memtrade.Infiniswap.Daemon
import Mathlib.Algebra.BigOperators.Group.List.Basic
import Mathlib.Algebra.Ring.Int.Defs

/-!
# Chunk accounting of the daemon

The counters `size_gb`, `mapped_size` and `mapped_chunk_size` against the tables that they
count. Inside a loop the tables are ahead of the counters; `Tables` carries by how much, so
that each kind of entry update has one lemma and a handler is right when its count is the
number of entries that its loop has changed.
-/

namespace Memtrade.Infiniswap

theorem chunks_nodup : chunks.Nodup := List.nodup_finRange _

theorem mem_chunks (i : Fin maxFreeMemGb) : i ∈ chunks := List.mem_finRange i

/-- The number of chunks that pass. -/
def number (p : Fin maxFreeMemGb → Bool) : Int := chunks.countP p

theorem number_succ {p q : Fin maxFreeMemGb → Bool} {i : Fin maxFreeMemGb} (hp : p i = false)
    (hq : q i = true) (h : ∀ k ≠ i, q k = p k) : number q = number p + 1 := by
  unfold number
  rw [countP_succ chunks_nodup (mem_chunks i) hp hq h]
  rfl

theorem number_split {p q r : Fin maxFreeMemGb → Bool} (h : ∀ i, r i = (p i || q i))
    (hdisj : ∀ i, p i = true → q i = false) : number r = number p + number q := by
  unfold number
  rw [countP_split h hdisj]
  rfl

theorem number_nonneg (p : Fin maxFreeMemGb → Bool) : 0 ≤ number p := Int.natCast_nonneg _

namespace RdmaRemoteMem

def malloced (r : RdmaRemoteMem) : Int := number r.mallocMap

def mapped (r : RdmaRemoteMem) : Int := number fun i => r.connMap i != -1

def free (r : RdmaRemoteMem) : Int := number r.unmapped

@[simp] theorem setConn_sizeGb (r : RdmaRemoteMem) (i : Fin maxFreeMemGb) (conn : Int) :
    (r.setConn i conn).sizeGb = r.sizeGb := rfl

@[simp] theorem setConn_mappedSize (r : RdmaRemoteMem) (i : Fin maxFreeMemGb) (conn : Int) :
    (r.setConn i conn).mappedSize = r.mappedSize := rfl

@[simp] theorem setConn_mallocMap (r : RdmaRemoteMem) (i : Fin maxFreeMemGb) (conn : Int) :
    (r.setConn i conn).mallocMap = r.mallocMap := rfl

@[simp] theorem setMalloc_sizeGb (r : RdmaRemoteMem) (i : Fin maxFreeMemGb) (m : Bool) :
    (r.setMalloc i m).sizeGb = r.sizeGb := rfl

@[simp] theorem setMalloc_mappedSize (r : RdmaRemoteMem) (i : Fin maxFreeMemGb) (m : Bool) :
    (r.setMalloc i m).mappedSize = r.mappedSize := rfl

@[simp] theorem setMalloc_connMap (r : RdmaRemoteMem) (i : Fin maxFreeMemGb) (m : Bool) :
    (r.setMalloc i m).connMap = r.connMap := rfl

theorem setConn_self (r : RdmaRemoteMem) (i : Fin maxFreeMemGb) (conn : Int) :
    (r.setConn i conn).connMap i = conn := Function.update_self ..

theorem setConn_other (r : RdmaRemoteMem) {i k : Fin maxFreeMemGb} (hne : k ≠ i) (conn : Int) :
    (r.setConn i conn).connMap k = r.connMap k := Function.update_of_ne hne ..

theorem setMalloc_self (r : RdmaRemoteMem) (i : Fin maxFreeMemGb) (m : Bool) :
    (r.setMalloc i m).mallocMap i = m := Function.update_self ..

theorem setMalloc_other (r : RdmaRemoteMem) {i k : Fin maxFreeMemGb} (hne : k ≠ i) (m : Bool) :
    (r.setMalloc i m).mallocMap k = r.mallocMap k := Function.update_of_ne hne ..

theorem unmapped_iff {r : RdmaRemoteMem} {i : Fin maxFreeMemGb} :
    r.unmapped i = true ↔ r.mallocMap i = true ∧ r.connMap i = -1 := by
  simp [unmapped]

theorem mapped_setConn {r : RdmaRemoteMem} {i : Fin maxFreeMemGb} (hi : r.connMap i = -1) {conn : Int}
    (hconn : conn ≠ -1) : (r.setConn i conn).mapped = r.mapped + 1 := by
  apply number_succ (i := i)
  · simp [hi]
  · simp [setConn_self, hconn]
  · intro k hne
    rw [setConn_other r hne]

theorem mapped_clearConn {r : RdmaRemoteMem} {i : Fin maxFreeMemGb} (hi : r.connMap i ≠ -1) :
    r.mapped = (r.setConn i (-1)).mapped + 1 := by
  apply number_succ (i := i)
  · simp [setConn_self]
  · simp [hi]
  · intro k hne
    rw [setConn_other r hne]

theorem malloced_setMalloc {r : RdmaRemoteMem} {i : Fin maxFreeMemGb} (hi : r.mallocMap i = false) :
    (r.setMalloc i true).malloced = r.malloced + 1 :=
  number_succ (i := i) hi (setMalloc_self r i true) fun _ hne => setMalloc_other r hne true

theorem malloced_clearMalloc {r : RdmaRemoteMem} {i : Fin maxFreeMemGb} (hi : r.mallocMap i = true) :
    r.malloced = (r.setMalloc i false).malloced + 1 :=
  number_succ (i := i) (setMalloc_self r i false) hi fun _ hne => (setMalloc_other r hne false).symm

end RdmaRemoteMem

/-- The chunks that a connection has recorded. -/
def Connection.held (conn : Connection) : Int := number fun i => (conn.sessChunkMap i).isSome

/-- The tables agree with each other and, up to `dSize` and `dMapped`, with the counters
of the session. -/
structure Tables (r : RdmaRemoteMem) (clients : List Connection) (dSize dMapped : Int) : Prop where
  size : r.sizeGb = r.malloced + dSize
  mapped : r.mappedSize = r.mapped + dMapped
  alloc : ∀ i, r.connMap i ≠ -1 → r.mallocMap i = true
  holds : ∀ c ∈ clients, ∀ i, c.sessChunkMap i ≠ none → c.sessChunkMap i = some i ∧ r.connMap i ≠ -1
  disjoint : clients.Pairwise fun c c' => ∀ i, c.sessChunkMap i = none ∨ c'.sessChunkMap i = none
  index : ∀ c ∈ clients, c.connIndex ≠ -1

namespace Tables

variable {r : RdmaRemoteMem} {clients others : List Connection} {conn : Connection}
  {dSize dMapped : Int} {i : Fin maxFreeMemGb}

theorem perm (h : Tables r clients dSize dMapped) {clients' : List Connection}
    (hperm : clients.Perm clients') : Tables r clients' dSize dMapped where
  size := h.size
  mapped := h.mapped
  alloc := h.alloc
  holds := fun c hc => h.holds c (hperm.mem_iff.mpr hc)
  disjoint := by
    apply h.disjoint.perm hperm
    intro c c' hc i
    exact (hc i).symm
  index := fun c hc => h.index c (hperm.mem_iff.mpr hc)

theorem tail (h : Tables r (conn :: others) dSize dMapped) : Tables r others dSize dMapped where
  size := h.size
  mapped := h.mapped
  alloc := h.alloc
  holds := fun c hc => h.holds c (List.mem_cons_of_mem _ hc)
  disjoint := (List.pairwise_cons.mp h.disjoint).2
  index := fun c hc => h.index c (List.mem_cons_of_mem _ hc)

theorem cons (h : Tables r clients dSize dMapped) (hindex : conn.connIndex ≠ -1)
    (hmap : ∀ i, conn.sessChunkMap i = none) : Tables r (conn :: clients) dSize dMapped where
  size := h.size
  mapped := h.mapped
  alloc := h.alloc
  holds := by
    intro c hc i hi
    cases List.mem_cons.mp hc with
    | inl heq => exact absurd (heq ▸ hmap i) hi
    | inr hc => exact h.holds c hc i hi
  disjoint := List.pairwise_cons.mpr ⟨fun _ _ i => .inl (hmap i), h.disjoint⟩
  index := List.forall_mem_cons.mpr ⟨hindex, h.index⟩

theorem setMalloc (h : Tables r clients dSize dMapped) (hi : r.mallocMap i = false) :
    Tables (r.setMalloc i true) clients (dSize - 1) dMapped where
  size := by
    rw [r.malloced_setMalloc hi, RdmaRemoteMem.setMalloc_sizeGb, h.size]
    omega
  mapped := h.mapped
  alloc := by
    intro k hk
    by_cases hne : k = i
    · rw [hne, RdmaRemoteMem.setMalloc_self]
    · rw [RdmaRemoteMem.setMalloc_other r hne]
      exact h.alloc k hk
  holds := h.holds
  disjoint := h.disjoint
  index := h.index

theorem clearMalloc (h : Tables r clients dSize dMapped) (hi : r.unmapped i = true) :
    Tables (r.setMalloc i false) clients (dSize + 1) dMapped where
  size := by
    have hcount := r.malloced_clearMalloc (RdmaRemoteMem.unmapped_iff.mp hi).1
    rw [RdmaRemoteMem.setMalloc_sizeGb, h.size, hcount]
    omega
  mapped := h.mapped
  alloc := by
    intro k hk
    have hne : k ≠ i := by
      intro heq
      exact hk (heq ▸ (RdmaRemoteMem.unmapped_iff.mp hi).2)
    rw [RdmaRemoteMem.setMalloc_other r hne]
    exact h.alloc k hk
  holds := h.holds
  disjoint := h.disjoint
  index := h.index

/-- The entry of a chunk goes to or from a connection, which records it. -/
theorem reassign (h : Tables r (conn :: others) dSize dMapped) {k d : Int}
    {rec : Option (Fin maxFreeMemGb)} (hrec : rec ≠ none → rec = some i ∧ k ≠ -1)
    (hcount : (r.setConn i k).mapped = r.mapped + d) (halloc : k ≠ -1 → r.mallocMap i = true)
    (hother : ∀ c ∈ others, c.sessChunkMap i = none) :
    Tables (r.setConn i k)
      ({ conn with sessChunkMap := Function.update conn.sessChunkMap i rec } :: others) dSize
      (dMapped - d) where
  size := h.size
  mapped := by
    rw [hcount, RdmaRemoteMem.setConn_mappedSize, h.mapped]
    omega
  alloc := by
    intro j hj
    by_cases hne : j = i
    · rw [hne] at hj ⊢
      rw [RdmaRemoteMem.setConn_self] at hj
      exact halloc hj
    · rw [RdmaRemoteMem.setConn_other r hne] at hj
      exact h.alloc j hj
  holds := by
    intro c hc j hj
    by_cases hne : j = i
    · rw [hne] at hj ⊢
      rw [RdmaRemoteMem.setConn_self]
      cases List.mem_cons.mp hc with
      | inl heq =>
          rw [heq] at hj ⊢
          simp only [Function.update_self] at hj ⊢
          exact hrec hj
      | inr hc => exact absurd (hother c hc) hj
    · rw [RdmaRemoteMem.setConn_other r hne]
      cases List.mem_cons.mp hc with
      | inl heq =>
          rw [heq] at hj ⊢
          simp only [Function.update_of_ne hne] at hj ⊢
          exact h.holds conn List.mem_cons_self j hj
      | inr hc => exact h.holds c (List.mem_cons_of_mem _ hc) j hj
  disjoint := by
    have hpair := List.pairwise_cons.mp h.disjoint
    refine List.pairwise_cons.mpr ⟨?_, hpair.2⟩
    intro c hc j
    by_cases hne : j = i
    · exact .inr (hne ▸ hother c hc)
    · simp only [Function.update_of_ne hne]
      exact hpair.1 c hc j
  index := by
    have hindex := List.forall_mem_cons.mp h.index
    exact List.forall_mem_cons.mpr ⟨hindex.1, hindex.2⟩

theorem none_of_unmapped (h : Tables r clients dSize dMapped) (hi : r.connMap i = -1)
    {c : Connection} (hc : c ∈ clients) : c.sessChunkMap i = none := by
  by_contra hsome
  exact (h.holds c hc i hsome).2 hi

theorem mapChunk (h : Tables r (conn :: others) dSize dMapped) (hi : r.unmapped i = true)
    (rkey : Fin maxFreeMemGb → Bool) :
    Tables (RdmaSession.mapChunk (r, conn, rkey) i).1
      ((RdmaSession.mapChunk (r, conn, rkey) i).2.1 :: others) dSize (dMapped - 1) := by
  have hfree := RdmaRemoteMem.unmapped_iff.mp hi
  have hne := h.index conn List.mem_cons_self
  exact h.reassign (fun _ => ⟨rfl, hne⟩) (r.mapped_setConn hfree.2 hne) (fun _ => hfree.1)
    fun c hc => h.none_of_unmapped hfree.2 (List.mem_cons_of_mem _ hc)

theorem unmapChunk (h : Tables r (conn :: others) dSize dMapped) (hi : conn.sessChunkMap i ≠ none) :
    Tables (r.setConn i (-1))
      ({ conn with sessChunkMap := Function.update conn.sessChunkMap i none } :: others) dSize
      (dMapped + 1) := by
  have hholds := h.holds conn List.mem_cons_self i hi
  have hcount : (r.setConn i (-1)).mapped = r.mapped + -1 := by
    have hcount := r.mapped_clearConn hholds.2
    omega
  have hnew := h.reassign (i := i) (fun habs => absurd rfl habs) hcount (fun habs => absurd rfl habs)
    fun c hc => ((List.pairwise_cons.mp h.disjoint).1 c hc i).resolve_left hi
  rwa [Int.sub_neg] at hnew

theorem count (h : Tables r clients dSize dMapped) {size mapped : Int} (hsize : r.sizeGb - size = dSize)
    (hmapped : r.mappedSize - mapped = dMapped) :
    Tables { r with sizeGb := size, mappedSize := mapped } clients 0 0 where
  size := by
    have heq := h.size
    show size = r.malloced + 0
    omega
  mapped := by
    have heq := h.mapped
    show mapped = r.mapped + 0
    omega
  alloc := h.alloc
  holds := h.holds
  disjoint := h.disjoint
  index := h.index

theorem recount (h : Tables r (conn :: others) dSize dMapped) (size : Int) :
    Tables r ({ conn with mappedChunkSize := size } :: others) dSize dMapped where
  size := h.size
  mapped := h.mapped
  alloc := h.alloc
  holds := List.forall_mem_cons.mpr (List.forall_mem_cons.mp h.holds)
  disjoint := List.pairwise_cons.mpr (List.pairwise_cons.mp h.disjoint)
  index := List.forall_mem_cons.mpr (List.forall_mem_cons.mp h.index)

end Tables

/-! ## The loops -/

namespace RdmaSession

variable {r : RdmaRemoteMem} {clients others : List Connection} {conn : Connection}
  {dSize dMapped : Int}

theorem held_record {i : Fin maxFreeMemGb} (hi : conn.sessChunkMap i = none) :
    Connection.held { conn with sessChunkMap := Function.update conn.sessChunkMap i (some i) } =
      conn.held + 1 := by
  apply number_succ (i := i)
  · simp [hi]
  · simp
  · intro k hne
    simp only [Function.update_of_ne hne]

theorem held_erase {i : Fin maxFreeMemGb} (hi : conn.sessChunkMap i ≠ none) : conn.held =
    Connection.held { conn with sessChunkMap := Function.update conn.sessChunkMap i none } + 1 := by
  apply number_succ (i := i)
  · simp
  · exact Option.isSome_iff_ne_none.mpr hi
  · intro k hne
    simp only [Function.update_of_ne hne]

/-- How many chunks the loop of `send_mr` maps. -/
def mappable (size : Int) (r : RdmaRemoteMem) : Int := if 0 < size ∧ size ≤ r.free then size else r.free

/-- The loop of `send_mr` has recorded `j` chunks, which have not been counted yet. -/
structure Mapping (r : RdmaRemoteMem) (conn : Connection) (others : List Connection) (j : Int)
    (p : RdmaRemoteMem × Connection × (Fin maxFreeMemGb → Bool)) : Prop where
  tables : Tables p.1 (p.2.1 :: others) 0 (-j)
  held : p.2.1.held = conn.held + j
  size : p.2.1.mappedChunkSize = conn.mappedChunkSize
  index : p.2.1.connIndex = conn.connIndex
  mapped : p.1.mappedSize = r.mappedSize

theorem Mapping.mapChunk {j : Int} {p : RdmaRemoteMem × Connection × (Fin maxFreeMemGb → Bool)}
    (h : Mapping r conn others j p) {i : Fin maxFreeMemGb} (hi : p.1.unmapped i = true) :
    Mapping r conn others (j + 1) (mapChunk p i) := by
  have hnone : p.2.1.sessChunkMap i = none :=
    h.tables.none_of_unmapped (RdmaRemoteMem.unmapped_iff.mp hi).2 List.mem_cons_self
  have htables := h.tables.mapChunk hi p.2.2
  have hheld := held_record hnone
  rw [h.held] at hheld
  rw [show -j - 1 = -(j + 1) by omega] at htables
  exact ⟨htables, hheld.trans (Int.add_assoc ..), h.size, h.index, h.mapped⟩

theorem mapChunks_mapping (h : Tables r (conn :: others) 0 0) (size : Int) :
    Mapping r conn others (mappable size r) (mapChunks size r conn) := by
  have hloop := markFirst_invariant (fun p i => p.1.unmapped i) mapChunk size
    (I := Mapping r conn others) (fun j p i hp hi => hp.mapChunk hi) chunks 0 (r, conn, fun _ => false)
    ⟨h, (Int.add_zero _).symm, rfl, rfl, rfl⟩
  have hcount : (markFirst (fun p i => p.1.unmapped i) mapChunk size chunks 0
      (r, conn, fun _ => false)).2 = mappable size r := by
    rw [markFirst_count ?_ chunks_nodup]
    · simp only [Int.zero_add]
      rfl
    · intro p i k hne
      simp [mapChunk, RdmaRemoteMem.unmapped, RdmaRemoteMem.setConn_other p.1 hne]
  rw [hcount] at hloop
  exact hloop

/-- The loop of `destroy_connection`. Of `conn`, the chunks that the loop has unmapped are
left out. -/
theorem foldl_unmapChunk {l : List (Fin maxFreeMemGb)} (hl : l.Nodup)
    (h : Tables r (conn :: others) dSize dMapped) (dying : Connection)
    (hrec : ∀ i ∈ l, conn.sessChunkMap i = dying.sessChunkMap i) :
    Tables (l.foldl (unmapChunk dying) r) others dSize
        (dMapped + l.countP fun i => (dying.sessChunkMap i).isSome) ∧
      (l.foldl (unmapChunk dying) r).mappedSize = r.mappedSize := by
  induction l generalizing r conn dMapped with
  | nil => exact ⟨by simpa using h.tail, rfl⟩
  | cons i l ih =>
      have hnodup := List.nodup_cons.mp hl
      have hi := hrec i List.mem_cons_self
      rw [List.foldl_cons]
      cases hsome : dying.sessChunkMap i with
      | none =>
          have hskip : unmapChunk dying r i = r := by rw [unmapChunk, hsome]
          rw [List.countP_cons_of_neg (by simp [hsome]), hskip]
          exact ih hnodup.2 h fun k hk => hrec k (List.mem_cons_of_mem _ hk)
      | some index =>
          have hne : conn.sessChunkMap i ≠ none := by simp [hi, hsome]
          have hunmap : unmapChunk dying r i = r.setConn i (-1) := by
            rw [unmapChunk, ← hi, (h.holds conn List.mem_cons_self i hne).1]
          have hkeep : ∀ k ∈ l,
              Function.update conn.sessChunkMap i none k = dying.sessChunkMap k := by
            intro k hk
            have hne : k ≠ i := fun heq => hnodup.1 (heq ▸ hk)
            rw [Function.update_of_ne hne]
            exact hrec k (List.mem_cons_of_mem _ hk)
          have hrest := ih hnodup.2 (h.unmapChunk hne) hkeep
          rw [List.countP_cons_of_pos (by simp [hsome]), hunmap, Int.natCast_add, ← Int.add_assoc,
            Int.add_right_comm]
          exact hrest

/-- The loop of `recv_done`: the named chunks are unmapped and freed. -/
theorem foldlM_stop {l : List (Fin maxFreeMemGb)} (hl : l.Nodup)
    (h : Tables r (conn :: others) dSize dMapped) (msg : Message)
    (hmsg : ∀ i ∈ l, msg.rkey i = true → (conn.sessChunkMap i).isSome = true) :
    ∃ r' conn', l.foldlM (stopChunk msg) (r, conn) = some (r', conn') ∧
      Tables r' (conn' :: others) (dSize + l.countP msg.rkey) (dMapped + l.countP msg.rkey) ∧
      conn'.held = conn.held - l.countP msg.rkey ∧
      conn'.mappedChunkSize = conn.mappedChunkSize ∧ conn'.connIndex = conn.connIndex ∧
      r'.mappedSize = r.mappedSize := by
  induction l generalizing r conn dSize dMapped with
  | nil => exact ⟨r, conn, rfl, by simpa using h, by simp, rfl, rfl, rfl⟩
  | cons i l ih =>
      have hnodup := List.nodup_cons.mp hl
      have hrest : ∀ k ∈ l, msg.rkey k = true → (conn.sessChunkMap k).isSome = true :=
        fun k hk => hmsg k (List.mem_cons_of_mem _ hk)
      rw [List.foldlM_cons]
      cases hi : msg.rkey i with
      | false =>
          rw [List.countP_cons_of_neg (by simp [hi])]
          obtain ⟨r', conn', hfold, hnew⟩ := ih hnodup.2 h hrest
          refine ⟨r', conn', ?_, hnew⟩
          simpa [stopChunk, hi] using hfold
      | true =>
          have hsome := Option.isSome_iff_ne_none.mp (hmsg i List.mem_cons_self hi)
          have hheld := h.holds conn List.mem_cons_self i hsome
          have hunmap := h.unmapChunk hsome
          have hfree : (r.setConn i (-1)).unmapped i = true := by
            rw [RdmaRemoteMem.unmapped_iff]
            exact ⟨h.alloc i hheld.2, RdmaRemoteMem.setConn_self ..⟩
          have hkeep : ∀ k ∈ l, msg.rkey k = true →
              (Function.update conn.sessChunkMap i none k).isSome = true := by
            intro k hk hkey
            have hne : k ≠ i := fun heq => hnodup.1 (heq ▸ hk)
            rw [Function.update_of_ne hne]
            exact hrest k hk hkey
          have herase := held_erase hsome
          obtain ⟨r', conn', hfold, htables, hnum, hsize, hindex, hmapped⟩ :=
            ih hnodup.2 (hunmap.clearMalloc hfree) hkeep
          refine ⟨r', conn', ?_, ?_, ?_, hsize, hindex, hmapped⟩
          · simpa [stopChunk, hi, hheld.1] using hfold
          · rw [List.countP_cons_of_pos hi, Int.natCast_add, ← Int.add_assoc, ← Int.add_assoc,
              Int.add_right_comm, Int.add_right_comm dMapped]
            exact htables
          · rw [List.countP_cons_of_pos hi, hnum]
            omega

end RdmaSession

/-! ## The handlers -/

/-- The counters of the session and of its connections are right. -/
structure Accounts (r : RdmaRemoteMem) (clients : List Connection) : Prop where
  tables : Tables r clients 0 0
  own : ∀ c ∈ clients, c.mappedChunkSize = c.held
  sum : (clients.map Connection.mappedChunkSize).sum = r.mappedSize

namespace Accounts

variable {sess : RdmaSession} {r : RdmaRemoteMem} {clients others : List Connection}
  {conn : Connection}

theorem perm (h : Accounts r clients) {clients' : List Connection}
    (hperm : clients.Perm clients') : Accounts r clients' where
  tables := h.tables.perm hperm
  own := fun c hc => h.own c (hperm.mem_iff.mpr hc)
  sum := by
    rw [← h.sum]
    exact (hperm.map _).sum_eq.symm

theorem cons_idle (h : Accounts r clients) (hindex : conn.connIndex ≠ -1)
    (hmap : conn.sessChunkMap = fun _ => none) (hsize : conn.mappedChunkSize = 0) :
    Accounts r (conn :: clients) where
  tables := h.tables.cons hindex fun i => by rw [hmap]
  own := by
    refine List.forall_mem_cons.mpr ⟨?_, h.own⟩
    rw [hsize, Connection.held, hmap]
    rfl
  sum := by
    rw [List.map_cons, List.sum_cons, hsize, h.sum, Int.zero_add]

theorem buildConnection (h : Accounts sess.rdmaRemote clients) {left : Int}
    (hslot : (∃ i, sess.connsState i = .idle) ∨ 0 ≤ left) :
    Accounts (sess.buildConnection left).1.rdmaRemote
      ((sess.buildConnection left).2 :: clients) := by
  unfold RdmaSession.buildConnection
  cases hfind : (List.finRange maxClient).find? fun i => sess.connsState i == .idle with
  | none =>
      refine h.cons_idle ?_ rfl rfl
      cases hslot with
      | inl hidle =>
          obtain ⟨i, hi⟩ := hidle
          have hnone := List.find?_eq_none.mp hfind i (List.mem_finRange i)
          simp [hi] at hnone
      | inr hleft =>
          show left ≠ -1
          omega
  | some i =>
      refine h.cons_idle ?_ rfl rfl
      show (i : Int) ≠ -1
      omega

theorem sendChunks (h : Accounts sess.rdmaRemote (conn :: others)) {size : Int}
    (hsize : RdmaSession.mappable size sess.rdmaRemote = size) (type : MsgType) (sizeGb : Int) :
    Accounts (sess.sendChunks conn size type sizeGb).1.rdmaRemote
      ((sess.sendChunks conn size type sizeGb).2.1 :: others) := by
  have hmap := RdmaSession.mapChunks_mapping h.tables size
  have hown := List.forall_mem_cons.mp h.own
  have hsum := h.sum
  rw [hsize] at hmap
  rw [List.map_cons, List.sum_cons] at hsum
  constructor
  case tables =>
    refine (hmap.tables.count (Int.sub_self _) ?_).recount _
    omega
  case own =>
    refine List.forall_mem_cons.mpr ⟨?_, hown.2⟩
    show (RdmaSession.mapChunks size sess.rdmaRemote conn).2.1.mappedChunkSize + size =
      (RdmaSession.mapChunks size sess.rdmaRemote conn).2.1.held
    rw [hmap.size, hmap.held, hown.1]
  case sum =>
    rw [List.map_cons, List.sum_cons]
    show (RdmaSession.mapChunks size sess.rdmaRemote conn).2.1.mappedChunkSize + size + _ =
      (RdmaSession.mapChunks size sess.rdmaRemote conn).1.mappedSize + size
    rw [hmap.size, hmap.mapped]
    omega

theorem setState_rdmaRemote (sess : RdmaSession) (index : Int) (state : ConnState) :
    (sess.setState index state).rdmaRemote = sess.rdmaRemote := by
  unfold RdmaSession.setState
  split
  · split <;> rfl
  · rfl

theorem recvDone (h : Accounts sess.rdmaRemote (conn :: others)) {msg : Message}
    (hmsg : conn.answers msg = true) :
    ∃ sess' conn', sess.recvDone conn msg = some (sess', conn') ∧
      Accounts sess'.rdmaRemote (conn' :: others) := by
  rw [Connection.answers, Bool.and_eq_true, List.all_eq_true, beq_iff_eq] at hmsg
  have hown := List.forall_mem_cons.mp h.own
  have hsum := h.sum
  rw [List.map_cons, List.sum_cons] at hsum
  have hkeys : ∀ i ∈ chunks, msg.rkey i = true → (conn.sessChunkMap i).isSome = true := by
    intro i hi hkey
    simpa [hkey] using hmsg.1 i hi
  obtain ⟨r', conn', hfold, htables, hheld, hsize, -, hmapped⟩ :=
    RdmaSession.foldlM_stop chunks_nodup h.tables msg hkeys
  rw [← hmsg.2, Int.zero_add] at htables
  rw [← hmsg.2] at hheld
  have hnew : Accounts
      { r' with sizeGb := r'.sizeGb - msg.sizeGb, mappedSize := r'.mappedSize - msg.sizeGb }
      ({ conn' with mappedChunkSize := conn'.mappedChunkSize - msg.sizeGb } :: others) := by
    constructor
    case tables =>
      refine (htables.count ?_ ?_).recount _ <;> omega
    case own =>
      refine List.forall_mem_cons.mpr ⟨?_, hown.2⟩
      show conn'.mappedChunkSize - msg.sizeGb = conn'.held
      rw [hsize, hheld, hown.1]
    case sum =>
      rw [List.map_cons, List.sum_cons]
      show conn'.mappedChunkSize - msg.sizeGb + _ = r'.mappedSize - msg.sizeGb
      rw [hsize, hmapped]
      omega
  unfold RdmaSession.recvDone
  rw [hfold]
  refine ⟨_, _, rfl, ?_⟩
  split
  · rw [setState_rdmaRemote]
    exact hnew
  · exact hnew

theorem destroyConnection (h : Accounts sess.rdmaRemote (conn :: others)) :
    Accounts (sess.destroyConnection conn).rdmaRemote others := by
  have hown := List.forall_mem_cons.mp h.own
  have hsum := h.sum
  rw [List.map_cons, List.sum_cons] at hsum
  unfold RdmaSession.destroyConnection
  rw [setState_rdmaRemote]
  split
  case isTrue =>
    have hfold := RdmaSession.foldl_unmapChunk chunks_nodup h.tables conn fun _ _ => rfl
    have hheld : (chunks.countP fun i => (conn.sessChunkMap i).isSome : Int) = conn.mappedChunkSize :=
      hown.1.symm
    rw [hheld, Int.zero_add] at hfold
    constructor
    case tables =>
      refine hfold.1.count (Int.sub_self _) ?_
      omega
    case own => exact hown.2
    case sum =>
      show _ = (chunks.foldl (RdmaSession.unmapChunk conn) sess.rdmaRemote).mappedSize -
        conn.mappedChunkSize
      rw [hfold.2]
      omega
  case isFalse hzero =>
    have hnonneg : 0 ≤ conn.mappedChunkSize := by
      rw [hown.1]
      exact number_nonneg _
    refine ⟨h.tables.tail, hown.2, ?_⟩
    omega

theorem evictMem (h : Accounts sess.rdmaRemote clients) (stopG : Int) :
    Accounts (sess.evictMem stopG).rdmaRemote clients := by
  have hloop := markFirst_invariant RdmaRemoteMem.unmapped (fun r i => r.setMalloc i false) stopG
    (I := fun j r => Tables r clients j 0 ∧ r.mappedSize = sess.rdmaRemote.mappedSize)
    (fun j r i hr hi => ⟨hr.1.clearMalloc hi, hr.2⟩) chunks 0 sess.rdmaRemote ⟨h.tables, rfl⟩
  have hsum := h.sum
  rw [← hloop.2] at hsum
  simp only [RdmaSession.evictMem]
  split
  case isTrue heq =>
    refine ⟨hloop.1.count ?_ (Int.sub_self _), h.own, hsum⟩
    rw [heq]
    omega
  case isFalse =>
    refine ⟨hloop.1.count ?_ (Int.sub_self _), h.own, hsum⟩
    omega

theorem malloced_add (r : RdmaRemoteMem) :
    r.malloced + number (fun i => !r.mallocMap i) = maxFreeMemGb := by
  have hall : number (fun _ => true) = maxFreeMemGb := rfl
  rw [← hall]
  exact (number_split (fun i => by simp) (fun i hi => by simp [hi])).symm

/-- An expansion by as much as there is room for, and by nothing only without room. -/
theorem expandMem (h : Accounts sess.rdmaRemote clients) {expandSizeG : Int}
    (hroom : expandSizeG + sess.rdmaRemote.sizeGb ≤ maxFreeMemGb)
    (hpos : 0 < expandSizeG ∨ expandSizeG = 0 ∧ sess.rdmaRemote.sizeGb = maxFreeMemGb) :
    Accounts (sess.expandMem expandSizeG).rdmaRemote clients := by
  have hloop := markFirst_invariant (fun r i => !r.mallocMap i) (fun r i => r.setMalloc i true)
    expandSizeG (I := fun j r => Tables r clients (-j) 0 ∧ r.mappedSize = sess.rdmaRemote.mappedSize)
    ?_ chunks 0 sess.rdmaRemote ⟨h.tables, rfl⟩
  · have hcount : (markFirst (fun r i => !r.mallocMap i) (fun r i => r.setMalloc i true)
        expandSizeG chunks 0 sess.rdmaRemote).2 = expandSizeG := by
      have hother : ∀ (r : RdmaRemoteMem) (i k : Fin maxFreeMemGb), k ≠ i →
          (!(r.setMalloc i true).mallocMap k) = !r.mallocMap k := by
        intro r i k hne
        rw [RdmaRemoteMem.setMalloc_other r hne]
      have hsize := h.tables.size
      have hadd := malloced_add sess.rdmaRemote
      have hempty : number (fun i => !sess.rdmaRemote.mallocMap i) =
        chunks.countP fun i => !sess.rdmaRemote.mallocMap i := rfl
      rw [markFirst_count hother chunks_nodup]
      split <;> omega
    rw [hcount] at hloop
    have hsum := h.sum
    rw [← hloop.2] at hsum
    refine ⟨hloop.1.count ?_ (Int.sub_self _), h.own, hsum⟩
    omega
  · intro j r i hr hi
    rw [Bool.not_eq_true'] at hi
    have hnew := hr.1.setMalloc hi
    rw [show -j - 1 = -(j + 1) by omega] at hnew
    exact ⟨hnew, hr.2⟩

theorem round (h : Accounts sess.rdmaRemote clients) (m : FreeMem) (filteredFreeMemG : Int) :
    Accounts (m.round sess filteredFreeMemG).2.rdmaRemote clients := by
  have hevict : ∀ stopG : Int,
      Accounts (if stopG > 0 then sess.evictMem stopG else sess).rdmaRemote clients := by
    intro stopG
    split
    · exact h.evictMem stopG
    · exact h
  simp only [FreeMem.round]
  split
  case isTrue =>
    split
    case isTrue => exact hevict _
    case isFalse => exact h
  case isFalse =>
    split
    case isTrue hexpand =>
      have hexpand : 20 < filteredFreeMemG := hexpand
      have hsize := h.tables.size
      have hadd := malloced_add sess.rdmaRemote
      have hnonneg := number_nonneg fun i => !sess.rdmaRemote.mallocMap i
      simp only [freeMemExpandThreshold]
      split
      case isTrue =>
        apply h.expandMem
        case hroom => omega
        case hpos => omega
      case isFalse => exact h
    case isFalse => exact h

theorem countP_finRange_lt (n m : Nat) :
    (List.finRange m).countP (fun i : Fin m => decide (i.val < n)) = min n m := by
  induction m with
  | zero => simp
  | succ m ih =>
      rw [List.finRange_succ_last, List.countP_append, List.countP_map]
      have hcomp : (fun i : Fin (m + 1) => decide (i.val < n)) ∘ Fin.castSucc =
        fun i : Fin m => decide (i.val < n) := rfl
      rw [hcomp, ih, List.countP_singleton]
      simp only [Fin.val_last, decide_eq_true_eq]
      split <;> omega

/-- The first chunks are allocated. -/
theorem number_lt {n : Nat} (hn : n ≤ maxFreeMemGb) :
    number (fun i => decide ((i : Int) < (n : Int))) = n := by
  unfold number chunks
  simp only [Int.ofNat_lt]
  rw [countP_finRange_lt, Nat.min_eq_left hn]

theorem init (freeMemG : Int) : Accounts (RdmaSession.init freeMemG).rdmaRemote [] := by
  have hsize : (RdmaSession.init freeMemG).rdmaRemote.sizeGb =
      (RdmaSession.init freeMemG).rdmaRemote.malloced + 0 := by
    have hle : 0 ≤ (RdmaSession.init freeMemG).rdmaRemote.sizeGb ∧
        (RdmaSession.init freeMemG).rdmaRemote.sizeGb ≤ maxFreeMemGb := by
      simp only [RdmaSession.init, freeMemExpandThreshold, freeMemEvictThreshold, maxFreeMemGb]
      omega
    obtain ⟨n, hn⟩ := Int.eq_ofNat_of_zero_le hle.1
    rw [Int.add_zero]
    show _ = number fun i => decide ((i : Int) < (RdmaSession.init freeMemG).rdmaRemote.sizeGb)
    rw [hn, number_lt (by omega)]
  have hmapped : (RdmaSession.init freeMemG).rdmaRemote.mapped = 0 := rfl
  refine ⟨⟨hsize, ?_, ?_, ?_, List.Pairwise.nil, ?_⟩, ?_, rfl⟩
  · rw [hmapped]
    rfl
  · intro i hi
    exact absurd rfl hi
  · intro c hc
    exact absurd hc List.not_mem_nil
  · intro c hc
    exact absurd hc List.not_mem_nil
  · intro c hc
    exact absurd hc List.not_mem_nil

end Accounts

/-! ## Runs -/

/-- Counters, tables and answers of the daemon agree. -/
structure Accounted (d : Daemon) : Prop where
  size : d.session.rdmaRemote.sizeGb = d.session.rdmaRemote.malloced
  mapped : d.session.rdmaRemote.mappedSize = d.session.rdmaRemote.mapped
  sum : d.session.rdmaRemote.mappedSize = (d.clients.map Connection.mappedChunkSize).sum
  alloc : ∀ i, d.session.rdmaRemote.connMap i ≠ -1 → d.session.rdmaRemote.mallocMap i = true
  answer : ∀ k d' evs, d.step (.query k) = some (d', evs) → ∃ msg, evs = [msg] ∧
    msg.type = .freeSize ∧ msg.sizeGb = d.session.rdmaRemote.free ∧ 0 ≤ msg.sizeGb

namespace Daemon

variable {d d' : Daemon} {a : DaemonAction} {evs : List Message}

/-- A client that connects gets an index of `conns`, and a request for chunks does not ask
for more than there are; one for none is answered with all of them. -/
def fulfils (d : Daemon) : DaemonAction → Prop
  | .connect left => (∃ i, d.session.connsState i = .idle) ∨ 0 ≤ left ∧ left < maxClient
  | .bind _ size => 0 ≤ size ∧ size ≤ d.session.rdmaRemote.free ∧
      (size = 0 → d.session.rdmaRemote.free = 0)
  | .bindSingle _ _ => 0 < d.session.rdmaRemote.free
  | _ => True

instance decidableFulfils (d : Daemon) : (a : DaemonAction) → Decidable (d.fulfils a)
  | .connect left => inferInstanceAs
      (Decidable ((∃ i, d.session.connsState i = .idle) ∨ 0 ≤ left ∧ left < maxClient))
  | .bind _ size => inferInstanceAs (Decidable (0 ≤ size ∧ size ≤ d.session.rdmaRemote.free ∧
      (size = 0 → d.session.rdmaRemote.free = 0)))
  | .bindSingle _ _ => inferInstanceAs (Decidable (0 < d.session.rdmaRemote.free))
  | .established _ => inferInstanceAs (Decidable True)
  | .query _ => inferInstanceAs (Decidable True)
  | .done .. => inferInstanceAs (Decidable True)
  | .disconnect _ => inferInstanceAs (Decidable True)
  | .round _ => inferInstanceAs (Decidable True)

theorem accounts_cons {r : RdmaRemoteMem} {clients : List Connection} (h : Accounts r clients)
    {k : Nat} {conn : Connection} (hk : clients[k]? = some conn) :
    Accounts r (conn :: clients.eraseIdx k) := by
  obtain ⟨hlt, rfl⟩ := List.getElem?_eq_some_iff.mp hk
  exact h.perm (List.getElem_cons_eraseIdx_perm hlt).symm

theorem accounts_set {r : RdmaRemoteMem} {clients : List Connection} {k : Nat}
    {conn conn' : Connection} (hk : clients[k]? = some conn)
    (h : Accounts r (conn' :: clients.eraseIdx k)) : Accounts r (clients.set k conn') := by
  obtain ⟨hlt, -⟩ := List.getElem?_eq_some_iff.mp hk
  exact h.perm (List.set_perm_cons_eraseIdx hlt conn').symm

theorem accounts_step (h : Accounts d.session.rdmaRemote d.clients) (hok : d.fulfils a)
    (hs : d.step a = some (d', evs)) : Accounts d'.session.rdmaRemote d'.clients := by
  cases a with
  | connect left =>
      simp only [step, Option.some.injEq, Prod.mk.injEq] at hs
      obtain ⟨rfl, rfl⟩ := hs
      exact h.buildConnection (hok.imp_right And.left)
  | established k =>
      simp only [step, Option.map_eq_some_iff, Prod.mk.injEq] at hs
      obtain ⟨conn, hk, rfl, rfl⟩ := hs
      exact h
  | query k =>
      simp only [step, Option.map_eq_some_iff, Prod.mk.injEq] at hs
      obtain ⟨conn, hk, rfl, rfl⟩ := hs
      exact h
  | bind k size =>
      simp only [step, Option.map_eq_some_iff, Prod.mk.injEq] at hs
      obtain ⟨conn, hk, rfl, rfl⟩ := hs
      have hsize : RdmaSession.mappable size d.session.rdmaRemote = size := by
        obtain ⟨hnonneg, hle, hzero⟩ := hok
        unfold RdmaSession.mappable
        split <;> omega
      rw [Accounts.setState_rdmaRemote]
      exact accounts_set hk ((accounts_cons h hk).sendChunks hsize .info size)
  | bindSingle k index =>
      simp only [step, Option.map_eq_some_iff, Prod.mk.injEq] at hs
      obtain ⟨conn, hk, rfl, rfl⟩ := hs
      have hsize : RdmaSession.mappable 1 d.session.rdmaRemote = 1 := by
        have hfree : 0 < d.session.rdmaRemote.free := hok
        exact if_pos ⟨by omega, by omega⟩
      rw [Accounts.setState_rdmaRemote]
      exact accounts_set hk ((accounts_cons h hk).sendChunks hsize .infoSingle index)
  | done k sizeGb rkey =>
      simp only [step, Option.bind_eq_some_iff] at hs
      obtain ⟨conn, hk, hs⟩ := hs
      split at hs
      case isTrue hmsg =>
        obtain ⟨sess', conn', hrecv, hnew⟩ := (accounts_cons h hk).recvDone hmsg
        simp only [hrecv, Option.map_some, Option.some.injEq, Prod.mk.injEq] at hs
        obtain ⟨rfl, rfl⟩ := hs
        exact accounts_set hk hnew
      case isFalse => simp at hs
  | disconnect k =>
      simp only [step, Option.map_eq_some_iff, Prod.mk.injEq] at hs
      obtain ⟨conn, hk, rfl, rfl⟩ := hs
      exact (accounts_cons h hk).destroyConnection
  | round filteredFreeMemG =>
      simp only [step] at hs
      split at hs
      case isTrue =>
        simp only [Option.some.injEq, Prod.mk.injEq] at hs
        obtain ⟨rfl, rfl⟩ := hs
        exact h.round d.freeMem filteredFreeMemG
      case isFalse => simp at hs

theorem free_add_mapped {r : RdmaRemoteMem} (h : ∀ i, r.connMap i ≠ -1 → r.mallocMap i = true) :
    r.free + r.mapped = r.malloced := by
  refine (number_split ?_ ?_).symm
  · intro i
    have hi := h i
    by_cases hmap : r.connMap i = -1
    · simp [RdmaRemoteMem.unmapped, hmap]
    · simp [RdmaRemoteMem.unmapped, hmap, hi hmap]
  · intro i hi
    simp [(RdmaRemoteMem.unmapped_iff.mp hi).2]

theorem accounted_of_accounts (h : Accounts d.session.rdmaRemote d.clients) : Accounted d where
  size := by
    rw [h.tables.size, Int.add_zero]
  mapped := by
    rw [h.tables.mapped, Int.add_zero]
  sum := h.sum.symm
  alloc := h.tables.alloc
  answer := by
    intro k d' evs hs
    simp only [step, Option.map_eq_some_iff, Prod.mk.injEq] at hs
    obtain ⟨conn, hk, rfl, rfl⟩ := hs
    have hsize := h.tables.size
    have hmapped := h.tables.mapped
    have hadd := free_add_mapped h.tables.alloc
    have hfree : d.session.sendFreeMemSize.sizeGb = d.session.rdmaRemote.free := by
      show d.session.rdmaRemote.sizeGb - d.session.rdmaRemote.mappedSize = _
      omega
    refine ⟨_, rfl, rfl, hfree, ?_⟩
    rw [hfree]
    exact number_nonneg _

end Daemon

theorem daemon_accounted {d : Daemon} {tr : List Message} (h : daemon.Exec Daemon.fulfils d tr) :
    Accounted d := by
  apply Daemon.accounted_of_accounts
  refine h.invariant (I := fun d _ => Accounts d.session.rdmaRemote d.clients) ?_ ?_
  · intro d hd
    obtain ⟨freeMemG, last, rfl⟩ := hd
    exact Accounts.init freeMemG
  · intro d tr a d' evs hd hok hs
    exact Daemon.accounts_step hd hok hs

/-- The daemon on a machine with `freeMemG` GB of free memory. -/
def freshDaemon (freeMemG : Int) : Daemon := ⟨.init freeMemG, [], ⟨freeMemG, 0, 0⟩, true⟩

theorem freshDaemon_init (freeMemG : Int) : daemon.init (freshDaemon freeMemG) :=
  ⟨freeMemG, freeMemG, rfl⟩

/-- Two clients share three chunks; one of them stops a chunk and the other leaves. -/
def sharedRun : List DaemonAction :=
  [.connect 0, .connect 0, .query 0, .bind 0 2, .bindSingle 1 4, .done 0 1 (fun i => i.val == 0),
    .round 5, .disconnect 1]

/-- Two clients are told of the same last chunk and both bind it. -/
def contendedRun : List DaemonAction :=
  [.connect 0, .connect 0, .query 0, .query 1, .bindSingle 0 0, .bindSingle 1 0]

theorem sharedRun_meets : daemon.Meets Daemon.fulfils (freshDaemon 13) sharedRun := by
  have hcheck : daemon.check (fun d a => decide (d.fulfils a)) (freshDaemon 13) sharedRun = true := by
    decide +kernel
  exact System.meets_of_check (fun _ _ hok => of_decide_eq_true hok) hcheck

theorem daemon_accounted_sample :
    Accounted (daemon.final (freshDaemon 13) sharedRun) ∧
      (daemon.final (freshDaemon 13) sharedRun).session.rdmaRemote.sizeGb = 2 :=
  ⟨daemon_accounted (System.exec_final (freshDaemon_init 13) sharedRun_meets), by decide +kernel⟩

theorem daemon_contended :
    daemon.Reachable (daemon.final (freshDaemon 11) contendedRun) ∧
      (daemon.final (freshDaemon 11) contendedRun).session.rdmaRemote.mappedSize = 2 ∧
      (daemon.final (freshDaemon 11) contendedRun).session.rdmaRemote.mapped = 1 ∧
      (daemon.final (freshDaemon 11) contendedRun).session.sendFreeMemSize.sizeGb = -1 ∧
      ¬ Accounted (daemon.final (freshDaemon 11) contendedRun) := by
  have hsize : (daemon.final (freshDaemon 11) contendedRun).session.rdmaRemote.mappedSize = 2 := by
    decide +kernel
  have hmapped : (daemon.final (freshDaemon 11) contendedRun).session.rdmaRemote.mapped = 1 := by
    decide +kernel
  refine ⟨System.reachable_final (freshDaemon_init 11) _, hsize, hmapped, by decide +kernel, ?_⟩
  intro h
  have heq := h.mapped
  rw [hsize, hmapped] at heq
  omega

end Memtrade.Infiniswap
