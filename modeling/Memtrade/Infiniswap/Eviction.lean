import Mathlib.Algebra.GroupWithZero.Nat
import Mathlib.Data.List.Nodup
import Memtrade.Infiniswap.Daemon
import Memtrade.Lib.ExchangeSort

/-!
# Choosing the chunks to evict

The second half of `evict_mem`: clients are asked for the activity of their chunks, the
least active chunks are marked in the messages to their owners, and every asked client
gets a `STOP`. The loop that sends them passes `size_gb` of `conns[conn_index]`, and
`conn_index` is the owner of the chunk that was marked last, whoever the message goes to.
-/

namespace Memtrade.Infiniswap

/-- `struct chunk_activity`. -/
structure ChunkActivity where
  activity : Nat
  chunkIndex : Fin maxFreeMemGb
deriving DecidableEq, Repr

/-- The values of `send_list`: -1, 1 and 2. -/
inductive SendState where
  | no
  | asked
  | chosen
deriving DecidableEq, Repr

/-- What the phase starts from. `buf` holds the activities in the answers, in the order
of bytes of the host; in `sizeGb` and `rkey` is what the send buffers hold. -/
structure Inquiry where
  connMap : Fin maxFreeMemGb → Int
  mappedChunkSize : Fin maxClient → Nat
  asked : Fin maxClient → Bool
  buf : Fin maxClient → Fin maxFreeMemGb → Nat
  sizeGb : Fin maxClient → Int
  rkey : Fin maxClient → Fin maxFreeMemGb → Bool
  evictG : Nat

/-- The locals and send buffers that the phase changes. -/
structure Selection where
  sendList : Fin maxClient → SendState
  sizeGb : Fin maxClient → Int
  rkey : Fin maxClient → Fin maxFreeMemGb → Bool
  connIndex : Option (Fin maxClient)

inductive SelectionMsg where
  | evict (client : Fin maxClient) (sizeGb : Int)
  | stop (client : Fin maxClient) (sizeGb : Int) (rkey : Fin maxFreeMemGb → Bool)

def clients : List (Fin maxClient) := List.finRange maxClient

/-- A value of `conn_map` as an index of the arrays of clients. -/
def clientOf (index : Int) : Option (Fin maxClient) := clients.find? fun i => (i : Int) == index

/-- The entries of `evict_list` from the answer of one client. -/
def reported (q : Inquiry) (i : Fin maxClient) : List ChunkActivity :=
  (chunks.filter fun m => q.buf i m != 0).map fun m => ⟨q.buf i m, m⟩

def evictList (q : Inquiry) : List ChunkActivity := (clients.filter q.asked).flatMap (reported q)

/-- `k`, the length of `evict_list`. -/
def totalChunk (q : Inquiry) : Nat := ((clients.filter q.asked).map q.mappedChunkSize).sum

/-- The buffers once the answers are in. -/
def Selection.start (q : Inquiry) : Selection where
  sendList i := if q.asked i then .asked else .no
  sizeGb i := if q.asked i then 0 else q.sizeGb i
  rkey i := if q.asked i then fun _ => false else q.rkey i
  connIndex := none

/-- The end of a round of the loop over `n`. An owner outside of the arrays is not seen. -/
def mark (q : Inquiry) (s : Selection) (c : ChunkActivity) : Selection :=
  match clientOf (q.connMap c.chunkIndex) with
  | none => s
  | some i =>
      { sendList := if s.sendList i = .asked then Function.update s.sendList i .chosen else s.sendList
        rkey := Function.update s.rkey i (Function.update (s.rkey i) c.chunkIndex true)
        sizeGb := Function.update s.sizeGb i (s.sizeGb i + 1)
        connIndex := some i }

/-- The loop over `n`, on what is left of `evict_list`. -/
def select (q : Inquiry) : Nat → List ChunkActivity → Selection → Selection
  | 0, _, s => s
  | _ + 1, [], s => s
  | j + 1, x :: xs, s =>
      select q j (exchange ChunkActivity.activity x xs).2
        (mark q s (exchange ChunkActivity.activity x xs).1)

def sendStop (s : Selection) (i : Fin maxClient) (n : Int) : Selection × SelectionMsg :=
  ({ s with sizeGb := Function.update s.sizeGb i n }, .stop i n (s.rkey i))

/-- The loop that sends the `STOP`s. -/
def sendStops : List (Fin maxClient) → Selection → List SelectionMsg
  | [], _ => []
  | i :: is, s =>
      match s.sendList i with
      | .chosen =>
          let r := sendStop s i ((s.connIndex.map s.sizeGb).getD 0)
          r.2 :: sendStops is r.1
      | .asked =>
          let r := sendStop s i 0
          r.2 :: sendStops is r.1
      | .no => sendStops is s

/-- The buffers when the chunks are marked. -/
def selection (q : Inquiry) : Selection :=
  select q q.evictG ((evictList q).take (totalChunk q)) (.start q)

/-- The messages of the phase. -/
def selectionMsgs (q : Inquiry) : List SelectionMsg :=
  (clients.filter q.asked).map (fun i => .evict i q.evictG) ++ sendStops clients (selection q)

/-! ## What is expected -/

/-- Every answer lists the chunks of its client, and there are as many of these as the
daemon counts. -/
structure Inquiry.Exact (q : Inquiry) : Prop where
  reports : ∀ i, q.asked i = true → ∀ m, q.buf i m ≠ 0 ↔ q.connMap m = i
  counts : ∀ i, q.asked i = true →
    q.mappedChunkSize i = chunks.countP fun m => q.connMap m == i

/-- The chunk is marked in the message to an asked client. -/
def marked (q : Inquiry) (m : Fin maxFreeMemGb) : Bool :=
  clients.any fun i => q.asked i && (selection q).rkey i m

/-- The right number of least active chunks is marked, and every `STOP` says how many of
its receiver's chunks these are. -/
structure SelectsRight (q : Inquiry) : Prop where
  number : chunks.countP (marked q) = q.evictG
  least : ∀ i m i' m', q.asked i = true → q.connMap m = i → marked q m = false →
    q.asked i' = true → q.connMap m' = i' → marked q m' = true → q.buf i' m' ≤ q.buf i m
  stops : ∀ i, q.asked i = true → ∃ n rkey, .stop i n rkey ∈ selectionMsgs q
  sizes : ∀ (i : Fin maxClient) (n : Int) (rkey : Fin maxFreeMemGb → Bool),
    .stop i n rkey ∈ selectionMsgs q → q.asked i = true →
      n = (chunks.countP fun m => marked q m && q.connMap m == i : Nat) ∧
      n = (chunks.countP rkey : Nat)

/-- The chunk belongs to the client. -/
def owns (q : Inquiry) (i : Fin maxClient) (c : ChunkActivity) : Bool := q.connMap c.chunkIndex == i

/-- How many of the `evict_g` least active chunks among the reported ones belong to a client.
Equally active chunks follow one another in the order of `turn`, which depends on nothing but
the reports. -/
def leastActive (q : Inquiry) (i : Fin maxClient) : Nat :=
  (evictList q).countP fun c =>
    owns q i c && decide (turn ChunkActivity.activity (evictList q) c < q.evictG)

/-! ## The answers -/

theorem clientOf_eq_some {index : Int} {i : Fin maxClient} : clientOf index = some i ↔ index = i := by
  constructor
  · intro h
    have htest := List.find?_some h
    exact (beq_iff_eq.mp htest).symm
  · intro h
    unfold clientOf
    rw [List.find?_eq_some_iff_getElem, h]
    refine ⟨by simp, i.val, by simp [clients], by simp [clients], ?_⟩
    intro j hj
    have hne : (j : Int) ≠ (i.val : Int) := by omega
    simpa [clients] using hne

section Exact

variable {q : Inquiry}

theorem mem_reported {i : Fin maxClient} {c : ChunkActivity} :
    c ∈ reported q i ↔ q.buf i c.chunkIndex ≠ 0 ∧ c.activity = q.buf i c.chunkIndex := by
  unfold reported
  rw [List.mem_map]
  constructor
  · rintro ⟨m, hm, hc⟩
    rw [← hc]
    have hne := (List.mem_filter.mp hm).2
    exact ⟨by simpa using hne, rfl⟩
  · rintro ⟨hne, hact⟩
    refine ⟨c.chunkIndex, ?_, by rw [← hact]⟩
    simp [chunks, hne]

/-- The entries are the chunks of the asked clients, with their activities. -/
theorem mem_evictList (h : q.Exact) {c : ChunkActivity} :
    c ∈ evictList q ↔
      ∃ i, q.asked i = true ∧ q.connMap c.chunkIndex = i ∧ c.activity = q.buf i c.chunkIndex := by
  unfold evictList
  rw [List.mem_flatMap]
  constructor
  · rintro ⟨i, hi, hc⟩
    have hasked := (List.mem_filter.mp hi).2
    obtain ⟨hne, hact⟩ := mem_reported.mp hc
    exact ⟨i, hasked, (h.reports i hasked _).mp hne, hact⟩
  · rintro ⟨i, hasked, howner, hact⟩
    refine ⟨i, by simp [clients, hasked], mem_reported.mpr ⟨?_, hact⟩⟩
    exact (h.reports i hasked _).mpr howner

theorem reported_chunks (h : q.Exact) {i : Fin maxClient} (hi : q.asked i = true) :
    (reported q i).map ChunkActivity.chunkIndex = chunks.filter fun m => q.connMap m == i := by
  have hfilter : (chunks.filter fun m => q.buf i m != 0) =
      chunks.filter fun m => q.connMap m == i := by
    apply List.filter_congr
    intro m _
    rw [Bool.eq_iff_iff, bne_iff_ne, beq_iff_eq]
    exact h.reports i hi m
  unfold reported
  rw [List.map_map, ← hfilter]
  exact List.map_id _

theorem length_evictList (h : q.Exact) : (evictList q).length = totalChunk q := by
  unfold evictList totalChunk
  rw [List.length_flatMap]
  congr 1
  apply List.map_congr_left
  intro i hi
  have hasked := (List.mem_filter.mp hi).2
  rw [h.counts i hasked, List.countP_eq_length_filter, ← reported_chunks h hasked, List.length_map]

theorem nodup_evictList (h : q.Exact) : ((evictList q).map ChunkActivity.chunkIndex).Nodup := by
  unfold evictList
  rw [List.map_flatMap, List.nodup_flatMap]
  constructor
  · intro i hi
    rw [reported_chunks h (List.mem_filter.mp hi).2]
    exact (List.nodup_finRange _).filter _
  · have hnodup : (clients.filter q.asked).Nodup := (List.nodup_finRange _).filter _
    refine hnodup.imp_of_mem ?_
    intro i j hi hj hne
    change List.Disjoint ((reported q i).map ChunkActivity.chunkIndex)
      ((reported q j).map ChunkActivity.chunkIndex)
    rw [reported_chunks h (List.mem_filter.mp hi).2, reported_chunks h (List.mem_filter.mp hj).2]
    intro m hm hm'
    have howner := (List.mem_filter.mp hm).2
    have howner' := (List.mem_filter.mp hm').2
    rw [beq_iff_eq] at howner howner'
    rw [howner] at howner'
    apply hne
    apply Fin.ext
    exact_mod_cast howner'

end Exact

/-! ## Marking -/

theorem select_eq (q : Inquiry) (j : Nat) (l : List ChunkActivity) (s : Selection) :
    select q j l s = (frontSort ChunkActivity.activity j l).1.foldl (mark q) s := by
  induction j generalizing l s with
  | zero => rfl
  | succ j ih =>
      cases l with
      | nil => rfl
      | cons x xs =>
          rw [select, ih]
          rfl

/-- What marking a list of owned chunks leaves in the buffers. -/
structure MarkedAll (q : Inquiry) (l : List ChunkActivity) (s t : Selection) : Prop where
  sizeGb : ∀ i, t.sizeGb i = s.sizeGb i + (l.countP (owns q i) : Nat)
  rkey : ∀ i m, t.rkey i m = (s.rkey i m || l.any fun c => owns q i c && c.chunkIndex == m)
  sendList : ∀ i, t.sendList i =
    if s.sendList i = .asked ∧ 0 < l.countP (owns q i) then .chosen else s.sendList i
  connIndex : (l = [] ∧ t.connIndex = s.connIndex) ∨
    ∃ i, t.connIndex = some i ∧ 0 < l.countP (owns q i)

theorem owns_iff {q : Inquiry} {c : ChunkActivity} {i k : Fin maxClient}
    (h : q.connMap c.chunkIndex = k) : owns q i c = true ↔ i = k := by
  unfold owns
  rw [h, beq_iff_eq]
  constructor
  · intro heq
    apply Fin.ext
    exact_mod_cast heq.symm
  · intro heq
    rw [heq]

theorem mark_eq {q : Inquiry} {c : ChunkActivity} {k : Fin maxClient}
    (h : q.connMap c.chunkIndex = k) (s : Selection) :
    mark q s c =
      { sendList := if s.sendList k = .asked then Function.update s.sendList k .chosen else s.sendList
        rkey := Function.update s.rkey k (Function.update (s.rkey k) c.chunkIndex true)
        sizeGb := Function.update s.sizeGb k (s.sizeGb k + 1)
        connIndex := some k } := by
  unfold mark
  rw [clientOf_eq_some.mpr h]

theorem MarkedAll.cons {q : Inquiry} {c : ChunkActivity} {l : List ChunkActivity} {s t : Selection}
    {k : Fin maxClient} (howner : q.connMap c.chunkIndex = k)
    (h : MarkedAll q l (mark q s c) t) : MarkedAll q (c :: l) s t := by
  have howns : ∀ i, owns q i c = true ↔ i = k := fun i => owns_iff howner
  have hself : owns q k c = true := (howns k).mpr rfl
  have hother : ∀ i, i ≠ k → owns q i c = false := by
    intro i hi
    rw [Bool.eq_false_iff]
    exact fun htrue => hi ((howns i).mp htrue)
  rw [mark_eq howner] at h
  constructor
  case sizeGb =>
    intro i
    rw [h.sizeGb i]
    show Function.update s.sizeGb k (s.sizeGb k + 1) i + _ = _
    by_cases hi : i = k
    · rw [hi, Function.update_self, List.countP_cons_of_pos hself]
      push_cast
      omega
    · rw [Function.update_of_ne hi, List.countP_cons_of_neg (by simp [hother i hi])]
  case rkey =>
    intro i m
    rw [h.rkey i m, List.any_cons]
    show (Function.update s.rkey k (Function.update (s.rkey k) c.chunkIndex true) i m || _) = _
    by_cases hi : i = k
    · rw [hi, Function.update_self, hself, Bool.true_and]
      by_cases hm : m = c.chunkIndex
      · rw [hm, Function.update_self]
        simp
      · rw [Function.update_of_ne hm, beq_eq_false_iff_ne.mpr (Ne.symm hm), Bool.false_or]
    · rw [Function.update_of_ne hi, hother i hi, Bool.false_and, Bool.false_or]
  case sendList =>
    intro i
    rw [h.sendList i]
    simp only []
    by_cases hi : i = k
    · rw [hi, List.countP_cons_of_pos hself]
      by_cases hasked : s.sendList k = .asked
      · simp [hasked]
      · simp [hasked]
    · rw [List.countP_cons_of_neg (by simp [hother i hi])]
      by_cases hasked : s.sendList k = .asked
      · simp [hasked, Function.update_of_ne hi]
      · simp [hasked]
  case connIndex =>
    right
    cases h.connIndex with
    | inl hnil =>
        refine ⟨k, hnil.2, ?_⟩
        rw [List.countP_cons_of_pos hself]
        omega
    | inr hlast =>
        obtain ⟨i, hi, hpos⟩ := hlast
        refine ⟨i, hi, ?_⟩
        rw [List.countP_cons]
        omega

theorem markedAll_foldl {q : Inquiry} {l : List ChunkActivity}
    (h : ∀ c ∈ l, ∃ i : Fin maxClient, q.connMap c.chunkIndex = i) (s : Selection) :
    MarkedAll q l s (l.foldl (mark q) s) := by
  induction l generalizing s with
  | nil => exact ⟨by simp, by simp, by simp, .inl ⟨rfl, rfl⟩⟩
  | cons c l ih =>
      obtain ⟨k, hk⟩ := h c List.mem_cons_self
      exact .cons hk (ih (fun d hd => h d (List.mem_cons_of_mem _ hd)) (mark q s c))

/-! ## Sending -/

/-- The size in the `STOP` that a client gets, if it gets one. -/
def Selection.stopSize (s : Selection) (i : Fin maxClient) : Option Int :=
  match s.sendList i with
  | .chosen => some ((s.connIndex.map s.sizeGb).getD 0)
  | .asked => some 0
  | .no => none

theorem sendStops_cons (i : Fin maxClient) (l : List (Fin maxClient)) (s : Selection) :
    sendStops (i :: l) s =
      match s.stopSize i with
      | some n => (sendStop s i n).2 :: sendStops l (sendStop s i n).1
      | none => sendStops l s := by
  rw [sendStops, Selection.stopSize]
  cases s.sendList i with
  | no => rfl
  | asked => rfl
  | chosen => rfl

section Sending

variable {s : Selection}

/-- The owner of the chunk marked last is itself among the clients with marks, so what
the loop passes on does not change while it runs. -/
theorem stopSize_sendStop (hlast : ∀ k, s.connIndex = some k → s.sendList k = .chosen)
    {j : Fin maxClient} {v : Int} (hv : s.stopSize j = some v) :
    (sendStop s j v).1.stopSize = s.stopSize := by
  have hpassed : s.connIndex.map (Function.update s.sizeGb j v) = s.connIndex.map s.sizeGb := by
    cases hk : s.connIndex with
    | none => rfl
    | some k =>
        by_cases hkj : k = j
        · -- the last owner is sent its own number
          unfold Selection.stopSize at hv
          rw [← hkj, hlast k hk, hk] at hv
          simp only [Option.map_some, Option.getD_some, Option.some.injEq] at hv
          rw [hkj, Option.map_some, Option.map_some, Function.update_self, ← hv, hkj]
        · rw [Option.map_some, Option.map_some, Function.update_of_ne hkj]
  funext i
  unfold Selection.stopSize sendStop
  simp only [hpassed]

theorem mem_sendStops {l : List (Fin maxClient)}
    (hlast : ∀ k, s.connIndex = some k → s.sendList k = .chosen) {i : Fin maxClient} {n : Int}
    {rkey : Fin maxFreeMemGb → Bool} :
    .stop i n rkey ∈ sendStops l s ↔ i ∈ l ∧ rkey = s.rkey i ∧ s.stopSize i = some n := by
  induction l generalizing s with
  | nil => simp [sendStops]
  | cons j l ih =>
      rw [sendStops_cons, List.mem_cons]
      cases hj : s.stopSize j with
      | none =>
          simp only
          rw [ih hlast]
          constructor
          · exact fun h => ⟨.inr h.1, h.2⟩
          · intro h
            cases h.1 with
            | inl heq =>
                have hsize := h.2.2
                rw [heq, hj] at hsize
                cases hsize
            | inr hmem => exact ⟨hmem, h.2⟩
      | some v =>
          have hrest := ih (s := (sendStop s j v).1) hlast
          rw [stopSize_sendStop hlast hj] at hrest
          simp only
          rw [List.mem_cons, hrest]
          constructor
          · intro h
            cases h with
            | inl heq =>
                cases heq
                exact ⟨.inl rfl, rfl, hj⟩
            | inr hmem => exact ⟨.inr hmem.1, hmem.2⟩
          · intro h
            obtain ⟨hmem, hrkey, hsize⟩ := h
            cases hmem with
            | inl heq =>
                left
                rw [heq, hj, Option.some.injEq] at hsize
                rw [hrkey, heq, ← hsize]
                rfl
            | inr hmem => exact .inr ⟨hmem, hrkey, hsize⟩

end Sending

/-! ## The whole phase -/

/-- The chunks that the sort puts in front. -/
def picked (q : Inquiry) : List ChunkActivity :=
  (frontSort ChunkActivity.activity q.evictG (evictList q)).1

/-- How many of these belong to a client. -/
def owned (q : Inquiry) (i : Fin maxClient) : Nat := (picked q).countP (owns q i)

section Phase

variable {q : Inquiry}

theorem picked_perm (q : Inquiry) :
    (picked q ++ (frontSort ChunkActivity.activity q.evictG (evictList q)).2).Perm (evictList q) :=
  frontSort_perm ChunkActivity.activity q.evictG (evictList q)

theorem mem_evictList_of_picked {c : ChunkActivity} (hc : c ∈ picked q) : c ∈ evictList q :=
  (picked_perm q).subset (List.mem_append_left _ hc)

theorem picked_nodup (h : q.Exact) : ((picked q).map ChunkActivity.chunkIndex).Nodup := by
  have hperm := (picked_perm q).map ChunkActivity.chunkIndex
  rw [List.map_append] at hperm
  exact (hperm.nodup_iff.mpr (nodup_evictList h)).of_append_left

theorem owned_eq (h : q.Exact) (i : Fin maxClient) : owned q i = leastActive q i := by
  have hpicked : (picked q).Nodup := (picked_nodup h).of_map
  have hlist : (evictList q).Nodup := (nodup_evictList h).of_map
  have hperm : (picked q).Perm
      ((evictList q).filter fun c => turn ChunkActivity.activity (evictList q) c < q.evictG) := by
    rw [List.perm_ext_iff_of_nodup hpicked (hlist.filter _)]
    intro c
    rw [List.mem_filter, decide_eq_true_iff]
    exact mem_frontSort
  unfold owned leastActive
  rw [hperm.countP_eq, List.countP_filter]

theorem selection_markedAll (h : q.Exact) : MarkedAll q (picked q) (.start q) (selection q) := by
  have hall : (evictList q).take (totalChunk q) = evictList q :=
    List.take_of_length_le (length_evictList h).le
  unfold selection
  rw [hall, select_eq]
  apply markedAll_foldl
  intro c hc
  obtain ⟨i, -, howner, -⟩ := (mem_evictList h).mp (mem_evictList_of_picked hc)
  exact ⟨i, howner⟩

theorem asked_of_owned (h : q.Exact) {i : Fin maxClient} (hpos : 0 < owned q i) :
    q.asked i = true := by
  obtain ⟨c, hc, howns⟩ := List.countP_pos_iff.mp hpos
  obtain ⟨k, hasked, howner, -⟩ := (mem_evictList h).mp (mem_evictList_of_picked hc)
  rw [(owns_iff howner).mp howns]
  exact hasked

theorem selection_rkey (h : q.Exact) {i : Fin maxClient} (hi : q.asked i = true)
    (m : Fin maxFreeMemGb) :
    (selection q).rkey i m = true ↔ ∃ c ∈ picked q, owns q i c = true ∧ c.chunkIndex = m := by
  rw [(selection_markedAll h).rkey i m]
  simp [Selection.start, hi]

theorem selection_sendList (h : q.Exact) (i : Fin maxClient) :
    (selection q).sendList i =
      if q.asked i then if 0 < owned q i then .chosen else .asked else .no := by
  have hmarked := (selection_markedAll h).sendList i
  change _ = if _ ∧ 0 < owned q i then _ else _ at hmarked
  rw [hmarked]
  unfold Selection.start
  cases hi : q.asked i with
  | false => simp [hi]
  | true => simp [hi]

theorem marked_iff (h : q.Exact) (m : Fin maxFreeMemGb) :
    marked q m = true ↔ ∃ c ∈ picked q, c.chunkIndex = m := by
  unfold marked
  rw [List.any_eq_true]
  constructor
  · rintro ⟨i, -, hi⟩
    rw [Bool.and_eq_true] at hi
    obtain ⟨c, hc, -, hm⟩ := (selection_rkey h hi.1 m).mp hi.2
    exact ⟨c, hc, hm⟩
  · rintro ⟨c, hc, hm⟩
    obtain ⟨i, hasked, howner, -⟩ := (mem_evictList h).mp (mem_evictList_of_picked hc)
    refine ⟨i, by simp [clients], ?_⟩
    rw [Bool.and_eq_true]
    exact ⟨hasked, (selection_rkey h hasked m).mpr ⟨c, hc, (owns_iff howner).mpr rfl, hm⟩⟩

theorem countP_chunks {l : List (Fin maxFreeMemGb)} (hnodup : l.Nodup) {p : Fin maxFreeMemGb → Bool}
    (hp : ∀ m, p m = true ↔ m ∈ l) : chunks.countP p = l.length := by
  have hfilter : (chunks.filter p).Nodup := (List.nodup_finRange _).filter _
  rw [List.countP_eq_length_filter]
  apply List.Perm.length_eq
  rw [List.perm_ext_iff_of_nodup hfilter hnodup]
  intro m
  rw [List.mem_filter, ← hp]
  simp [chunks]

theorem countP_owned (h : q.Exact) (i : Fin maxClient) {p : Fin maxFreeMemGb → Bool}
    (hp : ∀ m, p m = true ↔ ∃ c ∈ picked q, owns q i c = true ∧ c.chunkIndex = m) :
    chunks.countP p = owned q i := by
  have hnodup : (((picked q).filter (owns q i)).map ChunkActivity.chunkIndex).Nodup :=
    (picked_nodup h).sublist (List.filter_sublist.map _)
  rw [countP_chunks hnodup, List.length_map, owned, List.countP_eq_length_filter]
  intro m
  rw [hp, List.mem_map]
  constructor
  · rintro ⟨c, hc, howns, hm⟩
    exact ⟨c, List.mem_filter.mpr ⟨hc, howns⟩, hm⟩
  · rintro ⟨c, hc, hm⟩
    obtain ⟨hmem, howns⟩ := List.mem_filter.mp hc
    exact ⟨c, hmem, howns, hm⟩

theorem countP_rkey (h : q.Exact) {i : Fin maxClient} (hi : q.asked i = true) :
    chunks.countP ((selection q).rkey i) = owned q i :=
  countP_owned h i (selection_rkey h hi)

theorem countP_marked_owned (h : q.Exact) (i : Fin maxClient) :
    (chunks.countP fun m => marked q m && q.connMap m == i) = owned q i := by
  apply countP_owned h i
  intro m
  rw [Bool.and_eq_true, marked_iff h, beq_iff_eq]
  constructor
  · rintro ⟨⟨c, hc, rfl⟩, howner⟩
    exact ⟨c, hc, beq_iff_eq.mpr howner, rfl⟩
  · rintro ⟨c, hc, howns, rfl⟩
    exact ⟨⟨c, hc, rfl⟩, beq_iff_eq.mp howns⟩

theorem countP_marked (h : q.Exact) (hle : q.evictG ≤ (evictList q).length) :
    chunks.countP (marked q) = q.evictG := by
  rw [countP_chunks (picked_nodup h), List.length_map]
  · exact length_frontSort hle
  · intro m
    rw [marked_iff h, List.mem_map]

theorem marked_least (h : q.Exact) {i i' : Fin maxClient} {m m' : Fin maxFreeMemGb}
    (hi : q.asked i = true) (hm : q.connMap m = i) (hout : marked q m = false)
    (hm' : q.connMap m' = i') (hin : marked q m' = true) : q.buf i' m' ≤ q.buf i m := by
  obtain ⟨c, hc, hchunk⟩ := (marked_iff h m').mp hin
  obtain ⟨k, -, howner, hact⟩ := (mem_evictList h).mp (mem_evictList_of_picked hc)
  rw [hchunk, hm'] at howner
  have hk : i' = k := by
    apply Fin.ext
    exact_mod_cast howner
  have hrest : (⟨q.buf i m, m⟩ : ChunkActivity) ∈
      (frontSort ChunkActivity.activity q.evictG (evictList q)).2 := by
    have hmem : (⟨q.buf i m, m⟩ : ChunkActivity) ∈ evictList q :=
      (mem_evictList h).mpr ⟨i, hi, hm, rfl⟩
    cases List.mem_append.mp ((picked_perm q).symm.subset hmem) with
    | inl hpicked =>
        rw [(marked_iff h m).mpr ⟨_, hpicked, rfl⟩] at hout
        cases hout
    | inr hrest => exact hrest
  have hle := frontSort_le q.evictG (evictList q) hc hrest
  rw [hact, hchunk, ← hk] at hle
  exact hle

theorem selection_stopSize (h : q.Exact) {i : Fin maxClient} (hi : q.asked i = true) :
    (selection q).stopSize i = some (if 0 < owned q i then
      ((selection q).connIndex.map (selection q).sizeGb).getD 0 else 0) := by
  unfold Selection.stopSize
  rw [selection_sendList h, if_pos hi]
  by_cases hpos : 0 < owned q i
  · rw [if_pos hpos, if_pos hpos]
  · rw [if_neg hpos, if_neg hpos]

/-- The `STOP`s: a client with marks gets the number of the client whose chunk was marked
last. -/
theorem mem_selectionMsgs (h : q.Exact) {i : Fin maxClient} {n : Int}
    {rkey : Fin maxFreeMemGb → Bool} (hi : q.asked i = true) :
    .stop i n rkey ∈ selectionMsgs q ↔
      rkey = (selection q).rkey i ∧ n = if 0 < owned q i then
        ((selection q).connIndex.map (selection q).sizeGb).getD 0 else 0 := by
  have hlast : ∀ k, (selection q).connIndex = some k → (selection q).sendList k = .chosen := by
    intro k hk
    cases (selection_markedAll h).connIndex with
    | inl hnil =>
        rw [hnil.2] at hk
        cases hk
    | inr hsome =>
        obtain ⟨l, hl, hpos⟩ := hsome
        change 0 < owned q l at hpos
        rw [hl, Option.some.injEq] at hk
        rw [selection_sendList h, ← hk, if_pos (asked_of_owned h hpos), if_pos hpos]
  have hclient : i ∈ clients := List.mem_finRange i
  have hevict : .stop i n rkey ∉
      (clients.filter q.asked).map fun j => SelectionMsg.evict j q.evictG := by
    simp
  unfold selectionMsgs
  rw [List.mem_append, or_iff_right hevict, mem_sendStops hlast, selection_stopSize h hi,
    Option.some.injEq, eq_comm (a := n), and_iff_right hclient]

/-- With marks there is a client whose chunk was marked last, and its number is passed. -/
theorem passed_eq (h : q.Exact) {i : Fin maxClient} (hpos : 0 < owned q i) :
    ∃ k, 0 < owned q k ∧
      ((selection q).connIndex.map (selection q).sizeGb).getD 0 = (owned q k : Int) := by
  have hall := selection_markedAll h
  cases hall.connIndex with
  | inl hnil =>
      rw [owned, hnil.1] at hpos
      cases hpos
  | inr hsome =>
      obtain ⟨k, hk, hkpos⟩ := hsome
      refine ⟨k, hkpos, ?_⟩
      rw [hk, Option.map_some, Option.getD_some, hall.sizeGb k]
      simp [Selection.start, asked_of_owned h hkpos, owned]

end Phase

/-- The phase does what it should exactly when the asked clients that have some of the least
active chunks have equally many of them. -/
theorem selectsRight_iff (q : Inquiry) (h : q.Exact) (hle : q.evictG ≤ (evictList q).length) :
    SelectsRight q ↔
      ∀ i i', q.asked i = true → q.asked i' = true → 0 < leastActive q i → 0 < leastActive q i' →
        leastActive q i = leastActive q i' := by
  simp only [← owned_eq h]
  constructor
  · intro hright i i' hi hi' hpos hpos'
    have hsize : ∀ j, q.asked j = true → 0 < owned q j →
        ((selection q).connIndex.map (selection q).sizeGb).getD 0 = (owned q j : Int) := by
      intro j hj hposj
      have hmsg := (mem_selectionMsgs h hj).mpr ⟨rfl, rfl⟩
      have hsize := (hright.sizes j _ _ hmsg hj).1
      rw [countP_marked_owned h, if_pos hposj] at hsize
      exact hsize
    have heq := (hsize i hi hpos).symm.trans (hsize i' hi' hpos')
    exact_mod_cast heq
  · intro heven
    constructor
    case number => exact countP_marked h hle
    case least =>
      intro i m i' m' hi hm hout _ hm' hin
      exact marked_least h hi hm hout hm' hin
    case stops =>
      intro i hi
      exact ⟨_, _, (mem_selectionMsgs h hi).mpr ⟨rfl, rfl⟩⟩
    case sizes =>
      intro i n rkey hmsg hi
      obtain ⟨hrkey, hsize⟩ := (mem_selectionMsgs h hi).mp hmsg
      rw [countP_marked_owned h, hrkey, countP_rkey h hi]
      have hn : n = (owned q i : Int) := by
        rw [hsize]
        by_cases hpos : 0 < owned q i
        · obtain ⟨k, hkpos, hk⟩ := passed_eq h hpos
          rw [if_pos hpos, hk, heven k i (asked_of_owned h hkpos) hi hkpos hpos]
        · rw [if_neg hpos, Nat.eq_zero_of_not_pos hpos, Int.natCast_zero]
      exact ⟨hn, hn⟩

/-- Client 0 holds the chunks 0 and 1, client 1 holds the more active chunk 2. -/
def twoClients (evictG : Nat) : Inquiry where
  connMap m := if m.val < 2 then 0 else if m.val = 2 then 1 else -1
  mappedChunkSize i := if i.val = 0 then 2 else if i.val = 1 then 1 else 0
  asked i := decide (i.val < 2)
  buf i m := if (i.val = 0 ∧ m.val < 2) ∨ (i.val = 1 ∧ m.val = 2) then m.val + 1 else 0
  sizeGb _ := 0
  rkey _ _ := false
  evictG := evictG

/-- The first client. -/
def firstClient : Fin maxClient := ⟨0, by decide⟩

theorem twoClients_exact (evictG : Nat) : (twoClients evictG).Exact := by
  have h : (twoClients 0).Exact := ⟨by decide +kernel, by decide +kernel⟩
  exact ⟨h.reports, h.counts⟩

/-- Two chunks of one client. -/
theorem selectsRight_one_client :
    (twoClients 2).Exact ∧ 2 ≤ (evictList (twoClients 2)).length ∧ SelectsRight (twoClients 2) := by
  have hle : 2 ≤ (evictList (twoClients 2)).length := by decide +kernel
  have heven : ∀ i i', (twoClients 2).asked i = true → (twoClients 2).asked i' = true →
      0 < leastActive (twoClients 2) i → 0 < leastActive (twoClients 2) i' →
      leastActive (twoClients 2) i = leastActive (twoClients 2) i' := by
    decide +kernel
  exact ⟨twoClients_exact 2, hle,
    (selectsRight_iff (twoClients 2) (twoClients_exact 2) hle).mpr heven⟩

/-- Two chunks of client 0 and one of client 1, which is marked last: client 0 is told to
stop one. -/
theorem stop_carries_last_count :
    ¬ ∀ q : Inquiry, q.Exact → q.evictG ≤ (evictList q).length → SelectsRight q := by
  intro hall
  have hright := hall (twoClients 3) (twoClients_exact 3) (by decide +kernel)
  have hpos : 0 < owned (twoClients 3) firstClient := by decide +kernel
  have hpassed : ((selection (twoClients 3)).connIndex.map (selection (twoClients 3)).sizeGb).getD 0 =
      1 := by
    decide +kernel
  have hmsg := (mem_selectionMsgs (twoClients_exact 3) (i := firstClient) (by decide)).mpr
    ⟨rfl, rfl⟩
  have hsize := (hright.sizes firstClient _ _ hmsg (by decide)).1
  rw [if_pos hpos, hpassed, countP_marked_owned (twoClients_exact 3)] at hsize
  exact absurd hsize (by decide +kernel)

end Memtrade.Infiniswap
