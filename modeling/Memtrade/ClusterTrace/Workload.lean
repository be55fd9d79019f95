import Memtrade.ClusterTrace.Extraction
import Memtrade.ClusterTrace.Simulator
import Memtrade.Lib.TextOrder

/-!
# Tables in memory and tables from files

`run_simulator` gets its tables from `preprocess`, which also writes them to files, or reads
the files of an earlier run. A key of a JSON object is a string, so the times of a table that
was read are strings, and the loop over the sorted keys goes through them as texts. The
other contents of the tables come back as they were written.
-/

namespace Memtrade.ClusterTrace

/-- The requests that arrive at each time, in the order in which the times were added. -/
structure RequestTable (K : Type) where
  entries : List (K × List Request)
  nodup : (entries.map Prod.fst).Nodup

namespace RequestTable

variable {K : Type}

def keys (r : RequestTable K) : List K := r.entries.map Prod.fst

/-- `requests[time]`. -/
def get [DecidableEq K] (r : RequestTable K) (time : K) : List Request :=
  ((r.entries.find? fun e => e.1 = time).map Prod.snd).getD []

/-- The loop over `sorted(requests.keys())`, with the time that `(int)` makes of a key. -/
def byTime [DecidableEq K] [LE K] [DecidableLE K] (int : K → Nat) (r : RequestTable K) :
    List (Nat × List Request) :=
  (r.keys.insertionSort (· ≤ ·)).map fun time => (int time, r.get time)

/-! ## The table of `preprocess` -/

/-- `request[key].append`, with an empty list first if the key is new. -/
def add [DecidableEq K] (r : RequestTable K) (key : K) (req : Request) : RequestTable K where
  entries :=
    if key ∈ r.keys then r.entries.map fun e => if e.1 = key then (e.1, e.2 ++ [req]) else e
    else r.entries ++ [(key, [req])]
  nodup := by
    split
    · have hkeys : (r.entries.map fun e => if e.1 = key then (e.1, e.2 ++ [req]) else e).map
          Prod.fst = r.entries.map Prod.fst := by
        rw [List.map_map]
        apply List.map_congr_left
        intro e _
        simp only [Function.comp_apply]
        split <;> rfl
      rw [hkeys]
      exact r.nodup
    · rename_i hnew
      rw [List.map_append, List.nodup_append]
      refine ⟨r.nodup, List.nodup_singleton key, ?_⟩
      intro a ha b hb heq
      have hb' : b = key := List.mem_singleton.mp hb
      apply hnew
      rw [← hb', ← heq]
      exact ha

end RequestTable

/-- The loop over the machines: their requests are added until there are more than
`request_limit`. -/
def collect (maxUsageCap : ℚ) (requestLimit : Nat) :
    RequestTable Nat → Nat → List (List ℚ) → RequestTable Nat
  | r, _, [] => r
  | r, requestCount, usage :: rest =>
      let items := generateRequests maxUsageCap usage
      let r := items.foldl (fun r item => r.add item.start ⟨item.duration, item.memory⟩) r
      let requestCount := requestCount + items.length
      if requestLimit < requestCount then r
      else collect maxUsageCap requestLimit r requestCount rest

def consumerSize : ℚ := 512

def scaleRequest (r : RequestTable Nat) : RequestTable Nat where
  entries := r.entries.map fun e =>
    (e.1, e.2.map fun req => { req with memory := req.memory * consumerSize })
  nodup := by
    rw [List.map_map]
    exact r.nodup

/-- The requests of `preprocess`, for the usage traces of the machines. -/
def preprocess (maxUsageCap : ℚ) (requestLimit : Nat) (cluster : List (List ℚ)) :
    RequestTable Nat :=
  scaleRequest (collect maxUsageCap requestLimit ⟨[], List.nodup_nil⟩ 0 cluster)

section Keys

variable {maxUsageCap : ℚ} {requestLimit time : Nat} {cluster : List (List ℚ)}

theorem mem_keys_add {K : Type} [DecidableEq K] {r : RequestTable K} {key k : K} {req : Request} :
    k ∈ (r.add key req).keys ↔ k = key ∨ k ∈ r.keys := by
  by_cases hkey : key ∈ r.keys
  · have hkeys : (r.add key req).keys = r.keys := by
      unfold RequestTable.keys RequestTable.add
      simp only [if_pos hkey, List.map_map]
      apply List.map_congr_left
      intro e _
      simp only [Function.comp_apply]
      split <;> rfl
    rw [hkeys]
    constructor
    · exact .inr
    · intro hcase
      cases hcase with
      | inl heq =>
          rw [heq]
          exact hkey
      | inr hmem => exact hmem
  · have hkeys : (r.add key req).keys = r.keys ++ [key] := by
      unfold RequestTable.keys RequestTable.add
      simp only [if_neg hkey, List.map_append, List.map_singleton]
    rw [hkeys, List.mem_append, List.mem_singleton, or_comm]

theorem mem_keys_foldl {items : List TraceRequest} {r : RequestTable Nat} :
    time ∈ (items.foldl (fun r item => r.add item.start ⟨item.duration, item.memory⟩) r).keys ↔
      time ∈ r.keys ∨ ∃ item ∈ items, item.start = time := by
  induction items generalizing r with
  | nil => simp
  | cons item items ih =>
      rw [List.foldl_cons, ih, mem_keys_add]
      simp only [List.mem_cons, exists_eq_or_imp]
      grind

theorem mem_keys_collect {r : RequestTable Nat} {requestCount : Nat}
    (h : time ∈ (collect maxUsageCap requestLimit r requestCount cluster).keys) :
    time ∈ r.keys ∨
      ∃ usage ∈ cluster, ∃ length, IsRun (Exceeds maxUsageCap usage) time length := by
  induction cluster generalizing r requestCount with
  | nil => exact .inl h
  | cons usage rest ih =>
      have hfirst : time ∈ ((generateRequests maxUsageCap usage).foldl
          (fun r item => r.add item.start ⟨item.duration, item.memory⟩) r).keys →
          time ∈ r.keys ∨
            ∃ u ∈ usage :: rest, ∃ length, IsRun (Exceeds maxUsageCap u) time length := by
        intro htime
        cases mem_keys_foldl.mp htime with
        | inl hold => exact .inl hold
        | inr hitem =>
            obtain ⟨item, hmem, hstart⟩ := hitem
            obtain ⟨length, hrun, -⟩ := mem_generateRequests.mp hmem
            rw [hstart] at hrun
            exact .inr ⟨usage, List.mem_cons_self, length, hrun⟩
      unfold collect at h
      simp only at h
      split at h
      · exact hfirst h
      · cases ih h with
        | inl htime => exact hfirst htime
        | inr hlater =>
            obtain ⟨u, hu, hrun⟩ := hlater
            exact .inr ⟨u, List.mem_cons_of_mem usage hu, hrun⟩

theorem mem_keys_preprocess (h : time ∈ (preprocess maxUsageCap requestLimit cluster).keys) :
    ∃ usage ∈ cluster, ∃ length, IsRun (Exceeds maxUsageCap usage) time length := by
  have hkeys : (preprocess maxUsageCap requestLimit cluster).keys =
      (collect maxUsageCap requestLimit ⟨[], List.nodup_nil⟩ 0 cluster).keys := by
    unfold preprocess RequestTable.keys scaleRequest
    rw [List.map_map]
    rfl
  rw [hkeys] at h
  cases mem_keys_collect h with
  | inl hnone => cases hnone
  | inr hrun => exact hrun

end Keys

/-! ## Saving and loading -/

/-- What `json.load` reads of a table that `json.dump` has written: the keys have become
strings. -/
def RequestTable.saved (r : RequestTable Nat) : RequestTable (List Char) where
  entries := r.entries.map fun e => (Nat.toDigits 10 e.1, e.2)
  nodup := by
    have hkeys : (r.entries.map fun e => (Nat.toDigits 10 e.1, e.2)).map Prod.fst =
        (r.entries.map Prod.fst).map (Nat.toDigits 10) := by
      rw [List.map_map, List.map_map]
      rfl
    rw [hkeys]
    exact r.nodup.map toDigits_injective

/-- What the loop over the times comes to. The keys of a loaded table are strings of digits
and `submit` holds them as such; it is only compared with itself. -/
def workload (loadFromFile : Bool) (r : RequestTable Nat) : List (Nat × List Request) :=
  if loadFromFile then r.saved.byTime fun time => Nat.ofDigitChars 10 time 0 else r.byTime id

/-- The simulation goes through the same times and makes the same placements, whether the
tables are loaded or not. -/
structure SameSimulation {M : Type} [DecidableEq M] (cfg : Config) (producer : Producers M)
    (r : RequestTable Nat) : Prop where
  times : (workload true r).map Prod.fst = (workload false r).map Prod.fst
  placements : ∀ tr,
    (∃ s, (runSimulator cfg producer (workload true r)).Exec (fun _ _ => True) s tr) ↔
      ∃ s, (runSimulator cfg producer (workload false r)).Exec (fun _ _ => True) s tr

section Saved

variable {r : RequestTable Nat}

theorem saved_keys (r : RequestTable Nat) : r.saved.keys = r.keys.map (Nat.toDigits 10) := by
  unfold RequestTable.keys RequestTable.saved
  rw [List.map_map, List.map_map]
  rfl

theorem saved_get (r : RequestTable Nat) (time : Nat) :
    r.saved.get (Nat.toDigits 10 time) = r.get time := by
  have hfind : r.saved.entries.find? (fun e => e.1 = Nat.toDigits 10 time) =
      (r.entries.find? fun e => e.1 = time).map fun e => (Nat.toDigits 10 e.1, e.2) := by
    unfold RequestTable.saved
    rw [List.find?_map]
    congr 2
    funext e
    simp [toDigits_injective.eq_iff]
  unfold RequestTable.get
  rw [hfind, Option.map_map]
  rfl

theorem workload_loaded (r : RequestTable Nat) :
    workload true r = ((r.keys.map (Nat.toDigits 10)).insertionSort (· ≤ ·)).map
      fun time => (Nat.ofDigitChars 10 time 0, r.saved.get time) := by
  rw [← saved_keys]
  rfl

theorem workload_memory (r : RequestTable Nat) :
    workload false r = (r.keys.insertionSort (· ≤ ·)).map fun time => (time, r.get time) :=
  rfl

theorem times_eq_iff :
    (workload true r).map Prod.fst = (workload false r).map Prod.fst ↔
      (r.keys.map (Nat.toDigits 10)).insertionSort (· ≤ ·) =
        (r.keys.insertionSort (· ≤ ·)).map (Nat.toDigits 10) := by
  rw [workload_loaded, workload_memory, List.map_map, List.map_map]
  change List.map (fun time => Nat.ofDigitChars 10 time 0) _ = List.map id _ ↔ _
  rw [List.map_id]
  constructor
  · intro heq
    have htexts : ∀ text ∈ (r.keys.map (Nat.toDigits 10)).insertionSort (· ≤ ·),
        (Nat.toDigits 10 ∘ fun time => Nat.ofDigitChars 10 time 0) text = id text := by
      intro text htext
      obtain ⟨time, -, htime⟩ := List.mem_map.mp ((List.mem_insertionSort _).mp htext)
      rw [← htime, Function.comp_apply, Nat.ofDigitChars_ten_toDigits, id]
    rw [← heq, List.map_map, List.map_congr_left htexts, List.map_id]
  · intro heq
    have htimes : ∀ time ∈ r.keys.insertionSort (· ≤ ·),
        ((fun text => Nat.ofDigitChars 10 text 0) ∘ Nat.toDigits 10) time = id time :=
      fun time _ => Nat.ofDigitChars_ten_toDigits
    rw [heq, List.map_map, List.map_congr_left htimes, List.map_id]

/-- With the texts in the order of the times, the loop over the times finds the same. -/
theorem workload_eq (h : (r.keys.map (Nat.toDigits 10)).insertionSort (· ≤ ·) =
    (r.keys.insertionSort (· ≤ ·)).map (Nat.toDigits 10)) : workload true r = workload false r := by
  rw [workload_loaded, workload_memory, h, List.map_map]
  apply List.map_congr_left
  intro time _
  rw [Function.comp_apply, Nat.ofDigitChars_ten_toDigits, saved_get]

theorem texts_sorted_iff :
    (r.keys.map (Nat.toDigits 10)).insertionSort (· ≤ ·) =
        (r.keys.insertionSort (· ≤ ·)).map (Nat.toDigits 10) ↔
      ∀ a ∈ r.keys, ∀ b ∈ r.keys, a < b → a ≤ b / 10 ^ (Nat.log 10 b - Nat.log 10 a) := by
  rw [sort_map_iff toDigits_injective]
  constructor
  · intro h a ha b hb hlt
    exact (toDigits_lt_iff hlt).mp (h a ha b hb hlt)
  · intro h a ha b hb hlt
    exact (toDigits_lt_iff hlt).mpr (h a ha b hb hlt)

variable {M : Type} [DecidableEq M]

theorem sameSimulation_of_texts {cfg : Config} {producer : Producers M}
    (h : (r.keys.map (Nat.toDigits 10)).insertionSort (· ≤ ·) =
      (r.keys.insertionSort (· ≤ ·)).map (Nat.toDigits 10)) : SameSimulation cfg producer r where
  times := times_eq_iff.mpr h
  placements tr := by rw [workload_eq h]

/-- A loaded table gives the same simulation exactly if no time is above the leading digits,
as many as it has itself, of a later time. -/
theorem sameSimulation_iff (cfg : Config) (producer : Producers M) (r : RequestTable Nat) :
    SameSimulation cfg producer r ↔
      ∀ a ∈ r.keys, ∀ b ∈ r.keys, a < b → a ≤ b / 10 ^ (Nat.log 10 b - Nat.log 10 a) := by
  rw [← texts_sorted_iff]
  constructor
  · intro h
    exact times_eq_iff.mp h.times
  · exact sameSimulation_of_texts

/-- Traces of at most ten slots hide the difference: the times have one digit. -/
theorem sameSimulation_preprocess {cfg : Config} {producer : Producers M} {maxUsageCap : ℚ}
    {requestLimit : Nat} {cluster : List (List ℚ)}
    (hshort : ∀ usage ∈ cluster, usage.length ≤ 10) :
    SameSimulation cfg producer (preprocess maxUsageCap requestLimit cluster) := by
  have hdigit : ∀ time ∈ (preprocess maxUsageCap requestLimit cluster).keys,
      Nat.log 10 time = 0 := by
    intro time htime
    obtain ⟨usage, husage, length, hrun⟩ := mem_keys_preprocess htime
    have hlt := hrun.first.1
    have hle := hshort usage husage
    exact Nat.log_eq_zero_iff.mpr (.inl (by omega))
  apply sameSimulation_of_texts
  rw [texts_sorted_iff]
  intro a ha b hb hlt
  rw [hdigit a ha, hdigit b hb, Nat.sub_self, Nat.pow_zero, Nat.div_one]
  exact Nat.le_of_lt hlt

end Saved

/-- A producer with 13 free slots. -/
def longProducer : Producers Nat := ⟨[(0, List.replicate 13 0)], by decide⟩

/-- Two requests of which the producer can take one, at the times 9 and 10. -/
def nineAndTen : RequestTable Nat := ⟨[(9, [⟨3, 40⟩]), (10, [⟨3, 40⟩])], by decide⟩

/-- The times of the pieces that a run of ten turns places. -/
def placedTimes (loadFromFile : Bool) : List Nat :=
  ((runSimulator wholeConfig longProducer (workload loadFromFile nineAndTen)).trace
    (start longProducer (workload loadFromFile nineAndTen)) (List.replicate 10 ())).filterMap
      fun
        | .placed _ _ time _ => some time
        | .assigned _ => none

/-- As texts, 10 comes before 9, so the loaded tables place the later request. -/
theorem ten_before_nine :
    (workload true nineAndTen).map Prod.fst = [10, 9] ∧ placedTimes true = [10] ∧
      placedTimes false = [9] ∧
      ¬ ∀ (producer : Producers Nat) (r : RequestTable Nat),
        SameSimulation wholeConfig producer r := by
  have hloaded : (workload true nineAndTen).map Prod.fst = [10, 9] := by decide +kernel
  have hmemory : (workload false nineAndTen).map Prod.fst = [9, 10] := by decide +kernel
  refine ⟨hloaded, by decide +kernel, by decide +kernel, ?_⟩
  intro hall
  have htimes := (hall longProducer nineAndTen).times
  rw [hloaded, hmemory] at htimes
  exact absurd htimes (by decide)

end Memtrade.ClusterTrace
