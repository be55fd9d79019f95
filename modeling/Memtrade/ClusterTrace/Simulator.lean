import Mathlib.Algebra.Order.Ring.Rat
import Mathlib.Data.List.Sort
import Memtrade.Lib.System

/-!
# The placement simulator

`run_simulator` of `consumer-producer.py` as a system that takes one turn of one of its
loops at a time: the loop over the times, the loop over the pending requests and the loop
over the pieces of a request. Numbers are exact. Requests are given in the order in which
the loop over the times comes to them.
-/

namespace Memtrade.ClusterTrace

variable {M : Type}

/-- The pair of a duration in slots and a size. -/
structure Request where
  duration : Nat
  memory : ℚ
deriving DecidableEq, Repr

/-- The dictionary of the producers in the order of insertion, with the usage of each
slot. -/
structure Producers (M : Type) where
  entries : List (M × List ℚ)
  nodup : (entries.map Prod.fst).Nodup

/-- The globals that the simulator reads. -/
structure Config where
  producerSize : ℚ
  splitFactor : Nat
  splitFactor_pos : 1 ≤ splitFactor

/-! ## Choosing a producer -/

/-- The loop over the slots of a request: the last value of `t` and of `min_memory`. The
value of `t` that the loop finds stays if there is no slot. -/
def slotLoop (producerSize memory : ℚ) : Nat → Nat × ℚ → List ℚ → Nat × ℚ
  | _, r, [] => r
  | t, r, usage :: rest =>
      let freeMem := producerSize - usage
      if freeMem < memory then (t, r.2)
      else slotLoop producerSize memory (t + 1) (t, if r.2 > freeMem then freeMem else r.2) rest

/-- The slots of a trace that a request at `now` is about. -/
def slots (trace : List ℚ) (req : Request) (now : Nat) : List ℚ :=
  (trace.drop now).take req.duration

def availableLoop (cfg : Config) (req : Request) (now : Nat) :
    Nat → List (M × List ℚ) → List (M × ℚ)
  | _, [] => []
  | t, (m, trace) :: rest =>
      if trace.length < now + req.duration then availableLoop cfg req now t rest
      else
        let r := slotLoop cfg.producerSize req.memory 0 (t, 1000000) (slots trace req now)
        if req.duration ≤ r.1 + 1 then (m, r.2) :: availableLoop cfg req now r.1 rest
        else availableLoop cfg req now r.1 rest

def availableMachines (cfg : Config) (producer : Producers M) (req : Request) (now : Nat) :
    List (M × ℚ) :=
  availableLoop cfg req now 0 producer.entries

def addRequestToMachine (trace : List ℚ) (req : Request) (now : Nat) : List ℚ :=
  trace.mapIdx fun i usage =>
    if now ≤ i ∧ i < now + req.duration then usage + req.memory else usage

/-- `find_greedy_best_mach`; the sort is stable. -/
def findGreedyBestMach (candidate : List (M × ℚ)) : Option M :=
  (candidate.insertionSort fun a b => a.2 ≤ b.2).head?.map Prod.fst

/-- Assignment to one key of the dictionary. -/
def Producers.update [DecidableEq M] (producer : Producers M) (m : M) (f : List ℚ → List ℚ) :
    Producers M where
  entries := producer.entries.map fun e => if e.1 = m then (e.1, f e.2) else e
  nodup := by
    have hkeys : (producer.entries.map fun e => if e.1 = m then (e.1, f e.2) else e).map Prod.fst =
        producer.entries.map Prod.fst := by
      rw [List.map_map]
      apply List.map_congr_left
      intro e _
      simp only [Function.comp_apply]
      split <;> rfl
    rw [hkeys]
    exact producer.nodup

/-! ## The run -/

/-- An entry of `pending_request`. The source has no `id`; it counts the requests in the
order of their arrival and no function reads it. -/
structure Pending where
  id : Nat
  request : Request
  submit : Nat
  left : Nat
  mem : ℚ
deriving DecidableEq, Repr

/-- Where the run stands: before the next time; among the pending requests, with those
already served at this time; among the pieces of a request, with the turns that are left and
`split_done`. -/
inductive Phase where
  | arrive (pending : List Pending)
  | serve (served waiting : List Pending)
  | place (served : List Pending) (p : Pending) (turns splitDone : Nat) (waiting : List Pending)

structure Sim (M : Type) where
  producer : Producers M
  todo : List (Nat × List Request)
  time : Nat
  requestCount : Nat
  assigned : List Pending
  phase : Phase

inductive Event (M : Type) where
  | placed (id : Nat) (m : M) (time : Nat) (req : Request)
  | assigned (id : Nat)

/-- The entries for the requests that arrive at a time. -/
def arrivals (cfg : Config) (requestCount time : Nat) (reqs : List Request) : List Pending :=
  reqs.mapIdx fun i req => ⟨requestCount + i, req, time, cfg.splitFactor, req.memory⟩

/-- The entry after its pieces have been tried. -/
def settle (cfg : Config) (p : Pending) (splitDone : Nat) : Pending :=
  let left := p.left - splitDone
  { p with left := left, request.memory := p.mem * ((left : ℚ) / cfg.splitFactor) }

/-- The request of the next piece: `req[1] = req[1] / split_factor`. -/
def nextPiece (cfg : Config) (p : Pending) : Pending :=
  { p with request.memory := p.request.memory / cfg.splitFactor }

def step [DecidableEq M] (cfg : Config) (s : Sim M) : Option (Sim M × List (Event M)) :=
  match s.phase with
  | .arrive pending =>
      match s.todo with
      | [] => none
      | (time, reqs) :: todo =>
          some ({ s with
            todo := todo
            time := time
            requestCount := s.requestCount + reqs.length
            assigned := []
            phase := .serve [] (pending ++ arrivals cfg s.requestCount time reqs) }, [])
  -- `remove` compares by value; a pending request equal to an assigned one is assigned too
  | .serve served [] => some ({ s with phase := .arrive (s.assigned.foldl List.erase served) }, [])
  | .serve served (p :: waiting) => some ({ s with phase := .place served p p.left 0 waiting }, [])
  | .place served p 0 splitDone waiting =>
      let p := settle cfg p splitDone
      if p.left = 0 then
        some ({ s with
          assigned := s.assigned ++ [p]
          phase := .serve (served ++ [p]) waiting }, [.assigned p.id])
      else some ({ s with phase := .serve (served ++ [p]) waiting }, [])
  | .place served p (turns + 1) splitDone waiting =>
      let p := nextPiece cfg p
      match findGreedyBestMach (availableMachines cfg s.producer p.request s.time) with
      | none => some ({ s with phase := .place served p turns splitDone waiting }, [])
      | some m =>
          some ({ s with
            producer := s.producer.update m fun trace => addRequestToMachine trace p.request s.time
            phase := .place served p turns (splitDone + 1) waiting },
            [.placed p.id m s.time p.request])

def start (producer : Producers M) (requests : List (Nat × List Request)) : Sim M where
  producer := producer
  todo := requests
  time := 0
  requestCount := 0
  assigned := []
  phase := .arrive []

/-- What one turn can do. -/
inductive Turn [DecidableEq M] (cfg : Config) (s : Sim M) : Sim M → List (Event M) → Prop where
  | arrives {pending : List Pending} {time : Nat} {reqs : List Request}
      {todo : List (Nat × List Request)} :
      s.phase = .arrive pending → s.todo = (time, reqs) :: todo →
      Turn cfg s { s with
        todo := todo
        time := time
        requestCount := s.requestCount + reqs.length
        assigned := []
        phase := .serve [] (pending ++ arrivals cfg s.requestCount time reqs) } []
  | removes {served : List Pending} :
      s.phase = .serve served [] →
      Turn cfg s { s with phase := .arrive (s.assigned.foldl List.erase served) } []
  | opens {served waiting : List Pending} {p : Pending} :
      s.phase = .serve served (p :: waiting) →
      Turn cfg s { s with phase := .place served p p.left 0 waiting } []
  | assigns {served waiting : List Pending} {p : Pending} {splitDone : Nat} :
      s.phase = .place served p 0 splitDone waiting → (settle cfg p splitDone).left = 0 →
      Turn cfg s { s with
        assigned := s.assigned ++ [settle cfg p splitDone]
        phase := .serve (served ++ [settle cfg p splitDone]) waiting } [.assigned p.id]
  | settles {served waiting : List Pending} {p : Pending} {splitDone : Nat} :
      s.phase = .place served p 0 splitDone waiting → (settle cfg p splitDone).left ≠ 0 →
      Turn cfg s { s with phase := .serve (served ++ [settle cfg p splitDone]) waiting } []
  | misses {served waiting : List Pending} {p : Pending} {turns splitDone : Nat} :
      s.phase = .place served p (turns + 1) splitDone waiting →
      Turn cfg s { s with phase := .place served (nextPiece cfg p) turns splitDone waiting } []
  | places {served waiting : List Pending} {p : Pending} {turns splitDone : Nat} {m : M} :
      s.phase = .place served p (turns + 1) splitDone waiting →
      findGreedyBestMach
        (availableMachines cfg s.producer (nextPiece cfg p).request s.time) = some m →
      Turn cfg s { s with
        producer := s.producer.update m fun trace =>
          addRequestToMachine trace (nextPiece cfg p).request s.time
        phase := .place served (nextPiece cfg p) turns (splitDone + 1) waiting }
        [.placed p.id m s.time (nextPiece cfg p).request]

theorem turn_of_step [DecidableEq M] {cfg : Config} {s s' : Sim M} {evs : List (Event M)}
    (h : step cfg s = some (s', evs)) : Turn cfg s s' evs := by
  unfold step at h
  cases hphase : s.phase with
  | arrive pending =>
      simp only [hphase] at h
      cases htodo : s.todo with
      | nil => simp [htodo] at h
      | cons first todo =>
          simp only [htodo, Option.some.injEq, Prod.mk.injEq] at h
          rw [← h.1, ← h.2]
          exact .arrives hphase htodo
  | serve served waiting =>
      cases waiting with
      | nil =>
          simp only [hphase, Option.some.injEq, Prod.mk.injEq] at h
          rw [← h.1, ← h.2]
          exact .removes hphase
      | cons p waiting =>
          simp only [hphase, Option.some.injEq, Prod.mk.injEq] at h
          rw [← h.1, ← h.2]
          exact .opens hphase
  | place served p turns splitDone waiting =>
      cases turns with
      | zero =>
          simp only [hphase] at h
          split at h
          · rename_i hleft
            rw [Option.some.injEq, Prod.mk.injEq] at h
            rw [← h.1, ← h.2]
            exact .assigns hphase hleft
          · rename_i hleft
            rw [Option.some.injEq, Prod.mk.injEq] at h
            rw [← h.1, ← h.2]
            exact .settles hphase hleft
      | succ turns =>
          simp only [hphase] at h
          split at h
          · rw [Option.some.injEq, Prod.mk.injEq] at h
            rw [← h.1, ← h.2]
            exact .misses hphase
          · rename_i m hm
            rw [Option.some.injEq, Prod.mk.injEq] at h
            rw [← h.1, ← h.2]
            exact .places hphase hm

/-- `run_simulator` on the given tables. -/
def runSimulator [DecidableEq M] (cfg : Config) (producer : Producers M)
    (requests : List (Nat × List Request)) : System (Sim M) Unit (Event M) where
  init s := s = start producer requests
  step s _ := step cfg s

/-- Producers of 64, and one piece for each request. -/
def wholeConfig : Config := ⟨64, 1, Nat.le_refl 1⟩

/-- A producer with two free slots. -/
def freeProducer : Producers Nat := ⟨[(0, [0, 0])], by decide⟩

/-- A request of 8 for two slots. -/
def oneRequest : List (Nat × List Request) := [(0, [⟨2, 8⟩])]

end Memtrade.ClusterTrace
