import Memtrade.Tswap.Safety

/-!
# One pass of the discharge thread

The inner loop takes the members from the head of the quarantine list and puts those
that stay back at its tail. It counts down from the length that the list had at the
beginning, so without other steps in between it comes past every member once and
leaves those that stay in their order.
-/

namespace Memtrade.Tswap

variable {P : Type} {s s' : St P} {e : EntryId} {en : Entry} {k : Kernel} {n : Int}

/-- The next step of the thread in a pass; `bioOk` says which submissions succeed. -/
def passAction (bioOk : EntryId → Bool) (s : St P) : Option (Action P) :=
  match s.discharge with
  | .outer => none
  | .scan _ => some .dischargeScan
  | .submit _ e => some (.dischargeSubmit (bioOk e))

/-- The member that the next step takes off the list. -/
def examined (s : St P) : List EntryId :=
  match s.discharge with
  | .scan n => if 0 < n then s.quarantineList.head?.toList else []
  | .outer | .submit _ _ => []

/-- The steps of the thread until the pass is over, with the members examined. -/
def runPass (k : Kernel) (bioOk : EntryId → Bool) : Nat → St P → Option (St P × List EntryId)
  | 0, s => if passAction bioOk s |>.isNone then some (s, []) else none
  | fuel + 1, s =>
      match passAction bioOk s with
      | none => some (s, [])
      | some a =>
          match step k s a with
          | none => none
          | some (s', _) => (runPass k bioOk fuel s').map fun r => (r.1, examined s ++ r.2)

/-- The member has expired and its submission succeeds. -/
def discharged (k : Kernel) (bioOk : EntryId → Bool) (s : St P) (e : EntryId) : Bool :=
  (s.entries.cell e).any fun en =>
    en.state == .inMemory && timeAfter s.jiffies (dischargeTime k s en) && bioOk e

def Entry.toInFlight (en : Entry) : Entry := { en with state := .inFlight }

/-- A list of distinct live members in the in-memory states, and its counter. -/
structure QuarantineOk (s : St P) : Prop where
  nodup : s.quarantineList.Nodup
  members : ∀ e ∈ s.quarantineList, ∃ en, s.entries.cell e = some en ∧
    (en.state = .inMemory ∨ en.state = .inMemoryFollowedByZombie)
  len : s.stat.lenQuarantineList = s.quarantineList.length

theorem Inv.quarantineOk (h : Inv s) : QuarantineOk s where
  nodup := List.nodup_iff_count_le_one.mpr h.count_le_one
  members e he := by
    obtain ⟨en, t, tree, p, c, hin, hst⟩ := h.listed he
    exact ⟨en, hin.cell, hst⟩
  len := h.len

/-! ## One member -/

/-- What an iteration of the loop does to the member at the head. -/
structure Iterated (k : Kernel) (bioOk : EntryId → Bool) (s s' : St P) (e : EntryId)
    (rest : List EntryId) (n : Int) : Prop where
  discharge : s'.discharge = .scan (n - 1)
  jiffies : s'.jiffies = s.jiffies
  quarantineTime : s'.quarantineTime = s.quarantineTime
  list : s'.quarantineList = rest ++ if discharged k bioOk s e then [] else [e]
  entries : ∀ i, s'.entries.cell i =
    if i = e ∧ discharged k bioOk s e = true then (s.entries.cell e).map Entry.toInFlight
    else s.entries.cell i

theorem discharged_eq {bioOk : EntryId → Bool} (hcell : s.entries.cell e = some en) :
    discharged k bioOk s e =
      (en.state == .inMemory && timeAfter s.jiffies (dischargeTime k s en) && bioOk e) := by
  simp [discharged, hcell]

/-- What a step of the loop leaves of the state that the loop reads. -/
structure Turned (s s' : St P) (pc : DischargePc) (list : List EntryId) (entries : Heap Entry) :
    Prop where
  discharge : s'.discharge = pc
  jiffies : s'.jiffies = s.jiffies
  quarantineTime : s'.quarantineTime = s.quarantineTime
  list : s'.quarantineList = list
  entries : s'.entries = entries

/-- A member that is rewritten under write-back, or not expired, goes to the tail. -/
theorem dischargeScan_stays {rest : List EntryId} (hn : 0 < n) (hlist : s.quarantineList = e :: rest)
    (hnot : e ∉ rest) (hcell : s.entries.cell e = some en)
    (hst : en.state = .inMemory ∨ en.state = .inMemoryFollowedByZombie)
    (hstays : en.state = .inMemory → timeAfter s.jiffies (dischargeTime k s en) = false) :
    Turned s (dischargeScan k s n) (.scan (n - 1)) (rest ++ [e]) s.entries := by
  have htime : ∀ q st pc, dischargeTime k
      { s with quarantineList := q, stat := st, discharge := pc } en = dischargeTime k s en :=
    fun _ _ _ => rfl
  unfold dischargeScan
  rw [if_neg (by omega)]
  cases hst with
  | inl hmem =>
      constructor <;>
        simp [hlist, St.withEntry, hcell, hmem, htime, hstays hmem, atomicEntryQuarantine, hnot]
  | inr hzombie =>
      constructor <;> simp [hlist, St.withEntry, hcell, hzombie, atomicEntryQuarantine, hnot]

theorem dischargeScan_marks {rest : List EntryId} (hn : 0 < n) (hlist : s.quarantineList = e :: rest)
    (hcell : s.entries.cell e = some en) (hst : en.state = .inMemory)
    (hexpired : timeAfter s.jiffies (dischargeTime k s en) = true) :
    Turned s (dischargeScan k s n) (.submit (n - 1) e) rest (s.entries.write e en.toInFlight) := by
  have htime : ∀ q st pc, dischargeTime k
      { s with quarantineList := q, stat := st, discharge := pc } en = dischargeTime k s en :=
    fun _ _ _ => rfl
  unfold dischargeScan
  rw [if_neg (by omega)]
  constructor <;>
    simp [hlist, St.withEntry, hcell, hst, htime, hexpired, St.setEntry, Entry.toInFlight]

theorem dischargeSubmit_succeeds (s : St P) (n : Int) (e : EntryId) :
    Turned s (dischargeSubmit s n e true) (.scan n) s.quarantineList s.entries := by
  unfold dischargeSubmit dischargeAsyncIo
  cases hcell : s.entries.cell e with
  | none => constructor <;> simp [hcell, St.fault]
  | some en =>
      cases hdata : en.data with
      | none => constructor <;> simp [hcell, hdata, St.fault]
      | some p => constructor <;> simp [hcell, hdata]

/-- After one that fails the member is back in memory, at the tail of the list. -/
theorem dischargeSubmit_fails (hcell : s.entries.cell e = some en) (hst : en.state = .inFlight)
    (hnot : e ∉ s.quarantineList) (n : Int) :
    Turned s (dischargeSubmit s n e false) (.scan n) (s.quarantineList ++ [e])
      (s.entries.write e { en with state := .inMemory }) := by
  constructor <;>
    simp [dischargeSubmit, dischargeAsyncIo, eNOMEM, dischargeSubmitFailed, St.withEntry, hcell, hst,
      settleFailed, St.setEntry, atomicEntryQuarantine, hnot]

section Pass

variable {bioOk : EntryId → Bool}

theorem iterated_marked {rest : List EntryId} (hn : 0 < n) (hlist : s.quarantineList = e :: rest)
    (hnot : e ∉ rest) (hcell : s.entries.cell e = some en) (hst : en.state = .inMemory)
    (hexpired : timeAfter s.jiffies (dischargeTime k s en) = true) :
    Iterated k bioOk s (dischargeSubmit (dischargeScan k s n) (n - 1) e (bioOk e)) e rest n := by
  obtain ⟨-, hjiffies, htime, hrest, hentries⟩ := dischargeScan_marks hn hlist hcell hst hexpired
  have hdis : discharged k bioOk s e = bioOk e := by
    rw [discharged_eq hcell, hst, hexpired]
    simp
  cases hok : bioOk e with
  | true =>
      have hsub := dischargeSubmit_succeeds (dischargeScan k s n) (n - 1) e
      constructor
      · exact hsub.discharge
      · exact hsub.jiffies.trans hjiffies
      · exact hsub.quarantineTime.trans htime
      · rw [hsub.list, hrest, hdis, hok]
        simp
      · intro i
        rw [hsub.entries, hentries, Heap.cell_write hcell, hdis, hok, hcell]
        by_cases hi : i = e <;> simp [hi]
  | false =>
      have hcell₁ : (dischargeScan k s n).entries.cell e = some en.toInFlight := by
        rw [hentries, Heap.cell_write hcell, if_pos rfl]
      have hsub := dischargeSubmit_fails hcell₁ rfl (by rw [hrest]; exact hnot) (n - 1)
      have hback : { en.toInFlight with state := .inMemory } = en := by
        cases en
        simp_all [Entry.toInFlight]
      constructor
      · exact hsub.discharge
      · exact hsub.jiffies.trans hjiffies
      · exact hsub.quarantineTime.trans htime
      · rw [hsub.list, hrest, hdis, hok]
        simp
      · intro i
        rw [hsub.entries, hentries, Heap.write_write, hback, Heap.write_self hcell, hdis, hok]
        simp

theorem iterated_stays {rest : List EntryId} (hn : 0 < n) (hlist : s.quarantineList = e :: rest)
    (hnot : e ∉ rest) (hcell : s.entries.cell e = some en)
    (hst : en.state = .inMemory ∨ en.state = .inMemoryFollowedByZombie)
    (hstays : en.state = .inMemory → timeAfter s.jiffies (dischargeTime k s en) = false) :
    Iterated k bioOk s (dischargeScan k s n) e rest n := by
  have hscan := dischargeScan_stays hn hlist hnot hcell hst hstays
  have hdis : discharged k bioOk s e = false := by
    rw [discharged_eq hcell]
    cases hst with
    | inl hmem => simp [hstays hmem]
    | inr hzombie => simp [hzombie]
  constructor
  · exact hscan.discharge
  · exact hscan.jiffies
  · exact hscan.quarantineTime
  · rw [hscan.list, hdis]
    simp
  · intro i
    rw [hscan.entries, hdis]
    simp

/-! ## The pass -/

theorem runPass_outer (hpc : s.discharge = .outer) (fuel : Nat) :
    runPass k bioOk fuel s = some (s, []) := by
  cases fuel <;> simp [runPass, passAction, hpc]

theorem runPass_scan (hpc : s.discharge = .scan n) (fuel : Nat) :
    runPass k bioOk (fuel + 1) s =
      (runPass k bioOk fuel (dischargeScan k s n)).map fun r => (r.1, examined s ++ r.2) := by
  simp [runPass, passAction, step, hpc]

theorem runPass_submit (hpc : s.discharge = .submit n e) (fuel : Nat) :
    runPass k bioOk (fuel + 1) s = runPass k bioOk fuel (dischargeSubmit s n e (bioOk e)) := by
  simp [runPass, passAction, step, examined, hpc]

/-- One iteration is one step, or two when the member is submitted. -/
theorem runPass_iteration (k : Kernel) (bioOk : EntryId → Bool) {rest : List EntryId}
    (hpc : s.discharge = .scan n) (hn : 0 < n) (hlist : s.quarantineList = e :: rest)
    (hnot : e ∉ rest) (hcell : s.entries.cell e = some en)
    (hst : en.state = .inMemory ∨ en.state = .inMemoryFollowedByZombie) :
    ∃ s₁ steps, steps ≤ 2 ∧ Iterated k bioOk s s₁ e rest n ∧
      ∀ fuel, runPass k bioOk (fuel + steps) s =
        (runPass k bioOk fuel s₁).map fun r => (r.1, e :: r.2) := by
  have hexamined : examined s = [e] := by simp [examined, hpc, hn, hlist]
  by_cases hmarked : en.state = .inMemory ∧ timeAfter s.jiffies (dischargeTime k s en) = true
  · refine ⟨_, 2, le_refl 2, iterated_marked hn hlist hnot hcell hmarked.1 hmarked.2, ?_⟩
    intro fuel
    have hpc₁ := (dischargeScan_marks hn hlist hcell hmarked.1 hmarked.2).discharge
    rw [runPass_scan hpc, runPass_submit hpc₁, hexamined]
    rfl
  · have hstays : en.state = .inMemory →
        timeAfter s.jiffies (dischargeTime k s en) = false := by
      intro hmem
      simpa [hmem] using hmarked
    refine ⟨_, 1, by omega, iterated_stays hn hlist hnot hcell hst hstays, ?_⟩
    intro fuel
    rw [runPass_scan hpc, hexamined]
    rfl

/-- What is left of a pass after `kept` have stayed and `remaining` are still to come. -/
structure Passed (k : Kernel) (bioOk : EntryId → Bool) (s s' : St P)
    (remaining kept : List EntryId) : Prop where
  discharge : s'.discharge = .outer
  list : s'.quarantineList = kept ++ remaining.filter fun e => !discharged k bioOk s e
  entries : ∀ i, s'.entries.cell i =
    if i ∈ remaining ∧ discharged k bioOk s i = true then (s.entries.cell i).map Entry.toInFlight
    else s.entries.cell i

theorem Iterated.cell_of_ne {rest : List EntryId} (h : Iterated k bioOk s s' e rest n)
    {i : EntryId} (hi : i ≠ e) : s'.entries.cell i = s.entries.cell i := by
  rw [h.entries, if_neg fun hc => hi hc.1]

/-- The clock stands still, so the other members are decided as before. -/
theorem Iterated.discharged_of_ne {rest : List EntryId} (h : Iterated k bioOk s s' e rest n)
    {i : EntryId} (hi : i ≠ e) : discharged k bioOk s' i = discharged k bioOk s i := by
  have htime : ∀ en, dischargeTime k s' en = dischargeTime k s en := by
    intro en
    unfold dischargeTime
    rw [h.quarantineTime]
  unfold discharged
  rw [h.cell_of_ne hi, h.jiffies]
  simp only [htime]

theorem Iterated.passed {s₁ : St P} {rest kept : List EntryId}
    (h : Iterated k bioOk s s₁ e (rest ++ kept) n) (hnot : e ∉ rest)
    (hp : Passed k bioOk s₁ s' rest (kept ++ if discharged k bioOk s e then [] else [e])) :
    Passed k bioOk s s' (e :: rest) kept := by
  have hne : ∀ i ∈ rest, i ≠ e := by
    intro i hi hie
    rw [hie] at hi
    exact hnot hi
  constructor
  · exact hp.discharge
  · have hfilter : rest.filter (fun i => !discharged k bioOk s₁ i) =
        rest.filter (fun i => !discharged k bioOk s i) := by
      apply List.filter_congr
      intro i hi
      rw [h.discharged_of_ne (hne i hi)]
    rw [hp.list, hfilter, List.filter_cons]
    cases discharged k bioOk s e <;> simp
  · intro i
    rw [hp.entries]
    by_cases hi : i = e
    · rw [if_neg fun hc => hne i hc.1 hi, h.entries, hi]
      simp
    · rw [h.discharged_of_ne hi, h.cell_of_ne hi]
      simp [hi]

/-- By induction on the members still to come; each iteration puts its member behind
those that stayed before it, or takes it off. -/
theorem runPass_remaining (k : Kernel) (bioOk : EntryId → Bool) (remaining : List EntryId) :
    ∀ {s : St P} {kept : List EntryId} {fuel : Nat},
      s.discharge = .scan remaining.length → s.quarantineList = remaining ++ kept →
      (remaining ++ kept).Nodup →
      (∀ e ∈ remaining, ∃ en, s.entries.cell e = some en ∧
        (en.state = .inMemory ∨ en.state = .inMemoryFollowedByZombie)) →
      2 * remaining.length + 1 ≤ fuel →
      ∃ s', runPass k bioOk fuel s = some (s', remaining) ∧
        Passed k bioOk s s' remaining kept := by
  induction remaining with
  | nil =>
      intro s kept fuel hpc hlist hnodup hmembers hfuel
      obtain ⟨fuel, rfl⟩ : ∃ f, fuel = f + 1 := ⟨fuel - 1, by omega⟩
      have hscan : dischargeScan k s 0 = { s with discharge := .outer } := by
        simp [dischargeScan]
      refine ⟨{ s with discharge := .outer }, ?_, rfl, ?_, ?_⟩
      · rw [runPass_scan hpc]
        change Option.map _ (runPass k bioOk fuel (dischargeScan k s 0)) = _
        rw [hscan, runPass_outer rfl]
        simp [examined, hpc]
      · simp [hlist]
      · simp
  | cons e rest ih =>
      intro s kept fuel hpc hlist hnodup hmembers hfuel
      obtain ⟨en, hcell, hst⟩ := hmembers e List.mem_cons_self
      have hnot : e ∉ rest ++ kept := (List.nodup_cons.mp hnodup).1
      have hrest : e ∉ rest := fun he => hnot (List.mem_append_left kept he)
      have hpos : (0 : Int) < ((e :: rest).length : Int) := by simp
      obtain ⟨s₁, steps, hsteps, hit, hrun⟩ :=
        runPass_iteration k bioOk hpc hpos hlist hnot hcell hst
      have hnodup₁ : (rest ++ (kept ++ if discharged k bioOk s e then [] else [e])).Nodup := by
        have htail := (List.nodup_cons.mp hnodup).2
        rw [← List.append_assoc]
        cases discharged k bioOk s e with
        | true => simpa using htail
        | false => exact htail.append (List.nodup_singleton e) (List.disjoint_singleton.mpr hnot)
      have hmembers₁ : ∀ i ∈ rest, ∃ en, s₁.entries.cell i = some en ∧
          (en.state = .inMemory ∨ en.state = .inMemoryFollowedByZombie) := by
        intro i hi
        have hne : i ≠ e := fun hie => hrest (hie ▸ hi)
        rw [hit.cell_of_ne hne]
        exact hmembers i (List.mem_cons_of_mem e hi)
      have hpc₁ : s₁.discharge = .scan rest.length := by
        rw [hit.discharge, List.length_cons]
        simp
      rw [List.length_cons] at hfuel
      have hfuel₁ : 2 * rest.length + 1 ≤ fuel - steps := by omega
      have hsplit : fuel = fuel - steps + steps := by omega
      obtain ⟨s', hrun', hpassed⟩ :=
        ih hpc₁ (hit.list.trans (List.append_assoc ..)) hnodup₁ hmembers₁ hfuel₁
      refine ⟨s', ?_, hit.passed hrest hpassed⟩
      rw [hsplit, hrun, hrun']
      rfl

theorem Passed.inFlight_iff {kept : List EntryId} (h : Passed k bioOk s s' s.quarantineList kept)
    (hq : QuarantineOk s) (he : e ∈ s.quarantineList) :
    (s'.entries.cell e).map Entry.state = some .inFlight ↔ discharged k bioOk s e = true := by
  obtain ⟨en, hcell, hst⟩ := hq.members e he
  rw [h.entries, hcell]
  by_cases hdis : discharged k bioOk s e = true
  · simp [hdis, he, Entry.toInFlight]
  · cases hst with
    | inl hmem => simp [hdis, hmem]
    | inr hzombie => simp [hdis, hzombie]

/-- A pass over a list of any length, with any outcomes of the submissions, comes to its
end. It examines the members in their order, each once. The expired ones that were
submitted are in flight and off the list; the others keep their entries and their order. -/
theorem dischargePass {s₁ : St P} {evs : List (Event P)} (bioOk : EntryId → Bool) (hq : QuarantineOk s)
    (houter : step k s .dischargeOuter = some (s₁, evs)) {fuel : Nat}
    (hfuel : 2 * s.quarantineList.length + 1 ≤ fuel) :
    ∃ s', runPass k bioOk fuel s₁ = some (s', s.quarantineList) ∧
      s.quarantineList.Nodup ∧ s'.discharge = .outer ∧
      s'.quarantineList = s.quarantineList.filter (fun e => !discharged k bioOk s e) ∧
      (∀ e ∈ s.quarantineList,
        (s'.entries.cell e).map Entry.state = some .inFlight ↔ discharged k bioOk s e = true) ∧
      ∀ e, s'.entries.cell e =
        if e ∈ s.quarantineList ∧ discharged k bioOk s e = true
        then (s.entries.cell e).map Entry.toInFlight else s.entries.cell e := by
  obtain ⟨-, heq⟩ := step_dischargeOuter.mp houter
  rw [Prod.mk.injEq] at heq
  have hpc : s₁.discharge = .scan s.quarantineList.length := by
    rw [← heq.1, ← hq.len]
  have hsame : discharged k bioOk s₁ = discharged k bioOk s := by
    rw [← heq.1]
    rfl
  have hentries : s₁.entries = s.entries := by rw [← heq.1]
  have hlist : s₁.quarantineList = s.quarantineList ++ [] := by
    rw [← heq.1, List.append_nil]
  obtain ⟨s', hrun, hpassed⟩ := runPass_remaining k bioOk s.quarantineList hpc hlist
    (by rw [List.append_nil]; exact hq.nodup) (by rw [hentries]; exact hq.members) hfuel
  have hpassed : Passed k bioOk s s' s.quarantineList [] := by
    constructor
    · exact hpassed.discharge
    · rw [hpassed.list, hsame]
    · intro i
      rw [hpassed.entries, hsame, hentries]
  exact ⟨s', hrun, hq.nodup, hpassed.discharge, hpassed.list,
    fun e he => hpassed.inFlight_iff hq he, hpassed.entries⟩

end Pass

/-- Two pages are stored and their quarantine time passes. -/
def sampleTwoStored : List (Action Nat) :=
  sampleStore ++ [.store ⟨0, 8⟩ 6 false allOk, .storeMissed ⟨0, 8⟩ true allOk,
    .frontswapMap ⟨0, 8⟩, .tick 1000000]

def sampleExpired : St Nat := (tswap Nat sampleKernel).final sampleStart sampleTwoStored

/-- The submission of the first fails, that of the second succeeds. -/
theorem dischargePass_two :
    ∃ s', runPass sampleKernel (fun e => e == 1) 5
        { sampleExpired with discharge := .scan sampleExpired.stat.lenQuarantineList } =
          some (s', [0, 1]) ∧
      s'.quarantineList = [0] := by
  have hreach : (tswap Nat sampleKernel).Reachable sampleExpired :=
    System.reachable_final sampleStart_init _
  have hlist : sampleExpired.quarantineList = [0, 1] := by decide +kernel
  have houter : step sampleKernel sampleExpired .dischargeOuter = some
      ({ sampleExpired with discharge := .scan sampleExpired.stat.lenQuarantineList }, []) :=
    step_dischargeOuter.mpr ⟨by decide +kernel, rfl⟩
  have hfuel : 2 * sampleExpired.quarantineList.length + 1 ≤ 5 := by rw [hlist]; decide
  obtain ⟨s', hrun, -, -, hkept, -⟩ :=
    dischargePass (fun e => e == 1) (inv_of_reachable hreach).quarantineOk houter hfuel
  have hzero : discharged sampleKernel (fun e => e == 1) sampleExpired 0 = false := by
    decide +kernel
  have hone : discharged sampleKernel (fun e => e == 1) sampleExpired 1 = true := by
    decide +kernel
  rw [hlist] at hrun hkept
  refine ⟨s', hrun, ?_⟩
  rw [hkept]
  simp [hzero, hone]

end Memtrade.Tswap
