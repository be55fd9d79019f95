import Mathlib.Init

/-!
# Systems that take steps and emit events

A system is given by its initial states and a partial step function: an action
that is not enabled has no result. Nondeterminism lives in the action. `Exec`
collects the states reached together with the events emitted on the way, over
runs all of whose steps meet a side condition `ok`; the unrestricted runs are
those with the trivial condition.
-/

namespace Memtrade

/-- An entry of a history with one more is the new one, or was there before. -/
theorem split_concat {α : Type} {l before after : List α} {a b : α}
    (h : l ++ [a] = before ++ b :: after) :
    (l = before ∧ a = b) ∨ ∃ rest, l = before ++ b :: rest := by
  cases List.eq_nil_or_concat after with
  | inl hnil =>
      rw [hnil] at h
      have hsplit := List.append_inj' h rfl
      exact .inl ⟨hsplit.1, List.singleton_inj.mp hsplit.2⟩
  | inr hconcat =>
      obtain ⟨rest, last, hafter⟩ := hconcat
      have hsplit : l ++ [a] = (before ++ b :: rest) ++ [last] := by
        rw [h, hafter]
        simp
      exact .inr ⟨rest, (List.append_inj' hsplit rfl).1⟩

structure System (σ α ε : Type) where
  init : σ → Prop
  step : σ → α → Option (σ × List ε)

namespace System

variable {σ α ε : Type} (M : System σ α ε)

/-- `M.Exec ok s tr`: some run, each step of which met `ok` in the state it was
taken in, ends in `s` and has emitted `tr`, oldest event first. -/
inductive Exec (ok : σ → α → Prop) : σ → List ε → Prop where
  | init {s : σ} : M.init s → Exec ok s []
  | step {s s' : σ} {a : α} {tr evs : List ε} : Exec ok s tr → ok s a →
      M.step s a = some (s', evs) → Exec ok s' (tr ++ evs)

/-- The states of unrestricted runs. -/
def Reachable (s : σ) : Prop := ∃ tr, M.Exec (fun _ _ => True) s tr

variable {M}

/-- The invariant rule: what holds initially and survives every permitted step
holds at the end of every run. -/
theorem Exec.invariant {ok : σ → α → Prop} {I : σ → List ε → Prop}
    (hinit : ∀ s, M.init s → I s [])
    (hstep : ∀ s tr a s' evs, I s tr → ok s a → M.step s a = some (s', evs) → I s' (tr ++ evs))
    {s : σ} {tr : List ε} (h : M.Exec ok s tr) : I s tr := by
  induction h with
  | init hs => exact hinit _ hs
  | step _ hok hs ih => exact hstep _ _ _ _ _ ih hok hs

theorem Exec.mono {ok ok' : σ → α → Prop} (himp : ∀ s a, ok s a → ok' s a) {s : σ} {tr : List ε}
    (h : M.Exec ok s tr) : M.Exec ok' s tr := by
  induction h with
  | init hs => exact .init hs
  | step _ hok hs ih => exact .step ih (himp _ _ hok) hs

theorem Exec.reachable {ok : σ → α → Prop} {s : σ} {tr : List ε} (h : M.Exec ok s tr) :
    M.Reachable s :=
  ⟨tr, h.mono fun _ _ _ => trivial⟩

theorem Reachable.invariant {I : σ → Prop} (hinit : ∀ s, M.init s → I s)
    (hstep : ∀ s a s' evs, I s → M.step s a = some (s', evs) → I s')
    {s : σ} (h : M.Reachable s) : I s := by
  obtain ⟨tr, h⟩ := h
  exact h.invariant (I := fun s _ => I s) hinit fun s _ a s' evs hi _ hs => hstep s a s' evs hi hs

/-! ## Executing a list of actions -/

variable (M) in
/-- Take the listed actions in order; `none` if one of them is not enabled. -/
def run : σ → List α → Option (σ × List ε)
  | s, [] => some (s, [])
  | s, a :: as =>
      match M.step s a with
      | none => none
      | some (s', evs) =>
          match run s' as with
          | none => none
          | some (s'', evs') => some (s'', evs ++ evs')

variable (M) in
/-- The state after the listed actions, or the first one if they cannot be taken. -/
def final (s : σ) (as : List α) : σ := ((M.run s as).map Prod.fst).getD s

variable (M) in
/-- The events of the listed actions. -/
def trace (s : σ) (as : List α) : List ε := ((M.run s as).map Prod.snd).getD []

variable (M) in
/-- The states in which the listed actions are taken meet `ok`. -/
def Meets (ok : σ → α → Prop) : σ → List α → Prop
  | _, [] => True
  | s, a :: as => ok s a ∧ ∀ s' evs, M.step s a = some (s', evs) → Meets ok s' as

theorem run_cons {s s' : σ} {a : α} {as : List α} {evs : List ε}
    (h : M.run s (a :: as) = some (s', evs)) :
    ∃ s₁ evs₁ evs₂, M.step s a = some (s₁, evs₁) ∧ M.run s₁ as = some (s', evs₂) ∧
      evs = evs₁ ++ evs₂ := by
  unfold run at h
  cases hs : M.step s a with
  | none => simp [hs] at h
  | some first =>
      simp only [hs] at h
      cases hrest : M.run first.1 as with
      | none => simp [hrest] at h
      | some rest =>
          simp only [hrest, Option.some.injEq, Prod.mk.injEq] at h
          exact ⟨first.1, first.2, rest.2, rfl, by rw [hrest, ← h.1], h.2.symm⟩

theorem Exec.append_run {ok : σ → α → Prop} {s s' : σ} {tr evs : List ε} {as : List α}
    (h : M.Exec ok s tr) (hok : M.Meets ok s as) (hrun : M.run s as = some (s', evs)) :
    M.Exec ok s' (tr ++ evs) := by
  induction as generalizing s tr evs with
  | nil =>
      simp only [run, Option.some.injEq, Prod.mk.injEq] at hrun
      obtain ⟨rfl, rfl⟩ := hrun
      simpa using h
  | cons a as ih =>
      obtain ⟨s₁, evs₁, evs₂, hs, hrest, hevs⟩ := run_cons hrun
      have hall := ih (h.step hok.1 hs) (hok.2 s₁ evs₁ hs) hrest
      rw [hevs, ← List.append_assoc]
      exact hall

theorem meets_of_forall {ok : σ → α → Prop} {as : List α} (hok : ∀ a ∈ as, ∀ s, ok s a) (s : σ) :
    M.Meets ok s as := by
  induction as generalizing s with
  | nil => trivial
  | cons a as ih =>
      refine ⟨hok a (by simp) s, fun s' _ _ => ih (fun b hb => hok b (by simp [hb])) s'⟩

variable (M) in
/-- An executable test for `Meets`. -/
def check (okb : σ → α → Bool) : σ → List α → Bool
  | _, [] => true
  | s, a :: as =>
      okb s a &&
        match M.step s a with
        | none => true
        | some (s', _) => check okb s' as

theorem meets_of_check {ok : σ → α → Prop} {okb : σ → α → Bool}
    (himp : ∀ s a, okb s a = true → ok s a) {s : σ} {as : List α}
    (hc : M.check okb s as = true) : M.Meets ok s as := by
  induction as generalizing s with
  | nil => trivial
  | cons a as ih =>
      simp only [check, Bool.and_eq_true] at hc
      refine ⟨himp s a hc.1, ?_⟩
      intro s' evs hs
      have hrest := hc.2
      simp only [hs] at hrest
      exact ih hrest

theorem exec_final {ok : σ → α → Prop} {s : σ} {as : List α} (hs : M.init s)
    (hok : M.Meets ok s as) : M.Exec ok (M.final s as) (M.trace s as) := by
  unfold final trace
  cases hr : M.run s as with
  | none => exact .init hs
  | some r =>
      obtain ⟨s', evs⟩ := r
      exact (Exec.init hs).append_run hok hr

theorem reachable_final {s : σ} (hs : M.init s) (as : List α) : M.Reachable (M.final s as) :=
  ⟨_, exec_final hs (meets_of_forall (fun _ _ _ => trivial) s)⟩

/-! ## Two systems in step -/

/-- The rule of simulation in lockstep: where related states take every action together, with
the same events, the states after any list of actions are related. -/
theorem run_lockstep {τ : Type} {N : System τ α ε} {Rel : σ → τ → Prop}
    (hstep : ∀ s t a, Rel s t → ∃ s' t' evs,
      M.step s a = some (s', evs) ∧ N.step t a = some (t', evs) ∧ Rel s' t')
    {s : σ} {t : τ} (h : Rel s t) (as : List α) :
    ∃ s' t' evs, M.run s as = some (s', evs) ∧ N.run t as = some (t', evs) ∧ Rel s' t' := by
  induction as generalizing s t with
  | nil => exact ⟨s, t, [], rfl, rfl, h⟩
  | cons a as ih =>
      obtain ⟨s₁, t₁, evs₁, hs, ht, hrel⟩ := hstep s t a h
      obtain ⟨s₂, t₂, evs₂, hrun, hrun', hrel'⟩ := ih hrel
      refine ⟨s₂, t₂, evs₁ ++ evs₂, ?_, ?_, hrel'⟩
      · simp only [run, hs, hrun]
      · simp only [run, ht, hrun']

end System

end Memtrade
