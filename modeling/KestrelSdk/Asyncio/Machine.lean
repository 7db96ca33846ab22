import Mathlib.Logic.Function.Basic

namespace KestrelSdk.Asyncio

universe u v

/-- A machine; `step` is `none` where the action is not enabled. -/
structure Machine (σ : Type u) (α : Type v) where
  start : σ
  step : σ → α → Option σ

namespace Machine

variable {σ : Type u} {α : Type v} (m : Machine σ α)

def runFrom (s : σ) : List α → Option σ
  | [] => some s
  | a :: as =>
    match m.step s a with
    | some s' => runFrom s' as
    | none => none

theorem runFrom_nil (s : σ) : m.runFrom s [] = some s := rfl

theorem runFrom_cons (s : σ) (a : α) (as : List α) :
    m.runFrom s (a :: as) =
      match m.step s a with
      | some s' => m.runFrom s' as
      | none => none := rfl

/-- A state that some run reaches. -/
def Reachable (s : σ) : Prop := ∃ as, m.runFrom m.start as = some s

/-- The state after a list of actions that are all enabled. -/
def after (as : List α) : σ := (m.runFrom m.start as).getD m.start

variable {m}

theorem reachable_after {as : List α} (h : (m.runFrom m.start as).isSome = true) :
    m.Reachable (m.after as) := by
  obtain ⟨s, hs⟩ := Option.isSome_iff_exists.1 h
  refine ⟨as, ?_⟩
  rw [after, hs]
  rfl

/-- What every step preserves holds along a run. -/
theorem runFrom_invariant {p : σ → Prop} (hstep : ∀ s a s', p s → m.step s a = some s' → p s')
    (as : List α) {s s' : σ} (h : p s) (hr : m.runFrom s as = some s') : p s' := by
  induction as generalizing s with
  | nil =>
    cases hr
    exact h
  | cons a as ih =>
    simp only [runFrom_cons] at hr
    split at hr
    · rename_i s1 h1
      exact ih (hstep s a s1 h h1) hr
    · cases hr

/-- What holds at the start and is preserved by every step holds in every reachable state. -/
theorem Reachable.invariant {p : σ → Prop} (hstart : p m.start)
    (hstep : ∀ s a s', p s → m.step s a = some s' → p s') {s : σ} (h : m.Reachable s) : p s := by
  obtain ⟨as, has⟩ := h
  exact runFrom_invariant hstep as hstart has

theorem Reachable.start : m.Reachable m.start := ⟨[], rfl⟩

theorem runFrom_append (as bs : List α) (s : σ) :
    m.runFrom s (as ++ bs) = (m.runFrom s as).bind (m.runFrom · bs) := by
  induction as generalizing s with
  | nil => rfl
  | cons a as ih =>
    simp only [List.cons_append, runFrom_cons]
    split
    · exact ih _
    · rfl

theorem Reachable.run {s s' : σ} {as : List α} (h : m.Reachable s) (hs : m.runFrom s as = some s') :
    m.Reachable s' := by
  obtain ⟨bs, hbs⟩ := h
  refine ⟨bs ++ as, ?_⟩
  rw [runFrom_append, hbs]
  exact hs

theorem Reachable.step {s s' : σ} {a : α} (h : m.Reachable s) (hs : m.step s a = some s') :
    m.Reachable s' := by
  obtain ⟨as, has⟩ := h
  refine ⟨as ++ [a], ?_⟩
  rw [runFrom_append, has]
  simp [runFrom_cons, runFrom_nil, hs]

/-- The machine whose steps all meet a condition. -/
def restrict (m : Machine σ α) (ok : σ → α → Bool) : Machine σ α where
  start := m.start
  step s a := if ok s a then m.step s a else none

theorem restrict_step {ok : σ → α → Bool} {s s' : σ} {a : α}
    (h : (m.restrict ok).step s a = some s') : ok s a = true ∧ m.step s a = some s' := by
  simp only [restrict] at h
  split at h
  · rename_i hok
    exact ⟨hok, h⟩
  · cases h

theorem step_restrict {ok : σ → α → Bool} {s s' : σ} {a : α} (hok : ok s a = true)
    (h : m.step s a = some s') : (m.restrict ok).step s a = some s' := by
  simp only [restrict, hok, if_true, h]

theorem Reachable.of_restrict {ok : σ → α → Bool} {s : σ} (h : (m.restrict ok).Reachable s) :
    m.Reachable s := by
  refine Reachable.invariant (m := m.restrict ok) (p := fun s => m.Reachable s) .start ?_ h
  intro s a s' hs ha
  exact hs.step (restrict_step ha).2

theorem runFrom_of_restrict {ok : σ → α → Bool} (as : List α) {s s' : σ}
    (h : (m.restrict ok).runFrom s as = some s') : m.runFrom s as = some s' := by
  induction as generalizing s with
  | nil => exact h
  | cons a as ih =>
    simp only [runFrom_cons] at h ⊢
    split at h
    · rename_i s₁ h₁
      rw [(restrict_step h₁).2]
      exact ih h
    · cases h

/-- Every reachable state but the first has a reachable predecessor. -/
theorem Reachable.cases {s : σ} (h : m.Reachable s) :
    s = m.start ∨ ∃ s₀ a, m.Reachable s₀ ∧ m.step s₀ a = some s := by
  have key := h.invariant (p := fun s => m.Reachable s ∧
      (s = m.start ∨ ∃ s₀ a, m.Reachable s₀ ∧ m.step s₀ a = some s)) ⟨.start, .inl rfl⟩
    fun s₀ a s' h₀ hs => ⟨h₀.1.step hs, .inr ⟨s₀, a, h₀.1, hs⟩⟩
  exact key.2

end Machine

end KestrelSdk.Asyncio
