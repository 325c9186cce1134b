import ComputerNetworks.Lib.Runs

/-!
# Simulation of one system by another

A concrete system is simulated when each of its steps is answered by a run of the
abstract one, which may be empty, that ends in a related state. The answer may depend on
a law `P` of the concrete step, so that only runs which obey the law are simulated.
Simulation carries over from steps to runs.
-/

namespace ComputerNetworks.Lib

variable {σ α τ β : Type*} {step : σ → α → Option σ} {step' : τ → β → Option τ}
  {P : σ → α → σ → Prop} {R : σ → τ → Prop}

/-- Each concrete step that obeys `P` is answered by an abstract run. -/
def Simulates (step : σ → α → Option σ) (step' : τ → β → Option τ) (P : σ → α → σ → Prop)
    (R : σ → τ → Prop) : Prop :=
  ∀ s a t u, R s u → step s a = some t → P s a t → ∃ bs v, exec step' u bs = some v ∧ R t v

/-- One abstract step is a run. -/
theorem exec_singleton {u v : τ} {b : β} (next : step' u b = some v) :
    exec step' u [b] = some v := by
  rw [exec, next, Option.bind_some, exec_nil]

/-- Two abstract runs, one after the other. -/
theorem exec_trans {u v w : τ} {bs cs : List β} (first : exec step' u bs = some v)
    (rest : exec step' v cs = some w) : exec step' u (bs ++ cs) = some w := by
  rw [exec_append, first, Option.bind_some, rest]

/-- Simulation of steps is simulation of runs. -/
theorem Simulates.run (simulates : Simulates step step' P R) {as : List α} {s t : σ} {u : τ}
    (related : R s u) (each : EachStep step P s as) (run : exec step s as = some t) :
    ∃ bs v, exec step' u bs = some v ∧ R t v := by
  induction as generalizing s u with
  | nil =>
    cases run
    exact ⟨[], u, rfl, related⟩
  | cons a as ih =>
    obtain ⟨m, next, rest⟩ := (exec_cons_eq_some step).mp run
    obtain ⟨here, later⟩ := each m next
    obtain ⟨bs, v, first, related'⟩ := simulates s a m u related next here
    obtain ⟨cs, w, second, related''⟩ := ih related' later rest
    exact ⟨bs ++ cs, w, exec_trans first second, related''⟩

/-- If each concrete step is, seen through `view`, the abstract step of its action or none, a
run is seen as the run of the abstract actions. -/
theorem exec_filterMap {I : σ → Prop} {view : σ → τ} {f : α → Option β}
    (project : ∀ s a t, I s → step s a = some t →
      I t ∧ exec step' (view s) (f a).toList = some (view t))
    {as : List α} {s t : σ} (start : I s) (run : exec step s as = some t) :
    I t ∧ exec step' (view s) (as.filterMap f) = some (view t) := by
  induction as generalizing s with
  | nil =>
    cases run
    exact ⟨start, rfl⟩
  | cons a as ih =>
    obtain ⟨m, next, rest⟩ := (exec_cons_eq_some step).mp run
    obtain ⟨inv, first⟩ := project s a m start next
    obtain ⟨inv', later⟩ := ih inv rest
    have split : (a :: as).filterMap f = (f a).toList ++ as.filterMap f := by
      cases seen : f a <;> simp [seen]
    exact ⟨inv', split ▸ exec_trans first later⟩

/-- If each abstract step can be realised by a concrete one that obeys `P`, so can each
abstract run. -/
theorem exec_realizes (realizes : ∀ s u b v, R s u → step' u b = some v →
      ∃ a t, step s a = some t ∧ P s a t ∧ R t v)
    {bs : List β} {s : σ} {u v : τ} (related : R s u) (run : exec step' u bs = some v) :
    ∃ as t, EachStep step P s as ∧ exec step s as = some t ∧ R t v := by
  induction bs generalizing s u with
  | nil =>
    cases run
    exact ⟨[], s, trivial, rfl, related⟩
  | cons b bs ih =>
    obtain ⟨m, next, rest⟩ := (exec_cons_eq_some step').mp run
    obtain ⟨a, t, realized, obeys, related'⟩ := realizes s u b m related next
    obtain ⟨as, w, each, run', related''⟩ := ih related' rest
    refine ⟨a :: as, w, fun t' next' => ?_, (exec_cons_eq_some step).mpr ⟨t, realized, run'⟩,
      related''⟩
    cases realized.symm.trans next'
    exact ⟨obeys, each⟩

end ComputerNetworks.Lib
