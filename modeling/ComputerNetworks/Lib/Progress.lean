import ComputerNetworks.Lib.Simulation

/-!
# Progress

A state leads to another when some run from it ends there. If every state that is not yet good
leads to one of a lower measure, then every state leads to a good one.

A potential that every step of some kind lowers bounds the runs of such steps, and each of
them can be carried on until no such step is left.
-/

namespace ComputerNetworks.Lib

section Leads

variable {σ α : Type*} {step : σ → α → Option σ} {s t u : σ}

/-- Some run from `s` ends in `t`. -/
def Leads (step : σ → α → Option σ) (s t : σ) : Prop := ∃ as, exec step s as = some t

theorem Leads.refl (s : σ) : Leads step s s := ⟨[], rfl⟩

theorem Leads.single {a : α} (next : step s a = some t) : Leads step s t :=
  ⟨[a], exec_singleton next⟩

theorem Leads.trans (first : Leads step s t) (rest : Leads step t u) : Leads step s u := by
  obtain ⟨as, run⟩ := first
  obtain ⟨bs, run'⟩ := rest
  exact ⟨as ++ bs, exec_trans run run'⟩

/-- An invariant of the steps holds wherever a state leads. -/
theorem Leads.invariant {I : σ → Prop} (preserved : ∀ s a t, I s → step s a = some t → I t)
    (leads : Leads step s t) (start : I s) : I t := by
  obtain ⟨as, run⟩ := leads
  exact exec_invariant preserved start run

/-- A measure that can be lowered until a state is good leads to a good state. -/
theorem exists_leads_done {I : σ → Prop} (Done : σ → Prop) (μ : σ → ℕ)
    (progress : ∀ s, I s → ¬ Done s → ∃ t, Leads step s t ∧ I t ∧ μ t < μ s) (start : I s) :
    ∃ t, Leads step s t ∧ I t ∧ Done t := by
  generalize bound : μ s = b
  induction b using Nat.strongRecOn generalizing s with
  | ind b ih =>
    by_cases settled : Done s
    · exact ⟨s, .refl s, start, settled⟩
    · obtain ⟨m, leads, inv, less⟩ := progress s start settled
      obtain ⟨t, leads', inv', done⟩ := ih (μ m) (bound ▸ less) inv rfl
      exact ⟨t, leads.trans leads', inv', done⟩

end Leads

section Potential

variable {σ α : Type*} {step : σ → α → Option σ} {I : σ → Prop} {P : α → Prop} {μ : σ → ℕ}

/-- A run of steps that lower a potential is no longer than it. -/
theorem exec_length_le (lowers : ∀ s a t, I s → P a → step s a = some t → I t ∧ μ t < μ s)
    {as : List α} {s t : σ} (start : I s) (kind : ∀ a ∈ as, P a) (run : exec step s as = some t) :
    I t ∧ as.length + μ t ≤ μ s := by
  induction as generalizing s with
  | nil =>
    cases run
    exact ⟨start, Nat.le_of_eq (Nat.zero_add _)⟩
  | cons a as ih =>
    obtain ⟨m, next, rest⟩ := (exec_cons_eq_some step).mp run
    obtain ⟨inv, less⟩ := lowers s a m start (kind a List.mem_cons_self) next
    obtain ⟨inv', le⟩ := ih inv (fun b member => kind b (List.mem_cons_of_mem a member)) rest
    refine ⟨inv', ?_⟩
    rw [List.length_cons]
    omega

/-- Steps that lower a potential can be taken until none is left. -/
theorem exists_exhausted (lowers : ∀ s a t, I s → P a → step s a = some t → I t ∧ μ t < μ s)
    {s : σ} (start : I s) :
    ∃ as t, (∀ a ∈ as, P a) ∧ exec step s as = some t ∧ ∀ a, P a → step t a = none := by
  generalize bound : μ s = b
  induction b using Nat.strongRecOn generalizing s with
  | ind b ih =>
    by_cases more : ∃ a m, P a ∧ step s a = some m
    · obtain ⟨a, m, kind, next⟩ := more
      obtain ⟨inv, less⟩ := lowers s a m start kind next
      obtain ⟨as, t, kinds, run, done⟩ := ih (μ m) (bound ▸ less) inv rfl
      refine ⟨a :: as, t, fun b member => ?_, (exec_cons_eq_some step).mpr ⟨m, next, run⟩, done⟩
      rcases List.mem_cons.mp member with rfl | later
      · exact kind
      · exact kinds b later
    · refine ⟨[], s, fun a member => (List.not_mem_nil member).elim, rfl, fun a kind => ?_⟩
      rw [Option.eq_none_iff_forall_ne_some]
      exact fun m next => more ⟨a, m, kind, next⟩

/-- When what comes next can be done unless it is over, and lowers the potential, it gets over soon,
whatever comes. -/
theorem exists_done (Done : σ → α → Prop) (goes : ∀ s a, I s → ¬ Done s a → ∃ t, step s a = some t)
    (lowers : ∀ s a t, I s → step s a = some t → I t ∧ μ t < μ s) {s : σ} (start : I s)
    (as : ℕ → α) :
    ∃ n ≤ μ s, ∃ t, exec step s ((List.range n).map as) = some t ∧ I t ∧ Done t (as n) := by
  generalize bound : μ s = b
  induction b using Nat.strongRecOn generalizing s as with
  | ind b ih =>
    by_cases settled : Done s (as 0)
    · exact ⟨0, Nat.zero_le _, s, rfl, start, settled⟩
    · obtain ⟨m, next⟩ := goes s (as 0) start settled
      obtain ⟨inv, less⟩ := lowers s (as 0) m start next
      obtain ⟨n, few, t, run, done⟩ := ih (μ m) (bound ▸ less) inv (fun k => as (k + 1)) rfl
      refine ⟨n + 1, by omega, t, ?_, done⟩
      rw [List.range_succ_eq_map, List.map_cons, List.map_map]
      exact (exec_cons_eq_some step).mpr ⟨m, next, run⟩

end Potential

end ComputerNetworks.Lib
