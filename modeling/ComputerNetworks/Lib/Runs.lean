import Mathlib.Data.List.Forall2

/-!
# Runs of a guarded transition system

A system is a step function `σ → α → Option σ` that answers `none` when an
action is not enabled. Runs are lists of actions, so that a concrete run can be
evaluated, and the two induction rules below are all later proofs need: an
invariant holds in every reachable state, and a law of single steps that relies
on an invariant holds along a whole run.
-/

namespace ComputerNetworks.Lib

variable {σ α : Type*} (step : σ → α → Option σ)

/-- The state a list of actions leads to, if each of them is enabled in turn. -/
def exec : σ → List α → Option σ
  | s, [] => some s
  | s, a :: as => (step s a).bind fun t => exec t as

@[simp] theorem exec_nil (s : σ) : exec step s [] = some s := rfl

theorem exec_cons_eq_some {s u : σ} {a : α} {as : List α} :
    exec step s (a :: as) = some u ↔ ∃ t, step s a = some t ∧ exec step t as = some u := by
  simp [exec, Option.bind_eq_some_iff]

theorem foldlM_eq_exec (s : σ) (as : List α) : as.foldlM step s = exec step s as := by
  induction as generalizing s with
  | nil => rfl
  | cons a as ih =>
    rw [List.foldlM_cons, exec]
    exact congrArg _ (funext ih)

theorem exec_append {s : σ} {as bs : List α} :
    exec step s (as ++ bs) = (exec step s as).bind fun t => exec step t bs := by
  induction as generalizing s with
  | nil => rfl
  | cons a as ih =>
    cases h : step s a with
    | none => simp [exec, h]
    | some t => simp [exec, h, ih]

/-- `s` is reachable when some run from an initial state ends in it. -/
def Reachable (init : σ → Prop) (s : σ) : Prop :=
  ∃ s₀ as, init s₀ ∧ exec step s₀ as = some s

variable {step} {init : σ → Prop}

/-- An invariant that every enabled step preserves survives a run. -/
theorem exec_invariant {I : σ → Prop}
    (preserved : ∀ s a t, I s → step s a = some t → I t)
    {as : List α} {s t : σ} (start : I s) (run : exec step s as = some t) : I t := by
  induction as generalizing s with
  | nil => simpa [← Option.some.inj run] using start
  | cons a as ih =>
    obtain ⟨u, first, rest⟩ := (exec_cons_eq_some step).mp run
    exact ih (preserved s a u start first) rest

/-- The invariant rule for reachable states. -/
theorem Reachable.invariant {I : σ → Prop} (start : ∀ s, init s → I s)
    (preserved : ∀ s a t, I s → step s a = some t → I t)
    {s : σ} (reach : Reachable step init s) : I s := by
  obtain ⟨s₀, as, first, run⟩ := reach
  exact exec_invariant preserved (start s₀ first) run

variable (step) in
/-- `P` holds of every step that the run of `as` from `s` takes. -/
def EachStep (P : σ → α → σ → Prop) : σ → List α → Prop
  | _, [] => True
  | s, a :: as => ∀ t, step s a = some t → P s a t ∧ EachStep P t as

/-- A law that the actions of a run obey by themselves. -/
theorem EachStep.of_forall {P : σ → α → σ → Prop} {as : List α} {s : σ}
    (always : ∀ a ∈ as, ∀ s t, P s a t) : EachStep step P s as := by
  induction as generalizing s with
  | nil => trivial
  | cons a as ih =>
    intro t _
    exact ⟨always a List.mem_cons_self s t, ih fun b member => always b (List.mem_cons_of_mem a member)⟩

/-- Two laws of the steps of a run. -/
theorem EachStep.and {P Q : σ → α → σ → Prop} {as : List α} {s : σ} (first : EachStep step P s as)
    (second : EachStep step Q s as) : EachStep step (fun s a t => P s a t ∧ Q s a t) s as := by
  induction as generalizing s with
  | nil => trivial
  | cons a as ih =>
    intro t next
    obtain ⟨here, later⟩ := first t next
    obtain ⟨here', later'⟩ := second t next
    exact ⟨⟨here, here'⟩, ih later later'⟩

/-- A law of the steps of a run and of the steps of what follows it. -/
theorem EachStep.append {P : σ → α → σ → Prop} {as bs : List α} {s t : σ}
    (first : EachStep step P s as) (run : exec step s as = some t) (rest : EachStep step P t bs) :
    EachStep step P s (as ++ bs) := by
  induction as generalizing s with
  | nil =>
    cases run
    exact rest
  | cons a as ih =>
    intro u next
    obtain ⟨v, moved, later⟩ := (exec_cons_eq_some step).mp run
    cases next.symm.trans moved
    exact ⟨(first u next).1, ih (first u next).2 later⟩

/-- A law of the steps of a run holds of its last step. -/
theorem EachStep.last {P : σ → α → σ → Prop} {as : List α} {a : α} {s t u : σ}
    (each : EachStep step P s (as ++ [a])) (run : exec step s as = some t)
    (next : step t a = some u) : P t a u := by
  induction as generalizing s with
  | nil =>
    cases run
    exact (each u next).1
  | cons b as ih =>
    obtain ⟨v, first, rest⟩ := (exec_cons_eq_some step).mp run
    exact ih (each v first).2 rest

/-- A law `Q` of single steps follows along a run from a law `P`, where both may
rely on an invariant that the steps obeying `P` preserve. -/
theorem EachStep.imp_of_invariant {I : σ → Prop} {P Q : σ → α → σ → Prop}
    (preserved : ∀ s a t, I s → step s a = some t → P s a t → I t)
    (implies : ∀ s a t, I s → step s a = some t → P s a t → Q s a t)
    {as : List α} {s : σ} (start : I s) (each : EachStep step P s as) :
    EachStep step Q s as := by
  induction as generalizing s with
  | nil => trivial
  | cons a as ih =>
    intro t next
    obtain ⟨here, later⟩ := each t next
    exact ⟨implies s a t start next here, ih (preserved s a t start next here) later⟩

/-- Two laws of single steps that are the same under an invariant which the steps obeying
the first preserve are the same along a run. -/
theorem EachStep.iff_of_invariant {I : σ → Prop} {P Q : σ → α → σ → Prop}
    (preserved : ∀ s a t, I s → step s a = some t → P s a t → I t)
    (same : ∀ s a t, I s → step s a = some t → (P s a t ↔ Q s a t))
    {as : List α} {s : σ} (start : I s) : EachStep step P s as ↔ EachStep step Q s as := by
  constructor
  · exact imp_of_invariant preserved (fun s a t inv next => (same s a t inv next).mp) start
  · exact imp_of_invariant
      (fun s a t inv next here => preserved s a t inv next ((same s a t inv next).mpr here))
      (fun s a t inv next => (same s a t inv next).mpr) start

/-- An invariant that only the steps obeying `P` preserve holds at the end of a
run all of whose steps obey `P`. -/
theorem EachStep.invariant {I : σ → Prop} {P : σ → α → σ → Prop}
    (preserved : ∀ s a t, I s → step s a = some t → P s a t → I t)
    {as : List α} {s t : σ} (start : I s) (each : EachStep step P s as)
    (run : exec step s as = some t) : I t := by
  induction as generalizing s with
  | nil => simpa [← Option.some.inj run] using start
  | cons a as ih =>
    obtain ⟨u, first, rest⟩ := (exec_cons_eq_some step).mp run
    obtain ⟨here, later⟩ := each u first
    exact ih (preserved s a u start first here) later rest

/-! ### Hidden inputs -/

/-- Actions that are alike, up to inputs nobody chose, lead to the same state. -/
def Determined (step : σ → α → Option σ) (Alike : α → α → Prop) (s : σ) (as : List α) : Prop :=
  ∀ bs, List.Forall₂ Alike as bs → exec step s bs = exec step s as

/-- A run is determined as far as it has got at every moment exactly when each of its
steps is. -/
theorem determined_iff_eachStep {Alike : α → α → Prop} (refl : ∀ a, Alike a a)
    (enabled : ∀ s a b, Alike a b → step s a = none → step s b = none) {s : σ} {as : List α} :
    (∀ n, Determined step Alike s (as.take n)) ↔
      EachStep step (fun s a _ => ∀ b, Alike a b → step s b = step s a) s as := by
  induction as generalizing s with
  | nil =>
    refine iff_of_true (fun n bs alike => ?_) trivial
    rw [List.take_nil] at alike ⊢
    rw [List.forall₂_nil_left_iff.mp alike]
  | cons a as ih =>
    constructor
    · intro determined t next
      refine ⟨fun b alike => ?_, ih.mp fun n bs alike => ?_⟩
      -- the run of one step shows that its step is determined
      · have same := determined 1 [b] (.cons alike .nil)
        simp only [List.take_succ_cons, List.take_zero, exec, next, Option.bind_some] at same ⊢
        cases other : step s b with
        | none =>
          rw [other] at same
          cases same
        | some u =>
          rw [other] at same
          exact same
      -- a longer run with this first step shows the rest
      · have same := determined (n + 1) (a :: bs) (.cons (refl a) alike)
        simpa only [List.take_succ_cons, exec, next, Option.bind_some] using same
    · intro each n bs alike
      cases n with
      | zero =>
        rw [List.take_zero] at alike ⊢
        rw [List.forall₂_nil_left_iff.mp alike]
      | succ n =>
        rw [List.take_succ_cons] at alike ⊢
        obtain ⟨b, bs, first, rest, rfl⟩ := List.forall₂_cons_left_iff.mp alike
        -- a step that is not enabled ends both runs
        cases next : step s a with
        | none => simp only [exec, next, enabled s a b first next, Option.bind_none]
        | some t =>
          obtain ⟨here, later⟩ := each t next
          simp only [exec, here b first, next, Option.bind_some]
          exact ih.mpr later n bs rest

end ComputerNetworks.Lib
