import Mathlib.Data.List.Basic

/-!
# Runs of a partial transition function

A system is a function that gives the state after an action, or `none` where the action is not
enabled. A run folds a list of actions, and every property of runs is proved by one of the rules
below: an invariant that each step keeps, or one that the steps meeting a side condition keep.
-/

namespace Symforge.Library

variable {State Action : Type*}

/-- The state after a list of actions, or `none` when one of them is not enabled. -/
def run (step : State → Action → Option State) : State → List Action → Option State
  | state, [] => some state
  | state, action :: rest => (step state action).bind fun next => run step next rest

/-- Every step of the run meets the side condition in the state it is taken from. -/
def RunMeets (step : State → Action → Option State) (condition : State → Action → Prop) :
    State → List Action → Prop
  | _, [] => True
  | state, action :: rest => condition state action ∧
      ∀ next, step state action = some next → RunMeets step condition next rest

variable {step : State → Action → Option State}

/-- A nonempty run is its first step followed by a run from the state it reaches. -/
theorem run_cons {state final : State} {action : Action} {rest : List Action} :
    run step state (action :: rest) = some final ↔
      ∃ next, step state action = some next ∧ run step next rest = some final := by
  simp [run, Option.bind_eq_some_iff]

/-- A run in two parts. -/
theorem run_append {state : State} (actions later : List Action) :
    run step state (actions ++ later) = (run step state actions).bind (run step · later) := by
  induction actions generalizing state with
  | nil => rfl
  | cons action rest ih =>
    simp only [List.cons_append, run]
    cases step state action with
    | none => rfl
    | some next => exact ih

variable {actions : List Action}

/-- An invariant that the steps meeting a condition keep holds after every run of such steps. -/
theorem run_invariant_meets (Invariant : State → Prop) {condition : State → Action → Prop}
    (keeps : ∀ state action next, Invariant state → condition state action →
      step state action = some next → Invariant next)
    {state final : State} (initial : Invariant state)
    (meets : RunMeets step condition state actions)
    (reached : run step state actions = some final) : Invariant final := by
  induction actions generalizing state with
  | nil =>
    cases reached
    exact initial
  | cons action rest ih =>
    obtain ⟨next, taken, after⟩ := run_cons.mp reached
    exact ih (keeps _ _ _ initial meets.1 taken) (meets.2 _ taken) after

/-- A step that meets the condition comes before a run that does. -/
theorem RunMeets.cons {condition : State → Action → Prop} {state next : State} {action : Action}
    (now : condition state action) (taken : step state action = some next)
    (later : RunMeets step condition next actions) :
    RunMeets step condition state (action :: actions) := by
  refine ⟨now, fun other moved => ?_⟩
  cases taken.symm.trans moved
  exact later

/-- A condition on actions alone is met by a run whose actions all meet it. -/
theorem runMeets_of_forall {condition : Action → Prop}
    (all : ∀ action ∈ actions, condition action) (state : State) :
    RunMeets step (fun _ action => condition action) state actions := by
  induction actions generalizing state with
  | nil => exact trivial
  | cons action rest ih =>
    obtain ⟨here, later⟩ := List.forall_mem_cons.mp all
    exact ⟨here, fun next _ => ih later _⟩

/-- An invariant that every step keeps holds at the end of every run. -/
theorem run_invariant (Invariant : State → Prop)
    (keeps : ∀ state action next, Invariant state → step state action = some next →
      Invariant next)
    {state final : State} (initial : Invariant state)
    (reached : run step state actions = some final) : Invariant final :=
  run_invariant_meets _ (fun _ _ _ kept _ => keeps _ _ _ kept)
    initial (runMeets_of_forall (fun _ _ => trivial) _) reached

end Symforge.Library
