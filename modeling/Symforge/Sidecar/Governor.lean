import Symforge.Library.Run
import Mathlib.Algebra.BigOperators.Fin
import Mathlib.Algebra.Order.BigOperators.Group.Finset
/-!
# Request governor

`execute` and `execute_non_abortable` of `sidecar/governor.rs` as the daemon calls them: the
governed future spawns its work as a blocking task and waits for it. The future holds its permits
and its side of the gate until it ends; the work ends by itself. Semaphore and lock serve their
waiters in any order. A request that has not come yet is one that waits.
-/

namespace Symforge.Sidecar

open Library

/-- What a request costs. -/
inductive ToolWeight where
  | light
  | medium
  | heavy
deriving DecidableEq

/-- The permits of a weight. -/
def ToolWeight.permits : ToolWeight → Nat
  | .light => 1
  | .medium => 2
  | .heavy => 3

/-- Heavy requests take the gate alone. -/
def ToolWeight.needsWriteGate (weight : ToolWeight) : Bool :=
  weight = .heavy

/-- The weight of a tool; reads are light. -/
def classifyTool : String → ToolWeight
  | "index_folder" | "batch_edit" | "batch_rename" | "batch_insert" => .heavy
  | "replace_symbol_body" | "edit_within_symbol" | "insert_symbol" | "delete_symbol" => .heavy
  | "analyze_file_impact" | "sidecar/impact" => .medium
  | _ => .light

/-- The refusals of an open governor. -/
inductive GovernorError where
  | queueTimeout
  | executionTimeout
  | writeGateTimeout
deriving DecidableEq

/-- How far the future of a request is. -/
inductive FuturePhase where
  | queued
  | permitted
  | executing
  | returned (failed : Option GovernorError)
  | dropped
deriving DecidableEq

/-- How far the blocking task of a request is. -/
inductive WorkPhase where
  | unspawned
  | spawned
  | running
  | ended
deriving DecidableEq

/-- The two ways into the governor. -/
inductive EntryPoint where
  | execute
  | executeNonAbortable
deriving DecidableEq

/-- One request: how it came in and how far it is. -/
structure Request where
  entry : EntryPoint
  tool : String
  future : FuturePhase := .queued
  work : WorkPhase := .unspawned

/-- The weight of its tool. -/
def Request.weight (request : Request) : ToolWeight :=
  classifyTool request.tool

/-- The permits that the future holds. -/
def Request.held (request : Request) : Nat :=
  if request.future = .permitted ∨ request.future = .executing then request.weight.permits else 0

/-- The permits that the work is worth while it runs. -/
def Request.load (request : Request) : Nat :=
  if request.work = .running then request.weight.permits else 0

/-- The exits of an executing future that may come before the end of its work. -/
structure EarlyExits where
  deadline : Bool
  callerGone : Bool
deriving DecidableEq

/-- What a request or its surroundings may do. -/
inductive RequestMove where
  | acquirePermits
  | queueTimeout
  | enterGate
  | beginWork
  | endWork
  | complete
  | executionTimeout
  | callerGone

section Requests

variable {count : Nat}

/-- The requests to come, each in the queue. -/
def queued (calls : Fin count → EntryPoint × String) (index : Fin count) : Request :=
  { entry := (calls index).1, tool := (calls index).2 }

/-- The permits that all futures hold. -/
def permitsInUse (requests : Fin count → Request) : Nat :=
  ∑ index, (requests index).held

/-- Whether the gate lets a request in: one that writes alone, the others together. -/
def gateOpen (requests : Fin count → Request) (weight : ToolWeight) : Bool :=
  ∀ index, (requests index).future = .executing →
    !weight.needsWriteGate && !(requests index).weight.needsWriteGate

/-- What the future and the work of a request do, under a governor with that many permits. -/
def advance (maxConcurrency : Nat) (exits : EarlyExits) (requests : Fin count → Request)
    (request : Request) : RequestMove → Option Request
  | .acquirePermits =>
    if request.future = .queued ∧
        permitsInUse requests + request.weight.permits ≤ maxConcurrency then
      some { request with future := .permitted }
    else none
  | .queueTimeout =>
    match request.future with
    | .queued => some { request with future := .returned (some .queueTimeout) }
    | .permitted => some { request with future := .returned (some .writeGateTimeout) }
    | _ => none
  | .enterGate =>
    if request.future = .permitted ∧ gateOpen requests request.weight then
      -- the governed future is polled at once
      some { request with future := .executing, work := .spawned }
    else none
  | .beginWork => if request.work = .spawned then some { request with work := .running } else none
  | .endWork => if request.work = .running then some { request with work := .ended } else none
  | .complete =>
    if request.future = .executing ∧ request.work = .ended then
      some { request with future := .returned none }
    else none
  | .executionTimeout =>
    if request.entry = .execute ∧ request.future = .executing ∧
        (exits.deadline ∨ request.work = .ended) then
      some { request with future := .returned (some .executionTimeout) }
    else none
  | .callerGone =>
    if request.future = .executing → exits.callerGone ∨ request.work = .ended then
      some { request with future := .dropped }
    else none

/-- One move of one request, where it can be made. -/
def step (maxConcurrency : Nat) (exits : EarlyExits) (requests : Fin count → Request)
    (action : Fin count × RequestMove) : Option (Fin count → Request) :=
  (advance maxConcurrency exits requests (requests action.1) action.2).map
    (Function.update requests action.1)

/-- A heavy work runs alone, and the permits in use cover the works that run. -/
def HeavyAlone (requests : Fin count → Request) : Prop :=
  (∀ heavy other, (requests heavy).weight = .heavy → (requests heavy).work = .running →
    (requests other).work = .running → other = heavy) ∧
  ∑ index, (requests index).load ≤ permitsInUse requests

/-- A request that got permits shows that there are some, and an unfinished work has its future. -/
structure Request.Sound (maxConcurrency : Nat) (request : Request) : Prop where
  permitted : request.future = .permitted ∨ request.future = .executing → 0 < maxConcurrency
  awaited : request.work = .spawned ∨ request.work = .running → request.future = .executing

/-- Requests that execute together only read. -/
structure Gated (maxConcurrency : Nat) (requests : Fin count → Request) : Prop where
  sound : ∀ index, (requests index).Sound maxConcurrency
  alone : ∀ one other, (requests one).future = .executing →
    (requests other).future = .executing → one ≠ other → (requests one).weight ≠ .heavy

variable {maxConcurrency : Nat} {exits : EarlyExits} {requests next : Fin count → Request}
  {request after : Request} {move : RequestMove} {action : Fin count × RequestMove}

/-- What a move leaves of a request, if no work outlives its future. -/
theorem advance_spec (kept : maxConcurrency = 0 ∨ exits = ⟨false, false⟩)
    (sound : request.Sound maxConcurrency)
    (moved : advance maxConcurrency exits requests request move = some after) :
    after.weight = request.weight ∧ after.Sound maxConcurrency ∧
      (after.future = .executing → request.future = .executing ∨
        gateOpen requests request.weight) := by
  obtain ⟨permitted, awaited⟩ := sound
  have positive : 0 < request.weight.permits := by
    cases request.weight <;> decide
  unfold advance at moved
  split at moved <;> split at moved <;> cases moved
  all_goals refine ⟨rfl, ⟨?_, ?_⟩, ?_⟩
  all_goals grind

/-- Every such move keeps the requests gated. -/
theorem step_gated (kept : maxConcurrency = 0 ∨ exits = ⟨false, false⟩)
    (gated : Gated maxConcurrency requests)
    (moved : step maxConcurrency exits requests action = some next) :
    Gated maxConcurrency next := by
  obtain ⟨index, move⟩ := action
  obtain ⟨after, advanced, same⟩ := Option.map_eq_some_iff.mp moved
  cases same
  obtain ⟨weight, sound, entered⟩ := advance_spec kept (gated.sound index) advanced
  -- whoever is behind the gate now either was before or found it open
  have apart : ∀ other, other ≠ index → after.future = .executing →
      (requests other).future = .executing →
      after.weight ≠ .heavy ∧ (requests other).weight ≠ .heavy := by
    intro other different mine its
    rw [weight]
    rcases entered mine with before | gate
    · exact ⟨gated.alone index other before its different.symm,
        gated.alone other index its before different⟩
    · simpa [ToolWeight.needsWriteGate] using of_decide_eq_true gate other its
  refine ⟨(Function.forall_update_iff _ fun _ => Request.Sound _).mpr ⟨sound, fun other _ =>
    gated.sound other⟩, ?_⟩
  grind [Function.update_apply, gated.alone]

/-- Behind the gate heavy work runs alone. -/
theorem Gated.heavyAlone (gated : Gated maxConcurrency requests) : HeavyAlone requests := by
  have awaited := fun index running => (gated.sound index).awaited (.inr running)
  refine ⟨fun heavy other writes first second => ?_, Finset.sum_le_sum fun index _ => ?_⟩
  · by_contra different
    exact gated.alone heavy other (awaited heavy first) (awaited other second)
      (Ne.symm different) writes
  · unfold Request.load Request.held
    split
    · rename_i running
      rw [if_pos (.inr (awaited index running))]
    · exact Nat.zero_le _

/-- In every run a heavy work runs alone and the permits in use cover the works that run, if and
only if there is nothing to permit or no future ends before its work: neither at the deadline of
`execute` nor because its caller goes away. -/
theorem heavyAlone_iff (maxConcurrency : Nat) (exits : EarlyExits) :
    (∀ (count : Nat) (calls : Fin count → EntryPoint × String) actions requests,
      run (step maxConcurrency exits) (queued calls) actions = some requests →
        HeavyAlone requests) ↔
      maxConcurrency = 0 ∨ exits = ⟨false, false⟩ := by
  constructor
  · intro safe
    have covered := fun exit requests reached => (safe 1 (fun _ => (.execute, "sidecar/health"))
      [(0, .acquirePermits), (0, .enterGate), (0, .beginWork), (0, exit)] requests reached).2
    obtain ⟨deadline, callerGone⟩ := exits
    cases maxConcurrency with
    | zero => exact .inl rfl
    | succ more =>
      cases deadline with
      | true => exact absurd (covered .executionTimeout _ rfl) (by decide)
      | false =>
        cases callerGone with
        | true => exact absurd (covered .callerGone _ rfl) (by decide)
        | false => exact .inr rfl
  · intro kept count calls actions requests reached
    have initial : Gated maxConcurrency (queued calls) :=
      ⟨fun _ => ⟨nofun, nofun⟩, fun _ _ executing => nomatch executing⟩
    exact (run_invariant (Gated maxConcurrency) (fun _ _ _ gated moved =>
      step_gated kept gated moved) initial reached).heavyAlone

/-- The work of a heavy request runs beside one whose future has ended at its deadline. -/
theorem impact_beside_edit : ∃ requests, run (step 16 ⟨true, false⟩)
    (queued ![(.execute, "sidecar/impact"), (.executeNonAbortable, "batch_edit")])
    [(0, .acquirePermits), (0, .enterGate), (0, .beginWork), (0, .executionTimeout),
      (1, .acquirePermits), (1, .enterGate), (1, .beginWork)] = some requests ∧
    ¬ HeavyAlone requests := by
  refine ⟨_, rfl, fun safe => ?_⟩
  exact absurd (safe.1 1 0 rfl rfl rfl) (by decide)

end Requests

end Symforge.Sidecar
