import Symforge.Lifecycle.Observer
/-!
# Handoffs of an observer slot

The calls on one slot, by any producers and in any order, with what they have accepted, delivered
and bound so far.
-/

namespace Symforge.Lifecycle

open ObserverSlot List

/-- The calls that change a slot. -/
inductive SlotCall where
  | queueUndelivered (producer : ObserverId) (cut : ObservationCut)
  | beginHandoff (successor : ObserverId)
  | deliverPending
  | completeHandoff

/-- A slot with the cuts it accepted and delivered, and the successor of the last begun handoff. -/
structure SlotHistory where
  slot : ObserverSlot
  accepted : List (ObserverId × ObservationCut) := []
  delivered : List ObservationCut := []
  begun : Option ObserverId := none

namespace SlotHistory

/-- A call: its answer, the slot it leaves and what its answer adds to the history. -/
def call (history : SlotHistory) : SlotCall → Except HandoffRefusal Unit × SlotHistory
  | .queueUndelivered producer cut =>
    match history.slot.queueUndelivered producer cut with
    | (.error refusal, slot) => (.error refusal, { history with slot })
    | (.ok _, slot) =>
      (.ok (), { history with slot, accepted := history.accepted ++ [(producer, cut)] })
  | .beginHandoff successor =>
    match history.slot.beginHandoff successor with
    | (.error refusal, slot) => (.error refusal, { history with slot })
    | (.ok _, slot) => (.ok (), { history with slot, begun := some successor })
  | .deliverPending =>
    let (cuts, slot) := history.slot.deliverPending
    (.ok (), { history with slot, delivered := history.delivered ++ cuts })
  | .completeHandoff =>
    let (answer, slot) := history.slot.completeHandoff
    (answer.map fun _ => (), { history with slot })

/-- The history of a new slot after some calls. -/
def after (first : ObserverId) (calls : List SlotCall) : SlotHistory :=
  calls.foldl (fun history call => (history.call call).2) { slot := .new first }

/-- What was accepted is what was delivered and then what waits, all from the active observer; a
bound successor is of the last handoff. -/
structure Draining (history : SlotHistory) : Prop where
  inOrder : history.accepted.map Prod.snd =
    history.delivered ++ history.slot.undelivered.map Prod.snd
  own : ∀ entry ∈ history.slot.undelivered, entry.1 = history.slot.active
  bound : ∀ successor, history.slot.pendingSuccessor = some successor →
    history.begun = some successor

/-- The active observer changes to the successor of the last handoff, when nothing waits, and a
refused call leaves the history as it is. -/
structure Orderly (history : SlotHistory) (outcome : Except HandoffRefusal Unit × SlotHistory) :
    Prop where
  draining : outcome.2.Draining
  changed : outcome.2.slot.active ≠ history.slot.active →
    history.slot.undelivered = [] ∧ history.begun = some outcome.2.slot.active
  refused : ∀ refusal, outcome.1 = .error refusal → outcome.2 = history

variable {history : SlotHistory}

/-- Leaving the history as it is is orderly. -/
theorem Draining.kept (draining : history.Draining) (answer : Except HandoffRefusal Unit) :
    history.Orderly (answer, history) :=
  ⟨draining, fun changed => absurd rfl changed, fun _ _ => rfl⟩

/-- Every call on a draining slot is orderly. -/
theorem Draining.call (draining : history.Draining) (call : SlotCall) :
    history.Orderly (history.call call) := by
  cases call with
  | queueUndelivered producer cut =>
    by_cases other : producer ≠ history.slot.active
    · rw [SlotHistory.call, queueUndelivered, if_pos other]
      exact draining.kept _
    rw [SlotHistory.call, queueUndelivered, if_neg other]
    refine ⟨⟨?_, ?_, draining.bound⟩, fun changed => absurd rfl changed, nofun⟩
    · rw [map_append, draining.inOrder, map_append, append_assoc]
    · exact forall_mem_append.mpr ⟨draining.own, forall_mem_singleton.mpr (not_not.mp other)⟩
  | beginHandoff successor =>
    cases pending : history.slot.pendingSuccessor with
    | some bound =>
      simp only [SlotHistory.call, beginHandoff, pending]
      exact draining.kept _
    | none =>
      simp only [SlotHistory.call, beginHandoff, pending]
      exact ⟨⟨draining.inOrder, draining.own, fun _ => id⟩, fun changed => absurd rfl changed,
        nofun⟩
  | deliverPending =>
    exact ⟨⟨draining.inOrder.trans (append_nil _).symm, nofun, draining.bound⟩,
      fun changed => absurd rfl changed, nofun⟩
  | completeHandoff =>
    cases pending : history.slot.pendingSuccessor with
    | none =>
      simp only [SlotHistory.call, completeHandoff, pending]
      exact draining.kept _
    | some successor =>
      by_cases drained : history.slot.undelivered.isEmpty = true
      · simp only [SlotHistory.call, completeHandoff, pending, drained, ↓reduceIte]
        have empty := isEmpty_iff.mp drained
        exact ⟨⟨draining.inOrder, by simp [empty], nofun⟩,
          fun _ => ⟨empty, draining.bound _ pending⟩, nofun⟩
      · simp only [SlotHistory.call, completeHandoff, pending, drained]
        exact draining.kept _

/-- Every history drains in order. -/
theorem draining_after (first : ObserverId) (calls : List SlotCall) :
    (after first calls).Draining :=
  foldlRecOn _ _ ⟨rfl, nofun, nofun⟩ fun _ draining call _ => (draining.call call).draining

/-- In every history of a slot, the accepted cuts are the delivered ones followed by those that
wait, which come from the active observer, and a delivery leaves none waiting; the cuts of the
active observer are accepted and all others refused; the active observer changes only when nothing
waits, to the successor of the last handoff; and a refused call changes nothing. -/
theorem handoff_in_order (first : ObserverId) (calls : List SlotCall) :
    let history := after first calls
    history.accepted.map Prod.snd =
        history.delivered ++ history.slot.undelivered.map Prod.snd ∧
      (∀ entry ∈ history.slot.undelivered, entry.1 = history.slot.active) ∧
      ((history.call .deliverPending).2.slot.undelivered = [] ∧
        (history.call .deliverPending).2.delivered = history.accepted.map Prod.snd) ∧
      (∀ producer cut, (history.call (.queueUndelivered producer cut)).1 =
        if producer = history.slot.active then .ok ()
        else .error (.notTheActiveObserver producer)) ∧
      ∀ call, ((history.call call).2.slot.active ≠ history.slot.active →
          history.slot.undelivered = [] ∧
            history.begun = some (history.call call).2.slot.active) ∧
        ∀ refusal, (history.call call).1 = .error refusal → (history.call call).2 = history := by
  intro history
  have draining : history.Draining := draining_after first calls
  refine ⟨draining.inOrder, draining.own, ⟨rfl, draining.inOrder.symm⟩, ?_, ?_⟩
  · intro producer cut
    by_cases active : producer = history.slot.active
    · simp [SlotHistory.call, queueUndelivered, active]
    · simp [SlotHistory.call, queueUndelivered, active]
  · intro call
    exact ⟨(draining.call call).changed, (draining.call call).refused⟩

/-- The predecessor queues once more while its successor is bound. -/
def handedOver : List SlotCall :=
  [.queueUndelivered ⟨1⟩ ⟨7, .incremental []⟩, .beginHandoff ⟨2⟩,
    .queueUndelivered ⟨1⟩ ⟨8, .incremental []⟩, .completeHandoff, .deliverPending]

/-- Both cuts are delivered and the next call makes the bound successor active. -/
theorem handedOver_in_order :
    let history := after ⟨1⟩ handedOver
    (history.delivered = history.accepted.map Prod.snd ∧ history.accepted.length = 2) ∧
      (history.call .completeHandoff).2.slot.active = ⟨2⟩ ∧ history.begun = some ⟨2⟩ := by
  have changed : (after ⟨1⟩ handedOver).slot.active ≠ ⟨2⟩ := by decide
  obtain ⟨inOrder, -, -, -, calls⟩ := handoff_in_order ⟨1⟩ handedOver
  exact ⟨⟨(inOrder.trans (append_nil _)).symm, rfl⟩, rfl,
    ((calls .completeHandoff).1 changed.symm).2⟩

end SlotHistory

end Symforge.Lifecycle
