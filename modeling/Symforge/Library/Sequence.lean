import Mathlib.Data.List.Perm.Basic

/-!
# Fallible steps over a list

A list of fallible computations succeeds when each of them does, so the result only depends on
the order of the list through the order of the results.
-/

namespace Symforge.Library

open List

variable {Fault Item Value : Type}
  {step : Item → Except Fault Value} {items : List Item} {values : List Value}

/-- Bind in a computation that succeeded. -/
theorem bind_eq_ok {first : Except Fault Item} {next : Item → Except Fault Value} {value : Value}
    (succeeded : (first >>= next) = .ok value) :
    ∃ item, first = .ok item ∧ next item = .ok value := by
  cases first with
  | error fault => cases succeeded
  | ok item => exact ⟨_, rfl, succeeded⟩

/-- Changing the errors makes no success. -/
theorem mapError_eq_ok {Refusal : Type} {first : Except Fault Item} {change : Fault → Refusal}
    {item : Item} (succeeded : first.mapError change = .ok item) : first = .ok item := by
  cases first with
  | error fault => cases succeeded
  | ok item => exact congrArg _ (Except.ok.inj succeeded)

/-- A list succeeds item by item. -/
theorem mapM_eq_ok_iff
    (values : List Value) :
    items.mapM step = .ok values ↔
      List.Forall₂ (fun item value => step item = .ok value) items values := by
  induction items generalizing values with
  | nil =>
    rw [mapM_nil, forall₂_nil_left_iff]
    exact ⟨fun same => (Except.ok.inj same).symm, fun same => congrArg Except.ok same.symm⟩
  | cons item rest ih =>
    rw [mapM_cons, forall₂_cons_left_iff]
    constructor
    · intro succeeded
      obtain ⟨value, first, others⟩ := bind_eq_ok succeeded
      obtain ⟨tail, tailOk, same⟩ := bind_eq_ok others
      exact ⟨_, tail, first, (ih _).mp tailOk, (Except.ok.inj same).symm⟩
    · rintro ⟨value, tail, first, tailOk, rfl⟩
      rw [first, (ih _).mpr tailOk]
      rfl

/-- Every value on the right has one on the left. -/
theorem mem_of_forall₂ {Left Right : Type} {Related : Left → Right → Prop} {left : List Left}
    {right : List Right} (each : List.Forall₂ Related left right) {value : Right}
    (member : value ∈ right) : ∃ item ∈ left, Related item value := by
  induction each with
  | nil => cases member
  | cons first _ ih =>
    rcases mem_cons.mp member with rfl | later
    · exact ⟨_, mem_cons_self, first⟩
    obtain ⟨item, inRest, related⟩ := ih later
    exact ⟨_, mem_cons_of_mem _ inRest, related⟩

/-- Every result comes from an item of the list. -/
theorem exists_of_mem_mapM (succeeded : items.mapM step = .ok values) {value : Value}
    (member : value ∈ values) : ∃ item ∈ items, step item = .ok value :=
  mem_of_forall₂ ((mapM_eq_ok_iff _).mp succeeded) member

/-- What each step hands on from its item to its result is the same for the lists. -/
theorem map_eq_of_mapM {Label : Type} {ofItem : Item → Label} {ofValue : Value → Label}
    (keeps : ∀ item value, step item = .ok value → ofValue value = ofItem item)
    (succeeded : items.mapM step = .ok values) : values.map ofValue = items.map ofItem := by
  rw [mapM_eq_ok_iff] at succeeded
  induction succeeded with
  | nil => rfl
  | cons first _ ih => rw [map_cons, map_cons, keeps _ _ first, ih]

/-- Every item of the list has a result. -/
theorem exists_mem_of_mapM (succeeded : items.mapM step = .ok values) {item : Item}
    (member : item ∈ items) : ∃ value ∈ values, step item = .ok value :=
  mem_of_forall₂ ((mapM_eq_ok_iff _).mp succeeded).flip member

end Symforge.Library
