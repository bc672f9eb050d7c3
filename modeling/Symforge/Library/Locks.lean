import Mathlib.Logic.Function.Basic
/-!
# Exclusive locks

A table of locks says who holds each key. `acquire` takes a free key, `release` gives up every key
of one owner. A key has one holder, so two owners never hold the same one.
-/

namespace Symforge.Library

variable {Key Owner : Type}

/-- The owner takes the key, if nobody holds it. -/
def acquire [DecidableEq Key] (holders : Key → Option Owner) (key : Key) (owner : Owner) :
    Option (Key → Option Owner) :=
  if holders key = none then some (Function.update holders key (some owner)) else none

/-- The owner gives up all its keys. -/
def release [DecidableEq Owner] (holders : Key → Option Owner) (owner : Owner) :
    Key → Option Owner :=
  fun key => if holders key = some owner then none else holders key

/-- The owner holds every key of the list. -/
def Holds (holders : Key → Option Owner) (owner : Owner) (keys : List Key) : Prop :=
  ∀ key ∈ keys, holders key = some owner

variable {holders next : Key → Option Owner} {key : Key} {owner other : Owner} {keys : List Key}

/-- A lock has one owner. -/
theorem Holds.owner_eq {others : List Key} (first : Holds holders owner keys)
    (second : Holds holders other others) (inFirst : key ∈ keys) (inSecond : key ∈ others) :
    owner = other :=
  Option.some.inj ((first _ inFirst).symm.trans (second _ inSecond))

/-- Nobody loses a key when another one is taken. -/
theorem Holds.acquire [DecidableEq Key] (held : Holds holders other keys)
    (taken : acquire holders key owner = some next) : Holds next other keys := by
  unfold Library.acquire at taken
  split at taken
  · rename_i free
    cases taken
    intro mine member
    have apart : mine ≠ key := by
      rintro rfl
      rw [held _ member] at free
      cases free
    rw [Function.update_of_ne apart]
    exact held _ member
  · cases taken

/-- Taking a lock adds it to those held. -/
theorem Holds.acquired [DecidableEq Key] (held : Holds holders owner keys)
    (taken : Library.acquire holders key owner = some next) : Holds next owner (keys ++ [key]) := by
  intro mine member
  rcases List.mem_append.mp member with before | now
  · exact held.acquire taken _ before
  rw [List.mem_singleton.mp now]
  unfold Library.acquire at taken
  split at taken
  · cases taken
    exact Function.update_self ..
  · cases taken

/-- An owner gives up no key of another one. -/
theorem Holds.release [DecidableEq Owner] (held : Holds holders other keys)
    (apart : other ≠ owner) : Holds (release holders owner) other keys := by
  intro mine member
  have stillHeld := held _ member
  unfold Library.release
  rw [stillHeld, if_neg (fun same => apart (Option.some.inj same))]

end Symforge.Library
