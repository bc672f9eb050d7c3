import Mathlib.Data.List.Basic

/-!
# Inverted indices

A hash map from keys to lists of entries. It inverts a relation when the list of a key holds
exactly the entries related to it and no list is kept empty. Adding to one list and taking from one
list keep that, for the relation with the pairs added or taken.
-/

namespace Symforge.Library

open Function

/-- A map from keys to lists, of which only lookups matter. -/
abbrev Buckets (Key Entry : Type) : Type := Key → Option (List Entry)

namespace Buckets

variable {Key Entry : Type}

/-- The list of a key, empty where there is none. -/
def bucket (index : Buckets Key Entry) (key : Key) : List Entry := (index key).getD []

/-- What an index of a relation is. -/
structure Inverts (Shape : List Entry → Prop) (index : Buckets Key Entry)
    (relation : Key → Entry → Prop) : Prop where
  nonempty : ∀ key, index key ≠ some []
  shape : ∀ key, Shape (index.bucket key)
  mem : ∀ key entry, entry ∈ index.bucket key ↔ relation key entry

variable {Shape : List Entry → Prop} {index other : Buckets Key Entry}
  {relation : Key → Entry → Prop} {key : Key} {change : List Entry → List Entry}

/-- Only the relation matters. -/
theorem Inverts.congr {expected : Key → Entry → Prop} (inverts : Inverts Shape index relation)
    (same : ∀ key entry, relation key entry ↔ expected key entry) :
    Inverts Shape index expected where
  nonempty := inverts.nonempty
  shape := inverts.shape
  mem _ _ := (inverts.mem _ _).trans (same _ _)

/-- Without empty lists, a key is absent exactly when its list is empty. -/
theorem eq_of_bucket_eq (kept : index key ≠ some []) (otherKept : other key ≠ some [])
    (same : index.bucket key = other.bucket key) : index key = other key := by
  unfold bucket at same
  cases here : index key with
  | none =>
    cases there : other key with
    | none => rfl
    | some list =>
      rw [here, there] at same
      have empty : list = [] := same.symm
      exact absurd (empty ▸ there) otherKept
  | some list =>
    cases there : other key with
    | none =>
      rw [here, there] at same
      have empty : list = [] := same
      exact absurd (empty ▸ here) kept
    | some found =>
      rw [here, there] at same
      exact congrArg some same

/-- A missing bucket is an empty one. -/
theorem Inverts.eq_none_iff (inverts : Inverts Shape index relation) :
    index key = none ↔ index.bucket key = [] := by
  unfold bucket
  cases here : index key with
  | none => simp
  | some list =>
    have nonempty : list ≠ [] := fun empty => inverts.nonempty _ (empty ▸ here)
    simp [nonempty]

/-- No buckets invert the empty relation. -/
theorem empty_inverts (shaped : Shape []) :
    Inverts Shape (fun _ => none : Buckets Key Entry) fun _ _ => False where
  nonempty _ := nofun
  shape _ := shaped
  mem _ _ := by simp [bucket]

variable [DecidableEq Key]

/-- `entry(key).or_default()` with the list changed. -/
def modify (index : Buckets Key Entry) (change : List Entry → List Entry) (key : Key) :
    Buckets Key Entry :=
  update index key (some (change (index.bucket key)))

/-- `get_mut(key)` with the list changed; a list of which nothing is left is removed. -/
def prune (index : Buckets Key Entry) (change : List Entry → List Entry) (key : Key) :
    Buckets Key Entry :=
  match index key with
  | none => index
  | some list =>
    update index key (if (change list).isEmpty then none else some (change list))

/-- One bucket changes, the others stay. -/
theorem bucket_modify (found : Key) :
    (index.modify change key).bucket found =
      if found = key then change (index.bucket key) else index.bucket found := by
  by_cases same : found = key
  · subst same
    simp [bucket, modify]
  · simp [bucket, modify, same]

/-- So it is if an empty bucket is dropped. -/
theorem bucket_prune (keepsNil : change [] = []) (found : Key) :
    (index.prune change key).bucket found =
      if found = key then change (index.bucket key) else index.bucket found := by
  unfold prune
  cases here : index key with
  | none =>
    by_cases same : found = key
    · subst same
      simp [bucket, here, keepsNil]
    · simp [same]
  | some list =>
    by_cases same : found = key
    · subst same
      by_cases empty : (change list).isEmpty
      · simp [bucket, here, List.isEmpty_iff.mp empty]
      · simp [bucket, here, empty]
    · simp [bucket, same]

/-- A list that gains one entry. -/
theorem Inverts.modify {gained : Entry} (inverts : Inverts Shape index relation)
    (shaped : Shape (change (index.bucket key)))
    (gains : ∀ entry, entry ∈ change (index.bucket key) ↔
      entry = gained ∨ entry ∈ index.bucket key) :
    Inverts Shape (index.modify change key) fun found entry =>
      (found = key ∧ entry = gained) ∨ relation found entry where
  nonempty := by
    intro found empty
    by_cases same : found = key
    · subst same
      simp only [Buckets.modify, update_self, Option.some.injEq] at empty
      have member := (gains _).mpr (.inl rfl)
      rw [empty] at member
      cases member
    · rw [Buckets.modify, update_of_ne same] at empty
      exact inverts.nonempty _ empty
  shape := by
    intro found
    rw [bucket_modify]
    split
    · exact shaped
    · exact inverts.shape _
  mem := by
    intro found entry
    rw [bucket_modify, ← inverts.mem]
    split
    · rename_i same
      subst same
      simp [gains]
    · rename_i differs
      simp [differs]

/-- A list that loses some entries. -/
theorem Inverts.prune {lost : Entry → Prop} (inverts : Inverts Shape index relation)
    (keepsNil : change [] = []) (shaped : Shape (change (index.bucket key)))
    (loses : ∀ entry, entry ∈ change (index.bucket key) ↔
      ¬ lost entry ∧ entry ∈ index.bucket key) :
    Inverts Shape (index.prune change key) fun found entry =>
      ¬ (found = key ∧ lost entry) ∧ relation found entry where
  nonempty := by
    intro found empty
    unfold Buckets.prune at empty
    cases here : index key with
    | none =>
      rw [here] at empty
      exact inverts.nonempty _ empty
    | some list =>
      rw [here] at empty
      by_cases same : found = key
      · subst same
        simp only [update_self] at empty
        by_cases nothing : (change list).isEmpty
        · rw [if_pos nothing] at empty
          cases empty
        · rw [if_neg nothing] at empty
          exact nothing (List.isEmpty_iff.mpr (Option.some.inj empty))
      · simp only [update_of_ne same] at empty
        exact inverts.nonempty _ empty
  shape := by
    intro found
    rw [bucket_prune keepsNil]
    split
    · exact shaped
    · exact inverts.shape _
  mem := by
    intro found entry
    rw [bucket_prune keepsNil, ← inverts.mem]
    split
    · rename_i same
      subst same
      simp [loses]
    · rename_i differs
      simp [differs]

/-- The same entry gained under every key of a list. -/
theorem Inverts.foldl_modify {gained : Entry} (keys : List Key)
    (inverts : Inverts Shape index relation) (shaped : ∀ list, Shape list → Shape (change list))
    (gains : ∀ list, Shape list → ∀ entry, entry ∈ change list ↔ entry = gained ∨ entry ∈ list) :
    Inverts Shape (keys.foldl (Buckets.modify · change) index) fun found entry =>
      (found ∈ keys ∧ entry = gained) ∨ relation found entry := by
  induction keys generalizing index relation with
  | nil => exact inverts.congr fun found entry => by simp
  | cons key rest ih =>
    refine (ih (inverts.modify (shaped _ (inverts.shape _))
      (gains _ (inverts.shape _)))).congr fun found entry => ?_
    rw [List.mem_cons]
    tauto

/-- The same entries lost under every key of a list. -/
theorem Inverts.foldl_prune {lost : Entry → Prop} (keys : List Key)
    (inverts : Inverts Shape index relation) (keepsNil : change [] = [])
    (shaped : ∀ list, Shape list → Shape (change list))
    (loses : ∀ list, Shape list → ∀ entry, entry ∈ change list ↔ ¬ lost entry ∧ entry ∈ list) :
    Inverts Shape (keys.foldl (Buckets.prune · change) index) fun found entry =>
      ¬ (found ∈ keys ∧ lost entry) ∧ relation found entry := by
  induction keys generalizing index relation with
  | nil => exact inverts.congr fun found entry => by simp
  | cons key rest ih =>
    refine (ih (inverts.prune keepsNil (shaped _ (inverts.shape _))
      (loses _ (inverts.shape _)))).congr fun found entry => ?_
    rw [List.mem_cons]
    tauto

end Buckets

end Symforge.Library
