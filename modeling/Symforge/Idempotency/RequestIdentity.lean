import Mathlib.Data.Fin.Tuple.Sort
import Mathlib.Data.Fin.VecNotation
import Mathlib.Data.String.Basic
import Symforge.Idempotency.ReplayStore
import Symforge.Text

/-!
# The identity of a request

A request is known by the digest of a frame: its tool name, a zero byte, and its arguments as JSON
with the members of every object in the order of their keys. The last zero byte of the frame stands
in front of the JSON; so a frame belongs to one tool and to one JSON value, up to the order of
members.
-/

namespace Symforge.Idempotency

open Tuple

/-- `serde_json::Value`; the members of an object stand in the order of its map. -/
inductive JsonValue (Scalar : Type) where
  | scalar (value : Scalar)
  | array (size : Nat) (items : Fin size → JsonValue Scalar)
  | object (size : Nat) (keys : Fin size ↪ String) (members : Fin size → JsonValue Scalar)

namespace JsonValue

variable {Scalar : Type} {value other : JsonValue Scalar}

/-- `idempotency::canonicalize_value`. -/
def canonicalizeValue : JsonValue Scalar → JsonValue Scalar
  | .scalar value => .scalar value
  | .array size items => .array size fun index => (items index).canonicalizeValue
  | .object size keys members =>
    .object size ((Tuple.sort keys).toEmbedding.trans keys)
      fun index => (members (Tuple.sort keys index)).canonicalizeValue

/-- The two are equal up to the order of the members of objects, at every depth. -/
inductive Reordered : JsonValue Scalar → JsonValue Scalar → Prop
  | scalar (value : Scalar) : Reordered (.scalar value) (.scalar value)
  | array {size : Nat} {items others : Fin size → JsonValue Scalar}
      (same : ∀ index, Reordered (items index) (others index)) :
      Reordered (.array size items) (.array size others)
  | object {size : Nat} {keys otherKeys : Fin size ↪ String}
      {members others : Fin size → JsonValue Scalar} (order : Equiv.Perm (Fin size))
      (sameKeys : ∀ index, otherKeys index = keys (order index))
      (same : ∀ index, Reordered (members (order index)) (others index)) :
      Reordered (.object size keys members) (.object size otherKeys others)

/-- Canonical form reorders only. -/
theorem reordered_canonicalizeValue : Reordered value value.canonicalizeValue := by
  induction value with
  | scalar value => exact .scalar _
  | array size items ih => exact .array ih
  | object size keys members ih => exact .object (sort keys) (fun _ => rfl) fun _ => ih _

/-- Reordered values have one canonical form. -/
theorem Reordered.canonicalizeValue_eq (reordered : Reordered value other) :
    value.canonicalizeValue = other.canonicalizeValue := by
  induction reordered with
  | scalar => rfl
  | array _ ih => exact congrArg (JsonValue.array _) (funext ih)
  | @object size keys otherKeys members others order sameKeys _ ih =>
    -- distinct keys have one order, so both maps are sorted by one permutation
    have sorted : ∀ index, order (sort otherKeys index) = sort keys index := by
      intro index
      apply keys.injective
      rw [← sameKeys, show (otherKeys : Fin size → String) = keys ∘ order from funext sameKeys]
      exact congrFun (comp_perm_comp_sort_eq_comp_sort (f := keys) (σ := order)) _
    simp only [canonicalizeValue, object.injEq, heq_eq_eq, true_and]
    constructor
    · ext1 index
      simp [sameKeys, sorted]
    · funext index
      rw [← ih, sorted]

/-- One canonical form means reordered. -/
theorem reordered_of_canonicalizeValue_eq
    (equal : value.canonicalizeValue = other.canonicalizeValue) : Reordered value other := by
  induction value generalizing other with
  | scalar value =>
    cases other <;> simp only [canonicalizeValue, reduceCtorEq, scalar.injEq] at equal
    exact equal ▸ .scalar _
  | array size items ih =>
    cases other <;> simp only [canonicalizeValue, reduceCtorEq, array.injEq] at equal
    obtain ⟨rfl, same⟩ := equal
    exact .array fun index => ih _ (congrFun (eq_of_heq same) _)
  | object size keys members ih =>
    cases other <;> simp only [canonicalizeValue, reduceCtorEq, object.injEq] at equal
    rename_i otherSize otherKeys others
    obtain ⟨rfl, sameKeys, same⟩ := equal
    refine .object ((sort otherKeys).symm.trans (sort keys)) ?_ ?_
    · intro index
      simpa using (DFunLike.congr_fun (eq_of_heq sameKeys) ((sort otherKeys).symm index)).symm
    · intro index
      apply ih
      simpa using congrFun (eq_of_heq same) ((sort otherKeys).symm index)

end JsonValue

/-- `REQUEST_HASH_FRAME_PREFIX`. -/
def requestHashFramePrefix : Bytes := utf8 "symforge-idempotency-request-v1\x00"

variable {Scalar : Type}

/-- `RequestHash::for_tool_request`, up to the digest of the frame. -/
def forToolRequest (toVec : JsonValue Scalar → Bytes) (toolName : String)
    (request : JsonValue Scalar) : Except IdempotencyError Bytes :=
  if toolName.isEmpty then .error .emptyToolName
  else .ok (requestHashFramePrefix ++ utf8 toolName ++ 0 :: toVec request.canonicalizeValue)

/-- Two requests have one frame exactly if they have one tool and one JSON value up to the order of
members, where canonical forms are written differently and without zero bytes. Canonicalizing is
idempotent and does not depend on that order. -/
theorem forToolRequest_eq_iff (toVec : JsonValue Scalar → Bytes) (toolName otherName : String)
    {request other : JsonValue Scalar}
    (injective : toVec request.canonicalizeValue = toVec other.canonicalizeValue →
      request.canonicalizeValue = other.canonicalizeValue)
    (noZero : 0 ∉ toVec request.canonicalizeValue ∧ 0 ∉ toVec other.canonicalizeValue) :
    ((∃ frame, forToolRequest toVec toolName request = .ok frame ∧
        forToolRequest toVec otherName other = .ok frame) ↔
      toolName ≠ "" ∧ toolName = otherName ∧ request.Reordered other) ∧
    request.canonicalizeValue.canonicalizeValue = request.canonicalizeValue ∧
    (request.Reordered other → request.canonicalizeValue = other.canonicalizeValue) := by
  refine ⟨⟨?_, ?_⟩, request.reordered_canonicalizeValue.canonicalizeValue_eq.symm,
    JsonValue.Reordered.canonicalizeValue_eq⟩
  · rintro ⟨frame, first, second⟩
    unfold forToolRequest at first second
    split at first
    · cases first
    split at second
    · cases second
    rename_i named _
    have same := (Except.ok.inj first).trans (Except.ok.inj second).symm
    obtain ⟨names, -, values⟩ := append_cons_inj noZero.1 noZero.2 same
    exact ⟨by simpa using named, utf8_injective (List.append_cancel_left names),
      JsonValue.reordered_of_canonicalizeValue_eq (injective values)⟩
  · rintro ⟨named, rfl, reordered⟩
    refine ⟨_, if_neg (by simpa using named), ?_⟩
    rw [reordered.canonicalizeValue_eq]
    exact if_neg (by simpa using named)

/-! ### Two members in two orders -/

/-- What `serde_json::to_vec` writes where no key needs an escape. -/
def compactJson : JsonValue Bool → Bytes
  | .scalar value => utf8 (if value then "true" else "false")
  | .array _ items => utf8 "[" ++
      (utf8 ",").intercalate (List.ofFn fun index => compactJson (items index)) ++ utf8 "]"
  | .object _ keys members => utf8 "\x7b" ++
      (utf8 ",").intercalate (List.ofFn fun index =>
        utf8 "\"" ++ utf8 (keys index) ++ utf8 "\":" ++ compactJson (members index)) ++
      utf8 "\x7d"

/-- An object whose member `a` stands in front of its member `b`. -/
def sampleRequest (a b : Bool) : JsonValue Bool :=
  .object 2 ⟨!["a", "b"], by decide⟩ ![.scalar a, .scalar b]

/-- The same object, with `b` in front. -/
def swappedRequest (a b : Bool) : JsonValue Bool :=
  .object 2 ⟨!["b", "a"], by decide⟩ ![.scalar b, .scalar a]

/-- The members of a sample request are sorted. -/
theorem canonicalizeValue_sampleRequest (a b : Bool) :
    (sampleRequest a b).canonicalizeValue = sampleRequest a b := by
  have sorted : sort !["a", "b"] = Equiv.refl _ :=
    sort_eq_refl_iff_monotone.mpr (by unfold Monotone; decide)
  have scalars : ∀ index : Fin 2, ((![.scalar a, .scalar b] : Fin 2 → JsonValue Bool)
      index).canonicalizeValue = ![.scalar a, .scalar b] index :=
    Fin.forall_fin_two.mpr ⟨rfl, rfl⟩
  simp only [sampleRequest, JsonValue.canonicalizeValue, Function.Embedding.coeFn_mk, sorted,
    Equiv.refl_apply, scalars]
  rfl

/-- The two orders make one request, another value of `b` makes another. -/
theorem sampleRequests_identified :
    (∃ frame, forToolRequest compactJson "t" (sampleRequest true false) = .ok frame ∧
      forToolRequest compactJson "t" (swappedRequest true false) = .ok frame) ∧
    ¬ ∃ frame, forToolRequest compactJson "t" (sampleRequest true false) = .ok frame ∧
      forToolRequest compactJson "t" (sampleRequest true true) = .ok frame := by
  have swapped : (sampleRequest true false).Reordered (swappedRequest true false) := by
    refine .object (Equiv.swap 0 1) (by decide) ?_
    exact Fin.forall_fin_two.mpr ⟨.scalar false, .scalar true⟩
  have plain : 0 ∉ compactJson (sampleRequest true false) := by decide
  have apart : compactJson (sampleRequest true false) ≠ compactJson (sampleRequest true true) := by
    decide
  constructor
  · apply (forToolRequest_eq_iff compactJson "t" "t" ?_ ?_).1.mpr ⟨by decide, rfl, swapped⟩
    · exact fun _ => swapped.canonicalizeValue_eq
    · rw [← swapped.canonicalizeValue_eq, canonicalizeValue_sampleRequest]
      exact ⟨plain, plain⟩
  · intro same
    obtain ⟨-, -, reordered⟩ := (forToolRequest_eq_iff compactJson "t" "t" (by
        rw [canonicalizeValue_sampleRequest, canonicalizeValue_sampleRequest]
        exact fun written => absurd written apart) (by
        rw [canonicalizeValue_sampleRequest, canonicalizeValue_sampleRequest]
        exact ⟨plain, by decide⟩)).1.mp same
    have equal := reordered.canonicalizeValue_eq
    rw [canonicalizeValue_sampleRequest, canonicalizeValue_sampleRequest] at equal
    exact apart (congrArg compactJson equal)

end Symforge.Idempotency
