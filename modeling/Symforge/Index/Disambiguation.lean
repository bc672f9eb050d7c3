import Symforge.Index.Files
/-!
# Owners of definitions

The part of `live_index/disambiguation.rs` that finds the type whose `impl` block holds a
definition. Names are compared as the bytes of their tokens.
-/

namespace Symforge

/-- `disambiguation::base_type_token`: without generic parameters and path. -/
def baseTypeToken (type : Bytes) : Bytes :=
  let bare := trim (type.takeWhile (· != 0x3C))
  match rfind bare (utf8 "::") with
  | some position => trim (bare.drop (position + 2))
  | none => trim bare

/-- The type an `impl` block is for: behind its last ` for `, or its name without `impl `. -/
def implTarget (name : Bytes) : Bytes :=
  match rfind name (utf8 " for ") with
  | some position => name.drop (position + 5)
  | none => if startsWith name "impl " then name.drop 5 else name

/-- `disambiguation::container_target_type`. -/
def containerTargetType (symbol : SymbolRecord) : Option Bytes :=
  match symbol.kind with
  | .impl => some (baseTypeToken (trim (implTarget (utf8 symbol.name))))
  | .struct | .enum | .trait | .klass | .interface =>
    some (baseTypeToken (trim (utf8 symbol.name)))
  | _ => none

/-- One round of `enclosing_impl_owner`: a block replaces one that starts earlier. -/
def considerOwner (defStartLine : Nat) (best : Option (Nat × Bytes)) (symbol : SymbolRecord) :
    Option (Nat × Bytes) :=
  let start := symbol.lineRange.1
  if symbol.kind ≠ .impl ∨ defStartLine < start ∨ defStartLine > symbol.lineRange.2 then best
  else
    match containerTargetType symbol, best with
    | none, _ => best
    | some owner, some (bestStart, _) => if start ≤ bestStart then best else some (start, owner)
    | some owner, none => some (start, owner)

/-- `disambiguation::enclosing_impl_owner`. -/
def enclosingImplOwner (symbols : List SymbolRecord) (defStartLine : Nat) : Option Bytes :=
  (symbols.foldl (considerOwner defStartLine) none).map Prod.snd

end Symforge
