import Symforge.Library.Sequence

/-!
# Directory trees with symbolic links

A tree of files, links and directories, and the resolution of a path in it: names are looked up in
the directory reached so far, a link puts its target in front of what is left, and so many links at
most are followed. A directory may compare names up to case. The resolved path keeps the names it
was asked for, and no component of it is a link.
-/

namespace Symforge.Library

/-- A step of a path. -/
inductive PathStep (Name : Type) where
  | root | here | parent
  | name (name : Name)
  deriving DecidableEq, Repr

/-- A file, a link, or a directory with its entries in the order of its listing. -/
inductive FileTree (Name : Type) where
  | file
  | link (target : List (PathStep Name))
  | directory (folds : Bool) (entries : List (Name × FileTree Name))

/-- Why a path does not resolve. -/
inductive PathFault where
  | notFound | notDirectory | tooManyLinks
  deriving DecidableEq, Repr

namespace FileTree

variable {Name : Type} [DecidableEq Name] (same : Name → Name → Bool)

/-- Whether a node is a link. -/
def isLink : FileTree Name → Bool
  | .link _ => true
  | _ => false

/-- The names under which a directory lists its entries. -/
def listing : FileTree Name → Option (List Name)
  | .directory _ entries => some (entries.map Prod.fst)
  | _ => none

/-- The entry that a name opens. -/
def entry : FileTree Name → Name → Except PathFault (FileTree Name)
  | .directory folds entries, name =>
    match entries.find? (·.1 = name), entries.find? fun listed => folds && same listed.1 name with
    | some (_, child), _ | none, some (_, child) => .ok child
    | none, none => .error .notFound
  | _, _ => .error .notDirectory

/-- What stands at the end of a chain of names. -/
def lookup (tree : FileTree Name) : List Name → Except PathFault (FileTree Name)
  | [] => .ok tree
  | name :: rest => do (← tree.entry same name).lookup rest

/-- The resolution of a path from the names resolved so far; `follow` goes on behind a link. -/
def resolveWith (tree : FileTree Name)
    (follow : List (PathStep Name) → List Name → Except PathFault (List Name)) :
    List (PathStep Name) → List Name → Except PathFault (List Name)
  | [], resolved => .ok resolved
  | .root :: rest, _ => tree.resolveWith follow rest []
  | .here :: rest, resolved => tree.resolveWith follow rest resolved
  | .parent :: rest, resolved =>
    match tree.lookup same resolved with
    | .ok (.directory ..) => tree.resolveWith follow rest resolved.dropLast
    | .ok _ => .error .notDirectory
    | .error fault => .error fault
  | .name name :: rest, resolved =>
    match tree.lookup same (resolved ++ [name]) with
    | .error fault => .error fault
    | .ok (.link target) => follow (target ++ rest) resolved
    | .ok _ => tree.resolveWith follow rest (resolved ++ [name])

/-- `realpath`, following at most this number of links. -/
def realpath (tree : FileTree Name) :
    Nat → List (PathStep Name) → List Name → Except PathFault (List Name)
  | 0 => tree.resolveWith same fun _ _ => .error .tooManyLinks
  | links + 1 => tree.resolveWith same (tree.realpath links)

/-- `lstat`: a link at the end is not followed. -/
def lstat (tree : FileTree Name) (links : Nat) (path : List (PathStep Name))
    (resolved : List Name) : Except PathFault (FileTree Name) :=
  match path.getLast? with
  | some (.name name) => do
    (← tree.lookup same (← tree.realpath same links path.dropLast resolved)).entry same name
  | _ => do tree.lookup same (← tree.realpath same links path resolved)

/-- Every component is there and is not a link. -/
def Plain (tree : FileTree Name) (path : List Name) : Prop :=
  ∀ front name, front ++ [name] <+: path →
    ∃ node, tree.lookup same (front ++ [name]) = .ok node ∧ node.isLink = false

variable {same} {tree : FileTree Name} {resolved path : List Name}

/-- A path in front of a plain path is plain. -/
theorem Plain.isPrefix (plain : tree.Plain same path) (shorter : resolved <+: path) :
    tree.Plain same resolved :=
  fun _ _ inside => plain _ _ (inside.trans shorter)

/-- A step to a real node keeps the path plain. -/
theorem Plain.concat (plain : tree.Plain same resolved) {name : Name} {node : FileTree Name}
    (found : tree.lookup same (resolved ++ [name]) = .ok node) (real : node.isLink = false) :
    tree.Plain same (resolved ++ [name]) := by
  intro front last inside
  rcases List.prefix_concat_iff.mp inside with whole | within
  · rw [whole]
    exact ⟨node, found, real⟩
  · exact plain _ _ within

/-- Resolution leads from plain paths to plain paths. -/
theorem Plain.resolveWith {follow : List (PathStep Name) → List Name → Except PathFault (List Name)}
    (follows : ∀ {pending before after}, tree.Plain same before →
      follow pending before = .ok after → tree.Plain same after)
    (plain : tree.Plain same resolved) {pending : List (PathStep Name)}
    (reached : tree.resolveWith same follow pending resolved = .ok path) :
    tree.Plain same path := by
  induction pending generalizing resolved with
  | nil =>
    cases reached
    exact plain
  | cons step rest ih =>
    cases step with
    | root => exact ih (plain.isPrefix <| List.nil_prefix ..) reached
    | here => exact ih plain reached
    | parent =>
      simp only [FileTree.resolveWith] at reached
      split at reached
      · exact ih (plain.isPrefix <| List.dropLast_prefix ..) reached
      · cases reached
      · cases reached
    | name name =>
      simp only [FileTree.resolveWith] at reached
      split at reached
      · cases reached
      · exact follows plain reached
      rename_i node real found
      refine ih (plain.concat found ?_) reached
      cases node with
      | link target => exact absurd rfl (real _)
      | _ => rfl

/-- No component of a resolved path is a link. -/
theorem Plain.realpath {links : Nat} (plain : tree.Plain same resolved)
    {pending : List (PathStep Name)}
    (reached : tree.realpath same links pending resolved = .ok path) : tree.Plain same path := by
  induction links generalizing resolved pending path with
  | zero =>
    refine plain.resolveWith (fun _ stopped => ?_) reached
    cases stopped
  | succ links ih => exact plain.resolveWith (fun before after => ih before after) reached

end FileTree

end Symforge.Library
