import Symforge.Library.Grouping
import Symforge.Domain
/-!
# The live index

The part of `LiveIndex` (`live_index/store.rs`) that names, references and edits are resolved
against: the files by relative path, with their bytes, symbols and references, and the reverse index
from names to references. The hash maps of the source are lists, in any order, whose keys are
distinct.
-/

namespace Symforge

/-- `domain::index::ReferenceKind`. -/
inductive ReferenceKind where
  | call | import | typeUsage | macroUse | implements | valueUse
  deriving DecidableEq, Repr

/-- `domain::index::ReferenceRecord`. -/
structure ReferenceRecord where
  name : String
  qualifiedName : Option String
  kind : ReferenceKind
  byteRange : Nat × Nat
  deriving DecidableEq, Repr

/-- `store::IndexedFile`. -/
structure IndexedFile where
  content : Bytes
  language : LanguageId
  symbols : List SymbolRecord
  references : List ReferenceRecord
  aliasMap : List (String × String)
  deriving DecidableEq, Repr

/-- `store::ReferenceLocation`. -/
structure ReferenceLocation where
  filePath : String
  referenceIdx : Nat
  deriving DecidableEq, Repr

/-- `store::LiveIndex`. -/
structure LiveIndex where
  files : List (String × IndexedFile)
  distinct : (files.map Prod.fst).Nodup
  reverseIndex : List (String × List ReferenceLocation)
  /-- The files come from a snapshot whose verification is pending, running or failed. -/
  unverifiedSeed : Bool

namespace LiveIndex

/-- `query::capture_shared_file`. -/
def captureSharedFile (index : LiveIndex) (path : String) : Option IndexedFile :=
  index.files.lookup path

/-- `query::get_file`: an unverified seed stays invisible. -/
def getFile (index : LiveIndex) (path : String) : Option IndexedFile :=
  if index.unverifiedSeed then none else index.captureSharedFile path

variable {index : LiveIndex} {path : String} {file : IndexedFile}

/-- A file is found by its path. -/
theorem captureSharedFile_of_mem (member : (path, file) ∈ index.files) :
    index.captureSharedFile path = some file :=
  Library.lookup_of_mem index.distinct member

/-- What is found is in the index. -/
theorem mem_of_captureSharedFile (found : index.captureSharedFile path = some file) :
    (path, file) ∈ index.files := by
  obtain ⟨before, after, split, -⟩ := List.lookup_eq_some_iff.mp found
  rw [split]
  exact List.mem_append_right _ List.mem_cons_self

end LiveIndex

end Symforge
