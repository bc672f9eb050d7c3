import Symforge.Index.Files
/-!
# Finding references

`find_references_for_name` of `live_index/query.rs` and the names it leaves out.
-/

namespace Symforge

/-! ### Built-in names -/

/-- The filtered names of Rust. -/
def rustBuiltins : List String :=
  ["i8", "i16", "i32", "i64", "i128", "isize", "u8", "u16", "u32", "u64", "u128", "usize", "f32",
    "f64", "bool", "char", "str", "String", "Self", "self"]

/-- Those of Python. -/
def pythonBuiltins : List String :=
  ["int", "float", "str", "bool", "list", "dict", "tuple", "set", "None", "bytes", "object", "type"]

/-- Those of JavaScript. -/
def jsBuiltins : List String :=
  ["string", "number", "boolean", "undefined", "null", "Object", "Array", "Function", "Symbol",
    "Promise", "Error"]

/-- Those of TypeScript. -/
def tsBuiltins : List String :=
  ["string", "number", "boolean", "undefined", "null", "void", "never", "any", "unknown", "Object",
    "Array", "Function", "Symbol", "Promise", "Error", "Record", "Partial", "Required", "Readonly",
    "Pick", "Omit"]

/-- Those of Go. -/
def goBuiltins : List String :=
  ["int", "int8", "int16", "int32", "int64", "uint", "uint8", "uint16", "uint32", "uint64",
    "float32", "float64", "complex64", "complex128", "bool", "string", "byte", "rune", "error",
    "any"]

/-- Those of Java. -/
def javaBuiltins : List String :=
  ["int", "long", "short", "byte", "float", "double", "boolean", "char", "void", "String", "Object",
    "Integer", "Long", "Short", "Byte", "Float", "Double", "Boolean", "Character"]

/-- Type parameters of one letter. -/
def singleLetterGenerics : List String :=
  ["T", "K", "V", "E", "R", "S", "A", "B", "C", "D", "N", "M", "P", "U", "W", "X", "Y", "Z"]

/-- `query::is_filtered_name`. -/
def isFilteredName (name : String) (language : LanguageId) : Bool :=
  if singleLetterGenerics.contains name then true
  else
    let builtins :=
      match language with
      | .rust => rustBuiltins
      | .python => pythonBuiltins
      | .javaScript => jsBuiltins
      | .typeScript => tsBuiltins
      | .go => goBuiltins
      | .java => javaBuiltins
      | _ => []
    builtins.contains name

/-! ### Qualified names -/

/-- The segments of a qualified name between `.` and `:`, trimmed, without the empty ones. -/
def nameSegments (qualifiedName : String) : List Bytes :=
  ((splitAtBytes (fun byte => byte == 0x2E || byte == 0x3A) (utf8 qualifiedName)).map trim).filter
    fun segment => !segment.isEmpty

/-- The segment a reference hangs on: the one in front of the leaf, or the only one. -/
def headSegment (qualifiedName : String) : Option Bytes :=
  match (nameSegments qualifiedName).reverse with
  | [] => none
  | [only] => some only
  | _ :: qualifier :: _ => some qualifier

/-- `name.contains("::") || name.contains('.')`. -/
def isQualifiedName (name : String) : Bool :=
  (rfind (utf8 name) (utf8 "::")).isSome || (utf8 name).contains 0x2E

namespace LiveIndex

variable (index : LiveIndex) (kindFilter : Option ReferenceKind) (includeFiltered : Bool)

/-- A reference passes the kind filter and is not a built-in name. -/
def admitsReference (file : IndexedFile) (reference : ReferenceRecord) : Bool :=
  (match kindFilter with
    | some kind => reference.kind == kind
    | none => true) &&
  (includeFiltered || !isFilteredName reference.name file.language)

/-- `query::collect_refs_for_key`. -/
def collectRefsForKey (lookupKey : String) : List (String × ReferenceRecord) :=
  ((index.reverseIndex.lookup lookupKey).getD []).filterMap fun location =>
    match index.files.lookup location.filePath with
    | none => none
    | some file =>
      match file.references[location.referenceIdx]? with
      | none => none
      | some reference =>
        if admitsReference kindFilter includeFiltered file reference then
          some (location.filePath, reference)
        else none

variable (name : String)

/-- The aliases of `name`, in every file that declares one. -/
def aliasesOf : List String :=
  index.files.flatMap fun entry =>
    (entry.2.aliasMap.filter fun binding => binding.2 == name).map Prod.fst

/-- The references whose qualified name hangs on `name`, unless they were found already. -/
def headMatches (found : List (String × ReferenceRecord)) :
    List (String × ReferenceRecord) :=
  index.files.flatMap fun entry =>
    (entry.2.references.filter fun reference =>
      reference.kind != .implements &&
      (reference.qualifiedName.bind headSegment == some (utf8 name)) &&
      reference.name != name &&
      admitsReference kindFilter includeFiltered entry.2 reference &&
      !(found.any fun other => other.1 == entry.1 && other.2.byteRange == reference.byteRange)).map
        fun reference => (entry.1, reference)

/-- `query::find_references_for_name`. -/
def findReferencesForName : List (String × ReferenceRecord) :=
  if isQualifiedName name then
    index.files.flatMap fun entry =>
      (entry.2.references.filter fun reference =>
        reference.qualifiedName == some name &&
        admitsReference kindFilter includeFiltered entry.2 reference).map
          fun reference => (entry.1, reference)
  else
    let found := index.collectRefsForKey kindFilter includeFiltered name ++
      (index.aliasesOf name).flatMap (index.collectRefsForKey kindFilter includeFiltered)
    found ++ index.headMatches kindFilter includeFiltered name found

end LiveIndex

end Symforge
