import Symforge.Text
/-!
# Symbols and languages

The records of `domain/index.rs` that the index holds and the edits read.
-/

namespace Symforge

/-- `domain::index::SymbolKind` (`klass` is its `Class`). -/
inductive SymbolKind where
  | function | method | klass | struct | enum | interface | module | constant | variable | type
  | trait | impl | other | key | section | macroGenerated
  deriving DecidableEq, Repr

/-- `domain::index::LanguageId`. -/
inductive LanguageId where
  | rust | python | javaScript | typeScript | go | java | c | cpp | cSharp | ruby | php | swift
  | kotlin | dart | perl | elixir | json | toml | yaml | markdown | text | env | html | css | scss
  deriving DecidableEq, Repr

/-- `domain::index::SymbolRecord`, with the fields that are read here. -/
structure SymbolRecord where
  name : String
  kind : SymbolKind
  byteRange : Nat × Nat
  lineRange : Nat × Nat
  docByteRange : Option (Nat × Nat)
  deriving DecidableEq, Repr

/-- `domain::index::SymbolRecord::effective_start`. -/
def SymbolRecord.effectiveStart (sym : SymbolRecord) : Nat :=
  match sym.docByteRange with
  | some (start, _) => start
  | none => sym.byteRange.1

/-- `str::to_ascii_lowercase`, over the bytes. -/
def toAsciiLowercase (text : Bytes) : Bytes :=
  text.map fun byte => if 0x41 ≤ byte ∧ byte ≤ 0x5A then byte + 0x20 else byte

/-- The extensions of every language, `domain/index.rs` `LanguageId::from_extension`. -/
def languageExtensions : List (LanguageId × List String) :=
  [(.rust, ["rs"]), (.python, ["py"]), (.javaScript, ["js", "jsx", "cjs", "mjs"]),
    (.typeScript, ["ts", "tsx"]), (.go, ["go"]), (.java, ["java"]), (.c, ["c", "h"]),
    (.cpp, ["cpp", "cxx", "cc", "hpp", "hxx", "hh"]), (.cSharp, ["cs"]), (.ruby, ["rb"]),
    (.php, ["php"]), (.swift, ["swift"]), (.dart, ["dart"]), (.kotlin, ["kt", "kts"]),
    (.perl, ["pl", "pm"]), (.elixir, ["ex", "exs"]), (.json, ["json"]), (.toml, ["toml"]),
    (.yaml, ["yaml", "yml"]), (.markdown, ["md", "mdx"]),
    (.text, ["txt", "text", "rst", "adoc", "asciidoc", "org", "ini", "conf", "properties", "xml",
      "json5"]),
    (.env, ["env"]), (.html, ["html"]), (.css, ["css"]), (.scss, ["scss"])]

/-- The language of a file extension. -/
def LanguageId.fromExtension (extension : Bytes) : Option LanguageId :=
  (languageExtensions.find? fun entry =>
    entry.2.any fun known => utf8 known == toAsciiLowercase extension).map Prod.fst

/-- `LanguageId::from_path`. -/
def LanguageId.fromPath (relativePath : Bytes) : Option LanguageId :=
  let segments := splitAtBytes (fun byte => byte == 0x2F || byte == 0x5C) relativePath
  let basename := toAsciiLowercase (segments.getLastD relativePath)
  if basename = utf8 ".env" ∨ startsWith basename ".env." then some .env
  else if ["readme", "changelog", "license", "notice", "agents", "claude", "contributing",
      "security", "governance", ".gitignore", ".gitattributes", ".editorconfig"].any
      fun name => utf8 name == basename then some .text
  else (rfind basename [0x2E]).bind fun dot => LanguageId.fromExtension (basename.drop (dot + 1))

/-- `config_extractors::is_config_language`. -/
def isConfigLanguage (language : LanguageId) : Bool :=
  match language with
  | .json | .toml | .yaml | .markdown | .env => true
  | _ => false

/-- `LanguageId::is_code_language`. -/
def isCodeLanguage : LanguageId → Bool
  | .json | .toml | .yaml | .markdown | .text | .env | .html | .css | .scss => false
  | _ => true

end Symforge
