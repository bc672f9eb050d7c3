import Symforge.Text

/-!
# Paths of credential containers

Model of `sensitive_path_rule` of `knowledge/mod.rs`. Paths are their bytes. `fold_case` maps
to uppercase and back to lowercase with the tables of Unicode and is a parameter.
-/

namespace Symforge.Knowledge

/-- `basename.ends_with(end)`. -/
def endsWith (text : Bytes) (ending : String) : Bool := (utf8 ending).isSuffixOf text

/-- `is_safe_template_basename`. -/
def isSafeTemplateBasename (basename : Bytes) : Bool :=
  ["example", "sample", "template", "dist"].any fun marker =>
    endsWith basename ("." ++ marker) || startsWith basename (marker ++ ".")

/-- The segments of a path, without empty ones and `.`. -/
def namedSegments (path : Bytes) : List Bytes :=
  (splitAtBytes (fun byte => byte == 0x2F || byte == 0x5C) path).filter fun segment =>
    segment ≠ [] ∧ segment ≠ [0x2E]

/-- `sensitive_path_rule`. -/
def sensitivePathRule (foldCase : Bytes → Bytes) (relativePath : Bytes) : Option String :=
  let normalized := foldCase (List.intercalate [0x2F] (namedSegments relativePath))
  let basename := (splitAtBytes (· == 0x2F) normalized).getLastD normalized
  let is (name : String) : Bool := utf8 name == basename
  if !isSafeTemplateBasename basename &&
      (is ".env" || startsWith basename ".env." || endsWith basename ".env") then
    some "path.environment-credentials"
  else if is ".git-credentials" || is ".netrc" || is "_netrc" then
    some "path.network-credential-store"
  else if endsWith basename ".key" || is "id_rsa" || is "id_dsa" || is "id_ecdsa" ||
      is "id_ed25519" ||
      (endsWith basename ".pem" && (windowPosition (utf8 "private") basename).isSome) then
    some "path.private-key-material"
  else if endsWith normalized "/.aws/credentials" || utf8 ".aws/credentials" == normalized ||
      endsWith normalized "/.kube/config" || utf8 ".kube/config" == normalized ||
      endsWith normalized "application_default_credentials.json" then
    some "path.cloud-credential-store"
  else if endsWith basename ".tfstate" || endsWith basename ".tfstate.backup" then
    some "path.infrastructure-state"
  else none

end Symforge.Knowledge
