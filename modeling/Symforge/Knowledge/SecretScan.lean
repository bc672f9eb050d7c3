import Mathlib.Data.List.ReduceOption
import Symforge.Knowledge.SecretExemptions

/-!
# The scan of a file for secrets

Model of `scan_secret_spans` of `knowledge/mod.rs`, over the list of all findings. Line numbers
and counts are natural numbers: a file above 4 MiB is not scanned.
-/

namespace Symforge.Knowledge

open Library.Regex

/-- `DetectorFailure`. -/
inductive DetectorFailure where
  | policyCompilation | resourceLimit | internal
  deriving DecidableEq, Repr

/-- `SECRET_SCAN_MAX_BYTES`. -/
def secretScanMaxBytes : Nat := 4 * 1024 * 1024

/-- `exceeds_scan_limit`. -/
def exceedsScanLimit (length : Nat) : Bool := decide (secretScanMaxBytes < length)

/-- `FINDING_LINE_RANGES_KEPT`. -/
def findingLineRangesKept : Nat := 11

/-- `contains_ascii_case_insensitive`. -/
def containsAsciiCaseInsensitive (haystack needle : Bytes) : Bool :=
  !needle.isEmpty && (windowPosition (toAsciiLowercase needle) (toAsciiLowercase haystack)).isSome

/-- `SecretMatchSpan`: a finding with the range of the captured value. -/
structure SecretMatchSpan where
  rule : RuleId
  lineStart : Nat
  lineEnd : Nat
  shape : String
  valueStart : Nat
  valueEnd : Nat
  deriving DecidableEq, Repr

/-- `describe_secret_shape`. -/
def describeSecretShape (value : Bytes) (rule : RuleId) : String :=
  let hasDigit := value.any fun byte => isAsciiDigitScalar byte.toNat
  let hasUpper := value.any fun byte => decide (0x41 ≤ byte.toNat ∧ byte.toNat ≤ 0x5A)
  let hasLower := value.any fun byte => decide (0x61 ≤ byte.toNat ∧ byte.toNat ≤ 0x7A)
  let hasSymbol := value.any fun byte => !alphanumeric byte.toNat
  let charset := match hasUpper, hasLower, hasDigit, hasSymbol with
    | _, _, true, true => "mixed alnum+symbol"
    | true, true, true, false => "mixed alnum"
    | _, _, true, false => "alnum with digits"
    | _, _, false, true => "alpha+symbol"
    | true, true, false, false => "alpha mixed case"
    | false, true, false, false => "lowercase alpha"
    | true, false, false, false => "uppercase alpha"
    | false, false, false, false => "opaque bytes"
  toString value.length ++ "-char " ++ charset ++ " (" ++ rule.text ++ ")"

/-- The 1-based line of an offset. -/
def lineOf (bytes : Bytes) (offset : Nat) : Nat := (bytes.take offset).count 0x0A + 1

variable (tables : CharTables) (path bytes : Bytes)

/-- One match of a rule: the finding it is, if no exemption applies. -/
def findingOf (rule : SecretRule)
    (captures : Captures) : Except DetectorFailure (Option SecretMatchSpan) :=
  match rule.secretRange captures with
  | none => .error .internal
  | some secret =>
    let matchStart := contextAssignmentMatchStart rule.id bytes captures.start
    if isExempt tables path bytes rule matchStart secret then .ok none
    else
      let line := lineOf bytes secret.1
      .ok (some {
        rule := rule.id
        lineStart := line
        lineEnd := line
        shape := describeSecretShape (between bytes secret.1 secret.2) rule.id
        valueStart := secret.1
        valueEnd := secret.2 })

/-- The findings of one rule, which is tried only where one of its keywords occurs. -/
def ruleFindings (rule : SecretRule) : Except DetectorFailure (List SecretMatchSpan) :=
  if rule.keywords.any fun keyword => containsAsciiCaseInsensitive bytes (utf8 keyword) then
    ((rule.pattern.capturesIter bytes).mapM (findingOf tables path bytes rule)).map
      List.reduceOption
  else .ok []

/-- All findings of a file, rule by rule. -/
def secretFindings : Except DetectorFailure (List SecretMatchSpan) :=
  if exceedsScanLimit bytes.length then .error .resourceLimit
  else (secretRules.mapM (ruleFindings tables path bytes)).map List.flatten

/-- `scan_secret_spans`, which keeps the first eleven findings. -/
def scanSecretSpans : Except DetectorFailure (List SecretMatchSpan) :=
  (secretFindings tables path bytes).map (·.take findingLineRangesKept)

end Symforge.Knowledge
