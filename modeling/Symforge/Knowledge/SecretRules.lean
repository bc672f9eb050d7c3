import Symforge.Library.Regex
import Symforge.Text

/-!
# The rules of the secret detector

Model of `compile_secret_rules` of `knowledge/mod.rs`: the patterns of the five rules, in the
source's order. The patterns are compiled with Unicode on, so that a class matches a scalar
value and folding the case of `k` and `s` takes in the Kelvin sign and the long s.
-/

namespace Symforge.Knowledge

open Library.Regex

/-- The ids of the rules. -/
inductive RuleId where
  | privateKeyEnvelope | authorizationHeader | providerToken | contextAssignment | uriCredentials
  deriving DecidableEq, Repr

/-- The id as the source spells it. -/
def RuleId.text : RuleId → String
  | .privateKeyEnvelope => "secret.private-key-envelope"
  | .authorizationHeader => "secret.authorization-header"
  | .providerToken => "secret.provider-token"
  | .contextAssignment => "secret.context-assignment"
  | .uriCredentials => "secret.uri-credentials"

variable (code : Nat)

/-- `char::is_whitespace`, which is `\s` of a pattern. -/
def isWhitespaceScalar : Bool :=
  (9 ≤ code && code ≤ 13) || code == 0x20 || code == 0x85 || code == 0xA0 || code == 0x1680 ||
    (0x2000 ≤ code && code ≤ 0x200A) || code == 0x2028 || code == 0x2029 || code == 0x202F ||
    code == 0x205F || code == 0x3000

/-! ### Pieces of patterns -/

/-- One of the characters of a class. -/
def oneOf (members : String) : Pattern :=
  .scalar fun code => members.toList.any fun member => member.toNat == code

/-- `[A-Za-z]`. -/
def isAsciiLetter : Bool := (0x41 ≤ code && code ≤ 0x5A) || (0x61 ≤ code && code ≤ 0x7A)

/-- `[0-9]`. -/
def isAsciiDigitScalar : Bool := 0x30 ≤ code && code ≤ 0x39

/-- `[A-Za-z0-9]`. -/
def alphanumeric : Bool := isAsciiLetter code || isAsciiDigitScalar code

/-- A text, letter by letter. -/
def literal (text : String) : Pattern :=
  text.toList.foldr (fun letter rest => .sequence (.scalar (· == letter.toNat)) rest) .empty

/-- A lowercase letter or another character under `(?i)`. -/
def foldsTo (letter : Char) (code : Nat) : Bool :=
  code == letter.toNat || (isAsciiLetter code && code + 0x20 == letter.toNat) ||
    (letter == 'k' && code == 0x212A) || (letter == 's' && code == 0x17F)

/-- A text under `(?i)`. -/
def caseless (text : String) : Pattern :=
  text.toList.foldr (fun letter rest => .sequence (.scalar (foldsTo letter)) rest) .empty

/-- `(...)?`. -/
def optional (inner : Pattern) : Pattern := .repeated 0 (some 1) inner

/-- `(...|...)`. -/
def anyOf : List Pattern → Pattern
  | [] => .empty
  | [only] => only
  | first :: rest => .either first (anyOf rest)

/-- One pattern behind the other. -/
def inOrder : List Pattern → Pattern
  | [] => .empty
  | [only] => only
  | first :: rest => .sequence first (inOrder rest)

/-- `["']`. -/
def straightQuote : Pattern := oneOf "\"'"

/-- `[ \t]*`. -/
def padding : Pattern := .repeated 0 none (oneOf " \t")

/-- `[^"'\n]`. -/
def insideQuotes : Pattern := .scalar fun code => !(code == 0x22 || code == 0x27 || code == 0x0A)

/-- `[_-]?`. -/
def joint : Pattern := optional (oneOf "_-")

/-! ### The rules -/

/-- `SecretRule`. -/
structure SecretRule where
  id : RuleId
  keywords : List String
  pattern : Pattern
  secretCapture : Nat
  placeholdersAllowed : Bool

/-- `-----BEGIN (?:RSA |EC |OPENSSH |DSA )?PRIVATE KEY-----`. -/
def privateKeyPattern : Pattern :=
  inOrder [literal "-----BEGIN ",
    optional (anyOf [literal "RSA ", literal "EC ", literal "OPENSSH ", literal "DSA "]),
    literal "PRIVATE KEY-----"]

/-- `(?i)authorization[ \t]*[:=][ \t]*(?:bearer|basic)[ \t]+([A-Za-z0-9._~+/=-]{8,})`. -/
def authorizationPattern : Pattern :=
  inOrder [caseless "authorization", padding, oneOf ":=", padding,
    anyOf [caseless "bearer", caseless "basic"], .repeated 1 none (oneOf " \t"),
    .group 1 (.repeated 8 none (.scalar fun code =>
      alphanumeric code || code == 0x212A || code == 0x17F ||
        "._~+/=-".toList.any fun member => member.toNat == code))]

/-- `gh[pousr]_[A-Za-z0-9]{36,}`. -/
def providerTokenPattern : Pattern :=
  inOrder [literal "gh", oneOf "pousr", literal "_", .repeated 36 none (.scalar alphanumeric)]

/-- The credential words of the context-assignment rule. -/
def credentialWord : Pattern :=
  anyOf [inOrder [caseless "api", joint, caseless "key"],
    inOrder [caseless "access", joint, caseless "key"],
    inOrder [caseless "private", joint, caseless "key"],
    inOrder [caseless "secret", optional (inOrder [joint, caseless "access", joint,
      caseless "key"])],
    caseless "token", caseless "password", caseless "passwd", caseless "pwd",
    inOrder [caseless "client", joint, caseless "secret"]]

/-- `["']([^"'\n]{8,})["']`, the value as group `index`. -/
def quotedValue (index : Nat) : Pattern :=
  inOrder [straightQuote, .group index (.repeated 8 none insideQuotes), straightQuote]

/-- The pattern of the context-assignment rule. -/
def contextAssignmentPattern : Pattern :=
  inOrder [optional straightQuote, credentialWord, optional straightQuote, padding, oneOf ":=",
    padding, optional (inOrder [oneOf "[", padding]),
    anyOf [
      inOrder [.repeated 1 none (inOrder [straightQuote, .repeated 0 (some 7) insideQuotes,
        straightQuote, padding, oneOf ",", padding]), quotedValue 1],
      quotedValue 2,
      .group 3 (.repeated 8 none (.scalar fun code =>
        !(isWhitespaceScalar code || code == 0x22 || code == 0x27 || code == 0x23)))]]

/-- `://[^/\s:@]+:([^@\s/]{4,})@`. -/
def uriCredentialsPattern : Pattern :=
  inOrder [literal "://",
    .repeated 1 none (.scalar fun code =>
      !(isWhitespaceScalar code || code == 0x2F || code == 0x3A || code == 0x40)),
    literal ":",
    .group 1 (.repeated 4 none (.scalar fun code =>
      !(isWhitespaceScalar code || code == 0x40 || code == 0x2F))),
    literal "@"]

/-- The rule for assignments to names of credentials. -/
def contextAssignmentRule : SecretRule where
  id := .contextAssignment
  keywords := ["key", "secret", "token", "password", "passwd", "pwd"]
  pattern := contextAssignmentPattern
  secretCapture := 3
  placeholdersAllowed := true

/-- `compile_secret_rules`. -/
def secretRules : List SecretRule :=
  [⟨.privateKeyEnvelope, ["PRIVATE KEY"], privateKeyPattern, 0, false⟩,
    ⟨.authorizationHeader, ["authorization"], authorizationPattern, 1, false⟩,
    ⟨.providerToken, ["gh"], providerTokenPattern, 0, false⟩,
    contextAssignmentRule,
    ⟨.uriCredentials, ["://"], uriCredentialsPattern, 1, false⟩]

/-- The capture of a rule that holds the secret: the first group that took part. -/
def SecretRule.secretRange (rule : SecretRule) (captures : Captures) : Option (Nat × Nat) :=
  if rule.secretCapture = 0 then captures.get 0
  else (List.range' 1 rule.secretCapture).findSome? captures.get

end Symforge.Knowledge
