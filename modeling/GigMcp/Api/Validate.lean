import GigMcp.Auth.Session

/-!
# Input validation of the control plane

The regular expressions and length rules the handlers check before they touch
the store, with the texts they report.
-/

namespace GigMcp.Api

open GigMcp.Data GigMcp.Http

/-- `[a-z0-9]`. -/
def alnum (c : Char) : Bool := c.isLower || c.isDigit

/-- A first character in `[a-z0-9]` followed by between `lo` and `hi` characters
that satisfy `p`. -/
def matchesName (p : Char → Bool) (lo hi : Nat) (s : String) : Bool :=
  match s.toList with
  | [] => false
  | c :: cs => alnum c && cs.all p && lo ≤ cs.length && cs.length ≤ hi

/-- `^[a-z0-9][a-z0-9_-]{0,63}$`, the rule of server and vendor names. -/
def serverNameRe (s : String) : Bool :=
  matchesName (fun c ↦ alnum c || c = '_' || c = '-') 0 63 s

def vendorRe (s : String) : Bool := serverNameRe s

def connVendorRe (s : String) : Bool := serverNameRe s

def connServerRe (s : String) : Bool := serverNameRe s

/-- `^[a-z0-9][a-z0-9-]{1,62}$`. -/
def slugRe (s : String) : Bool := matchesName (fun c ↦ alnum c || c = '-') 1 62 s

/-- `^[A-Za-z0-9-]+$`. -/
def injectHeaderRe (s : String) : Bool :=
  s ≠ "" && s.toList.all fun c ↦ c.isLower || c.isUpper || c.isDigit || c = '-'

/-- One label of a hostname: `[a-z0-9]([a-z0-9-]*[a-z0-9])?`. -/
def hostLabel (cs : List Char) : Bool :=
  cs.all (fun c ↦ alnum c || c = '-') && cs.head?.any alnum && cs.getLast?.any alnum

/-- An optional `*.` followed by labels separated by dots. -/
def allowedHostRe (s : String) : Bool :=
  match s.toList with
  | '*' :: '.' :: cs => (cs.splitOn '.').all hostLabel
  | cs => (cs.splitOn '.').all hostLabel

def validateServerName (name : String) : Option String :=
  if serverNameRe name then none
  else some "server name must match ^[a-z0-9][a-z0-9_-]\x7b0,63\x7d$"

/-- The complaint about one entry of `allowed_hosts`. -/
def allowedHostError (i : Nat) (h : String) : Option String :=
  let entry := "allowed_hosts[" ++ i.repr ++ "]"
  if h = "" then some (entry ++ " must not be empty")
  else if h.length > 253 then some (entry ++ " must be at most 253 characters")
  else if h.toList.any fun c ↦ c = ' ' || c = '\t' || c = '\n' || c = '\r' then
    some (entry ++ " must not contain whitespace or newlines")
  else if !allowedHostRe h then
    some (entry ++ " must be a valid hostname, optionally prefixed with \"*.\"")
  else none

/-- The field and the complaint, when a transitional field is invalid. -/
def validateCredentialBody (b : CredentialPutBody) : Option (String × String) :=
  if b.injectHeader ≠ "" ∧ b.injectHeader.length > 64 then
    some ("inject_header", "inject_header must be at most 64 characters")
  else if b.injectHeader ≠ "" ∧ ¬ injectHeaderRe b.injectHeader then
    some ("inject_header", "inject_header must match ^[A-Za-z0-9-]+$")
  else if b.allowedHosts.length > 64 then
    some ("allowed_hosts", "allowed_hosts must have at most 64 entries")
  else
    match (b.allowedHosts.zipIdx.findSome? fun (h, i) ↦ allowedHostError i h) with
    | some msg => some ("allowed_hosts", msg)
    | none =>
        if b.injectFormat ≠ "" ∧ b.injectFormat.length > 256 then
          some ("inject_format", "inject_format must be at most 256 characters")
        else if b.injectFormat ≠ "" ∧ ¬ hasInfix "\x7btoken\x7d" b.injectFormat then
          some ("inject_format", "inject_format must contain \x7btoken\x7d")
        else if b.placeholder ≠ "" ∧ b.placeholder.length < 8 then
          some ("placeholder", "placeholder must be at least 8 characters")
        else if b.placeholder.length > 256 then
          some ("placeholder", "placeholder must be at most 256 characters")
        else none

/-- `strings.TrimSpace`. -/
def trimSpace (s : String) : String := trimWhere Auth.isSpace s

/-- A trimmed profile name of 1 to 128 bytes. -/
def validName (name : String) : Bool := name ≠ "" && name.utf8ByteSize ≤ 128

end GigMcp.Api
