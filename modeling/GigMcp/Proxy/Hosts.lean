import GigMcp.Data.Text

/-!
# Host names and allowlists

`hostname` and `HostAllowed` (`proxy/proxy.go`).  Hosts and entries are ASCII, as
`net/http` requires of a request's host, so `strings.ToLower` and
`strings.EqualFold` are given by the case of ASCII letters.
-/

namespace GigMcp.Proxy

/-- The host of `net.SplitHostPort`, or `none` where it returns an error. -/
def splitHost : List Char → Option (List Char)
  | '[' :: t =>
      match t.dropWhile (· ≠ ']') with
      | ']' :: ':' :: port =>
          if ':' ∈ port ∨ '[' ∈ t ∨ ']' ∈ port then none else some (t.takeWhile (· ≠ ']'))
      | _ => none
  | s =>
      match s.reverse.dropWhile (· ≠ ':') with
      | ':' :: rhost =>
          if ':' ∈ rhost ∨ '[' ∈ s ∨ ']' ∈ s then none else some rhost.reverse
      | _ => none

/-- A host without its port. -/
def hostname (hostport : String) : String :=
  match splitHost hostport.toList with
  | some h => String.ofList h
  | none => hostport

/-- `strings.ToLower`. -/
def lower (s : List Char) : List Char := s.map Char.toLower

/-- The host is the wildcard's suffix under exactly one more label. -/
def wildcardAllows (host suffix : List Char) : Bool :=
  suffix.isSuffixOf host &&
    let label := host.take (host.length - suffix.length)
    label ≠ [] && !label.contains '.'

/-- One entry of an allowlist admits a host. -/
def entryAllows (host entry : String) : Bool :=
  lower host.toList = lower entry.toList ||
    match entry.toList with
    | '*' :: '.' :: rest => wildcardAllows (lower host.toList) (lower ('.' :: rest))
    | _ => false

def hostAllowed (host : String) (list : List String) : Bool := list.any (entryAllows host)

end GigMcp.Proxy
