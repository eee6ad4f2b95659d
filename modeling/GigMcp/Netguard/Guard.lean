import GigMcp.Data.Address
import GigMcp.Proxy.Hosts
import GigMcp.Store.Schema

/-!
# The guard at connection time

`IsBlockedIP` (`netguard/netguard.go`) and the two dialers that ask it about the address they are
about to connect to: the OAuth broker's (`newGuardedHTTPClient`, `auth/oauthbroker.go`) and the
egress proxy's (`guardDialControl`, `proxy/proxy.go`).
-/

namespace GigMcp.Netguard

open GigMcp.Data

/-- `100.64.0.0/10`. -/
def cgnatNet : IP.Net := ⟨[100, 64, 0, 0], [255, 192, 0, 0]⟩

def isBlockedIP (ip : IP) : Bool :=
  ip = [] || ip.isLoopback || ip.isPrivate || ip.isLinkLocalUnicast || ip.isLinkLocalMulticast ||
    ip.isUnspecified || cgnatNet.contains ip

/-! ## The dialers -/

/-- Why `net.SplitHostPort` refuses an address. -/
def splitFailure (s : List Char) : String :=
  if ':' ∉ s then "missing port in address"
  else
    match s with
    | '[' :: t =>
        if ']' ∉ t then "missing ']' in address"
        else
          match (t.dropWhile (· ≠ ']')).tail with
          | ':' :: port =>
              if ':' ∈ port then "too many colons in address"
              else if '[' ∈ t then "unexpected '[' in address"
              else "unexpected ']' in address"
          | _ => "missing port in address"
    | s =>
        if 1 < s.count ':' then "too many colons in address"
        else if '[' ∈ s then "unexpected '[' in address"
        else "unexpected ']' in address"

/-- The host of `net.SplitHostPort`. -/
def splitHostPort (address : String) : Except Err String :=
  match Proxy.splitHost address.toList with
  | some host => .ok (String.ofList host)
  | none => .error (.new ("address " ++ address ++ ": " ++ splitFailure address.toList))

/-- The check of a dialer before it connects to an address. -/
def guardWith (refusal address : String) : Except Err Unit :=
  match splitHostPort address with
  | .error e => .error e
  | .ok host =>
      if isBlockedIP ((IP.parse (bytesOf host)).getD []) then .error (.new (refusal ++ address))
      else .ok ()

/-- The callback in `newGuardedHTTPClient`. -/
def brokerDialControl (address : String) : Except Err Unit :=
  guardWith "ssrf guard: refusing connection to " address

def guardDialControl (address : String) : Except Err Unit :=
  guardWith "egress ssrf guard: refusing connection to " address

example : guardDialControl "100.100.100.200:443" =
    .error (.new "egress ssrf guard: refusing connection to 100.100.100.200:443") := by
  decide +kernel

example : brokerDialControl "::1:443" =
    .error (.new "address ::1:443: too many colons in address") := by
  decide +kernel

/-! ## Addresses -/

/-- A dialer is about to connect to an address, in whatever form. -/
def Dials (address : String) (x : IP) : Prop :=
  ∃ host, splitHostPort address = .ok host ∧ IP.parse (bytesOf host) = x.to16

/-- The form of an address does not matter. -/
theorem isBlockedIP_of_to16 {x ip : IP} (h : x.to16 = some ip) :
    isBlockedIP ip = isBlockedIP x := by
  have hx : x ≠ [] := by
    rintro rfl
    cases h
  have hip : ip ≠ [] := by
    rintro rfl
    exact absurd (IP.length_of_to16 h) (by decide)
  simp only [isBlockedIP, hx, hip, IP.isLoopback, IP.isPrivate, IP.isLinkLocalUnicast,
    IP.isLinkLocalMulticast, IP.byForm_of_to16 h, IP.isUnspecified_of_to16 h,
    IP.Net.contains_of_to16 h]

/-- Both dialers connect to exactly the addresses that are not blocked. -/
theorem guardWith_eq_ok {x ip : IP} (h : x.to16 = some ip) {address : String}
    (haddress : Dials address x) (refusal : String) :
    guardWith refusal address = .ok () ↔ isBlockedIP x = false := by
  obtain ⟨host, hhost, hip⟩ := haddress
  have hblocked : isBlockedIP ((IP.parse (bytesOf host)).getD []) = isBlockedIP x := by
    rw [hip, h, Option.getD_some, isBlockedIP_of_to16 h]
  simp only [guardWith, hhost, hblocked]
  cases isBlockedIP x with
  | true => simp
  | false => simp

/-- `100.64.0.0` to `100.127.255.255`. -/
def InCgnat (x : IP) : Prop := ∃ q, x.to4 = some q ∧ q.a = 100 ∧ 64 ≤ q.b ∧ q.b ≤ 127

/-- The second byte under the mask of the network. -/
theorem mask_eq_iff : ∀ b : UInt8, 64 &&& 192 = b &&& 192 ↔ 64 ≤ b ∧ b ≤ 127 :=
  forall_byte (by decide +kernel)

theorem cgnatNet_contains {x ip : IP} (h : x.to16 = some ip) :
    cgnatNet.contains x = true ↔ InCgnat x := by
  unfold IP.Net.contains InCgnat
  cases hx : x.to4 with
  | some q =>
      have hfirst : 100 &&& 255 = q.a &&& 255 ↔ q.a = 100 := by
        rw [show q.a &&& 255 = q.a from UInt8.and_neg_one, eq_comm]
        rfl
      simp [cgnatNet, IPv4.bytes, hfirst, mask_eq_iff]
  | none =>
      rw [← IP.eq_of_to4_eq_none h hx]
      simp [cgnatNet, IP.length_of_to16 h]

/-- An address in the range is in none of the other ones. -/
theorem InCgnat.not_other {x ip : IP} (h : x.to16 = some ip) (hx : InCgnat x) :
    x.isLoopback = false ∧ x.isPrivate = false ∧ x.isLinkLocalUnicast = false ∧
      x.isLinkLocalMulticast = false ∧ x.isUnspecified = false := by
  obtain ⟨q, hq, ha, -⟩ := hx
  have hspecified : x.isUnspecified = false := by
    rw [← IP.to4_of_to16 h] at hq
    rw [IP.isUnspecified, IP.equal_of_to16 h rfl, IP.equal_of_to16 h rfl, Bool.or_eq_false_iff,
      decide_eq_false_iff_not, decide_eq_false_iff_not]
    constructor
    · rintro rfl
      cases hq
      exact absurd ha (by decide)
    · rintro rfl
      cases hq
  simp [IP.isLoopback, IP.isPrivate, IP.isLinkLocalUnicast, IP.isLinkLocalMulticast, IP.byForm, hq,
    ha, hspecified]

end GigMcp.Netguard
