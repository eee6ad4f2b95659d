import GigMcp.Data.Url
import GigMcp.Netguard.Guard

/-!
# The check of OAuth endpoints

`validateExternalHTTPSURL` (`api/urlvalidate.go`), the check of the URLs of an auth config when it
is stored, against the guard that the dialers ask when they connect.  The two are written
separately, and the check of the URL does not know the shared address space `100.64.0.0/10`.
-/

namespace GigMcp.Api

open GigMcp.Data GigMcp.Netguard

/-- A text with the case of its letters removed.  Beyond ASCII only the long s is the other case
of a letter that `localhost` has. -/
def foldCase : Bytes → Bytes
  | [] => []
  | [c] => Url.lower [c]
  | c :: d :: s =>
      if c = 0xc5 ∧ d = 0xbf then 's'.toUInt8 :: foldCase s
      else Url.lower [c] ++ foldCase (d :: s)

/-- `strings.EqualFold(host, "localhost")`. -/
def isLocalhost (host : Bytes) : Bool := foldCase host = bytesOf "localhost"

/-- The ranges that the check of a URL refuses. -/
def disallowedIP (ip : IP) : Bool :=
  ip.isLoopback || ip.isPrivate || ip.isLinkLocalUnicast || ip.isLinkLocalMulticast ||
    ip.isUnspecified

/-- `validateExternalHTTPSURL`; `quote` is the notation of `%q`. -/
def validateExternalHTTPSURL (quote : Bytes → String) (raw : String) : Except Err Unit :=
  match Url.parse (bytesOf raw) with
  | .error e => .error (.wrap "not a valid URL" (.new (e.text quote)))
  | .ok u =>
      if u.scheme ≠ bytesOf "https" then
        .error (.new ("scheme must be https, got " ++ quote u.scheme))
      else if u.hostname = [] then .error (.new "URL must have a host")
      else if isLocalhost u.hostname then
        .error (.new ("host " ++ quote u.hostname ++ " is not allowed"))
      else
        match IP.parse u.hostname with
        | none => .ok ()
        | some ip =>
            if disallowedIP ip then
              .error (.new ("host IP " ++ quote u.hostname ++
                " is in a disallowed (private/loopback/link-local) range"))
            else .ok ()

example : validateExternalHTTPSURL textOf "https://oauth2.googleapis.com/token" = .ok () := by
  decide +kernel

/-! ## Literal addresses -/

/-- An `https` URL with a given host. -/
def HasHost (raw : String) (host : Bytes) : Prop :=
  ∃ u, Url.parse (bytesOf raw) = .ok u ∧ u.scheme = bytesOf "https" ∧ u.hostname = host

/-- The name of the local host is no literal, as no literal begins with its first letter. -/
theorem not_isLocalhost {lit : Bytes} {ip : IP} (h : IP.parse lit = some ip) :
    isLocalhost lit = false := by
  have hfirst : ∀ c, Addr.literalByte c = true →
      c ≠ 0xc5 ∧ Url.lower [c] ≠ ['l'.toUInt8] :=
    forall_byte (P := fun c ↦ Addr.literalByte c = true → c ≠ 0xc5 ∧ Url.lower [c] ≠ ['l'.toUInt8])
      (by decide +kernel)
  have hbytes := (IP.parse_spec h).2.1
  refine decide_eq_false fun heq ↦ ?_
  rcases lit with _ | ⟨c, _ | ⟨d, s⟩⟩
  · cases heq
  · cases (congrArg List.length heq : 1 = 9)
  · obtain ⟨hlong, hlower⟩ := hfirst c (hbytes c List.mem_cons_self)
    rw [foldCase, if_neg fun h ↦ hlong h.1] at heq
    exact hlower (congrArg (List.take 1) heq)

theorem validate_literal (quote : Bytes → String) {raw : String} {lit : Bytes} {x ip : IP}
    (hraw : HasHost raw lit) (hlit : IP.parse lit = some ip) (hx : x.to16 = some ip) :
    validateExternalHTTPSURL quote raw = .ok () ↔ disallowedIP x = false := by
  obtain ⟨u, hparse, hscheme, rfl⟩ := hraw
  have hnil : u.hostname ≠ [] := by
    intro hnil
    rw [hnil] at hlit
    cases hlit
  have hform : disallowedIP ip = disallowedIP x := by
    simp only [disallowedIP, IP.isLoopback, IP.isPrivate, IP.isLinkLocalUnicast,
      IP.isLinkLocalMulticast, IP.byForm_of_to16 hx, IP.isUnspecified_of_to16 hx]
  simp only [validateExternalHTTPSURL, hparse, hscheme, hnil, not_isLocalhost hlit, hlit, hform]
  cases disallowedIP x with
  | true => simp
  | false => simp

/-- Every literal is the host of some `https` URL. -/
theorem exists_hasHost {lit : Bytes} {ip : IP} (h : IP.parse lit = some ip) :
    ∃ raw, HasHost raw lit := by
  have hascii : ∀ b ∈ bytesOf "https://" ++ Url.literalHost lit, b < 128 := by
    intro b hb
    rcases List.mem_append.mp hb with hb | hb
    · exact (by decide +kernel : ∀ b ∈ bytesOf "https://", b < 128) b hb
    · exact UInt8.lt_trans (Url.literalHost_bytes h hb).2.1 (by decide)
  refine ⟨textOf (bytesOf "https://" ++ Url.literalHost lit), _, ?_, rfl, Url.hostname_literal h _⟩
  rw [bytesOf_textOf hascii]
  exact Url.parse_literal h

/-- The guard refuses what the check of a URL refuses, and the shared address space. -/
theorem isBlockedIP_eq_false {x ip : IP} (hx : x.to16 = some ip) :
    isBlockedIP x = false ↔ disallowedIP x = false ∧ ¬ InCgnat x := by
  have hnil : x ≠ [] := by
    rintro rfl
    cases hx
  rw [← cgnatNet_contains hx]
  simp [isBlockedIP, disallowedIP, hnil, and_assoc]

/-- The check of a URL with a literal as its host and the guard's check of the address, in
whatever form, come to the same. -/
structure ChecksAgree (quote : Bytes → String) (lit : Bytes) (x : IP) : Prop where
  blocked : ∀ raw, HasHost raw lit →
    (validateExternalHTTPSURL quote raw = .ok () ↔ isBlockedIP x = false)
  broker : ∀ raw address, HasHost raw lit → Dials address x →
    (validateExternalHTTPSURL quote raw = .ok () ↔ brokerDialControl address = .ok ())
  proxy : ∀ raw address, HasHost raw lit → Dials address x →
    (validateExternalHTTPSURL quote raw = .ok () ↔ guardDialControl address = .ok ())

/-- The two checks agree about an address unless it is in the shared address space. -/
theorem checks_agree_iff (quote : Bytes → String) {lit : Bytes} {x ip : IP}
    (hlit : IP.parse lit = some ip) (hx : x.to16 = some ip) :
    ChecksAgree quote lit x ↔ ¬ InCgnat x := by
  have hvalidate {raw : String} (hraw : HasHost raw lit) := validate_literal quote hraw hlit hx
  have hblocked := isBlockedIP_eq_false hx
  constructor
  · intro h hin
    obtain ⟨raw, hraw⟩ := exists_hasHost hlit
    -- In the range nothing else refuses the address, so that the URL is accepted.
    have hother := hin.not_other hx
    have haccept : validateExternalHTTPSURL quote raw = .ok () :=
      (hvalidate hraw).mpr (by simp [disallowedIP, hother])
    exact (hblocked.mp ((h.blocked raw hraw).mp haccept)).2 hin
  · intro hout
    have hsame {raw : String} (hraw : HasHost raw lit) :
        validateExternalHTTPSURL quote raw = .ok () ↔ isBlockedIP x = false := by
      rw [hvalidate hraw, hblocked, and_iff_left hout]
    refine ⟨fun raw hraw ↦ hsame hraw, fun raw address hraw haddress ↦ ?_,
      fun raw address hraw haddress ↦ ?_⟩
    · exact (hsame hraw).trans (guardWith_eq_ok hx haddress _).symm
    · exact (hsame hraw).trans (guardWith_eq_ok hx haddress _).symm

theorem checks_agree_publicDns :
    IP.parse (bytesOf "8.8.8.8") = some (IP.mapped ⟨8, 8, 8, 8⟩) ∧
      IP.to16 [8, 8, 8, 8] = some (IP.mapped ⟨8, 8, 8, 8⟩) ∧
      (ChecksAgree textOf (bytesOf "8.8.8.8") [8, 8, 8, 8] ↔ ¬ InCgnat [8, 8, 8, 8]) :=
  ⟨by decide, rfl, checks_agree_iff textOf (by decide) rfl⟩

/-- The metadata service of a cloud provider: its URL is accepted, and both dialers refuse to
connect to it. -/
theorem checks_disagree_metadata :
    HasHost "https://100.100.100.200/token" (bytesOf "100.100.100.200") ∧
      IP.parse (bytesOf "100.100.100.200") = IP.to16 [100, 100, 100, 200] ∧
      validateExternalHTTPSURL textOf "https://100.100.100.200/token" = .ok () ∧
      isBlockedIP [100, 100, 100, 200] = true ∧
      brokerDialControl "100.100.100.200:443" =
        .error (.new "ssrf guard: refusing connection to 100.100.100.200:443") ∧
      guardDialControl "100.100.100.200:443" =
        .error (.new "egress ssrf guard: refusing connection to 100.100.100.200:443") := by
  refine ⟨⟨⟨bytesOf "https", bytesOf "100.100.100.200"⟩, ?_, rfl, ?_⟩, ?_⟩
  · decide +kernel
  · decide +kernel
  · decide +kernel

end GigMcp.Api
