import GigMcp.Data.Bytes
import Mathlib.Data.List.TakeWhile

/-!
# Internet addresses

An address is a slice of four or of sixteen bytes, and an IPv4 address may be in either form
(`IP.mapped`).  What kind of address it is does not depend on its form (`IP.byForm_of_to16`).

The literals are those of the `net/netip` package of Go: four decimal fields without leading
zeros, or eight groups of hexadecimal digits, of which a run of zeros may be left out, the last
two may be in the IPv4 notation, and a zone may follow.  `IP.parse` reads the ones without a zone.
-/

namespace GigMcp.Data

/-- The bytes of an IPv4 address. -/
structure IPv4 where
  a : UInt8
  b : UInt8
  c : UInt8
  d : UInt8
deriving DecidableEq

def IPv4.bytes (q : IPv4) : Bytes := [q.a, q.b, q.c, q.d]

/-- An address: four or sixteen bytes, or none when there is no address. -/
abbrev IP := Bytes

namespace IP

/-! ## Forms -/

/-- What an IPv4 address in sixteen bytes begins with. -/
def v4InV6Prefix : Bytes := [0, 0, 0, 0, 0, 0, 0, 0, 0, 0, 0xff, 0xff]

/-- An IPv4 address in sixteen bytes. -/
def mapped (q : IPv4) : IP := v4InV6Prefix ++ q.bytes

/-- The IPv4 address in either form. -/
def to4 (ip : IP) : Option IPv4 :=
  match ip with
  | [a, b, c, d] => some ⟨a, b, c, d⟩
  | ip =>
      match ip.drop 12 with
      | [a, b, c, d] => if ip.take 12 = v4InV6Prefix then some ⟨a, b, c, d⟩ else none
      | _ => none

/-- The form of sixteen bytes. -/
def to16 (ip : IP) : Option IP :=
  match ip with
  | [a, b, c, d] => some (mapped ⟨a, b, c, d⟩)
  | ip => if ip.length = 16 then some ip else none

/-- The same address, whatever the forms. -/
def equal (ip x : IP) : Bool :=
  if ip.length = x.length then ip = x
  else if ip.length = 4 ∧ x.length = 16 then x.take 12 = v4InV6Prefix ∧ ip = x.drop 12
  else if ip.length = 16 ∧ x.length = 4 then ip.take 12 = v4InV6Prefix ∧ ip.drop 12 = x
  else false

/-- Sixteen bytes are the address itself or one of four bytes. -/
theorem to16_eq_some {x ip : IP} :
    x.to16 = some ip ↔ (∃ q : IPv4, x = q.bytes ∧ ip = mapped q) ∨ (x.length = 16 ∧ ip = x) := by
  unfold to16
  split
  · rename_i a b c d
    constructor
    · intro h
      cases h
      exact .inl ⟨⟨a, b, c, d⟩, rfl, rfl⟩
    · rintro (⟨q, hq, rfl⟩ | ⟨hlen, -⟩)
      · cases hq
        rfl
      · cases hlen
  · rename_i hne
    constructor
    · intro h
      split at h
      · rename_i hlen
        cases h
        exact .inr ⟨hlen, rfl⟩
      · cases h
    · rintro (⟨q, rfl, -⟩ | ⟨hlen, rfl⟩)
      · exact absurd rfl (hne _ _ _ _)
      · rw [if_pos hlen]

theorem length_of_to16 {x ip : IP} (h : x.to16 = some ip) : ip.length = 16 := by
  rcases to16_eq_some.mp h with ⟨q, -, rfl⟩ | ⟨hlen, rfl⟩
  · rfl
  · exact hlen

theorem to4_of_to16 {x ip : IP} (h : x.to16 = some ip) : ip.to4 = x.to4 := by
  rcases to16_eq_some.mp h with ⟨q, rfl, rfl⟩ | ⟨-, rfl⟩
  · rfl
  · rfl

/-- An address that is no IPv4 address has one form only. -/
theorem eq_of_to4_eq_none {x ip : IP} (h : x.to16 = some ip) (hnone : x.to4 = none) : ip = x := by
  rcases to16_eq_some.mp h with ⟨q, rfl, rfl⟩ | ⟨-, rfl⟩
  · cases hnone
  · rfl

theorem equal_of_to16 {x ip : IP} (h : x.to16 = some ip) {y : IP} (hy : y.length = 16) :
    x.equal y = decide (ip = y) := by
  rcases to16_eq_some.mp h with ⟨q, rfl, rfl⟩ | ⟨hlen, rfl⟩
  · rw [equal, if_neg (hy ▸ (by decide : (4 : Nat) ≠ 16)), if_pos ⟨rfl, hy⟩]
    refine decide_eq_decide.mpr ⟨?_, ?_⟩
    · rintro ⟨htake, hdrop⟩
      rw [mapped, ← htake, hdrop, List.take_append_drop]
    · rintro rfl
      exact ⟨rfl, rfl⟩
  · rw [equal, if_pos (hlen.trans hy.symm)]

/-! ## Kinds -/

/-- `0.0.0.0`, in sixteen bytes. -/
def v4Zero : IP := mapped ⟨0, 0, 0, 0⟩

def v6Unspecified : IP := List.replicate 16 0

def v6Loopback : IP := List.replicate 15 0 ++ [1]

def isUnspecified (ip : IP) : Bool := ip.equal v4Zero || ip.equal v6Unspecified

/-- A property of the IPv4 address, if it is one, and of the sixteen bytes otherwise. -/
def byForm (v4 : IPv4 → Bool) (v6 : IP → Bool) (ip : IP) : Bool :=
  match ip.to4 with
  | some q => v4 q
  | none => v6 ip

/-- The first two bytes of sixteen satisfy a condition. -/
def leading (p : UInt8 → UInt8 → Bool) : IP → Bool
  | b₀ :: b₁ :: rest => rest.length = 14 && p b₀ b₁
  | _ => false

def isLoopback (ip : IP) : Bool := byForm (fun q ↦ q.a = 127) (·.equal v6Loopback) ip

/-- The networks of RFC 1918 and RFC 4193. -/
def isPrivate (ip : IP) : Bool :=
  byForm (fun q ↦ q.a = 10 || (q.a = 172 && q.b &&& 0xf0 = 16) || (q.a = 192 && q.b = 168))
    (leading fun b₀ _ ↦ b₀ &&& 0xfe = 0xfc) ip

def isLinkLocalMulticast (ip : IP) : Bool :=
  byForm (fun q ↦ q.a = 224 && q.b = 0 && q.c = 0)
    (leading fun b₀ b₁ ↦ b₀ = 0xff && b₁ &&& 0x0f = 0x02) ip

def isLinkLocalUnicast (ip : IP) : Bool :=
  byForm (fun q ↦ q.a = 169 && q.b = 254)
    (leading fun b₀ b₁ ↦ b₀ = 0xfe && b₁ &&& 0xc0 = 0x80) ip

/-- A network, by its number and its mask. -/
structure Net where
  number : Bytes
  mask : Bytes

/-- The network has an address, which is compared in its shortest form. -/
def Net.contains (n : Net) (ip : IP) : Bool :=
  let x := (ip.to4.map IPv4.bytes).getD ip
  x.length = n.number.length &&
    List.zipWith (· &&& ·) n.number n.mask = List.zipWith (· &&& ·) x n.mask

section Forms

variable {x ip : IP} (h : x.to16 = some ip)
include h

theorem isUnspecified_of_to16 : ip.isUnspecified = x.isUnspecified := by
  have hip : ip.to16 = some ip := to16_eq_some.mpr (.inr ⟨length_of_to16 h, rfl⟩)
  rw [isUnspecified, isUnspecified, equal_of_to16 h rfl, equal_of_to16 h rfl,
    equal_of_to16 hip rfl, equal_of_to16 hip rfl]

/-- What kind of address it is does not depend on its form. -/
theorem byForm_of_to16 (v4 : IPv4 → Bool) (v6 : IP → Bool) :
    byForm v4 v6 ip = byForm v4 v6 x := by
  unfold byForm
  rw [to4_of_to16 h]
  split
  · rfl
  · rename_i hnone
    rw [eq_of_to4_eq_none h hnone]

theorem Net.contains_of_to16 (n : Net) : n.contains ip = n.contains x := by
  unfold Net.contains
  rw [to4_of_to16 h]
  cases hx : x.to4 with
  | some q => rfl
  | none => rw [eq_of_to4_eq_none h hx]

end Forms

end IP

/-! ## Literals -/

def isDigit (c : UInt8) : Bool := '0'.toUInt8 ≤ c && c ≤ '9'.toUInt8

/-- The value of a hexadecimal digit. -/
def hexValue (c : UInt8) : Option Nat :=
  if '0'.toUInt8 ≤ c ∧ c ≤ '9'.toUInt8 then some (c.toNat - '0'.toNat)
  else if 'a'.toUInt8 ≤ c ∧ c ≤ 'f'.toUInt8 then some (c.toNat - 'a'.toNat + 10)
  else if 'A'.toUInt8 ≤ c ∧ c ≤ 'F'.toUInt8 then some (c.toNat - 'A'.toNat + 10)
  else none

def isHex (c : UInt8) : Bool := (hexValue c).isSome

/-- An address that a literal denotes. -/
inductive Addr
  | v4 (bytes : Bytes)
  | v6 (bytes zone : Bytes)
deriving DecidableEq

namespace Addr

/-- The loop of `parseIPv4Fields`: the fields that are complete, and the value and the number of
digits of the one that is read. -/
def parseFields (fields : Bytes) (val len : Nat) : Bytes → Option Bytes
  | [] => if fields.length < 3 then none else some (fields ++ [UInt8.ofNat val])
  | c :: s =>
      if isDigit c then
        if len = 1 ∧ val = 0 then none
        else
          let val := val * 10 + (c.toNat - '0'.toNat)
          if 255 < val then none else parseFields fields val (len + 1) s
      else if c = '.'.toUInt8 then
        if len = 0 ∨ s = [] then none
        else if fields.length = 3 then none
        else parseFields (fields ++ [UInt8.ofNat val]) 0 0 s
      else none

def parseIPv4 (s : Bytes) : Option Addr := (parseFields [] 0 0 s).map v4

/-- The two bytes of a group. -/
def groupBytes (digits : Bytes) : Bytes :=
  let acc := digits.foldl (fun acc c ↦ acc * 16 + (hexValue c).getD 0) 0
  [UInt8.ofNat (acc / 256), UInt8.ofNat acc]

/-- The loop of `parseIPv6` with room for `groups` more groups: the bytes that are read, the
position of the ellipsis, and what is left of the text, all three at the end of the loop. -/
def parseGroups : (groups : Nat) → (bytes : Bytes) → (ellipsis : Option Nat) → (s : Bytes) →
    Option (Bytes × Option Nat × Bytes)
  | 0, bytes, ellipsis, s => some (bytes, ellipsis, s)
  | groups + 1, bytes, ellipsis, s =>
      let digits := s.takeWhile isHex
      let rest := s.dropWhile isHex
      if digits = [] ∨ 4 < digits.length then none
      else if rest.head? = some '.'.toUInt8 then
        -- the last two groups in the IPv4 notation
        if ellipsis = none ∧ bytes.length ≠ 12 then none
        else if 16 < bytes.length + 4 then none
        else (parseFields [] 0 0 s).map fun q ↦ (bytes ++ q, ellipsis, [])
      else
        let bytes := bytes ++ groupBytes digits
        match rest with
        | [] => some (bytes, ellipsis, [])
        | [_] => none
        | c :: d :: s =>
            if c ≠ ':'.toUInt8 then none
            else if d = ':'.toUInt8 then
              if ellipsis.isSome then none
              else if s = [] then some (bytes, some bytes.length, [])
              else parseGroups groups bytes (some bytes.length) s
            else parseGroups groups bytes ellipsis (d :: s)

/-- The end of `parseIPv6`: zeros take the place of the ellipsis. -/
def expand : Bytes × Option Nat × Bytes → Option Bytes
  | (bytes, ellipsis, s) =>
      if s ≠ [] then none
      else if bytes.length < 16 then
        ellipsis.map fun e ↦ bytes.take e ++ List.replicate (16 - bytes.length) 0 ++ bytes.drop e
      else if ellipsis.isSome then none
      else some bytes

def parseIPv6 (text : Bytes) : Option Addr :=
  let s := text.takeWhile (· ≠ '%'.toUInt8)
  let zone := (text.dropWhile (· ≠ '%'.toUInt8)).drop 1
  if '%'.toUInt8 ∈ text ∧ zone = [] then none
  else if s.take 2 = [':'.toUInt8, ':'.toUInt8] then
    if s.drop 2 = [] then some (v6 IP.v6Unspecified zone)
    else ((parseGroups 8 [] (some 0) (s.drop 2)).bind expand).map (v6 · zone)
  else ((parseGroups 8 [] none s).bind expand).map (v6 · zone)

/-- `netip.ParseAddr`: the first dot or colon says which kind of literal it is. -/
def parse (s : Bytes) : Option Addr :=
  match s.find? fun c ↦ c = '.'.toUInt8 ∨ c = ':'.toUInt8 ∨ c = '%'.toUInt8 with
  | none => none
  | some c =>
      if c = '.'.toUInt8 then parseIPv4 s
      else if c = ':'.toUInt8 then parseIPv6 s
      else none

end Addr

/-- `net.ParseIP`. -/
def IP.parse (s : Bytes) : Option IP :=
  match Addr.parse s with
  | some (.v4 bytes) => some (v4InV6Prefix ++ bytes)
  | some (.v6 bytes zone) => if zone = [] then some bytes else none
  | none => none

example : IP.parse (bytesOf "100.64.0.1") = some (IP.mapped ⟨100, 64, 0, 1⟩) := by decide

example : IP.parse (bytesOf "::ffff:100.64.0.1") = some (IP.mapped ⟨100, 64, 0, 1⟩) := by decide

example : IP.parse (bytesOf "64:FF9b::a:0:1") =
    some [0, 0x64, 0xff, 0x9b, 0, 0, 0, 0, 0, 0, 0, 10, 0, 0, 0, 1] := by decide

example : IP.parse (bytesOf "127.1") = none ∧ IP.parse (bytesOf "0177.0.0.1") = none ∧
    IP.parse (bytesOf "1::2::3") = none ∧ IP.parse (bytesOf "fe80::1%eth0") = none := by decide

/-! ## What a literal is made of -/

namespace Addr

/-- The bytes of literals without a zone. -/
def literalByte (c : UInt8) : Bool := isHex c || c = '.'.toUInt8 || c = ':'.toUInt8

theorem isHex_of_isDigit {c : UInt8} (h : isDigit c = true) : isHex c = true := by
  have hc : '0'.toUInt8 ≤ c ∧ c ≤ '9'.toUInt8 := by simpa [isDigit] using h
  rw [isHex, hexValue, if_pos hc]
  rfl

variable {fields q s : Bytes} {val len : Nat}

theorem parseFields_spec (h : parseFields fields val len s = some q) (hfields : fields.length ≤ 3) :
    q.length = 4 ∧ ∀ c ∈ s, isDigit c = true ∨ c = '.'.toUInt8 := by
  induction s generalizing fields val len with
  | nil =>
      unfold parseFields at h
      split at h
      · cases h
      · cases h
        refine ⟨?_, List.forall_mem_nil _⟩
        rw [List.length_append, List.length_singleton]
        omega
  | cons c s ih =>
      unfold parseFields at h
      split at h
      · rename_i hdigit
        split at h
        · cases h
        · simp only at h
          split at h
          · cases h
          · obtain ⟨hlen, hs⟩ := ih h hfields
            exact ⟨hlen, List.forall_mem_cons.mpr ⟨.inl hdigit, hs⟩⟩
      · split at h
        · rename_i hdot
          split at h
          · cases h
          · split at h
            · cases h
            · rename_i hthree
              obtain ⟨hlen, hs⟩ := ih h (by rw [List.length_append, List.length_singleton]; omega)
              exact ⟨hlen, List.forall_mem_cons.mpr ⟨.inr hdot, hs⟩⟩
        · cases h

theorem literalByte_of_fields {c : UInt8} (h : isDigit c = true ∨ c = '.'.toUInt8) :
    literalByte c = true := by
  rcases h with h | rfl
  · simp [literalByte, isHex_of_isDigit h]
  · decide

/-- The loop reads nothing else than the bytes of literals, and it does not read too much. -/
theorem parseGroups_spec {groups : Nat} {bytes bytes' : Bytes} {ellipsis ellipsis' : Option Nat}
    {rest : Bytes} (hroom : bytes.length + 2 * groups = 16)
    (h : parseGroups groups bytes ellipsis s = some (bytes', ellipsis', rest)) :
    bytes'.length ≤ 16 ∧ ∀ c ∈ s, literalByte c = true ∨ c ∈ rest := by
  induction groups generalizing bytes ellipsis s with
  | zero =>
      cases h
      exact ⟨by omega, fun c hc ↦ .inr hc⟩
  | succ groups ih =>
      have hdigits : ∀ c ∈ s.takeWhile isHex, literalByte c = true := by
        intro c hc
        simp [literalByte, List.mem_takeWhile_imp hc]
      have hsplit : ∀ c ∈ s, c ∈ s.takeWhile isHex ∨ c ∈ s.dropWhile isHex := by
        intro c hc
        rwa [← List.mem_append, List.takeWhile_append_dropWhile]
      have hgroup : (bytes ++ groupBytes (s.takeWhile isHex)).length = bytes.length + 2 := by
        rw [List.length_append]
        rfl
      unfold parseGroups at h
      simp only at h
      split at h
      · cases h
      · split at h
        · -- the IPv4 notation goes to the end
          split at h
          · cases h
          · split at h
            · cases h
            · obtain ⟨q, hq, heq⟩ := Option.map_eq_some_iff.mp h
              cases heq
              obtain ⟨hlen, hs⟩ := parseFields_spec hq (by decide)
              refine ⟨by rw [List.length_append]; omega, fun c hc ↦ .inl ?_⟩
              exact literalByte_of_fields (hs c hc)
        · have hrest {t : Bytes} (ht : ∀ c ∈ s.dropWhile isHex, literalByte c = true ∨ c ∈ t) :
              ∀ c ∈ s, literalByte c = true ∨ c ∈ t := fun c hc ↦
            (hsplit c hc).elim (fun hc ↦ .inl (hdigits c hc)) (ht c)
          split at h
          · rename_i hnil
            cases h
            refine ⟨by omega, hrest ?_⟩
            rw [hnil]
            exact List.forall_mem_nil _
          · cases h
          · rename_i c d t heq
            rw [heq] at hrest
            split at h
            · cases h
            · rename_i hc
              have hc : literalByte c = true := by
                rw [not_not.mp hc]
                decide
              split at h
              · rename_i hd
                have hd : literalByte d = true := by
                  rw [hd]
                  decide
                split at h
                · cases h
                · split at h
                  · rename_i ht
                    cases h
                    refine ⟨by omega, hrest ?_⟩
                    rw [ht]
                    simp [hc, hd]
                  · obtain ⟨hlen, ht⟩ := ih (by omega) h
                    refine ⟨hlen, hrest ?_⟩
                    simp only [List.forall_mem_cons]
                    exact ⟨.inl hc, .inl hd, ht⟩
              · obtain ⟨hlen, ht⟩ := ih (by omega) h
                exact ⟨hlen, hrest (List.forall_mem_cons.mpr ⟨.inl hc, ht⟩)⟩

theorem expand_spec {bytes rest ip : Bytes} {ellipsis : Option Nat} (hlen : bytes.length ≤ 16)
    (h : expand (bytes, ellipsis, rest) = some ip) : rest = [] ∧ ip.length = 16 := by
  simp only [expand] at h
  split at h
  · cases h
  · rename_i hrest
    refine ⟨not_not.mp hrest, ?_⟩
    split at h
    · obtain ⟨e, -, rfl⟩ := Option.map_eq_some_iff.mp h
      simp only [List.length_append, List.length_replicate, List.length_take, List.length_drop]
      omega
    · split at h
      · cases h
      · cases h
        omega

theorem parseGroups_expand_spec {ellipsis : Option Nat} {ip : Bytes}
    (h : (parseGroups 8 [] ellipsis s).bind expand = some ip) :
    ip.length = 16 ∧ ∀ c ∈ s, literalByte c = true := by
  obtain ⟨⟨bytes, ellipsis', rest⟩, hgroups, hexpand⟩ := Option.bind_eq_some_iff.mp h
  obtain ⟨hlen, hs⟩ := parseGroups_spec rfl hgroups
  obtain ⟨rfl, hip⟩ := expand_spec hlen hexpand
  exact ⟨hip, fun c hc ↦ (hs c hc).resolve_right List.not_mem_nil⟩

theorem parseIPv6_spec {text : Bytes} {addr : Addr} (h : parseIPv6 text = some addr) :
    ∃ bytes zone, addr = v6 bytes zone ∧ bytes.length = 16 ∧
      (zone = [] → ∀ c ∈ text, literalByte c = true) := by
  have hzone (hzone : (text.dropWhile (· ≠ '%'.toUInt8)).drop 1 = [])
      (hsome : ¬ ('%'.toUInt8 ∈ text ∧ (text.dropWhile (· ≠ '%'.toUInt8)).drop 1 = [])) :
      text.takeWhile (· ≠ '%'.toUInt8) = text := by
    refine List.takeWhile_eq_self_iff.mpr fun c hc ↦ decide_eq_true ?_
    rintro rfl
    exact hsome ⟨hc, hzone⟩
  simp only [parseIPv6] at h
  split at h
  · cases h
  · rename_i hsome
    split at h
    · rename_i hcolons
      have hs {t : Bytes} (ht : t = text.takeWhile (· ≠ '%'.toUInt8))
          (hdrop : ∀ c ∈ t.drop 2, literalByte c = true) :
          ∀ c ∈ t, literalByte c = true := by
        rw [← ht] at hcolons
        rw [← List.take_append_drop 2 t, hcolons]
        simp only [List.cons_append, List.nil_append, List.forall_mem_cons]
        exact ⟨by decide, by decide, hdrop⟩
      split at h
      · rename_i hnil
        cases h
        refine ⟨_, _, rfl, rfl, fun hz ↦ ?_⟩
        rw [hzone hz hsome] at hnil hs
        exact hs rfl (by rw [hnil]; exact List.forall_mem_nil _)
      · obtain ⟨bytes, hbytes, rfl⟩ := Option.map_eq_some_iff.mp h
        obtain ⟨hlen, hdrop⟩ := parseGroups_expand_spec hbytes
        refine ⟨_, _, rfl, hlen, fun hz ↦ ?_⟩
        rw [hzone hz hsome] at hdrop hs
        exact hs rfl hdrop
    · obtain ⟨bytes, hbytes, rfl⟩ := Option.map_eq_some_iff.mp h
      obtain ⟨hlen, hs⟩ := parseGroups_expand_spec hbytes
      refine ⟨_, _, rfl, hlen, fun hz ↦ ?_⟩
      rwa [hzone hz hsome] at hs

theorem parse_cases {text : Bytes} {addr : Addr} (h : parse text = some addr) :
    parseIPv4 text = some addr ∨ parseIPv6 text = some addr := by
  unfold parse at h
  split at h
  · cases h
  · split at h
    · exact .inl h
    · split at h
      · exact .inr h
      · cases h

end Addr

/-- What `IP.parse` reads: sixteen bytes, from a literal that `Addr.parse` reads as an IPv6
address, or from one without a colon. -/
theorem IP.parse_spec {s : Bytes} {ip : IP} (h : IP.parse s = some ip) :
    ip.length = 16 ∧ (∀ c ∈ s, Addr.literalByte c = true) ∧
      ((∃ bytes, Addr.parse s = some (.v6 bytes [])) ∨ ':'.toUInt8 ∉ s) := by
  unfold IP.parse at h
  split at h
  · rename_i bytes haddr
    cases h
    rcases Addr.parse_cases haddr with hv4 | hv6
    · obtain ⟨q, hq, heq⟩ := Option.map_eq_some_iff.mp hv4
      cases heq
      obtain ⟨hlen, hs⟩ := Addr.parseFields_spec hq (by decide)
      refine ⟨by rw [List.length_append, hlen]; rfl, fun c hc ↦ ?_, .inr fun hcolon ↦ ?_⟩
      · exact Addr.literalByte_of_fields (hs c hc)
      · exact absurd (hs _ hcolon) (by decide)
    · obtain ⟨_, _, heq, -⟩ := Addr.parseIPv6_spec hv6
      cases heq
  · rename_i bytes zone haddr
    split at h
    · rename_i hzone
      cases h
      rcases Addr.parse_cases haddr with hv4 | hv6
      · obtain ⟨q, -, heq⟩ := Option.map_eq_some_iff.mp hv4
        cases heq
      · obtain ⟨_, _, heq, hlen, hs⟩ := Addr.parseIPv6_spec hv6
        cases heq
        exact ⟨hlen, hs hzone, .inl ⟨_, hzone ▸ haddr⟩⟩
    · cases h
  · cases h

end GigMcp.Data
