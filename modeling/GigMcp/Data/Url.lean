import GigMcp.Data.Address

/-!
# URLs

`url.Parse` of Go's `net/url`, with the scheme and the host of its result and all of its errors.
A host may be an address literal, an IPv6 one in brackets, and `parse_literal` says that every
literal is the host of a URL.
-/

namespace GigMcp.Data

/-- A parsed URL. -/
structure Url where
  scheme : Bytes
  host : Bytes
deriving DecidableEq

namespace Url

/-- Why a text is not a URL. -/
inductive Invalid
  | controlCharacter
  | missingScheme
  | colonInFirstSegment
  | escape (text : Bytes)
  | hostCharacter (c : UInt8)
  | port (colonPort : Bytes)
  | missingBracket
  | ipLiteral
  | host
  | userinfo
deriving DecidableEq

/-- The text of an error, with a text in quotes where it has one. -/
def Invalid.text (quote : Bytes → String) : Invalid → String
  | controlCharacter => "net/url: invalid control character in URL"
  | missingScheme => "missing protocol scheme"
  | colonInFirstSegment => "first path segment in URL cannot contain colon"
  | escape s => "invalid URL escape " ++ quote s
  | hostCharacter c => "invalid character " ++ quote [c] ++ " in host name"
  | port s => "invalid port " ++ quote s ++ " after host"
  | missingBracket => "missing ']' in host"
  | ipLiteral => "invalid IP-literal"
  | host => "invalid host"
  | userinfo => "net/url: invalid userinfo"

/-! ## Cutting texts -/

/-- What is before the first `c`. -/
def before (c : UInt8) (s : Bytes) : Bytes := s.takeWhile (· ≠ c)

/-- What is after the first `c`. -/
def after (c : UInt8) (s : Bytes) : Bytes := (s.dropWhile (· ≠ c)).drop 1

/-- What is before and after the last `c`. -/
def cutLast (c : UInt8) (s : Bytes) : Option (Bytes × Bytes) :=
  match s.reverse.dropWhile (· ≠ c) with
  | [] => none
  | _ :: front => some (front.reverse, (s.reverse.takeWhile (· ≠ c)).reverse)

/-! ## Escapes -/

/-- One of some ASCII characters. -/
def oneOf (cs : List Char) (c : UInt8) : Bool := cs.any fun d ↦ d.toUInt8 = c

def isLetter (c : UInt8) : Bool :=
  ('a'.toUInt8 ≤ c && c ≤ 'z'.toUInt8) || ('A'.toUInt8 ≤ c && c ≤ 'Z'.toUInt8)

/-- A part of a URL that has its own rules for escapes.  Paths, fragments, users and passwords
have the same. -/
inductive Part
  | host
  | zone
  | other
deriving DecidableEq

/-- A byte that may stand in a host without an escape. -/
def hostByte (c : UInt8) : Bool :=
  isLetter c || isDigit c || oneOf ['!', '$', '&', '\'', '(', ')', '*', '+', ',', ';', '=', ':', '[',
    ']', '<', '>', '"', '-', '_', '.', '~'] c

/-- Replace the escapes of a part. -/
def unescape (part : Part) : Bytes → Except Invalid Bytes
  | [] => .ok []
  | c :: s =>
      if c = '%'.toUInt8 then
        match s with
        | x :: y :: t =>
            match hexValue x, hexValue y with
            | some hi, some lo =>
                let v := UInt8.ofNat (16 * hi + lo)
                let percent := x = '2'.toUInt8 ∧ y = '5'.toUInt8
                if part = .host ∧ hi < 8 ∧ ¬ percent then .error (.escape [c, x, y])
                else if part = .zone ∧ ¬ percent ∧ v ≠ ' '.toUInt8 ∧ !hostByte v then
                  .error (.escape [c, x, y])
                else (unescape part t).map (v :: ·)
            | _, _ => .error (.escape [c, x, y])
        | s => .error (.escape (c :: s))
      else if part ≠ .other ∧ c < 0x80 ∧ !hostByte c then .error (.hostCharacter c)
      else (unescape part s).map (c :: ·)

/-! ## The authority -/

/-- Empty, or a colon and digits. -/
def validOptionalPort : Bytes → Bool
  | [] => true
  | c :: s => c = ':'.toUInt8 && s.all isDigit

/-- The part of a host in brackets that is before a zone, and the zone with its `%25`. -/
def cutZone : Bytes → Bytes × Bytes
  | [] => ([], [])
  | c :: s =>
      if (c :: s).take 3 = bytesOf "%25" then ([], c :: s)
      else ((c :: (cutZone s).1), (cutZone s).2)

/-- The host between brackets and the port behind them. -/
def parseBracketed (hostname colonPort : Bytes) : Except Invalid Bytes :=
  if !validOptionalPort colonPort then .error (.port colonPort)
  else do
    let colonPort ← unescape .host colonPort
    let front ← unescape .host (cutZone hostname).1
    let zone ← unescape .zone (cutZone hostname).2
    match Addr.parse (front ++ zone) with
    | none => .error .host
    | some (.v4 _) => .error .ipLiteral
    | some (.v6 _ _) => .ok ('['.toUInt8 :: (front ++ zone) ++ ']'.toUInt8 :: colonPort)

/-- The port of a host without brackets.  A host of `http` or `https` has one colon at most. -/
def portOf (scheme host : Bytes) : Bytes :=
  if ':'.toUInt8 ∉ host then []
  else if scheme = bytesOf "http" ∨ scheme = bytesOf "https" then
    host.dropWhile (· ≠ ':'.toUInt8)
  else ((cutLast ':'.toUInt8 host).map fun p ↦ ':'.toUInt8 :: p.2).getD []

def parseHost (scheme host : Bytes) : Except Invalid Bytes :=
  if '['.toUInt8 ∈ host.tail then .error .ipLiteral
  else if host.head? = some '['.toUInt8 then
    match cutLast ']'.toUInt8 host with
    | none => .error .missingBracket
    | some (hostname, colonPort) => parseBracketed hostname.tail colonPort
  else if !validOptionalPort (portOf scheme host) then .error (.port (portOf scheme host))
  else unescape .host host

def validUserinfo (s : Bytes) : Bool :=
  s.all fun c ↦ isLetter c || isDigit c || oneOf ['-', '.', '_', ':', '~', '!', '$', '&', '\'', '(',
    ')', '*', '+', ',', ';', '=', '%', '@'] c

/-- The host of an authority, whose user and password have to be well formed. -/
def parseAuthority (scheme authority : Bytes) : Except Invalid Bytes :=
  match cutLast '@'.toUInt8 authority with
  | none => parseHost scheme authority
  | some (userinfo, host) => do
      let host ← parseHost scheme host
      if !validUserinfo userinfo then .error .userinfo
      else
        let _ ← unescape .other (before ':'.toUInt8 userinfo)
        let _ ← unescape .other (after ':'.toUInt8 userinfo)
        .ok host

/-! ## The URL -/

def schemeByte (c : UInt8) : Bool := isLetter c || isDigit c || oneOf ['+', '-', '.'] c

/-- The scheme, if there is one, and the rest. -/
def getScheme (raw : Bytes) : Except Invalid (Bytes × Bytes) :=
  match raw.takeWhile schemeByte, raw.dropWhile schemeByte with
  | [], c :: _ => if c = ':'.toUInt8 then .error .missingScheme else .ok ([], raw)
  | c :: name, d :: rest =>
      if isLetter c ∧ d = ':'.toUInt8 then .ok (c :: name, rest) else .ok ([], raw)
  | _, [] => .ok ([], raw)

/-- Lower-case letters. -/
def lower (s : Bytes) : Bytes :=
  s.map fun c ↦ if 'A'.toUInt8 ≤ c ∧ c ≤ 'Z'.toUInt8 then c + 32 else c

/-- The authority and the path of what is behind the scheme, if it begins with two slashes. -/
def splitAuthority (scheme rest : Bytes) : Option (Bytes × Bytes) :=
  if rest.take 2 = bytesOf "//" ∧ (scheme ≠ [] ∨ rest.take 3 ≠ bytesOf "///") then
    some (before '/'.toUInt8 (rest.drop 2), (rest.drop 2).dropWhile (· ≠ '/'.toUInt8))
  else none

/-- The part behind the scheme and before the query. -/
def parseRest (scheme rest : Bytes) : Except Invalid Url :=
  if rest.head? ≠ some '/'.toUInt8 ∧ scheme ≠ [] then .ok ⟨scheme, []⟩
  else if rest.head? ≠ some '/'.toUInt8 ∧ ':'.toUInt8 ∈ before '/'.toUInt8 rest then
    .error .colonInFirstSegment
  else
    match splitAuthority scheme rest with
    | none => do
        let _ ← unescape .other rest
        .ok ⟨scheme, []⟩
    | some (authority, path) => do
        let host ← parseAuthority scheme authority
        let _ ← unescape .other path
        .ok ⟨scheme, host⟩

/-- A URL without its fragment. -/
def parseBase (raw : Bytes) : Except Invalid Url :=
  if raw.any fun c ↦ c < ' '.toUInt8 || c = 0x7f then .error .controlCharacter
  else if raw = bytesOf "*" then .ok ⟨[], []⟩
  else do
    let (scheme, rest) ← getScheme raw
    parseRest (lower scheme) (before '?'.toUInt8 rest)

/-- `url.Error`: what could not be parsed, and why. -/
structure Error where
  url : Bytes
  reason : Invalid
deriving DecidableEq

def Error.text (quote : Bytes → String) (e : Error) : String :=
  "parse " ++ quote e.url ++ ": " ++ e.reason.text quote

/-- `url.Parse`. -/
def parse (raw : Bytes) : Except Error Url := do
  let base := before '#'.toUInt8 raw
  let u ← (parseBase base).mapError (⟨base, ·⟩)
  let _ ← (unescape .other (after '#'.toUInt8 raw)).mapError (⟨raw, ·⟩)
  .ok u

/-- A host without its port. -/
def stripPort (host : Bytes) : Bytes :=
  match cutLast ':'.toUInt8 host with
  | some (front, port) => if port.all isDigit then front else host
  | none => host

/-- A host without the brackets around it. -/
def stripBrackets (host : Bytes) : Bytes :=
  if host.head? = some '['.toUInt8 ∧ host.getLast? = some ']'.toUInt8 then host.tail.dropLast
  else host

/-- `u.Hostname()`. -/
def hostname (u : Url) : Bytes := stripBrackets (stripPort u.host)

example : (parse (bytesOf "https://user@[64:ff9b::1]:443/token?x#y")).map hostname =
    .ok (bytesOf "64:ff9b::1") := by
  decide +kernel

example : parse (bytesOf "https://::1/token") =
    .error ⟨bytesOf "https://::1/token", .port (bytesOf "::1")⟩ := by
  decide +kernel

example : parse (bytesOf "ht!tp://%zz#y") =
    .error ⟨bytesOf "ht!tp://%zz", .colonInFirstSegment⟩ := by
  decide +kernel

/-! ## Address literals -/

section Cut

variable {c : UInt8} {s t : Bytes}

theorem before_of_notMem (h : c ∉ s) : before c s = s :=
  List.takeWhile_eq_self_iff.mpr fun _ hd ↦ decide_eq_true fun heq ↦ h (heq ▸ hd)

theorem dropWhile_of_notMem (h : c ∉ s) : s.dropWhile (· ≠ c) = [] :=
  List.dropWhile_eq_nil_iff.mpr fun _ hd ↦ decide_eq_true fun heq ↦ h (heq ▸ hd)

theorem after_of_notMem (h : c ∉ s) : after c s = [] := by
  rw [after, dropWhile_of_notMem h]
  rfl

theorem cutLast_of_notMem (h : c ∉ s) : cutLast c s = none := by
  rw [cutLast, dropWhile_of_notMem (fun hc ↦ h (List.mem_reverse.mp hc))]

theorem cutLast_append (h : c ∉ t) : cutLast c (s ++ c :: t) = some (s, t) := by
  have hrev : (s ++ c :: t).reverse = t.reverse ++ c :: s.reverse := by
    simp
  have hne : ∀ d ∈ t.reverse, decide (d ≠ c) = true := fun d hd ↦
    decide_eq_true fun heq ↦ h (List.mem_reverse.mp (heq ▸ hd))
  rw [cutLast, hrev, List.dropWhile_append_of_pos hne, List.takeWhile_append_of_pos hne]
  simp

end Cut

/-- A byte that is left as it is in a host. -/
def plainByte (c : UInt8) : Bool := hostByte c && c ≠ '%'.toUInt8

theorem unescape_host {s : Bytes} (h : ∀ c ∈ s, plainByte c = true) : unescape .host s = .ok s := by
  induction s with
  | nil => rfl
  | cons c s ih =>
      obtain ⟨hc, hs⟩ := List.forall_mem_cons.mp h
      have hc : hostByte c = true ∧ c ≠ '%'.toUInt8 := by simpa [plainByte] using hc
      unfold unescape
      rw [if_neg hc.2, if_neg (by simp [hc.1]), ih hs]
      rfl

theorem cutZone_of_notMem {s : Bytes} (h : '%'.toUInt8 ∉ s) : cutZone s = (s, []) := by
  induction s with
  | nil => rfl
  | cons c s ih =>
      have hne : (c :: s).take 3 ≠ bytesOf "%25" := fun heq ↦ h (by
        rw [(List.cons.inj heq).1]
        exact List.mem_cons_self)
      rw [cutZone, if_neg hne, ih fun hs ↦ h (List.mem_cons_of_mem c hs)]

/-- The bytes of a literal are none of those that `parse` cuts a text at. -/
theorem literalByte_spec : ∀ {c : UInt8}, Addr.literalByte c = true →
    plainByte c = true ∧ ' '.toUInt8 ≤ c ∧ c < 0x7f ∧
      oneOf ['#', '?', '/', '@', '[', ']', '%'] c = false :=
  fun {c} ↦ forall_byte (P := fun c ↦ Addr.literalByte c = true → plainByte c = true ∧
    ' '.toUInt8 ≤ c ∧ c < 0x7f ∧ oneOf ['#', '?', '/', '@', '[', ']', '%'] c = false)
    (by decide +kernel) c

/-- A literal as the host of a URL. -/
def literalHost (lit : Bytes) : Bytes :=
  if ':'.toUInt8 ∈ lit then '['.toUInt8 :: lit ++ [']'.toUInt8] else lit

theorem eq_append_of_cutLast {c : UInt8} {s front back : Bytes}
    (h : cutLast c s = some (front, back)) : s = front ++ c :: back := by
  unfold cutLast at h
  split at h
  · cases h
  · rename_i d rest hdrop
    cases h
    have hd : d = c := by
      have hhead := List.head?_dropWhile_not (fun x ↦ decide (x ≠ c)) s.reverse
      rw [hdrop] at hhead
      simpa using hhead
    have hsplit := List.takeWhile_append_dropWhile (p := fun x ↦ decide (x ≠ c)) (l := s.reverse)
    rw [hdrop, hd] at hsplit
    have hrev := congrArg List.reverse hsplit
    simpa using hrev.symm

/-- A host that ends with a bracket has no port. -/
theorem stripPort_of_bracket {host : Bytes} (h : host.getLast? = some ']'.toUInt8) :
    stripPort host = host := by
  unfold stripPort
  split
  · rename_i front port hcut
    refine if_neg fun hport ↦ ?_
    rw [eq_append_of_cutLast hcut] at h
    rcases List.eq_nil_or_concat port with rfl | ⟨init, c, rfl⟩
    · rw [List.getLast?_concat] at h
      exact absurd h (by decide)
    · rw [List.concat_eq_append, ← List.cons_append, ← List.append_assoc,
        List.getLast?_concat, Option.some_inj] at h
      subst h
      have hmem : ']'.toUInt8 ∈ init.concat ']'.toUInt8 := by simp
      exact absurd (List.all_eq_true.mp hport _ hmem) (by decide)
  · rfl

section Literal

variable {lit : Bytes} {ip : IP} (h : IP.parse lit = some ip)
include h

theorem notMem_of_parse {c : UInt8} (hc : oneOf ['#', '?', '/', '@', '[', ']', '%'] c = true) :
    c ∉ lit := fun hmem ↦ by
  have hlit := literalByte_spec ((IP.parse_spec h).2.1 c hmem)
  rw [hc] at hlit
  exact absurd hlit.2.2.2 (by decide)

theorem parseHost_literal (scheme : Bytes) :
    parseHost scheme (literalHost lit) = .ok (literalHost lit) := by
  obtain ⟨-, hbytes, hkind⟩ := IP.parse_spec h
  have hplain : unescape .host lit = .ok lit :=
    unescape_host fun c hc ↦ (literalByte_spec (hbytes c hc)).1
  have hopen : '['.toUInt8 ∉ lit := notMem_of_parse h (by decide)
  have hclose : ']'.toUInt8 ∉ lit := notMem_of_parse h (by decide)
  have hpercent : '%'.toUInt8 ∉ lit := notMem_of_parse h (by decide)
  unfold literalHost
  split
  · rename_i hcolon
    obtain ⟨bytes, haddr⟩ := hkind.resolve_right (not_not.mpr hcolon)
    have hcut : cutLast ']'.toUInt8 ('['.toUInt8 :: lit ++ [']'.toUInt8]) =
        some ('['.toUInt8 :: lit, []) := cutLast_append List.not_mem_nil
    have htail : '['.toUInt8 ∉ ('['.toUInt8 :: lit ++ [']'.toUInt8]).tail := by
      rw [List.cons_append, List.tail_cons, List.mem_append, List.mem_singleton]
      exact not_or.mpr ⟨hopen, by decide⟩
    have hhead : ('['.toUInt8 :: lit ++ [']'.toUInt8]).head? = some '['.toUInt8 := rfl
    rw [parseHost, if_neg htail, if_pos hhead, hcut]
    show parseBracketed lit [] = _
    rw [parseBracketed, if_neg (by decide), cutZone_of_notMem hpercent]
    simp only [hplain, unescape, bind, Except.bind, List.append_nil, haddr]
  · rename_i hcolon
    have hhead : lit.head? ≠ some '['.toUInt8 := fun heq ↦ hopen (List.mem_of_head? heq)
    rw [parseHost, if_neg fun hmem ↦ hopen (List.mem_of_mem_tail hmem), if_neg hhead, portOf,
      if_pos hcolon]
    exact hplain

theorem hostname_literal (scheme : Bytes) : hostname ⟨scheme, literalHost lit⟩ = lit := by
  have hopen : '['.toUInt8 ∉ lit := notMem_of_parse h (by decide)
  unfold hostname literalHost
  split
  · have hlast : ('['.toUInt8 :: lit ++ [']'.toUInt8]).getLast? = some ']'.toUInt8 :=
      List.getLast?_concat
    rw [stripPort_of_bracket hlast, stripBrackets, if_pos ⟨rfl, hlast⟩, List.cons_append,
      List.tail_cons, List.dropLast_concat]
  · rename_i hcolon
    have hhead : lit.head? ≠ some '['.toUInt8 := fun heq ↦ hopen (List.mem_of_head? heq)
    rw [stripPort, cutLast_of_notMem hcolon, stripBrackets, if_neg fun h ↦ hhead h.1]

theorem literalHost_bytes {c : UInt8} (hc : c ∈ literalHost lit) :
    ' '.toUInt8 ≤ c ∧ c < 0x7f ∧ oneOf ['#', '?', '/', '@'] c = false := by
  have hlit (hc : c ∈ lit) :
      ' '.toUInt8 ≤ c ∧ c < 0x7f ∧ oneOf ['#', '?', '/', '@'] c = false := by
    obtain ⟨-, hlow, hdel, hmarks⟩ := literalByte_spec ((IP.parse_spec h).2.1 c hc)
    refine ⟨hlow, hdel, ?_⟩
    simp only [oneOf, List.any_cons, Bool.or_eq_false_iff] at hmarks ⊢
    exact ⟨hmarks.1, hmarks.2.1, hmarks.2.2.1, hmarks.2.2.2.1, rfl⟩
  unfold literalHost at hc
  split at hc
  · rw [List.cons_append, List.mem_cons, List.mem_append, List.mem_singleton] at hc
    rcases hc with rfl | hc | rfl
    · decide
    · exact hlit hc
    · decide
  · exact hlit hc

theorem notMem_literalHost {c : UInt8} (hc : oneOf ['#', '?', '/', '@'] c = true) :
    c ∉ literalHost lit := by
  intro hmem
  rw [(literalHost_bytes h hmem).2.2] at hc
  cases hc

theorem parseRest_literal :
    parseRest (bytesOf "https") (bytesOf "//" ++ literalHost lit) =
      .ok ⟨bytesOf "https", literalHost lit⟩ := by
  have hslash : (bytesOf "//" ++ literalHost lit).head? = some '/'.toUInt8 := rfl
  have hsplit : splitAuthority (bytesOf "https") (bytesOf "//" ++ literalHost lit) =
      some (literalHost lit, []) := by
    have hpath : '/'.toUInt8 ∉ literalHost lit := notMem_literalHost h (by decide)
    have hslashes : (bytesOf "//" ++ literalHost lit).take 2 = bytesOf "//" := rfl
    have hdrop : (bytesOf "//" ++ literalHost lit).drop 2 = literalHost lit := rfl
    rw [splitAuthority, if_pos ⟨hslashes, .inl (by decide)⟩, hdrop, before_of_notMem hpath,
      dropWhile_of_notMem hpath]
  have hauthority : parseAuthority (bytesOf "https") (literalHost lit) = .ok (literalHost lit) := by
    rw [parseAuthority, cutLast_of_notMem (notMem_literalHost h (by decide))]
    exact parseHost_literal h _
  rw [parseRest, if_neg fun hne ↦ hne.1 hslash, if_neg fun hne ↦ hne.1 hslash, hsplit]
  simp only [hauthority, unescape, bind, Except.bind]

theorem parseBase_literal :
    parseBase (bytesOf "https://" ++ literalHost lit) =
      .ok ⟨bytesOf "https", literalHost lit⟩ := by
  have hcontrol : ¬ (bytesOf "https://" ++ literalHost lit).any
      (fun c ↦ c < ' '.toUInt8 || c = 0x7f) = true := by
    rw [List.any_append, Bool.or_eq_true, List.any_eq_true, List.any_eq_true]
    rintro (⟨c, hc, hctl⟩ | ⟨c, hc, hctl⟩)
    · revert c
      decide +kernel
    · obtain ⟨hlow, hdel, -⟩ := literalHost_bytes h hc
      rw [Bool.or_eq_true, decide_eq_true_eq, decide_eq_true_eq] at hctl
      rcases hctl with hctl | hctl
      · exact absurd hlow (UInt8.not_le.mpr hctl)
      · exact absurd hctl (UInt8.ne_of_lt hdel)
  have hstar : bytesOf "https://" ++ literalHost lit ≠ bytesOf "*" := fun heq ↦
    absurd (congrArg List.head? heq) (show some 'h'.toUInt8 ≠ some '*'.toUInt8 by decide)
  have hscheme : getScheme (bytesOf "https://" ++ literalHost lit) =
      .ok (bytesOf "https", bytesOf "//" ++ literalHost lit) := rfl
  have hquery : '?'.toUInt8 ∉ bytesOf "//" ++ literalHost lit := by
    rw [List.mem_append]
    exact not_or.mpr ⟨by decide, notMem_literalHost h (by decide)⟩
  rw [parseBase, if_neg hcontrol, if_neg hstar, hscheme]
  refine Eq.trans ?_ (parseRest_literal h)
  show parseRest (lower (bytesOf "https"))
    (before '?'.toUInt8 (bytesOf "//" ++ literalHost lit)) = _
  rw [before_of_notMem hquery]
  rfl

/-- Every literal is the host of an `https` URL. -/
theorem parse_literal :
    parse (bytesOf "https://" ++ literalHost lit) = .ok ⟨bytesOf "https", literalHost lit⟩ := by
  have hhash : '#'.toUInt8 ∉ bytesOf "https://" ++ literalHost lit := by
    rw [List.mem_append]
    exact not_or.mpr ⟨by decide, notMem_literalHost h (by decide)⟩
  simp only [parse]
  rw [before_of_notMem hhash, after_of_notMem hhash, parseBase_literal h]
  rfl

end Literal

end Url

end GigMcp.Data
