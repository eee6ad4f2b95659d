import GigMcp.Gateway.Resolver
import GigMcp.Proxy.Hosts

/-!
# The egress proxy

`Proxy.handle` and `Proxy.pump` (`proxy/proxy.go`), over a signature of the calls
they make: the source-IP registry, the connection limiter, the credential
resolver, and both connections of a tunnel.

A CONNECT is served in stages: `Stage.accept` is `handle` up to the point where
the tunnel stands, and each round of `Stage.pump` is one round of `pump`'s loop.
The deferred release of the limiter's slot is on every path that leaves.

Of `net/http` three things are modelled: a header's keys are canonical, a request
read off a connection has the authority of its URI or else its `Host` header in
`host`, and `Request.Write` sends `host`, or the URL's host when that is empty.
-/

namespace GigMcp.Proxy

open GigMcp.Effect GigMcp.Data GigMcp.Gateway

/-! ## Messages -/

/-- `textproto.CanonicalMIMEHeaderKey` of ASCII. -/
def canonicalKey (key : String) : String :=
  let valid (c : Char) : Bool := c.isAlphanum || "!#$%&'*+-.^_`|~".toList.contains c
  let rec go (up : Bool) : List Char → List Char
    | [] => []
    | c :: cs => (if up then c.toUpper else c.toLower) :: go (c = '-') cs
  if key.toList.all valid then String.ofList (go true key.toList) else key

/-- Header fields under canonical keys, in order. -/
abbrev Header := List (String × String)

/-- `Header.Get`: the first value. -/
def Header.get (h : Header) (key : String) : String :=
  ((h.find? fun f ↦ f.1 = canonicalKey key).map Prod.snd).getD ""

/-- `Header.Set`: the only value. -/
def Header.set (h : Header) (key value : String) : Header :=
  h.filter (fun f ↦ f.1 ≠ canonicalKey key) ++ [(canonicalKey key, value)]

/-- An `http.Request`; `target` is its URL without scheme and host. -/
structure HttpRequest where
  method : String
  scheme : String
  urlHost : String
  target : String
  requestURI : String
  host : String
  header : Header
  body : String
  close : Bool
deriving DecidableEq

structure HttpResponse where
  status : Nat
  body : String
  close : Bool
deriving DecidableEq

/-- What `Request.Write` puts on the wire. -/
structure Wire where
  method : String
  target : String
  host : String
  header : Header
  body : String
deriving DecidableEq

/-- `Request.Write`. -/
def HttpRequest.wire (req : HttpRequest) : Wire :=
  ⟨req.method, req.target, if req.host = "" then req.urlHost else req.host, req.header, req.body⟩

/-! ## Calls -/

/-- A call of the proxy's code. -/
inductive Call
  | httpError (status : Nat) (msg : String)
  | lookup (ip : String)
  | acquire (id : Identity)
  | release (id : Identity)
  | resolve (id : Identity) (host : String)
  | hijacker
  | hijack
  | established
  | leafFor (host : String)
  | handshake
  | dial (hostport serverName : String)
  | readRequest
  | writeUpstream (m : Wire)
  | readResponse
  | writeClient (resp : HttpResponse)

/-- What a call answers. -/
@[reducible] def Call.Res : Call → Type
  | httpError .. => Unit
  | lookup _ => Option Identity
  | acquire _ => Bool
  | release _ => Unit
  | resolve .. => Except Err ProxyCredential
  | hijacker => Bool
  | hijack => Except Err Unit
  | established => Except Err Unit
  | leafFor _ => Except Err Unit
  | handshake => Except Err Unit
  | dial .. => Except Err Unit
  | readRequest => Except Err HttpRequest
  | writeUpstream _ => Except Err Unit
  | readResponse => Except Err HttpResponse
  | writeClient _ => Except Err Unit

/-- The proxy's signature. -/
@[reducible] def proxy : Signature := ⟨Call, Call.Res⟩

/-- Code of the proxy. -/
abbrev Code (α : Type) := Prog proxy α

/-- Make a call. -/
@[reducible] def perform (e : Call) : Code e.Res := Prog.call (S := proxy) e

/-! ## Serving a CONNECT -/

/-- The request `handle` is called with. -/
structure ConnectRequest where
  method : String
  host : String
  remoteAddr : String

/-- A tunnel that stands. -/
structure Tunnel where
  hostport : String
  id : Identity
  cred : ProxyCredential

/-- `handle` after the slot was taken, with the dial of `pump`: the tunnel, or `none`
on every path that gives up. -/
def openTunnel (r : ConnectRequest) (id : Identity) : Code (Option Tunnel) := do
  let targetHost := hostname r.host
  match ← perform (.resolve id targetHost) with
  | .error _ => do
      let _ ← perform (.httpError 403 "no credential")
      return none
  | .ok cred =>
      if !hostAllowed targetHost cred.allowedHosts then do
        let _ ← perform (.httpError 403 "host not allowed")
        return none
      else if !(← perform .hijacker) then do
        let _ ← perform (.httpError 500 "no hijack")
        return none
      else
        match ← perform .hijack with
        | .error _ => return none
        | .ok _ =>
            match ← perform .established with
            | .error _ => return none
            | .ok _ =>
                match ← perform (.leafFor targetHost) with
                | .error _ => return none
                | .ok _ =>
                    match ← perform .handshake with
                    | .error _ => return none
                    | .ok _ =>
                        match ← perform (.dial r.host (hostname r.host)) with
                        | .error _ => return none
                        | .ok _ => return some ⟨r.host, id, cred⟩

/-- The value a request that shows the placeholder gets. -/
def injected (cred : ProxyCredential) : String :=
  if cred.injectFormat ≠ "" then replaceAll "\x7btoken\x7d" cred.realSecret cred.injectFormat
  else cred.realSecret

/-- Inject only when the placeholder stands in the configured header. -/
def inject (cred : ProxyCredential) (req : HttpRequest) : HttpRequest :=
  if cred.injectHeader ≠ "" ∧ cred.placeholder ≠ "" ∧
      hasInfix cred.placeholder (req.header.get cred.injectHeader) then
    { req with header := req.header.set cred.injectHeader (injected cred) }
  else req

/-- What `pump` makes of a request before it writes it. -/
def forward (t : Tunnel) (req : HttpRequest) : HttpRequest :=
  { inject t.cred req with requestURI := "", scheme := "https", urlHost := t.hostport }

/-- One round of `pump`; `true` asks for another. -/
def pumpOnce (t : Tunnel) : Code Bool := do
  match ← perform .readRequest with
  | .error _ => return false
  | .ok req =>
      match ← perform (.writeUpstream (forward t req).wire) with
      | .error _ => return false
      | .ok _ =>
          match ← perform .readResponse with
          | .error _ => return false
          | .ok resp =>
              match ← perform (.writeClient resp) with
              | .error _ => return false
              | .ok _ => return !(req.close || resp.close)

/-- `pump` once the upstream is dialled, for at most `n` rounds. -/
def pump (t : Tunnel) : Nat → Code Unit
  | 0 => return ()
  | n + 1 => do
      if ← pumpOnce t then pump t n else return ()

/-- Where a CONNECT is. -/
inductive Stage
  | accept (r : ConnectRequest)
  | pump (t : Tunnel)

/-- `handle` up to the point where the tunnel stands.  Where it gives up after it has
taken the slot, the slot is released. -/
def accept (r : ConnectRequest) : Code (Option Tunnel) := do
  if r.method ≠ "CONNECT" then
    let _ ← perform (.httpError 405 "only CONNECT supported")
    return none
  else
    match ← perform (.lookup (hostname r.remoteAddr)) with
    | none =>
        let _ ← perform (.httpError 403 "unknown source")
        return none
    | some id =>
        if !(← perform (.acquire id)) then
          let _ ← perform (.httpError 429 "too many concurrent connections")
          return none
        else
          match ← openTunnel r id with
          | none =>
              let _ ← perform (.release id)
              return none
          | some t => return some t

/-- One stage of `handle`. -/
def handleBody : Stage → Code (Unit ⊕ Stage)
  | .accept r => do
      match ← accept r with
      | none => return .inl ()
      | some t => return .inr (.pump t)
  | .pump t => do
      if ← pumpOnce t then return .inr (.pump t)
      else
        let _ ← perform (.release t.id)
        return .inl ()

end GigMcp.Proxy
