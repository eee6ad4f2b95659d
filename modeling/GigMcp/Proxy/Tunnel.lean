import GigMcp.Proxy.Handle

/-!
# Requests inside a tunnel

The allowlist is checked once, on the CONNECT's target.  The requests the sandbox
then sends name their own host, and `pump` rewrites the URL's host but not the
request's: what goes upstream under the injected secret is addressed as the sandbox
wants.  The requests that stay addressed to the target are exactly those that name
no host, or the target's.
-/

namespace GigMcp.Proxy

open GigMcp.Effect GigMcp.Gateway

/-! ## What the sandbox sends -/

/-- A request as it stands on the client's connection.  `authority` is that of an
absolute request URI, and empty for a request that only gives a path. -/
structure ClientRequest where
  method : String
  scheme : String
  authority : String
  target : String
  hostHeader : String
  header : Header
  body : String
  close : Bool

/-- The host a request is addressed to: an absolute URI wins over the header. -/
def ClientRequest.host (c : ClientRequest) : String :=
  if c.authority = "" then c.hostHeader else c.authority

/-- `http.ReadRequest`. -/
def ClientRequest.read (c : ClientRequest) : HttpRequest where
  method := c.method
  scheme := c.scheme
  urlHost := c.authority
  target := c.target
  requestURI := if c.authority = "" then c.target else c.scheme ++ "://" ++ c.authority ++ c.target
  host := c.host
  header := c.header
  body := c.body
  close := c.close

/-- The two connections of a tunnel: the requests the sandbox has yet to be read, and
what was written upstream. -/
structure Conn where
  inbox : List ClientRequest
  sent : List Wire

/-- The calls of a tunnel.  Requests are read in the order they were sent, a write
upstream that fails may have gone out, and everything else is answered at will. -/
def tunnelSem : Sem proxy Conn
  | .readRequest, w, r, w' =>
      (∃ c cs, w.inbox = c :: cs ∧ r = .ok c.read ∧ w' = { w with inbox := cs }) ∨
        (∃ e, r = .error e) ∧ w' = w
  | .writeUpstream m, w, r, w' =>
      w' = { w with sent := w.sent ++ [m] } ∨ (∃ e, r = .error e) ∧ w' = w
  | _, w, _, w' => w' = w

/-- The requests up to the first that asks to close the connection. -/
def untilClose : List ClientRequest → List ClientRequest
  | [] => []
  | c :: cs => if c.close then [c] else c :: untilClose cs

theorem mem_untilClose_cons (c : ClientRequest) (cs : List ClientRequest) :
    c ∈ untilClose (c :: cs) := by
  unfold untilClose
  split
  · exact List.mem_singleton_self c
  · exact List.mem_cons_self

theorem untilClose_cons {c : ClientRequest} (h : c.close = false) (cs : List ClientRequest) :
    untilClose (c :: cs) = c :: untilClose cs := by
  rw [untilClose, h]
  rfl

variable {w w' : Conn} {t : Tunnel} {c : ClientRequest}

/-! ## What is written upstream -/

@[simp] theorem host_inject (cred : ProxyCredential) (req : HttpRequest) :
    (inject cred req).host = req.host := by
  unfold inject
  split
  · rfl
  · rfl

/-- The host a request goes upstream with: its own, or else the target's. -/
theorem host_wire (t : Tunnel) (c : ClientRequest) :
    (forward t c.read).wire.host = if c.host = "" then t.hostport else c.host := by
  have hhost : (forward t c.read).host = c.host := host_inject t.cred c.read
  rw [HttpRequest.wire, hhost]
  rfl

/-- A request that names no host, or a host with the target's name. -/
def Addressed (hostport : String) (c : ClientRequest) : Prop :=
  c.host = "" ∨ hostname c.host = hostname hostport

theorem hostname_wire :
    hostname (forward t c.read).wire.host = hostname t.hostport ↔ Addressed t.hostport c := by
  rw [host_wire, Addressed]
  split
  · rename_i h
    exact ⟨fun _ ↦ .inl h, fun _ ↦ rfl⟩
  · rename_i h
    exact ⟨.inr, fun h' ↦ h'.resolve_left h⟩

/-! ## Rounds of the pump -/

/-- A call that neither reads a request nor writes one. -/
def Quiet : Call → Prop
  | .readRequest | .writeUpstream _ => False
  | _ => True

theorem visits_quiet {α : Type} {p : Code α} (hp : All Quiet p) (h : Visits tunnelSem p w w') :
    w' = w := by
  refine hp.frame_visits (ρ := fun w w' ↦ w' = w) (fun _ ↦ rfl) (fun _ _ _ h h' ↦ h'.trans h) ?_ h
  intro e w r w' he hr
  cases e with
  | readRequest | writeUpstream m => exact he.elim
  | _ => exact hr

/-- The end of a round. -/
theorem quiet_endRound (again : Bool) : All Quiet (if again then
    (return .inr (.pump t) : Code (Unit ⊕ Stage)) else do
      let _ ← perform (.release t.id)
      return .inl ()) := by
  split
  · exact all_ret
  · exact all_call.mpr ⟨trivial, fun _ ↦ all_ret⟩

/-- One request is read and written per round. -/
theorem visits_pump (h : Visits tunnelSem (handleBody (.pump t)) w w') :
    w'.sent = w.sent ∨
      ∃ c cs, w.inbox = c :: cs ∧ w'.sent = w.sent ++ [(forward t c.read).wire] := by
  rcases visits_call.mp h with rfl | ⟨r, w₁, ⟨c, cs, hinbox, rfl, rfl⟩ | ⟨⟨e, rfl⟩, rfl⟩, h₁⟩
  · exact .inl rfl
  · rcases visits_call.mp h₁ with rfl | ⟨r, w₂, hr, h₂⟩
    · exact .inl rfl
    have hw : w' = w₂ := by
      refine visits_quiet ?_ h₂
      cases r with
      | error e => exact quiet_endRound false
      | ok _ =>
          refine all_call.mpr ⟨trivial, fun r ↦ ?_⟩
          cases r with
          | error e => exact quiet_endRound false
          | ok resp =>
              refine all_call.mpr ⟨trivial, fun r ↦ ?_⟩
              cases r with
              | error e => exact quiet_endRound false
              | ok _ => exact quiet_endRound _
    subst hw
    rcases hr with rfl | ⟨-, rfl⟩
    · exact .inr ⟨c, cs, hinbox, rfl⟩
    · exact .inl rfl
  · exact .inl (congrArg Conn.sent (visits_quiet (quiet_endRound false) h₁))

/-- A round that asks for another has read and written a request that does not close
the connection. -/
theorem exec_pump_again {s : Stage} (hx : Exec tunnelSem (handleBody (.pump t)) w (.inr s) w') :
    s = .pump t ∧ ∃ c cs, w.inbox = c :: cs ∧ c.close = false ∧
      w' = ⟨cs, w.sent ++ [(forward t c.read).wire]⟩ := by
  obtain ⟨again, w₁, h₁, hx₁⟩ := exec_bind.mp hx
  cases again with
  | false =>
      obtain ⟨_, w₂, -, hx₂⟩ := exec_call.mp hx₁
      cases hx₂.1
  | true =>
      obtain ⟨hs, rfl⟩ := hx₁
      cases hs
      refine ⟨rfl, ?_⟩
      obtain ⟨r, w₂, hr, h₂⟩ := exec_call.mp h₁
      rcases hr with ⟨c, cs, hinbox, rfl, rfl⟩ | ⟨⟨e, rfl⟩, rfl⟩
      · obtain ⟨r, w₃, hw₃, h₃⟩ := exec_call.mp h₂
        cases r with
        | error e => cases h₃.1
        | ok _ =>
            obtain ⟨r, w₄, hw₄, h₄⟩ := exec_call.mp h₃
            cases r with
            | error e => cases h₄.1
            | ok resp =>
                obtain ⟨r, w₅, hw₅, h₅⟩ := exec_call.mp h₄
                cases r with
                | error e => cases h₅.1
                | ok _ =>
                    obtain ⟨hagain, rfl⟩ := h₅
                    have hclose : c.read.close = false ∧ resp.close = false := by
                      simpa using (congrArg Bool.not hagain).symm
                    refine ⟨c, cs, hinbox, hclose.1, ?_⟩
                    obtain rfl : w' = w₄ := hw₅
                    obtain rfl : w' = w₃ := hw₄
                    rcases hw₃ with rfl | ⟨⟨e, he⟩, -⟩
                    · rfl
                    · cases he
      · cases h₂.1

/-! ## Accepted tunnels -/

theorem exec_openTunnel {r : ConnectRequest} {id : Identity}
    (hx : Exec tunnelSem (openTunnel r id) w (some t) w') :
    w' = w ∧ t.hostport = r.host ∧ hostAllowed (hostname r.host) t.cred.allowedHosts = true := by
  obtain ⟨r₁, w₁, hw₁, hx₁⟩ := exec_call.mp hx
  obtain rfl : w₁ = w := hw₁
  cases r₁ with
  | error e =>
      obtain ⟨_, w₂, -, hx₂⟩ := exec_call.mp hx₁
      cases hx₂.1
  | ok cred =>
      dsimp only at hx₁
      split at hx₁
      · obtain ⟨_, w₂, -, hx₂⟩ := exec_call.mp hx₁
        cases hx₂.1
      · rename_i hallowed
        rw [Bool.not_eq_true', Bool.not_eq_false] at hallowed
        obtain ⟨hijacker, w₂, hw₂, hx₂⟩ := exec_call.mp hx₁
        obtain rfl : w₂ = w₁ := hw₂
        cases hijacker with
        | false =>
            obtain ⟨_, w₃, -, hx₃⟩ := exec_call.mp hx₂
            cases hx₃.1
        | true =>
            obtain ⟨_, w₃, hw₃, hx₃⟩ := exec_ok hx₂ fun _ _ h ↦ nomatch h.1
            obtain ⟨_, w₄, hw₄, hx₄⟩ := exec_ok hx₃ fun _ _ h ↦ nomatch h.1
            obtain ⟨_, w₅, hw₅, hx₅⟩ := exec_ok hx₄ fun _ _ h ↦ nomatch h.1
            obtain ⟨_, w₆, hw₆, hx₆⟩ := exec_ok hx₅ fun _ _ h ↦ nomatch h.1
            obtain ⟨_, w₇, hw₇, ht, rfl⟩ := exec_ok hx₆ fun _ _ h ↦ nomatch h.1
            cases ht
            obtain rfl : w₃ = w₂ := exec_call_iff.mp hw₃
            obtain rfl : w₄ = w₃ := exec_call_iff.mp hw₄
            obtain rfl : w₅ = w₄ := exec_call_iff.mp hw₅
            obtain rfl : w₆ = w₅ := exec_call_iff.mp hw₆
            exact ⟨exec_call_iff.mp hw₇, rfl, hallowed⟩

/-- A tunnel that stands is to the CONNECT's target, and its allowlist admits it. -/
theorem exec_accept {r : ConnectRequest} (hx : Exec tunnelSem (accept r) w (some t) w') :
    w' = w ∧ t.hostport = r.host ∧ hostAllowed (hostname r.host) t.cred.allowedHosts = true := by
  unfold accept at hx
  split at hx
  · obtain ⟨_, w₁, -, hx₁⟩ := exec_call.mp hx
    cases hx₁.1
  · obtain ⟨id?, w₁, hw₁, hx₁⟩ := exec_call.mp hx
    cases id? with
    | none =>
        obtain ⟨_, w₂, -, hx₂⟩ := exec_call.mp hx₁
        cases hx₂.1
    | some id =>
        obtain ⟨ok, w₂, hw₂, hx₂⟩ := exec_call.mp hx₁
        cases ok with
        | false =>
            obtain ⟨_, w₃, -, hx₃⟩ := exec_call.mp hx₂
            cases hx₃.1
        | true =>
            obtain ⟨t?, w₃, h₃, hx₃⟩ := exec_bind.mp hx₂
            cases t? with
            | none =>
                obtain ⟨_, w₄, -, hx₄⟩ := exec_call.mp hx₃
                cases hx₄.1
            | some t' =>
                obtain ⟨ht, rfl⟩ := hx₃
                cases ht
                obtain rfl : w₁ = w := hw₁
                obtain rfl : w₂ = w₁ := hw₂
                exact exec_openTunnel h₃

/-! ## Where requests go -/

/-- Requests that are addressed to the target are written to it. -/
theorem sent_addressed {cs : List ClientRequest} (hcs : ∀ c ∈ untilClose cs, Addressed t.hostport c)
    (h : LoopVisits tunnelSem handleBody (.pump t) ⟨cs, []⟩ w') :
    ∀ m ∈ w'.sent, hostname m.host = hostname t.hostport := by
  -- at the start of a round: what was sent is right, and what is left is addressed right
  let I (s : Stage) (w : Conn) : Prop :=
    s = .pump t ∧ (∀ m ∈ w.sent, hostname m.host = hostname t.hostport) ∧
      ∀ c ∈ untilClose w.inbox, Addressed t.hostport c
  have hsent {c : ClientRequest} {cs : List ClientRequest} {ms : List Wire}
      (hms : ∀ m ∈ ms, hostname m.host = hostname t.hostport)
      (hcs : ∀ c' ∈ untilClose (c :: cs), Addressed t.hostport c') :
      ∀ m ∈ ms ++ [(forward t c.read).wire], hostname m.host = hostname t.hostport := by
    intro m hm
    rcases List.mem_append.mp hm with hm | hm
    · exact hms m hm
    · rw [List.mem_singleton.mp hm]
      exact hostname_wire.mpr (hcs c (mem_untilClose_cons c cs))
  refine LoopVisits.invariant (I := I)
    (J := fun w' ↦ ∀ m ∈ w'.sent, hostname m.host = hostname t.hostport) ?_ ?_ h ⟨rfl, fun _ hm ↦ absurd hm List.not_mem_nil, hcs⟩
  · rintro s w w' ⟨rfl, hms, hcs⟩ hv
    rcases visits_pump hv with hw | ⟨c, cs, hinbox, hw⟩
    · rwa [hw]
    · rw [hinbox] at hcs
      rw [hw]
      exact hsent hms hcs
  · rintro s w s' w' ⟨rfl, hms, hcs⟩ hx
    obtain ⟨rfl, c, cs, hinbox, hclose, rfl⟩ := exec_pump_again hx
    rw [hinbox] at hcs
    refine ⟨rfl, hsent hms hcs, fun c' hc' ↦ hcs c' ?_⟩
    rw [untilClose_cons hclose]
    exact List.mem_cons_of_mem c hc'

/-- An upstream that always answers and never closes lets every request through. -/
theorem exists_sent {cs : List ClientRequest} (hc : c ∈ untilClose cs) (ms : List Wire) :
    ∃ w', LoopVisits tunnelSem handleBody (.pump t) ⟨cs, ms⟩ w' ∧
      (forward t c.read).wire ∈ w'.sent := by
  induction cs generalizing ms with
  | nil => exact absurd hc List.not_mem_nil
  | cons d cs ih =>
      have hread : tunnelSem .readRequest ⟨d :: cs, ms⟩ (.ok d.read) ⟨cs, ms⟩ :=
        .inl ⟨d, cs, rfl, rfl, rfl⟩
      have hwrite : tunnelSem (.writeUpstream (forward t d.read).wire) ⟨cs, ms⟩ (.ok ())
          ⟨cs, ms ++ [(forward t d.read).wire]⟩ := .inl rfl
      have hlast : (forward t d.read).wire ∈ ms ++ [(forward t d.read).wire] :=
        List.mem_append_right _ (List.mem_singleton_self _)
      by_cases hcd : c = d
      · subst hcd
        exact ⟨_, .here (.inr ⟨_, _, hread, .inr ⟨_, _, hwrite, .inl rfl⟩⟩), hlast⟩
      · have hopen : d.close = false := by
          by_contra hclose
          rw [Bool.not_eq_false] at hclose
          rw [untilClose, hclose] at hc
          exact hcd (List.mem_singleton.mp hc)
        rw [untilClose_cons hopen] at hc
        obtain ⟨w', hw', hm⟩ :=
          ih ((List.mem_cons.mp hc).resolve_left hcd) (ms ++ [(forward t d.read).wire])
        refine ⟨w', .again (exec_bind.mpr ⟨true, ⟨cs, ms ++ [(forward t d.read).wire]⟩, ?_, rfl,
          rfl⟩) hw', hm⟩
        refine ⟨_, _, hread, _, _, hwrite, .ok ⟨200, "", false⟩, _, rfl, .ok (), _, rfl, ?_, rfl⟩
        have hclose : d.read.close = false := hopen
        simp [hclose]

/-- Every request that is written upstream in an accepted tunnel is addressed to the
target of its CONNECT, and so within the allowlist, exactly when the sandbox's requests
up to the first that closes the connection name no host or the target's. -/
theorem tunnel_requests_addressed {r : ConnectRequest} {cs : List ClientRequest} {w : Conn}
    (hacc : Exec tunnelSem (accept r) ⟨cs, []⟩ (some t) w) :
    (∀ w', LoopVisits tunnelSem handleBody (.pump t) w w' → ∀ m ∈ w'.sent,
        hostname m.host = hostname r.host ∧
          hostAllowed (hostname m.host) t.cred.allowedHosts = true) ↔
      ∀ c ∈ untilClose cs, c.host = "" ∨ hostname c.host = hostname r.host := by
  obtain ⟨rfl, hhost, hallowed⟩ := exec_accept hacc
  rw [← hhost] at hallowed ⊢
  constructor
  · intro hall c hc
    obtain ⟨w', hw', hm⟩ := exists_sent hc []
    exact hostname_wire.mp (hall w' hw' _ hm).1
  · intro hcs w' hw' m hm
    have hname := sent_addressed hcs hw' m hm
    rw [hname]
    exact ⟨rfl, hallowed⟩

namespace Example

def connect : ConnectRequest := ⟨"CONNECT", "api.github.com:443", "10.0.0.2:40000"⟩

def cred : ProxyCredential :=
  ⟨"secret", "Authorization", "Bearer \x7btoken\x7d", "gigph-0", ["api.github.com"]⟩

def tunnel : Tunnel := ⟨"api.github.com:443", ⟨"github", "7"⟩, cred⟩

/-- A request that shows the placeholder. -/
def request (host : String) : ClientRequest :=
  ⟨"GET", "", "", "/user", host, [("Authorization", "gigph-0")], "", false⟩

theorem accepted (w : Conn) : Exec tunnelSem (accept connect) w (some tunnel) w := by
  refine ⟨some ⟨"github", "7"⟩, w, rfl, true, w, rfl, ?_⟩
  refine ⟨.ok cred, w, rfl, true, w, rfl, ?_⟩
  exact ⟨.ok (), w, rfl, .ok (), w, rfl, .ok (), w, rfl, .ok (), w, rfl, .ok (), w, rfl, rfl, rfl⟩

end Example

open Example in
/-- A request to the target itself. -/
theorem tunnel_requests_addressed_github :
    Exec tunnelSem (accept connect) ⟨[request "api.github.com"], []⟩ (some tunnel)
        ⟨[request "api.github.com"], []⟩ ∧
      ∀ w', LoopVisits tunnelSem handleBody (.pump tunnel) ⟨[request "api.github.com"], []⟩ w' →
        ∀ m ∈ w'.sent, hostname m.host = "api.github.com" ∧
          hostAllowed (hostname m.host) ["api.github.com"] = true := by
  refine ⟨accepted _, (tunnel_requests_addressed (accepted _)).mpr ?_⟩
  intro c hc
  right
  rw [List.mem_singleton.mp hc]
  decide

open Example in
/-- A request with another host goes upstream with that host and the secret. -/
theorem secret_sent_to_other_host :
    Exec tunnelSem (accept connect) ⟨[request "evil.example"], []⟩ (some tunnel)
        ⟨[request "evil.example"], []⟩ ∧
      ∃ w' m, LoopVisits tunnelSem handleBody (.pump tunnel) ⟨[request "evil.example"], []⟩ w' ∧
        m ∈ w'.sent ∧ m.host = "evil.example" ∧
        m.header = [("Authorization", "Bearer secret")] ∧
        hostAllowed (hostname m.host) cred.allowedHosts = false := by
  refine ⟨accepted _, ?_⟩
  obtain ⟨w', hw', hm⟩ := exists_sent (t := tunnel)
    (mem_untilClose_cons (request "evil.example") []) []
  exact ⟨w', _, hw', hm, by decide, by decide, by decide⟩

end GigMcp.Proxy
