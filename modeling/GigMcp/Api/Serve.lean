import GigMcp.Api.Routes
import GigMcp.System.Local

/-!
# Runs of the control plane

`Serves` relates the worlds between which the control plane served requests, each
to its end.  `serve` computes such a run against the local handler of
`GigMcp.System.Local`, for the server `Local.server` and the requests a browser
would send to it.
-/

namespace GigMcp.Api

open GigMcp.Effect GigMcp.System GigMcp.Store GigMcp.Http GigMcp.Auth

variable {O : Outside} {faults : Call → Prop} {srv : Server} {w w' : World}

/-- The control plane served requests between two worlds. -/
def Serves (O : Outside) (faults : Call → Prop) (srv : Server) : World → World → Prop :=
  Relation.ReflTransGen fun w w' ↦ ∃ r resp, Exec (sem O faults) (routes srv r) w resp w'

/-- Serving requests takes time. -/
theorem Serves.later (h : Serves O faults srv w w') : Later O w w' := by
  induction h with
  | refl => exact .refl
  | tail _ hstep ih =>
      obtain ⟨r, resp, hx⟩ := hstep
      exact ih.trans (later_of_exec hx)

/-- Serve requests against the local handler. -/
def serve (P : Partners) (srv : Server) : List Request → World → Option World
  | [], w => some w
  | r :: rs, w => (run P.answer (routes srv r) w).bind fun x ↦ serve P srv rs x.2

theorem serves_of_serve {P : Partners} {rs : List Request} (faults : Call → Prop)
    (h : serve P srv rs w = some w') : Serves Partners.outside faults srv w w' := by
  induction rs generalizing w with
  | nil =>
      cases h
      exact .refl
  | cons r rs ih =>
      obtain ⟨⟨resp, w₁⟩, hr, hrs⟩ := Option.bind_eq_some_iff.mp h
      exact .head ⟨r, resp, P.exec_of_run hr faults⟩ (ih hrs)

namespace Local

/-- A login flow whose cookie is the word `flow`. -/
def authenticator : Authenticator where
  flow := ⟨fun _ ↦ .ok "flow", fun v ↦
    if v = "flow" then .ok ⟨"state", "nonce", "verifier", 1000000⟩
    else .error (.new "bad flow cookie")⟩
  authCodeURL := fun _ _ _ _ ↦ ""
  adminRole := "admin"
  sessionTTL := 1000 * Time.second
  endSessionEndpoint := ""

/-- A connect flow whose cookie is the word `flow`, made for user 2. -/
def broker : OAuthBroker where
  flow := ⟨fun _ ↦ .ok "flow", fun v ↦
    if v = "flow" then .ok ⟨"state", "verifier", "github", 2, "", [], 1000000⟩
    else .error (.new "bad flow cookie")⟩
  redirect := ""
  authCodeURL := fun _ _ _ ↦ ""

/-- A registry without servers. -/
def partners : Partners := ⟨⟨[]⟩, []⟩

def server : Server where
  broker := some broker
  installer := none
  registry := false
  authn := some authenticator
  validateExternalHTTPSURL := fun _ ↦ .ok ()

/-- A request with a session, without a body. -/
def request (method : String) (segs : List String) (session : Option String) : Request :=
  ⟨method, "api" :: segs, true, [], session, none, none, none, .malformed false "EOF"⟩

/-- The callback of a login as `subject:role`. -/
def login (rawID : String) : Request :=
  { request "GET" ["auth", "callback"] none with
    query := [("state", "state"), ("code", rawID)], oidcFlow := some "flow" }

/-- The world after requests, served one after the other. -/
def after (rs : List Request) (w : World) : World := (serve partners server rs w).getD w

theorem serves_after {rs : List Request} (faults : Call → Prop)
    (h : (serve partners server rs w).isSome) :
    Serves Partners.outside faults server w (after rs w) := by
  obtain ⟨w', hw'⟩ := Option.isSome_iff_exists.mp h
  rw [after, hw']
  exact serves_of_serve faults hw'

end Local

end GigMcp.Api
