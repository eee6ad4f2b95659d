import GigMcp.Auth.Broker
import GigMcp.Effect.Flight
import GigMcp.Effect.Pool
import GigMcp.System.World

/-!
# Refreshes side by side

`EnsureFreshToken` sends refreshes through a `singleflight` group, keyed by user and
vendor.  Here the group is part of the state, so any number of calls can run side by
side.  A call that finds no flight for its key does what `ensureFreshToken` does.

`RefreshPermitted` is the discipline a call keeps to: a grant is only made by the leader
of a flight that has found the account stale, and the leader stores it before the flight
ends.
-/

namespace GigMcp.Auth

open GigMcp.Effect GigMcp.System GigMcp.Store GigMcp.Data

/-! ## The broker with its group -/

/-- The calls of a broker with a `singleflight` group. -/
@[reducible] def sharing : Signature := gateway.sum (flights String (Except Err String))

/-- A call of the group. -/
@[reducible] def fly (e : GroupCall String (Except Err String)) : Prog sharing e.Res :=
  Prog.right (T := flights String (Except Err String)) e

/-- A user and a vendor. -/
abbrev Holder := Int64 × String

/-- `fmt.Sprintf("%d:%s", userID, vendor)`. -/
def flightKey (j : Holder) : String := formatInt j.1 ++ ":" ++ j.2

/-- `EnsureFreshToken`, with the refresh going through the group. -/
def OAuthBroker.ensureFreshTokenShared (b : OAuthBroker) (j : Holder) :
    Prog sharing (Except Err String) := do
  match ← (sql (.getConnectedAccount j.1 j.2)).left with
  | .error e => return .error e
  | .ok acct =>
      let t ← now.left
      if t + refreshSkew < acct.expiresAt then
        match ← (perform (.decrypt acct.encryptedAccessToken)).left with
        | .error e => return .error (.wrap "decrypt cached access token" e)
        | .ok token => return .ok token
      else
        match ← fly (.board (flightKey j)) with
        | .joins f => fly (.await f)
        | .leads f =>
            let r ← (b.refreshAndPersist j.1 j.2).left
            fly (.land (flightKey j) f r)
            return r

/-- The world and the group. -/
structure Desk where
  world : World
  group : Group String (Except Err String)

/-- The clock is not past a deadline, and the vault and the provider do not fail. -/
def Prompt (deadline : Time) : (e : Call) → e.Res → Prop
  | .now, t => t ≤ deadline
  | .encrypt _, r => ∃ box, r = .ok box
  | .refreshGrant .., r => ∃ tok, r = .ok tok
  | _, _ => True

/-- What a call may answer and do. -/
def sharingSem (O : Outside) (deadline : Time) : Sem sharing Desk
  | .inl e, s, r, s' =>
      answered (S := gateway) (Prompt deadline) (sem O fun _ ↦ False) e s.world r s'.world ∧
        s'.group = s.group
  | .inr e, s, r, s' => Group.sem e s.group r s'.group ∧ s'.world = s.world

/-- What a call of `EnsureFreshToken` has seen and done: the row it read last and the clock
after it, the tokens it opened under rows and times, the refresh token it opened, what it
sealed last, its grants, whether the last one was stored or something failed, and its part
in a flight. -/
structure Trace where
  acct : Option ConnectedAccount
  time : Option Time
  cached : List (ConnectedAccount × Time × String)
  refresh : Option String
  boxed : Option (String × String)
  grants : List (String × OAuthToken)
  persisted : Bool
  failed : Bool
  leads : Option ℕ
  joined : Option ℕ
  awaited : Option (Except Err String)

namespace Trace

def fresh : Trace := ⟨none, none, [], none, none, [], false, false, none, none, none⟩

/-- The record after a statement. -/
def noted (g : Trace) : (c : Sql) → Except Err c.Ans → Trace
  | .getConnectedAccount .., .ok acct =>
      { g with acct := some acct, time := none, refresh := none }
  | .updateConnectedAccountTokens .., .ok _ => { g with persisted := true }
  | .updateConnectedAccountTokens .., .error _ => { g with failed := true }
  | _, _ => g

/-- The tokens opened under rows and times, after a box was opened. -/
def cachedAfter (g : Trace) (box p : String) : List (ConnectedAccount × Time × String) :=
  match g.acct, g.time with
  | some a, some t => if box = a.encryptedAccessToken then (a, t, p) :: g.cached else g.cached
  | _, _ => g.cached

/-- The refresh token that was opened, after a box was opened. -/
def refreshAfter (g : Trace) (box p : String) : Option String :=
  match g.acct with
  | some a => if box = a.encryptedRefreshToken then some p else g.refresh
  | none => g.refresh

/-- The record after a call of the gateway. -/
def called : (e : Call) → Trace → e.Res → Trace
  | .sql c, g, r => g.noted c r
  | .now, g, t => { g with time := some t }
  | .decrypt box, g, .ok p =>
      { g with cached := g.cachedAfter box p, refresh := g.refreshAfter box p }
  | .encrypt p, g, .ok box => { g with boxed := some (p, box) }
  | .encrypt _, g, .error _ => { g with failed := true }
  | .refreshGrant _ rt, g, .ok tok => { g with grants := (rt, tok) :: g.grants }
  | .refreshGrant .., g, .error _ => { g with failed := true }
  | _, g, _ => g

/-- The record after a call of the group. -/
def boarded : (e : GroupCall String (Except Err String)) → Trace → e.Res → Trace
  | .board _, g, .leads f =>
      { g with leads := some f, acct := none, time := none, refresh := none }
  | .board _, g, .joins f => { g with joined := some f }
  | .await _, g, r => { g with awaited := some r }
  | .land .., g, _ => { g with leads := none }

/-- The record after a call. -/
def track : (e : sharing.Op) → Trace → sharing.Res e → Trace
  | .inl e, g, r => g.called e r
  | .inr e, g, r => g.boarded e r

end Trace

/-- Any number of calls of `EnsureFreshToken`, for any users and vendors. -/
def refreshes (b : OAuthBroker) (O : Outside) (deadline : Time) :
    Effect.System sharing (Except Err String) Holder Trace Desk where
  sem := sharingSem O deadline
  starts := fun _ ↦ True
  body := fun j ↦ do
    let r ← b.ensureFreshTokenShared j
    return .inl r
  init := fun _ ↦ .fresh
  track := Trace.track
  env := Eq

/-! ## A call without company -/

section Alone

variable {b : OAuthBroker} {O : Outside} {deadline : Time}

/-- Code of the gateway runs as it does without the group. -/
theorem exec_left {α : Type} {p : Code α} {s s' : Desk} {a : α}
    (hx : Exec (sharingSem O deadline) p.left s a s') :
    Exec (answered (S := gateway) (Prompt deadline) (sem O fun _ ↦ False)) p s.world a s'.world ∧
      s'.group = s.group := by
  induction p generalizing s with
  | ret a' =>
      obtain ⟨rfl, rfl⟩ := hx
      exact ⟨⟨rfl, rfl⟩, rfl⟩
  | vis e k ih =>
      obtain ⟨r, s₁, ⟨hr, hgroup⟩, hx⟩ := hx
      obtain ⟨hx, hgroup'⟩ := ih r hx
      exact ⟨⟨r, s₁.world, hr, hx⟩, hgroup'.trans hgroup⟩

/-- A call that no flight is under way for does what `ensureFreshToken` does. -/
theorem exec_ensureFreshTokenShared {j : Holder} {s s' : Desk} {r : Except Err String}
    (hnone : s.group.calls.get? (flightKey j) = none)
    (hx : Exec (sharingSem O deadline) (b.ensureFreshTokenShared j) s r s') :
    Exec (answered (S := gateway) (Prompt deadline) (sem O fun _ ↦ False))
      (b.ensureFreshToken j.1 j.2) s.world r s'.world := by
  obtain ⟨r₁, s₁, ⟨hr₁, hgroup₁⟩, hx₁⟩ := exec_call.mp hx
  refine exec_call.mpr ⟨r₁, s₁.world, hr₁, ?_⟩
  cases r₁ with
  | error e =>
      obtain ⟨rfl, rfl⟩ := hx₁
      exact ⟨rfl, rfl⟩
  | ok acct =>
      obtain ⟨t, s₂, ⟨hr₂, hgroup₂⟩, hx₂⟩ := exec_call.mp hx₁
      refine exec_call.mpr ⟨t, s₂.world, hr₂, ?_⟩
      split at hx₂
      · rename_i hfresh
        rw [if_pos hfresh]
        obtain ⟨r₃, s₃, ⟨hr₃, -⟩, hx₃⟩ := exec_call.mp hx₂
        refine exec_call.mpr ⟨r₃, s₃.world, hr₃, ?_⟩
        cases r₃ with
        | error e =>
            obtain ⟨rfl, rfl⟩ := hx₃
            exact ⟨rfl, rfl⟩
        | ok token =>
            obtain ⟨rfl, rfl⟩ := hx₃
            exact ⟨rfl, rfl⟩
      · rename_i hstale
        rw [if_neg hstale]
        obtain ⟨boarding, s₃, ⟨⟨rfl, -⟩, hworld₃⟩, hx₃⟩ := exec_call.mp hx₂
        have hleads : (s₂.group.board (flightKey j)).1 = .leads s₂.group.next := by
          rw [Group.board, hgroup₂, hgroup₁, hnone]
        rw [hleads] at hx₃
        obtain ⟨r₄, s₄, hx₄, hx₅⟩ := exec_bind.mp hx₃
        obtain ⟨u, s₅, ⟨-, hworld₅⟩, hx₆⟩ := exec_call.mp hx₅
        obtain ⟨rfl, rfl⟩ := hx₆
        rw [hworld₅, ← hworld₃]
        exact (exec_left hx₄).1

end Alone

/-! ## Keys -/

/-- Different users or vendors have different keys. -/
theorem flightKey_injective : Function.Injective flightKey := by
  rintro ⟨u, v⟩ ⟨u', v'⟩ h
  have htext := congrArg String.toList h
  simp only [flightKey, String.toList_append, List.append_assoc] at htext
  have hcolon := notMem_formatInt (c := ':') (by decide) (by decide)
  obtain ⟨hu, hv⟩ := cut_inj (hcolon u) (hcolon u') htext
  have hu : u = u' := formatInt_injective (String.toList_inj.mp hu)
  have hv : v = v' := String.toList_inj.mp hv
  rw [hu, hv]

/-! ## How a call conducts itself -/

/-- A token that a call has opened while it was fresh, or was granted. -/
def Trace.Own (g : Trace) (tok : String) : Prop :=
  (∃ a t, (a, t, tok) ∈ g.cached ∧ t + OAuthBroker.refreshSkew < a.expiresAt) ∨
    ∃ gr ∈ g.grants, gr.2.accessToken = tok

/-- When a call for a user and a vendor may make which call. -/
def RefreshPermitted (j : Holder) : sharing.Op → Trace → Prop
  | .inl (.sql (.getConnectedAccount u v)), g => (u, v) = j ∧ g.grants = []
  | .inl (.sql (.getAuthConfig _)), _ => True
  | .inl (.sql (.updateConnectedAccountTokens u v box exp)), g =>
      (u, v) = j ∧ g.leads.isSome ∧ g.acct.isSome ∧
        ∃ gr, g.grants = [gr] ∧ exp = gr.2.expiry ∧
          (g.boxed = some (gr.2.accessToken, box))
  | .inl .now, _ => True
  | .inl (.decrypt _), _ => True
  | .inl (.encrypt _), _ => True
  | .inl (.refreshGrant _ rt), g =>
      g.leads.isSome ∧ g.grants = [] ∧ g.persisted = false ∧ g.refresh = some rt ∧
        ∃ a t, g.acct = some a ∧ g.time = some t ∧ ¬ t + OAuthBroker.refreshSkew < a.expiresAt
  | .inr (.board k), g => k = flightKey j ∧ g.leads = none ∧ g.grants = []
  | .inr (.await f), g => g.joined = some f
  | .inr (.land k f r), g =>
      k = flightKey j ∧ g.leads = some f ∧
        (g.grants ≠ [] → g.persisted = true ∨ g.failed = true) ∧ ∀ tok, r = .ok tok → g.Own tok
  | _, _ => False

/-- What a call returns it owns, or was given by the flight it joined. -/
def RefreshEnds : Except Err String ⊕ Holder → Trace → Prop
  | .inl r, g => ∀ tok, r = .ok tok → g.Own tok ∨ g.awaited = some (.ok tok)
  | .inr _, _ => False

/-- How the leader of a flight leaves `refreshAndPersist`. -/
def LeaderEnds (f : ℕ) (r : Except Err String) (g : Trace) : Prop :=
  g.leads = some f ∧ (g.grants ≠ [] → g.persisted = true ∨ g.failed = true) ∧
    ∀ tok, r = .ok tok → g.Own tok

section Conducts

variable {b : OAuthBroker} {j : Holder}

/-- The calls of the gateway, as the discipline sees them. -/
abbrev RefreshConducts {α : Type} (j : Holder) (fin : α → Trace → Prop) (p : Code α)
    (g : Trace) : Prop :=
  Conforms (S := gateway) Trace.called (fun e ↦ RefreshPermitted j (.inl e)) fin p g

/-- Opening the client secret changes nothing but what was opened. -/
theorem oauthConfigFor_conducts (ac : AuthConfig) (scopes : List String) (g : Trace) :
    RefreshConducts j (fun _ g' ↦ ∃ cached refresh, g' = { g with cached, refresh })
      (b.oauthConfigFor ac scopes) g := by
  unfold OAuthBroker.oauthConfigFor
  split
  · exact ⟨g.cached, g.refresh, rfl⟩
  · refine conforms_call.mpr ⟨trivial, fun r ↦ ?_⟩
    cases r with
    | error e => exact ⟨g.cached, g.refresh, rfl⟩
    | ok secret => exact ⟨_, _, rfl⟩

theorem refreshAndPersist_conducts {f : ℕ} {g : Trace} (hleads : g.leads = some f)
    (hgrants : g.grants = []) (hpersisted : g.persisted = false) :
    RefreshConducts j (LeaderEnds f) (b.refreshAndPersist j.1 j.2) g := by
  have hends {g' : Trace} {e : Err} (hl : g'.leads = some f) (hg : g'.grants = []) :
      LeaderEnds f (.error e) g' := ⟨hl, fun h ↦ absurd hg h, nofun⟩
  refine conforms_call.mpr ⟨⟨rfl, hgrants⟩, fun r ↦ ?_⟩
  cases r with
  | error e => exact hends hleads hgrants
  | ok acct =>
      refine conforms_call.mpr ⟨trivial, fun t ↦ ?_⟩
      split
      · rename_i hfresh
        refine conforms_call.mpr ⟨trivial, fun r ↦ ?_⟩
        cases r with
        | error e => exact hends hleads hgrants
        | ok token =>
            refine ⟨hleads, fun h ↦ absurd hgrants h, ?_⟩
            rintro tok ⟨rfl⟩
            refine .inl ⟨acct, t, ?_, hfresh⟩
            show (acct, t, token) ∈ if _ then _ else _
            rw [if_pos rfl]
            exact .head _
      · rename_i hstale
        refine conforms_call.mpr ⟨trivial, fun r ↦ ?_⟩
        cases r with
        | error e => exact hends hleads hgrants
        | ok ac =>
            refine (oauthConfigFor_conducts ac acct.grantedScopes _).bind ?_
            rintro r _ ⟨cached, refresh, rfl⟩
            cases r with
            | error e => exact hends hleads hgrants
            | ok conf =>
                refine conforms_call.mpr ⟨trivial, fun r ↦ ?_⟩
                cases r with
                | error e => exact hends hleads hgrants
                | ok rt =>
                    refine conforms_call.mpr ⟨⟨?_, hgrants, hpersisted, if_pos rfl, acct, t, rfl,
                      rfl, hstale⟩, fun r ↦ ?_⟩
                    · exact Option.isSome_of_eq_some hleads
                    cases r with
                    | error e => exact hends hleads hgrants
                    | ok newTok =>
                        refine conforms_call.mpr ⟨trivial, fun r ↦ ?_⟩
                        cases r with
                        | error e => exact ⟨hleads, fun _ ↦ .inr rfl, nofun⟩
                        | ok encAccess =>
                            refine conforms_call.mpr ⟨⟨rfl, Option.isSome_of_eq_some hleads, rfl,
                              (rt, newTok), congrArg _ hgrants, rfl, rfl⟩, fun r ↦ ?_⟩
                            have hown : ∀ g' : Trace, (rt, newTok) ∈ g'.grants → ∀ tok,
                                (Except.ok newTok.accessToken : Except Err String) = .ok tok →
                                  g'.Own tok := by
                              rintro g' hg' tok ⟨rfl⟩
                              exact .inr ⟨_, hg', rfl⟩
                            cases r with
                            | error e => exact ⟨hleads, fun _ ↦ .inr rfl, hown _ (.head _)⟩
                            | ok _ => exact ⟨hleads, fun _ ↦ .inl rfl, hown _ (.head _)⟩

theorem ensureFreshTokenShared_conducts :
    Conforms Trace.track (RefreshPermitted j)
      (fun r g ↦ ∀ tok, r = .ok tok → g.Own tok ∨ g.awaited = some (.ok tok))
      (b.ensureFreshTokenShared j) .fresh := by
  refine conforms_call.mpr ⟨⟨rfl, rfl⟩, fun r ↦ ?_⟩
  cases r with
  | error e => exact nofun
  | ok acct =>
      refine conforms_call.mpr ⟨trivial, fun t ↦ ?_⟩
      split
      · rename_i hfresh
        refine conforms_call.mpr ⟨trivial, fun r ↦ ?_⟩
        cases r with
        | error e => exact nofun
        | ok token =>
            rintro tok ⟨rfl⟩
            refine .inl (.inl ⟨acct, t, ?_, hfresh⟩)
            show (acct, t, token) ∈ if _ then _ else _
            rw [if_pos rfl]
            exact .head _
      · refine conforms_call.mpr ⟨⟨rfl, rfl, rfl⟩, fun r ↦ ?_⟩
        cases r with
        | joins f =>
            refine conforms_call.mpr ⟨rfl, fun r ↦ ?_⟩
            rintro tok rfl
            exact .inr rfl
        | leads f =>
            refine (refreshAndPersist_conducts rfl rfl rfl).left.bind ?_
            rintro r g ⟨hleads, hstored, hown⟩
            refine conforms_call.mpr ⟨⟨rfl, hleads, hstored, hown⟩, fun _ ↦ ?_⟩
            exact fun tok htok ↦ .inl (hown tok htok)

end Conducts

end GigMcp.Auth
