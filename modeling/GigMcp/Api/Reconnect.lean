import GigMcp.Api.Handlers
import GigMcp.Auth.Refresh
import GigMcp.System.Local

/-!
# Reconnects and refreshes side by side

A refresh reads an account, asks the provider for a new access token and stores that in
whatever row the user and the vendor have by then.  A callback that stores a new
connection in between has its access token overwritten by one of the old connection.

The provider's `Ledger` says under which authorization a token was issued, and `due` is
what a row is to hold: the connection the last callback has stored, with the access tokens
that were granted for its own refresh token.  The two agree with the store as long as no
callback stores a connection while a refresh of the same user and vendor holds on to the
row it has read (`Apart`).
-/

namespace GigMcp.Api.Reconnect

open GigMcp.Effect GigMcp.System GigMcp.Store GigMcp.Auth GigMcp.Http

/-! ## The provider's side -/

/-- The tokens a provider has issued, with the authorizations they belong to, and the
access tokens it has granted for a refresh token. -/
structure Ledger where
  refreshes : List (String × ℕ)
  accesses : List (String × ℕ)
  grants : List (String × String)
  next : ℕ

namespace Ledger

/-- The authorizations a refresh token was issued under. -/
def under (l : Ledger) (rt : String) : List ℕ :=
  (l.refreshes.filter fun x ↦ x.1 = rt).map Prod.snd

/-- A code exchange is a new authorization. -/
def exchanged (l : Ledger) (tok : OAuthToken) : Ledger :=
  ⟨(tok.refreshToken, l.next) :: l.refreshes, (tok.accessToken, l.next) :: l.accesses, l.grants,
    l.next + 1⟩

/-- A refresh grant issues tokens under the authorization of the token it was shown. -/
def granted (l : Ledger) (rt : String) (tok : OAuthToken) : Ledger :=
  ⟨(l.under rt).map (tok.refreshToken, ·) ++ l.refreshes,
    (l.under rt).map (tok.accessToken, ·) ++ l.accesses, (rt, tok.accessToken) :: l.grants, l.next⟩

/-- The ledger after a call. -/
def note : (e : Call) → Ledger → e.Res → Ledger
  | .exchange .., l, .ok tok => l.exchanged tok
  | .refreshGrant _ rt, l, .ok tok => l.granted rt tok
  | _, l, _ => l

/-- An authorization that both tokens were issued under. -/
def Together (l : Ledger) (rt tok : String) : Prop :=
  ∃ a, (rt, a) ∈ l.refreshes ∧ (tok, a) ∈ l.accesses

/-- A ledger is only written on. -/
structure Grows (l l' : Ledger) : Prop where
  refreshes : l.refreshes ⊆ l'.refreshes
  accesses : l.accesses ⊆ l'.accesses
  grants : l.grants ⊆ l'.grants

theorem Grows.refl (l : Ledger) : Grows l l := ⟨fun _ ↦ id, fun _ ↦ id, fun _ ↦ id⟩

theorem note_grows (e : Call) (l : Ledger) (r : e.Res) : Grows l (note e l r) := by
  cases e with
  | exchange conf code verifier =>
      cases r with
      | error e => exact .refl l
      | ok tok =>
          exact ⟨List.subset_cons_self _ _, List.subset_cons_self _ _, fun _ ↦ id⟩
  | refreshGrant conf rt =>
      cases r with
      | error e => exact .refl l
      | ok tok =>
          exact ⟨List.subset_append_right _ _, List.subset_append_right _ _,
            List.subset_cons_self _ _⟩
  | _ => exact .refl l

theorem Together.mono {l l' : Ledger} {rt tok : String} (h : l.Together rt tok)
    (hl : l.Grows l') : l'.Together rt tok := by
  obtain ⟨a, hrt, htok⟩ := h
  exact ⟨a, hl.refreshes hrt, hl.accesses htok⟩

theorem exchanged_together (l : Ledger) (tok : OAuthToken) :
    (l.exchanged tok).Together tok.refreshToken tok.accessToken :=
  ⟨l.next, .head _, .head _⟩

/-- What is granted for a known refresh token belongs to it. -/
theorem granted_together {l : Ledger} {rt : String} {a : ℕ} (h : (rt, a) ∈ l.refreshes)
    (tok : OAuthToken) : (l.granted rt tok).Together rt tok.accessToken := by
  refine ⟨a, List.mem_append_right _ h, List.mem_append_left _ (List.mem_map.mpr ⟨a, ?_, rfl⟩)⟩
  exact List.mem_map.mpr ⟨(rt, a), List.mem_filter.mpr ⟨h, decide_eq_true rfl⟩, rfl⟩

end Ledger

/-! ## What a row is to hold -/

/-- An access token, in its box, that was granted for the refresh token of an account. -/
def Own (O : Outside) (l : Ledger) (a : ConnectedAccount) (box : String) : Prop :=
  ∃ x ∈ l.grants, O.opens a.encryptedRefreshToken = some x.1 ∧ O.opens box = some x.2

instance Own.instDecidable (O : Outside) (l : Ledger) (a : ConnectedAccount) (box : String) :
    Decidable (Own O l a box) :=
  inferInstanceAs (Decidable (∃ x ∈ l.grants, _))

/-- An account as the store gives it back. -/
def throughStore (c : ConnectedAccount) : ConnectedAccount :=
  { c with
    expiresAt := c.expiresAt.throughColumn
    grantedScopes := Data.throughColumn c.grantedScopes }

/-- What rows are to hold after a statement: a callback and a disconnect decide, and a
refresh does for the connection whose refresh token it was made with. -/
def dueAfter (O : Outside) (l : Ledger) (due : Holder → Option ConnectedAccount) :
    (c : Sql) → Except Err c.Ans → Holder → Option ConnectedAccount
  | .putConnectedAccount c, .ok _ => fun j ↦ if j = c.key then some (throughStore c) else due j
  | .deleteConnectedAccount u v, .ok _ => fun j ↦ if j = (u, v) then none else due j
  | .updateConnectedAccountTokens u v box exp, .ok _ => fun j ↦
      if j = (u, v) then
        (due j).map fun a ↦
          if Own O l a box then
            { a with encryptedAccessToken := box, expiresAt := exp.throughColumn }
          else a
      else due j
  | _, _ => due

/-- The world, the provider's ledger, and what rows are to hold. -/
structure Bureau where
  world : World
  ledger : Ledger
  due : Holder → Option ConnectedAccount

/-- What rows are to hold after a call. -/
def Bureau.dueNote (O : Outside) (s : Bureau) :
    (e : Call) → e.Res → Holder → Option ConnectedAccount
  | .sql c, r => dueAfter O s.ledger s.due c r
  | _, _ => s.due

/-- A statement that does not answer as SQLite would has done nothing. -/
def Atomic : (e : Call) → World → e.Res → World → Prop
  | .sql c, w, r, w' => r = (c.apply w.db).1 ∨ w' = w
  | _, _, _, _ => True

/-- What a call may answer and do.  Any call may fail. -/
def bureauSem (O : Outside) : Sem gateway Bureau := fun e s r s' ↦
  (sem O (fun _ ↦ True) e s.world r s'.world ∧ Atomic e s.world r s'.world) ∧
    s'.ledger = s.ledger.note e r ∧ s'.due = s.dueNote O e r

/-- The tokens of a row were issued under one authorization. -/
def SameAuthorization (O : Outside) (l : Ledger) (a : ConnectedAccount) : Prop :=
  ∃ rt tok, O.opens a.encryptedRefreshToken = some rt ∧ O.opens a.encryptedAccessToken = some tok ∧
    l.Together rt tok

/-- The tokens of every row were issued under one authorization, and the row is what it is
to hold. -/
structure Paired (O : Outside) (s : Bureau) : Prop where
  same : ∀ j a, s.world.db.connectedAccounts.get? j = some a → SameAuthorization O s.ledger a
  due : ∀ j, s.world.db.connectedAccounts.get? j = s.due j

/-! ## The requests -/

inductive Job
  | refresh (j : Holder)
  | connect (r : Request)
  | disconnect (ctx : Ctx) (vendor : String)

/-- What a request has done: the row it has read and may still update, the refresh token
of that row, the boxes it has sealed, its grant, and the token its code was exchanged for. -/
structure Record where
  held : Option ConnectedAccount
  opened : Option String
  boxes : List (String × String)
  granted : Option (String × OAuthToken)
  issued : Option OAuthToken

namespace Record

def fresh : Record := ⟨none, none, [], none, none⟩

/-- A fresh row is not updated. -/
def checked (g : Record) (t : Time) : Record :=
  match g.held with
  | some a => if t + OAuthBroker.refreshSkew < a.expiresAt then { g with held := none } else g
  | none => g

/-- The record after a statement. -/
def noted (g : Record) : (c : Sql) → Except Err c.Ans → Record
  | .getConnectedAccount .., .ok a => { g with held := some a, opened := none }
  | .getAuthConfig _, .error _ => { g with held := none }
  | .updateConnectedAccountTokens .., _ => { g with held := none }
  | _, _ => g

/-- The record after a call.  A refresh whose call fails gives its row up. -/
def track : (e : Call) → Record → e.Res → Record
  | .sql c, g, r => g.noted c r
  | .now, g, t => g.checked t
  | .decrypt box, g, .ok p =>
      if g.held.map ConnectedAccount.encryptedRefreshToken = some box then
        { g with opened := some p }
      else g
  | .decrypt _, g, .error _ => { g with held := none }
  | .encrypt p, g, .ok box => { g with boxes := (p, box) :: g.boxes }
  | .encrypt _, g, .error _ => { g with held := none }
  | .refreshGrant _ rt, g, .ok tok => { g with granted := some (rt, tok) }
  | .refreshGrant .., g, .error _ => { g with held := none }
  | .exchange .., g, .ok tok => { g with issued := some tok }
  | _, g, _ => g

end Record

/-- Refreshes, callbacks and disconnects, any number at once. -/
def requests (b : OAuthBroker) (O : Outside) : Effect.System gateway Unit Job Record Bureau where
  sem := bureauSem O
  starts := fun _ ↦ True
  body
    | .refresh j => do
        let _ ← b.refreshAndPersist j.1 j.2
        return .inl ()
    | .connect r => do
        let _ ← b.callbackHandler r
        return .inl ()
    | .disconnect ctx vendor => do
        let _ ← handleDisconnect ctx vendor
        return .inl ()
  init := fun _ ↦ .fresh
  track := Record.track
  env := Eq

/-- The condition on the calls of a run: a connection is stored while no refresh of the same
user and vendor holds on to a row. -/
def Apart : Guard gateway Job Record Bureau
  | _, .sql (.putConnectedAccount c), _, _, others =>
      ∀ x ∈ others, x.1 = .refresh c.key → x.2.held = none
  | _, _, _, _, _ => True

/-! ## How requests conduct themselves -/

/-- When a request may make which call. -/
def Permitted (job : Job) : Call → Record → Prop
  | .sql (.getConnectedAccount u v), _ => job = .refresh (u, v)
  | .sql (.getAuthConfig _), _ => True
  | .sql (.updateConnectedAccountTokens u v box _), g =>
      job = .refresh (u, v) ∧ ∃ a rt tok, g.held = some a ∧ g.opened = some rt ∧
        g.granted = some (rt, tok) ∧ (tok.accessToken, box) ∈ g.boxes
  | .sql (.putConnectedAccount c), g =>
      (∀ j, job ≠ .refresh j) ∧ ∃ tok, g.issued = some tok ∧ (tok.refreshToken, c.encryptedRefreshToken) ∈ g.boxes ∧
        (tok.accessToken, c.encryptedAccessToken) ∈ g.boxes
  | .sql (.deleteConnectedAccount ..), _ => True
  | .sql (.appendAudit _), _ => True
  | .sql _, _ => False
  | .refreshGrant _ rt, g => ∃ j a, job = .refresh j ∧ g.held = some a ∧ g.opened = some rt
  | .now, _ => True
  | .decrypt _, _ => True
  | .encrypt _, _ => True
  | .exchange .., _ => True
  | _, _ => False

section Conducts

variable {b : OAuthBroker} {job : Job}

abbrev Conducts {α : Type} (job : Job) (fin : α → Record → Prop) (p : Code α) (g : Record) :
    Prop :=
  Conforms (S := gateway) Record.track (Permitted job) fin p g

/-- Whatever the record. -/
def Ends {α : Type} (_ : α) (_ : Record) : Prop := True

/-- Opening the client secret keeps the row that is held. -/
theorem oauthConfigFor_conducts (ac : AuthConfig) (scopes : List String) (g : Record) :
    Conducts job (fun r g' ↦ ∀ conf, r = .ok conf → ∃ opened, g' = { g with opened })
      (b.oauthConfigFor ac scopes) g := by
  unfold OAuthBroker.oauthConfigFor
  split
  · exact fun _ _ ↦ ⟨g.opened, rfl⟩
  · refine conforms_call.mpr ⟨trivial, fun r ↦ ?_⟩
    cases r with
    | error e => exact nofun
    | ok secret =>
        intro conf hconf
        by_cases h : g.held.map ConnectedAccount.encryptedRefreshToken =
            some ac.encryptedClientSecret
        · exact ⟨some secret, if_pos h⟩
        · exact ⟨g.opened, if_neg h⟩

theorem refreshAndPersist_conducts (j : Holder) :
    Conducts (.refresh j) Ends (b.refreshAndPersist j.1 j.2) .fresh := by
  refine conforms_call.mpr ⟨rfl, fun r ↦ ?_⟩
  cases r with
  | error e => trivial
  | ok acct =>
      refine conforms_call.mpr ⟨trivial, fun t ↦ ?_⟩
      split
      · refine conforms_call.mpr ⟨trivial, fun r ↦ ?_⟩
        cases r with
        | error e => trivial
        | ok token => trivial
      · rename_i hstale
        have hheld (g : Record) (hg : g.held = some acct) : Record.track .now g t = g := by
          show g.checked t = g
          rw [Record.checked, hg]
          exact if_neg hstale
        rw [hheld _ rfl]
        refine conforms_call.mpr ⟨trivial, fun r ↦ ?_⟩
        cases r with
        | error e => trivial
        | ok ac =>
            refine (oauthConfigFor_conducts ac acct.grantedScopes _).bind fun r g hg ↦ ?_
            cases r with
            | error e => trivial
            | ok conf =>
                obtain ⟨opened, rfl⟩ := hg conf rfl
                refine conforms_call.mpr ⟨trivial, fun r ↦ ?_⟩
                cases r with
                | error e => trivial
                | ok rt =>
                    have hopened (g : Record) (hg : g.held = some acct) :
                        Record.track (.decrypt acct.encryptedRefreshToken) g (.ok rt) =
                          { g with opened := some rt } := by
                      refine if_pos ?_
                      rw [hg]
                      rfl
                    rw [hopened _ rfl]
                    refine conforms_call.mpr ⟨⟨j, acct, rfl, rfl, rfl⟩, fun r ↦ ?_⟩
                    cases r with
                    | error e => trivial
                    | ok newTok =>
                        refine conforms_call.mpr ⟨trivial, fun r ↦ ?_⟩
                        cases r with
                        | error e => trivial
                        | ok encAccess =>
                            refine conforms_call.mpr ⟨⟨rfl, acct, rt, newTok, rfl, rfl, rfl, ?_⟩,
                              fun _ ↦ trivial⟩
                            exact .head _

theorem storeAccount_conducts {r : Request} (fs : OAuthFlowState) (tok : OAuthToken) (g : Record)
    (hissued : g.issued = some tok) :
    Conducts (.connect r) Ends (OAuthBroker.storeAccount fs tok) g := by
  refine conforms_call.mpr ⟨trivial, fun r ↦ ?_⟩
  cases r with
  | error e => trivial
  | ok encRefresh =>
      refine conforms_call.mpr ⟨trivial, fun r ↦ ?_⟩
      cases r with
      | error e => trivial
      | ok encAccess =>
          refine conforms_call.mpr ⟨⟨nofun, tok, hissued, .tail _ (.head _), .head _⟩, fun r ↦ ?_⟩
          cases r with
          | error e => trivial
          | ok _ => trivial

theorem verifyFlow_conducts (v : String) (g : Record) :
    Conducts job Ends (b.verifyFlow v) g := by
  unfold OAuthBroker.verifyFlow
  split
  · trivial
  · refine conforms_call.mpr ⟨trivial, fun t ↦ ?_⟩
    split
    · trivial
    · trivial

theorem callbackHandler_conducts (r : Request) (g : Record) :
    Conducts (.connect r) Ends (b.callbackHandler r) g := by
  unfold OAuthBroker.callbackHandler
  split
  · trivial
  · refine (verifyFlow_conducts _ g).bind fun flow g _ ↦ ?_
    cases flow with
    | error e => trivial
    | ok fs =>
        dsimp only
        split
        · trivial
        split
        · trivial
        refine conforms_call.mpr ⟨trivial, fun r ↦ ?_⟩
        cases r with
        | error e => trivial
        | ok ac =>
            refine (oauthConfigFor_conducts ac fs.scopes _).bind fun r g _ ↦ ?_
            cases r with
            | error e => trivial
            | ok conf =>
                refine conforms_call.mpr ⟨trivial, fun r ↦ ?_⟩
                cases r with
                | error e => trivial
                | ok tok =>
                    dsimp only
                    split
                    · trivial
                    · exact storeAccount_conducts fs tok _ rfl

theorem handleDisconnect_conducts (ctx : Ctx) (vendor : String) (g : Record) :
    Conducts job Ends (handleDisconnect ctx vendor) g := by
  unfold handleDisconnect
  split
  · trivial
  · refine conforms_call.mpr ⟨trivial, fun r ↦ ?_⟩
    cases r with
    | error e => trivial
    | ok _ => exact ⟨trivial, fun _ ↦ ⟨trivial, fun _ ↦ trivial⟩⟩

end Conducts

/-! ## The invariant -/

/-- What is known of the record of a request. -/
structure Honest (O : Outside) (s : Bureau) (x : Job × Record) : Prop where
  boxes : ∀ y ∈ x.2.boxes, O.opens y.2 = some y.1
  held : ∀ j a, x.1 = .refresh j → x.2.held = some a →
    (∃ rt n, O.opens a.encryptedRefreshToken = some rt ∧ (rt, n) ∈ s.ledger.refreshes) ∧
      ∀ cur, s.world.db.connectedAccounts.get? j = some cur →
        cur.encryptedRefreshToken = a.encryptedRefreshToken
  opened : ∀ a rt, x.2.held = some a → x.2.opened = some rt →
    O.opens a.encryptedRefreshToken = some rt
  granted : ∀ rt tok, x.2.granted = some (rt, tok) →
    (rt, tok.accessToken) ∈ s.ledger.grants ∧ s.ledger.Together rt tok.accessToken
  issued : ∀ tok, x.2.issued = some tok → s.ledger.Together tok.refreshToken tok.accessToken

/-- The store agrees with the provider, and requests with both. -/
def Agreed (O : Outside) (s : Bureau) (xs : Multiset (Job × Record)) : Prop :=
  Paired O s ∧ ∀ x ∈ xs, Honest O s x

section Steps

variable {O : Outside} {s s' : Bureau} {x : Job × Record} {xs : Multiset (Job × Record)}
  {job : Job} {g g' : Record}

theorem SameAuthorization.mono {l l' : Ledger} {a : ConnectedAccount}
    (h : SameAuthorization O l a) (hl : l.Grows l') : SameAuthorization O l' a := by
  obtain ⟨rt, tok, hrt, htok, htogether⟩ := h
  exact ⟨rt, tok, hrt, htok, htogether.mono hl⟩

/-- What is known of a request stays known while the ledger grows and the row it holds on
to keeps its refresh token. -/
theorem Honest.mono (h : Honest O s x) (hl : s.ledger.Grows s'.ledger)
    (hrows : ∀ j, x.1 = .refresh j → x.2.held ≠ none → ∀ cur,
      s'.world.db.connectedAccounts.get? j = some cur →
        ∃ old, s.world.db.connectedAccounts.get? j = some old ∧
          cur.encryptedRefreshToken = old.encryptedRefreshToken) : Honest O s' x := by
  refine ⟨h.boxes, fun j a hj ha ↦ ?_, h.opened, fun rt tok hgranted ↦ ?_, fun tok hissued ↦ ?_⟩
  · obtain ⟨⟨rt, n, hrt, hn⟩, hcur⟩ := h.held j a hj ha
    refine ⟨⟨rt, n, hrt, hl.refreshes hn⟩, fun cur hget ↦ ?_⟩
    obtain ⟨old, hold, hsame⟩ := hrows j hj (ha ▸ Option.some_ne_none a) cur hget
    exact hsame.trans (hcur old hold)
  · obtain ⟨hgrant, htogether⟩ := h.granted rt tok hgranted
    exact ⟨hl.grants hgrant, htogether.mono hl⟩
  · exact (h.issued tok hissued).mono hl

/-- A call that writes no account. -/
theorem Agreed.quiet (h : Agreed O s ((job, g) ::ₘ xs)) (hl : s.ledger.Grows s'.ledger)
    (hdb : s'.world.db.connectedAccounts = s.world.db.connectedAccounts) (hdue : s'.due = s.due)
    (hown : Honest O s' (job, g) → Honest O s' (job, g')) : Agreed O s' ((job, g') ::ₘ xs) := by
  obtain ⟨hpaired, hhonest⟩ := h
  have hmono : ∀ x ∈ (job, g) ::ₘ xs, Honest O s' x := fun x hx ↦
    (hhonest x hx).mono hl fun j _ _ cur hcur ↦ ⟨cur, hdb ▸ hcur, rfl⟩
  refine ⟨⟨fun j a ha ↦ ?_, fun j ↦ ?_⟩, Multiset.forall_mem_cons.mpr ⟨?_, fun x hx ↦ ?_⟩⟩
  · exact (hpaired.same j a (hdb ▸ ha)).mono hl
  · rw [hdb, hdue]
    exact hpaired.due j
  · exact hown (hmono _ (Multiset.mem_cons_self _ _))
  · exact hmono x (Multiset.mem_cons_of_mem hx)

/-! ### Records -/

theorem Honest.drop (h : Honest O s (job, g)) : Honest O s (job, { g with held := none }) :=
  ⟨h.boxes, nofun, nofun, h.granted, h.issued⟩

theorem Honest.checked (h : Honest O s (job, g)) (t : Time) : Honest O s (job, g.checked t) := by
  unfold Record.checked
  split
  · split
    · exact h.drop
    · exact h
  · exact h

theorem Honest.decrypted (h : Honest O s (job, g)) {box p : String} (hopen : O.opens box = some p) :
    Honest O s (job, Record.track (.decrypt box) g (.ok p)) := by
  show Honest O s (job, if g.held.map _ = some box then _ else g)
  split
  · rename_i hbox
    refine ⟨h.boxes, h.held, fun a rt ha hrt ↦ ?_, h.granted, h.issued⟩
    have ha : g.held = some a := ha
    rw [ha, Option.map_some, Option.some.injEq] at hbox
    rw [hbox, hopen]
    exact hrt
  · exact h

theorem Honest.encrypted (h : Honest O s (job, g)) {box p : String} (hopen : O.opens box = some p) :
    Honest O s (job, { g with boxes := (p, box) :: g.boxes }) :=
  ⟨List.forall_mem_cons.mpr ⟨hopen, h.boxes⟩, h.held, h.opened, h.granted, h.issued⟩

/-- The row that was read is held. -/
theorem Honest.read (h : Honest O s (job, g)) (hpaired : Paired O s) {j : Holder}
    {a : ConnectedAccount} (hjob : job = .refresh j)
    (ha : s.world.db.connectedAccounts.get? j = some a) :
    Honest O s (job, { g with held := some a, opened := none }) := by
  refine ⟨h.boxes, fun j' a' hj' ha' ↦ ?_, nofun, h.granted, h.issued⟩
  cases ha'
  cases hjob.symm.trans hj'
  obtain ⟨rt, tok, hrt, -, n, hn, -⟩ := hpaired.same j a ha
  refine ⟨⟨rt, n, hrt, hn⟩, fun cur hcur ↦ ?_⟩
  rw [ha, Option.some.injEq] at hcur
  rw [hcur]

/-! ### Calls -/

/-- A statement takes effect or fails. -/
theorem bureau_sql {c : Sql} {r : Except Err c.Ans} (h : bureauSem O (.sql c) s r s') :
    (r = (c.apply s.world.db).1 ∧ s'.world.db = (c.apply s.world.db).2) ∨
      ((∃ e, r = .error e) ∧ s'.world = s.world) := by
  obtain ⟨⟨⟨hr, hworld⟩ | ⟨-, hfails, hworld⟩, hatomic⟩, -⟩ := h
  · exact .inl ⟨hr, congrArg World.db hworld⟩
  · have hfails : ∃ e, r = .error e := hfails.imp fun _ h ↦ h.1
    rcases hworld, hatomic with ⟨hworld | hworld, hr | hsame⟩
    · exact .inr ⟨hfails, hworld⟩
    · exact .inr ⟨hfails, hworld⟩
    · exact .inl ⟨hr, congrArg World.db hworld⟩
    · exact .inr ⟨hfails, hsame⟩

theorem bureau_grows {e : Call} {r : e.Res} (h : bureauSem O e s r s') :
    s.ledger.Grows s'.ledger := by
  rw [h.2.1]
  exact Ledger.note_grows e s.ledger r

theorem bureau_accounts {e : Call} {r : e.Res} (h : bureauSem O e s r s')
    (he : Writes [.audit] e) :
    s'.world.db.connectedAccounts = s.world.db.connectedAccounts :=
  have hnot : Tbl.connectedAccounts ∉ [.audit] := by decide
  sem_writes he h.1.1 hnot

/-- A callback stores what it was issued. -/
theorem Agreed.put {c : ConnectedAccount} {r : Except Err Unit}
    (h : Agreed O s ((job, g) ::ₘ xs)) (hpre : Permitted job (.sql (.putConnectedAccount c)) g)
    (hok : ∀ x ∈ xs, x.1 = .refresh c.key → x.2.held = none)
    (hr : bureauSem O (.sql (.putConnectedAccount c)) s r s') :
    Agreed O s' ((job, g) ::ₘ xs) := by
  obtain ⟨hpaired, hhonest⟩ := id h
  have hl := bureau_grows hr
  have hdue := hr.2.2
  rcases bureau_sql hr with ⟨rfl, hworld⟩ | ⟨⟨e, rfl⟩, hworld⟩
  · obtain ⟨hjob, tok, hissued, hrefresh, haccess⟩ := hpre
    have hme := hhonest _ (Multiset.mem_cons_self _ _)
    have hget (k : Holder) : s'.world.db.connectedAccounts.get? k =
        if k = c.key then some (throughStore c) else s.world.db.connectedAccounts.get? k := by
      rw [hworld]
      exact Sql.get?_putConnectedAccount c s.world.db k
    refine ⟨⟨fun j a ha ↦ ?_, fun j ↦ ?_⟩, fun x hx ↦ (hhonest x hx).mono hl ?_⟩
    · rw [hget] at ha
      split at ha
      · cases ha
        refine ⟨tok.refreshToken, tok.accessToken, hme.boxes _ hrefresh, hme.boxes _ haccess, ?_⟩
        exact (hme.issued tok hissued).mono hl
      · exact (hpaired.same j a ha).mono hl
    · rw [hget, hdue]
      show _ = if j = c.key then _ else _
      rw [hpaired.due j]
    · -- The row that is stored is held on to by nobody.
      intro j hj hsome cur hcur
      rw [hget] at hcur
      split at hcur
      · rename_i hkey
        subst hkey
        rcases Multiset.mem_cons.mp hx with rfl | hx
        · exact absurd hj (hjob _)
        · exact absurd (hok x hx hj) hsome
      · exact ⟨cur, hcur, rfl⟩
  · exact h.quiet hl (congrArg (fun w ↦ w.db.connectedAccounts) hworld) hdue id

/-- A disconnect removes the row. -/
theorem Agreed.delete {j : Holder} {r : Except Err Unit} (h : Agreed O s ((job, g) ::ₘ xs))
    (hr : bureauSem O (.sql (.deleteConnectedAccount j.1 j.2)) s r s') :
    Agreed O s' ((job, g) ::ₘ xs) := by
  obtain ⟨hpaired, hhonest⟩ := id h
  have hl := bureau_grows hr
  have hdue := hr.2.2
  rcases bureau_sql hr with ⟨rfl, hworld⟩ | ⟨⟨e, rfl⟩, hworld⟩
  · have hget (k : Holder) : s'.world.db.connectedAccounts.get? k =
        if k = j then none else s.world.db.connectedAccounts.get? k := by
      rw [hworld]
      exact Sql.get?_deleteConnectedAccount j s.world.db k
    refine ⟨⟨fun k a ha ↦ ?_, fun k ↦ ?_⟩, fun x hx ↦ (hhonest x hx).mono hl ?_⟩
    · rw [hget] at ha
      split at ha
      · cases ha
      · exact (hpaired.same k a ha).mono hl
    · rw [hget, hdue]
      show _ = if k = j then _ else _
      rw [hpaired.due k]
    · intro k _ _ cur hcur
      rw [hget] at hcur
      split at hcur
      · cases hcur
      · exact ⟨cur, hcur, rfl⟩
  · exact h.quiet hl (congrArg (fun w ↦ w.db.connectedAccounts) hworld) hdue id

/-- A refresh updates the row whose refresh token it was made with. -/
theorem Agreed.update {j : Holder} {box : String} {exp : Time} {r : Except Err Unit}
    (h : Agreed O s ((job, g) ::ₘ xs))
    (hpre : Permitted job (.sql (.updateConnectedAccountTokens j.1 j.2 box exp)) g)
    (hr : bureauSem O (.sql (.updateConnectedAccountTokens j.1 j.2 box exp)) s r s') :
    Agreed O s' ((job, { g with held := none }) ::ₘ xs) := by
  obtain ⟨hpaired, hhonest⟩ := id h
  have hl := bureau_grows hr
  have hdue := hr.2.2
  have hquiet (hdb : s'.world.db.connectedAccounts = s.world.db.connectedAccounts)
      (hdue : s'.due = s.due) : Agreed O s' ((job, { g with held := none }) ::ₘ xs) :=
    h.quiet hl hdb hdue Honest.drop
  rcases bureau_sql hr with ⟨rfl, hworld⟩ | ⟨⟨e, rfl⟩, hworld⟩
  · obtain ⟨hjob, a, rt, tok, hheld, hopened, hgranted, hbox⟩ := hpre
    have hme := hhonest _ (Multiset.mem_cons_self _ _)
    have hget (k : Holder) : s'.world.db.connectedAccounts.get? k =
        if k = j then (s.world.db.connectedAccounts.get? k).map fun a ↦
          { a with encryptedAccessToken := box, expiresAt := exp.throughColumn }
        else s.world.db.connectedAccounts.get? k := by
      rw [hworld]
      exact Sql.get?_updateConnectedAccountTokens j box exp s.world.db k
    have hopen : O.opens box = some tok.accessToken := hme.boxes _ hbox
    obtain ⟨hgrant, htogether⟩ := hme.granted rt tok hgranted
    have hrows : ∀ x ∈ (job, { g with held := none }) ::ₘ xs, Honest O s' x := by
      intro x hx
      have hx : Honest O s x := by
        rcases Multiset.mem_cons.mp hx with rfl | hx
        · exact hme.drop
        · exact hhonest x (Multiset.mem_cons_of_mem hx)
      refine hx.mono hl fun k _ _ cur hcur ↦ ?_
      rw [hget] at hcur
      split at hcur
      · obtain ⟨old, hold, rfl⟩ := Option.map_eq_some_iff.mp hcur
        exact ⟨old, hold, rfl⟩
      · exact ⟨cur, hcur, rfl⟩
    -- The row in place has the refresh token of the row that was read.
    have hcurrent : ∀ cur, s.world.db.connectedAccounts.get? j = some cur →
        O.opens cur.encryptedRefreshToken = some rt := fun cur hcur ↦ by
      rw [(hme.held j a hjob hheld).2 cur hcur]
      exact hme.opened a rt hheld hopened
    refine ⟨⟨fun k cur hcur ↦ ?_, fun k ↦ ?_⟩, hrows⟩
    · rw [hget] at hcur
      split at hcur
      · rename_i hk
        subst hk
        obtain ⟨old, hold, rfl⟩ := Option.map_eq_some_iff.mp hcur
        exact ⟨rt, tok.accessToken, hcurrent old hold, hopen, htogether.mono hl⟩
      · exact (hpaired.same k cur hcur).mono hl
    · rw [hget, hdue]
      cases hrow : s.world.db.connectedAccounts.get? j with
      | none =>
          have hanswer : ((Sql.updateConnectedAccountTokens j.1 j.2 box exp).apply s.world.db).1 =
              .error .connectedAccountNotFound := if_neg (by rw [hrow]; exact Bool.false_ne_true)
          rw [hanswer]
          split
          · rename_i hk
            subst hk
            rw [hrow]
            exact hrow.symm.trans (hpaired.due k)
          · exact hpaired.due k
      | some cur =>
          have hanswer : ((Sql.updateConnectedAccountTokens j.1 j.2 box exp).apply s.world.db).1 =
              .ok () := if_pos (by rw [hrow]; rfl)
          have hown : Own O s.ledger cur box := ⟨_, hgrant, hcurrent cur hrow, hopen⟩
          rw [hanswer]
          show _ = if k = j then _ else _
          rw [← hpaired.due k]
          split
          · rename_i hk
            subst hk
            rw [hrow, Option.map_some, Option.map_some, if_pos hown]
          · rfl
  · exact hquiet (congrArg (fun w ↦ w.db.connectedAccounts) hworld) hdue

/-- **Step lemma.**  A permitted call that meets the condition keeps the agreement. -/
theorem Agreed.call {e : Call} {r : e.Res} (h : Agreed O s ((job, g) ::ₘ xs))
    (hpre : Permitted job e g) (hok : Apart job e g s xs) (hr : bureauSem O e s r s') :
    Agreed O s' ((job, Record.track e g r) ::ₘ xs) := by
  have hl := bureau_grows hr
  cases e with
  | sql c =>
      cases c with
      | putConnectedAccount c => exact h.put hpre hok hr
      | deleteConnectedAccount u v => exact h.delete (j := (u, v)) hr
      | updateConnectedAccountTokens u v box exp => exact h.update (j := (u, v)) hpre hr
      | getAuthConfig vendor =>
          refine h.quiet hl (bureau_accounts hr (List.nil_subset _)) hr.2.2 fun hme ↦ ?_
          cases r with
          | error e => exact hme.drop
          | ok ac => exact hme
      | appendAudit event => exact h.quiet hl (bureau_accounts hr (List.Subset.refl _)) hr.2.2 id
      | getConnectedAccount u v =>
          have hdb := bureau_accounts hr (List.nil_subset _)
          have hpaired : Paired O s' := (h.quiet hl hdb hr.2.2 id).1
          refine h.quiet hl hdb hr.2.2 fun hme ↦ ?_
          cases r with
          | error e => exact hme
          | ok a =>
              refine hme.read hpaired hpre ?_
              rw [hdb]
              exact Sql.fetch_eq_ok.mp (sem_sql_ok hr.1.1).1
      | _ => exact hpre.elim
  | now => exact h.quiet hl (bureau_accounts hr trivial) hr.2.2 fun hme ↦ hme.checked r
  | decrypt box =>
      refine h.quiet hl (bureau_accounts hr trivial) hr.2.2 fun hme ↦ ?_
      cases r with
      | error e => exact hme.drop
      | ok p => exact hme.decrypted (sem_decrypt_ok hr.1.1).1
  | encrypt p =>
      refine h.quiet hl (bureau_accounts hr trivial) hr.2.2 fun hme ↦ ?_
      cases r with
      | error e => exact hme.drop
      | ok box =>
          obtain ⟨-, ⟨box', hbox, hopen⟩ | ⟨e, he, -⟩⟩ := hr.1.1
          · cases hbox
            exact hme.encrypted hopen
          · cases he
  | exchange conf code verifier =>
      refine h.quiet hl (bureau_accounts hr trivial) hr.2.2 fun hme ↦ ?_
      cases r with
      | error e => exact hme
      | ok tok =>
          refine ⟨hme.boxes, hme.held, hme.opened, hme.granted, ?_⟩
          rintro _ ⟨rfl⟩
          rw [hr.2.1]
          exact s.ledger.exchanged_together tok
  | refreshGrant conf rt =>
      refine h.quiet hl (bureau_accounts hr trivial) hr.2.2 fun hme ↦ ?_
      cases r with
      | error e => exact hme.drop
      | ok tok =>
          obtain ⟨j, a, hjob, hheld, hopened⟩ := hpre
          have hold := h.2 _ (Multiset.mem_cons_self _ _)
          obtain ⟨⟨rt', n, hrt', hn⟩, -⟩ := hold.held j a hjob hheld
          obtain rfl : rt' = rt := Option.some.inj (hrt'.symm.trans (hold.opened a rt hheld hopened))
          refine ⟨hme.boxes, hme.held, hme.opened, ?_, hme.issued⟩
          rintro _ _ ⟨rfl, rfl⟩
          rw [hr.2.1]
          exact ⟨.head _, Ledger.granted_together hn tok⟩
  | _ => exact hpre.elim

end Steps

/-- Requests that stay apart keep store and provider in agreement. -/
def agreement (b : OAuthBroker) (O : Outside) : GuardedDiscipline (requests b O) Apart where
  pre := Permitted
  fin := fun _ x _ ↦ x = .inl ()
  Inv := Agreed O
  body_conforms := by
    intro job _
    cases job with
    | refresh j => exact (refreshAndPersist_conducts j).bind fun _ _ _ ↦ rfl
    | connect r => exact (callbackHandler_conducts r _).bind fun _ _ _ ↦ rfl
    | disconnect ctx vendor => exact (handleDisconnect_conducts ctx vendor _).bind fun _ _ _ ↦ rfl
  again_conforms := fun _ _ _ _ _ _ hfin ↦ nomatch hfin
  inv_start := fun s xs job _ h ↦
    ⟨h.1, Multiset.forall_mem_cons.mpr ⟨⟨nofun, nofun, nofun, nofun, nofun⟩, h.2⟩⟩
  inv_call := fun _ _ _ _ _ _ _ h hpre hok hr ↦ h.call hpre hok hr
  inv_again := fun _ _ _ _ _ _ hfin ↦ nomatch hfin
  inv_env := by
    rintro s xs _ h rfl
    exact h

/-- However refreshes, callbacks and disconnects interleave, from a store that agrees with
the provider, and as long as a connection is stored while no refresh of the same user and
vendor holds on to a row: the tokens of every row were issued under one authorization, and
the row is the one the last callback has stored, up to refreshes made with its own refresh
token. -/
theorem reconnect_survives {b : OAuthBroker} {O : Outside} {s : Bureau}
    {c : Pool gateway Unit Job Record Bureau} (hs : Paired O s)
    (hc : (requests b O).ReachIf Apart ⟨s, []⟩ c) : Paired O c.shared := by
  have hstart : (agreement b O).Good ⟨s, []⟩ :=
    (agreement b O).good_nil ⟨hs, fun x hx ↦ absurd hx (Multiset.notMem_zero x)⟩
  exact ((agreement b O).good hstart hc).inv.1

namespace Example.Github

/-- A flow cookie names the first user. -/
def broker : OAuthBroker :=
  ⟨⟨fun _ ↦ .ok "", fun _ ↦ .ok ⟨"", "", "github", 1, "", [], 0⟩⟩, "", fun _ _ _ ↦ ""⟩

def alice : Holder := (1, "github")

def account (refresh access : String) : ConnectedAccount :=
  ⟨1, "github", Partners.vaultSeal refresh, Partners.vaultSeal access, 0, []⟩

/-- Alice's access token has expired. -/
def store : Database :=
  [Sql.putAuthConfig ⟨"github", "", "", "", "", [], true, ""⟩,
    .putConnectedAccount (account "old refresh" "old access")].foldl
      (fun db c ↦ (c.apply db).2) .fresh

/-- Her connection is the first authorization. -/
def bureau : Bureau :=
  ⟨.boot store 0, ⟨[("old refresh", 0)], [("old access", 0)], [], 1⟩, store.connectedAccounts.get?⟩

theorem bureau_paired : Paired Partners.outside bureau := by
  refine ⟨fun j a ha ↦ ?_, fun _ ↦ rfl⟩
  have hrows : store.connectedAccounts.rows = [account "old refresh" "old access"] := rfl
  have hmem := Data.Table.mem_of_get? ha
  rw [show bureau.world.db.connectedAccounts.rows = _ from hrows, List.mem_singleton] at hmem
  subst hmem
  exact ⟨"old refresh", "old access", rfl, rfl, 0, .head _, .head _⟩

def partners : Partners := ⟨⟨[]⟩, []⟩

/-- The local partners, with a code exchange that issues other tokens than a refresh. -/
def answer : (e : Call) → World → Option (e.Res × World)
  | .exchange .., w => some (.ok ⟨"new access", "new refresh", 0, none⟩, w)
  | e, w => partners.answer e w

def bureauAnswer : (e : Call) → Bureau → Option (e.Res × Bureau) := fun e s ↦
  (answer e s.world).map fun x ↦
    (x.1, ⟨x.2, s.ledger.note e x.1, s.dueNote Partners.outside e x.1⟩)

theorem answer_sem {e : Call} {w w' : World} {r : e.Res} (h : answer e w = some (r, w'))
    (faults : Call → Prop) : sem Partners.outside faults e w r w' := by
  unfold answer at h
  split at h
  · cases h
    exact ⟨rfl, Partners.foreign_ok _⟩
  · exact partners.answer_sem h faults

theorem bureauAnswer_sem {e : Call} {s s' : Bureau} {r : e.Res}
    (h : bureauAnswer e s = some (r, s')) : bureauSem Partners.outside e s r s' := by
  obtain ⟨⟨r, w'⟩, hanswer, heq⟩ := Option.map_eq_some_iff.mp h
  cases heq
  refine ⟨⟨answer_sem hanswer _, ?_⟩, rfl, rfl⟩
  cases e with
  | sql c =>
      cases hanswer
      exact .inl rfl
  | _ => trivial

def callback : Request := ⟨"GET", [], true, [], none, some "cookie", none, none,
  .malformed false ""⟩

/-- A refresh runs, and then Alice connects again. -/
def apart : List (Move Job) :=
  .start (.refresh alice) :: List.replicate 7 (.step 0) ++
    .start (.connect callback) :: List.replicate 6 (.step 1)

/-- Alice connects again while a refresh holds on to the row it has read. -/
def mixed : List (Move Job) :=
  .start (.refresh alice) :: .start (.connect callback) :: .step 0 :: List.replicate 6 (.step 1) ++
    List.replicate 6 (.step 0)

abbrev after (moves : List (Move Job)) : Pool gateway Unit Job Record Bureau :=
  (requests broker Partners.outside).play bureauAnswer ⟨bureau, []⟩ moves

end Example.Github

open Example.Github in
/-- A connection that is stored after a refresh has ended holds what the callback was
issued. -/
theorem reconnect_survives_refresh :
    (requests broker Partners.outside).ReachIf Apart ⟨bureau, []⟩ (after apart) ∧
      (after apart).shared.world.db.connectedAccounts.get? alice =
        some (account "new refresh" "new access") ∧
      Paired Partners.outside (after apart).shared := by
  have hmeets : System.Meets (requests broker Partners.outside) bureauAnswer Apart ⟨bureau, []⟩
      apart := by
    refine ⟨trivial, trivial, trivial, trivial, trivial, trivial, trivial, trivial, trivial,
      trivial, trivial, trivial, trivial, trivial, ?_, trivial⟩
    intro x hx _
    obtain rfl := Multiset.mem_singleton.mp hx
    rfl
  have hreach : (requests broker Partners.outside).ReachIf Apart ⟨bureau, []⟩ (after apart) :=
    System.reachIf_play (fun _ _ _ _ h ↦ bureauAnswer_sem h) (fun _ _ ↦ trivial) _ hmeets
  exact ⟨hreach, rfl, reconnect_survives bureau_paired hreach⟩

open Example.Github in
/-- A refresh that has read the old connection overwrites the access token of the new one
with one of the old authorization. -/
theorem reconnect_overwritten :
    Paired Partners.outside bureau ∧
      (requests broker Partners.outside).Reach ⟨bureau, []⟩ (after mixed) ∧
      (after mixed).shared.world.db.connectedAccounts.get? alice =
        some (account "new refresh" "access") ∧
      (after mixed).shared.due alice = some (account "new refresh" "new access") ∧
      ¬ SameAuthorization Partners.outside (after mixed).shared.ledger
        (account "new refresh" "access") := by
  refine ⟨bureau_paired, ?_, rfl, rfl, ?_⟩
  · exact System.reach_play (fun _ _ _ _ h ↦ bureauAnswer_sem h) (fun _ _ ↦ trivial) _
  · rintro ⟨rt, tok, hrt, htok, n, hrefresh, haccess⟩
    have hrt : some "new refresh" = some rt := hrt
    have htok : some "access" = some tok := htok
    cases hrt
    cases htok
    have hrefresh : ("new refresh", n) ∈ [("refresh", 0), ("new refresh", 1), ("old refresh", 0)] :=
      hrefresh
    have haccess : ("access", n) ∈ [("access", 0), ("new access", 1), ("old access", 0)] := haccess
    simp only [List.mem_cons, Prod.mk.injEq, List.not_mem_nil, or_false] at hrefresh haccess
    obtain ⟨h, -⟩ | ⟨-, rfl⟩ | ⟨h, -⟩ := hrefresh
    · exact absurd h (by decide)
    · simp at haccess
    · exact absurd h (by decide)

end GigMcp.Api.Reconnect
