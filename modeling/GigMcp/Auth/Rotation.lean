import GigMcp.Auth.Refresh
import GigMcp.System.Local

/-!
# Refresh tokens that rotate

A provider may answer a refresh grant with a new refresh token, and from then on reject
the old one.  `Books` is the provider's side of the connections next to the gateway's: the
refresh token it issued last for a user and a vendor, and those it has replaced.

A connect callback stores the refresh token it was issued.  A refresh shows the stored
one and then writes the access token and the expiry of the row, whatever refresh token
it was answered with.  So the row keeps up with the provider exactly as long as refresh
grants do not rotate.
-/

namespace GigMcp.Auth.Rotation

open GigMcp.Effect GigMcp.System GigMcp.Store GigMcp.Http

/-! ## The provider's books -/

/-- What a provider has seen and done while a request was served, the latest first: the
refresh tokens it was shown, those it issued, and those it replaced. -/
structure Notes where
  shown : List String
  issued : List String
  replaced : List String

namespace Notes

def blank : Notes := ⟨[], [], []⟩

/-- A response without a refresh token issues none. -/
def issue (n : Notes) (tok : OAuthToken) : Notes :=
  if tok.refreshToken = "" then n else { n with issued := tok.refreshToken :: n.issued }

/-- A grant replaces the token it was made for by another one. -/
def replace (n : Notes) (rt : String) (tok : OAuthToken) : Notes :=
  if tok.refreshToken = "" ∨ tok.refreshToken = rt then n
  else { n with replaced := rt :: n.replaced }

/-- The notes after a call. -/
def add : (e : Call) → Notes → e.Res → Notes
  | .exchange .., n, .ok tok => n.issue tok
  | .refreshGrant _ rt, n, .ok tok =>
      ({ n with shown := rt :: n.shown }.issue tok).replace rt tok
  | .refreshGrant _ rt, n, .error _ => { n with shown := rt :: n.shown }
  | _, n, _ => n

/-- A grant that answers no refresh token. -/
theorem add_refreshGrant_none (conf : OAuthConfig) (rt : String) (n : Notes) {tok : OAuthToken}
    (h : tok.refreshToken = "") :
    add (.refreshGrant conf rt) n (.ok tok) = { n with shown := rt :: n.shown } := by
  simp only [add, issue, replace, if_pos h, if_pos (Or.inl h)]

/-- A grant that answers the refresh token it was shown. -/
theorem add_refreshGrant_same (conf : OAuthConfig) (n : Notes) {tok : OAuthToken}
    (h : tok.refreshToken ≠ "") :
    add (.refreshGrant conf tok.refreshToken) n (.ok tok) =
      { n with shown := tok.refreshToken :: n.shown, issued := tok.refreshToken :: n.issued } := by
  simp only [add, issue, replace, if_neg h, or_true, if_true]

end Notes

/-- The world, the refresh token last issued to a user by a vendor, and those replaced. -/
structure Books where
  world : World
  latest : Holder → Option String
  replaced : Holder → List String

/-- The box a connection's refresh token is kept in. -/
def refreshBox (db : Database) (j : Holder) : Option String :=
  (db.connectedAccounts.get? j).map ConnectedAccount.encryptedRefreshToken

/-- Books over the connections of a store, whose refresh tokens are current. -/
def Books.start (O : Outside) (w : World) : Books :=
  ⟨w, fun j ↦ (refreshBox w.db j).bind O.opens, fun _ ↦ []⟩

/-- Enter what was noted during a request for a user and a vendor. -/
def Books.enter (s : Books) (holder : Option Holder) (w : World) (n : Notes) : Books where
  world := w
  latest := fun j ↦ if holder = some j then n.issued.head?.or (s.latest j) else s.latest j
  replaced := fun j ↦ if holder = some j then n.replaced ++ s.replaced j else s.replaced j

/-- The stored refresh tokens are the ones issued last. -/
def Kept (O : Outside) (s : Books) : Prop :=
  ∀ j box, refreshBox s.world.db j = some box → O.opens box = s.latest j

/-! ## Requests -/

/-- A request, with what third parties may answer while it is served. -/
inductive Turn
  | connect (answers : (e : Call) → e.Res → Prop) (r : Request)
  | refresh (answers : (e : Call) → e.Res → Prop) (j : Holder)

/-- Whose connection a request is about. -/
def Turn.holder (b : OAuthBroker) : Turn → Option Holder
  | .connect _ r =>
      r.oauthFlow.bind fun cookie ↦
        match b.flow.check cookie with
        | .ok fs => some (fs.userID, fs.vendor)
        | .error _ => none
  | .refresh _ j => some j

/-- Everything but a write to the store may fail. -/
def writesSucceed : Call → Prop
  | .sql c => c.Reads = true
  | _ => True

/-- A provider rejects the tokens it has replaced. -/
def Rejects (replaced : List String) : (e : Call) → e.Res → Prop
  | .refreshGrant _ rt, .ok _ => rt ∉ replaced
  | _, _ => True

/-- The reading of the calls made for a connection. -/
abbrev turnSem (O : Outside) (answers : (e : Call) → e.Res → Prop) (replaced : List String) :
    Sem gateway (World × Notes) :=
  noted (S := gateway) Notes.add
    (answered (fun e r ↦ answers e r ∧ Rejects replaced e r) (sem O writesSucceed))

/-- A request is served to its end. -/
def Serves (b : OAuthBroker) (O : Outside) : Turn → Books → World → Notes → Prop
  | .connect answers r, s, w', n =>
      ∃ resp, Exec (turnSem O answers []) (b.callbackHandler r) (s.world, .blank) resp (w', n)
  | .refresh answers j, s, w', n =>
      ∃ res, Exec (turnSem O answers (s.replaced j)) (b.ensureFreshToken j.1 j.2)
        (s.world, .blank) res (w', n)

/-- The books after a request. -/
def Served (b : OAuthBroker) (O : Outside) (t : Turn) (s s' : Books) : Prop :=
  ∃ w' n, Serves b O t s w' n ∧ s' = s.enter (t.holder b) w' n

/-- The condition on the requests of a run: the vault seals what a callback stores, and a
refresh grant does not rotate the connection's refresh token. -/
def Allowed : Turn → Books → Prop
  | .connect answers _, _ => ∀ p e, ¬ answers (.encrypt p) (.error e)
  | .refresh answers j, s => ∀ conf rt tok, s.latest j = some rt →
      answers (.refreshGrant conf rt) (.ok tok) → tok.refreshToken = "" ∨ tok.refreshToken = rt

/-! ## What requests do to the stored tokens -/

section Boxes

theorem refreshBox_put (c : ConnectedAccount) (db : Database) (k : Holder) :
    refreshBox ((Sql.putConnectedAccount c).apply db).2 k =
      if k = c.key then some c.encryptedRefreshToken else refreshBox db k := by
  rw [refreshBox, Sql.get?_putConnectedAccount]
  split
  · rfl
  · rfl

/-- Storing a refreshed access token leaves every refresh token alone. -/
theorem refreshBox_update (j : Holder) (box : String) (exp : Time) (db : Database) (k : Holder) :
    refreshBox ((Sql.updateConnectedAccountTokens j.1 j.2 box exp).apply db).2 k =
      refreshBox db k := by
  rw [refreshBox, Sql.get?_updateConnectedAccountTokens]
  split
  · exact Option.map_map ..
  · rfl

end Boxes

section Requests

variable {b : OAuthBroker} {O : Outside} {answers : (e : Call) → e.Res → Prop}
  {replaced : List String} {x y : World × Notes}

/-- A write that cannot fail. -/
theorem sem_written {c : Sql} (hc : c.Reads = false) {w w' : World} {r : Except Err c.Ans}
    (h : sem O writesSucceed (.sql c) w r w') :
    r = (c.apply w.db).1 ∧ w' = { w with db := (c.apply w.db).2 } :=
  (sem_healthy fun hr ↦ Bool.false_ne_true (hc.symm.trans hr)).mp h

/-- A call that neither writes to the store nor asks the provider for a token. -/
def Quiet : Call → Prop
  | .sql c => c.Reads = true
  | .exchange .. | .refreshGrant .. => False
  | _ => True

/-- The store and the notes are as they were. -/
structure Still (x y : World × Notes) : Prop where
  db : y.1.db = x.1.db
  notes : y.2 = x.2

theorem Still.refl (x : World × Notes) : Still x x := ⟨rfl, rfl⟩

theorem Still.trans {z : World × Notes} (h : Still x y) (h' : Still y z) : Still x z :=
  ⟨h'.db.trans h.db, h'.notes.trans h.notes⟩

theorem turn_quiet {e : Call} {r : e.Res} (he : Quiet e) (h : turnSem O answers replaced e x r y) :
    Still x y := by
  obtain ⟨⟨hr, -⟩, hnotes⟩ := h
  refine ⟨?_, hnotes.trans ?_⟩
  · rcases sem_db hr with hdb | ⟨c, rfl, hdb⟩
    · exact hdb
    · exact hdb.trans (Sql.apply_of_reads he _)
  · cases e with
    | exchange conf code verifier => exact he.elim
    | refreshGrant conf rt => exact he.elim
    | _ => rfl

section Rules

variable {α β : Type} {x₀ : World × Notes} {Q : β → World × Notes → Prop}

/-- The rule for a quiet call: the store and the notes are still those of `x`. -/
theorem wp_quiet {e : Call} {f : e.Res → Code β} (he : Quiet e) (h₀ : Still x x₀)
    (h : ∀ r x₁, turnSem O answers replaced e x₀ r x₁ → Still x x₁ →
      wp (turnSem O answers replaced) (f r) Q x₁) :
    wp (turnSem O answers replaced) (Prog.call e >>= f) Q x₀ :=
  wp_call.mpr fun r x₁ hr ↦ h r x₁ hr (h₀.trans (turn_quiet he hr))

/-- The same for a program whose calls are quiet. -/
theorem wp_quiet_bind {p : Code α} {f : α → Code β} (hp : All Quiet p) (h₀ : Still x x₀)
    (h : ∀ a x₁, Exec (turnSem O answers replaced) p x₀ a x₁ → Still x x₁ →
      wp (turnSem O answers replaced) (f a) Q x₁) :
    wp (turnSem O answers replaced) (p >>= f) Q x₀ := by
  refine wp_bind.mpr (wp_iff_exec.mpr fun a x₁ hx ↦ h a x₁ hx (h₀.trans ?_))
  refine hp.frame Still.refl (fun _ _ _ ↦ Still.trans) ?_ hx
  exact fun e _ _ _ he ↦ turn_quiet he

end Rules

/-- Opening the client secret is quiet. -/
theorem oauthConfigFor_quiet (ac : AuthConfig) (scopes : List String) :
    All Quiet (b.oauthConfigFor ac scopes) := by
  unfold OAuthBroker.oauthConfigFor
  split
  · exact all_ret
  · refine all_call.mpr ⟨trivial, fun r ↦ ?_⟩
    cases r with
    | error e => exact all_ret
    | ok secret => exact all_ret

/-- What a refresh notes: nothing, or one grant for the refresh token of the row. -/
def Shows (O : Outside) (answers : (e : Call) → e.Res → Prop) (replaced : List String)
    (j : Holder) (x y : World × Notes) : Prop :=
  (∀ k, refreshBox y.1.db k = refreshBox x.1.db k) ∧
    (y.2 = x.2 ∨ ∃ box conf rt res, refreshBox x.1.db j = some box ∧ O.opens box = some rt ∧
      answers (.refreshGrant conf rt) res ∧ Rejects replaced (.refreshGrant conf rt) res ∧
      y.2 = Notes.add (.refreshGrant conf rt) x.2 res)

theorem Shows.of_still {j : Holder} (h : Still x y) : Shows O answers replaced j x y :=
  ⟨fun k ↦ by rw [h.db], .inl h.notes⟩

/-- What happens after calls that are quiet. -/
theorem Shows.after {j : Holder} {x₁ : World × Notes} (h₁ : Still x x₁)
    (h : Shows O answers replaced j x₁ y) : Shows O answers replaced j x y := by
  rw [Shows, h₁.db, h₁.notes] at h
  exact h

/-- The end of a refresh, once the refresh token of the row has been opened. -/
theorem wp_grant {j : Holder} {acct : ConnectedAccount} {conf : OAuthConfig} {rt : String}
    {f : Except Err OAuthToken → Code (Except Err String)} {x₀ : World × Notes}
    (hrow : x.1.db.connectedAccounts.get? j = some acct)
    (hopen : O.opens acct.encryptedRefreshToken = some rt) (h₀ : Still x x₀)
    (hf : ∀ r x₁, x₁.1.db = x.1.db → wp (turnSem O answers replaced) (f r)
      (fun _ y ↦ (∀ k, refreshBox y.1.db k = refreshBox x.1.db k) ∧ y.2 = x₁.2) x₁) :
    wp (turnSem O answers replaced) (perform (.refreshGrant conf rt) >>= f)
      (fun _ y ↦ Shows O answers replaced j x y) x₀ := by
  refine wp_call.mpr ?_
  rintro r x₁ ⟨⟨hr, hanswers, hrejects⟩, hnotes⟩
  have hdb : x₁.1.db = x.1.db := (congrArg World.db hr.1).trans h₀.db
  have hbox : refreshBox x.1.db j = some acct.encryptedRefreshToken :=
    congrArg (Option.map _) hrow
  refine wp_mono ?_ (hf r x₁ hdb)
  rintro _ y ⟨hboxes, hy⟩
  rw [h₀.notes] at hnotes
  exact ⟨hboxes, .inr ⟨_, conf, rt, r, hbox, hopen, hanswers, hrejects, hy.trans hnotes⟩⟩

theorem exec_refreshAndPersist {j : Holder} {r : Except Err String}
    (hx : Exec (turnSem O answers replaced) (b.refreshAndPersist j.1 j.2) x r y) :
    Shows O answers replaced j x y := by
  refine hx.post (Q := fun _ y ↦ Shows O answers replaced j x y) ?_
  refine wp_quiet rfl (.refl x) fun r₁ x₁ hr₁ h₁ ↦ ?_
  cases r₁ with
  | error e => exact Shows.of_still h₁
  | ok acct =>
      have hrow : x.1.db.connectedAccounts.get? j = some acct :=
        Sql.fetch_eq_ok.mp (sem_sql_ok hr₁.1.1).1
      refine wp_quiet trivial h₁ fun t x₂ _ h₂ ↦ ?_
      split
      · refine wp_quiet trivial h₂ fun r₃ x₃ _ h₃ ↦ ?_
        cases r₃ with
        | error e => exact Shows.of_still h₃
        | ok token => exact Shows.of_still h₃
      refine wp_quiet rfl h₂ fun r₃ x₃ _ h₃ ↦ ?_
      cases r₃ with
      | error e => exact Shows.of_still h₃
      | ok ac =>
      refine wp_quiet_bind (oauthConfigFor_quiet ac _) h₃ fun r₄ x₄ _ h₄ ↦ ?_
      cases r₄ with
      | error e => exact Shows.of_still h₄
      | ok conf =>
      refine wp_quiet trivial h₄ fun r₅ x₅ hr₅ h₅ ↦ ?_
      cases r₅ with
      | error e => exact Shows.of_still h₅
      | ok rt =>
      refine wp_grant hrow (sem_decrypt_ok hr₅.1.1).1 h₅ fun r₆ x₆ hdb ↦ ?_
      -- from here on nothing is noted, and no refresh token is written
      cases r₆ with
      | error e => exact ⟨fun k ↦ by rw [hdb], rfl⟩
      | ok newTok =>
      refine wp_quiet trivial (.refl x₆) fun r₇ x₇ _ h₇ ↦ ?_
      have hdb₇ := h₇.db.trans hdb
      cases r₇ with
      | error e => exact ⟨fun k ↦ by rw [hdb₇], h₇.notes⟩
      | ok encAccess =>
      refine wp_call.mpr ?_
      rintro r₈ x₈ ⟨⟨hr₈, -⟩, hnotes⟩
      obtain ⟨-, hworld⟩ := sem_written rfl hr₈
      refine ⟨fun k ↦ ?_, hnotes.trans h₇.notes⟩
      rw [hworld, ← hdb₇]
      exact refreshBox_update j encAccess newTok.expiry x₇.1.db k

/-- A refresh changes no stored refresh token, and shows the one that is stored. -/
theorem exec_ensureFreshToken {j : Holder} {r : Except Err String}
    (hx : Exec (turnSem O answers replaced) (b.ensureFreshToken j.1 j.2) x r y) :
    Shows O answers replaced j x y := by
  refine hx.post (Q := fun _ y ↦ Shows O answers replaced j x y) ?_
  refine wp_quiet rfl (.refl x) fun r₁ x₁ _ h₁ ↦ ?_
  cases r₁ with
  | error e => exact Shows.of_still h₁
  | ok acct =>
      refine wp_quiet trivial h₁ fun t x₂ _ h₂ ↦ ?_
      split
      · refine wp_quiet trivial h₂ fun r₃ x₃ _ h₃ ↦ ?_
        cases r₃ with
        | error e => exact Shows.of_still h₃
        | ok token => exact Shows.of_still h₃
      · exact wp_iff_exec.mpr fun _ _ hx ↦ (exec_refreshAndPersist hx).after h₂

/-- What a callback does: nothing, or it is issued a refresh token for the user and the
vendor of its flow, and stores it unless the vault fails to seal. -/
def Connects (b : OAuthBroker) (O : Outside) (answers : (e : Call) → e.Res → Prop) (r : Request)
    (x y : World × Notes) : Prop :=
  ((∀ k, refreshBox y.1.db k = refreshBox x.1.db k) ∧ y.2 = x.2) ∨
    ∃ j tok, (Turn.connect answers r).holder b = some j ∧ tok.refreshToken ≠ "" ∧
      y.2 = x.2.issue tok ∧
      ((∃ p e, answers (.encrypt p) (.error e)) ∨
        ∃ box, O.opens box = some tok.refreshToken ∧
          ∀ k, refreshBox y.1.db k = if k = j then some box else refreshBox x.1.db k)

/-- A refresh token is stored for a user and a vendor, unless the vault fails to seal. -/
def Stores (O : Outside) (answers : (e : Call) → e.Res → Prop) (j : Holder) (token : String)
    (x y : World × Notes) : Prop :=
  (∃ p e, answers (.encrypt p) (.error e)) ∨
    ∃ box, O.opens box = some token ∧
      ∀ k, refreshBox y.1.db k = if k = j then some box else refreshBox x.1.db k

theorem exec_storeAccount {fs : OAuthFlowState} {tok : OAuthToken} {resp : Response}
    (hx : Exec (turnSem O answers replaced) (OAuthBroker.storeAccount fs tok) x resp y) :
    y.2 = x.2 ∧ Stores O answers (fs.userID, fs.vendor) tok.refreshToken x y := by
  refine hx.post (Q := fun _ y ↦ y.2 = x.2 ∧ Stores O answers (fs.userID, fs.vendor) _ x y) ?_
  refine wp_quiet trivial (.refl x) fun r₁ x₁ hr₁ h₁ ↦ ?_
  cases r₁ with
  | error e => exact ⟨h₁.notes, .inl ⟨_, e, hr₁.1.2.1⟩⟩
  | ok encRefresh =>
  have hopen : O.opens encRefresh = some tok.refreshToken := by
    obtain ⟨-, ⟨box, hbox, hopen⟩ | ⟨e, he, -⟩⟩ := hr₁.1.1
    · cases hbox
      exact hopen
    · cases he
  refine wp_quiet trivial h₁ fun r₂ x₂ hr₂ h₂ ↦ ?_
  cases r₂ with
  | error e => exact ⟨h₂.notes, .inl ⟨_, e, hr₂.1.2.1⟩⟩
  | ok encAccess =>
  refine wp_call.mpr ?_
  rintro r₃ x₃ ⟨⟨hr₃, -⟩, hnotes⟩
  obtain ⟨-, hworld⟩ := sem_written rfl hr₃
  have hstored (k : Holder) : refreshBox x₃.1.db k =
      if k = (fs.userID, fs.vendor) then some encRefresh else refreshBox x.1.db k := by
    rw [hworld, ← h₂.db]
    exact refreshBox_put _ _ k
  cases r₃ with
  | error e => exact ⟨hnotes.trans h₂.notes, .inr ⟨encRefresh, hopen, hstored⟩⟩
  | ok _ => exact ⟨hnotes.trans h₂.notes, .inr ⟨encRefresh, hopen, hstored⟩⟩

/-- A flow cookie that checks out says whose connection a callback is about. -/
theorem exec_verifyFlow {r : Request} {cookie : String} {flow : Except Err OAuthFlowState}
    (hcookie : r.oauthFlow = some cookie)
    (hx : Exec (turnSem O answers replaced) (b.verifyFlow cookie) x flow y) :
    ∀ fs, flow = .ok fs → (Turn.connect answers r).holder b = some (fs.userID, fs.vendor) := by
  unfold OAuthBroker.verifyFlow at hx
  split at hx
  · obtain ⟨rfl, -⟩ := hx
    rintro fs ⟨⟩
  · rename_i fs hfs
    obtain ⟨t, x₁, -, hx⟩ := exec_call.mp hx
    split at hx
    · obtain ⟨rfl, -⟩ := hx
      rintro fs ⟨⟩
    · obtain ⟨rfl, -⟩ := hx
      rintro fs ⟨rfl⟩
      simp [Turn.holder, hcookie, hfs]

theorem verifyFlow_quiet (v : String) : All Quiet (b.verifyFlow v) := by
  unfold OAuthBroker.verifyFlow
  split
  · exact all_ret
  · refine all_call.mpr ⟨trivial, fun t ↦ ?_⟩
    split
    · exact all_ret
    · exact all_ret

theorem exec_callbackHandler {r : Request} {resp : Response}
    (hx : Exec (turnSem O answers replaced) (b.callbackHandler r) x resp y) :
    Connects b O answers r x y := by
  have hstill {z : World × Notes} (h : Still x z) : Connects b O answers r x z :=
    .inl ⟨fun k ↦ by rw [h.db], h.notes⟩
  refine hx.post (Q := fun _ y ↦ Connects b O answers r x y) ?_
  unfold OAuthBroker.callbackHandler
  split
  · exact hstill (.refl x)
  rename_i cookie hcookie
  refine wp_quiet_bind (verifyFlow_quiet cookie) (.refl x) fun flow x₁ hx₁ h₁ ↦ ?_
  cases flow with
  | error e => exact hstill h₁
  | ok fs =>
  have hholder := exec_verifyFlow hcookie hx₁ fs rfl
  dsimp only
  split
  · exact hstill h₁
  split
  · exact hstill h₁
  refine wp_quiet rfl h₁ fun r₂ x₂ _ h₂ ↦ ?_
  cases r₂ with
  | error e => exact hstill h₂
  | ok ac =>
  refine wp_quiet_bind (oauthConfigFor_quiet ac _) h₂ fun r₃ x₃ _ h₃ ↦ ?_
  cases r₃ with
  | error e => exact hstill h₃
  | ok conf =>
  refine wp_call.mpr ?_
  rintro r₄ x₄ ⟨⟨hr₄, -⟩, hnotes⟩
  have hdb : x₄.1.db = x.1.db := (congrArg World.db hr₄.1).trans h₃.db
  rw [h₃.notes] at hnotes
  cases r₄ with
  | error e => exact hstill ⟨hdb, hnotes⟩
  | ok tok =>
  have hnotes : x₄.2 = x.2.issue tok := hnotes
  dsimp only
  split
  · rename_i hnone
    exact hstill ⟨hdb, hnotes.trans (if_pos hnone)⟩
  · rename_i hsome
    refine wp_iff_exec.mpr fun _ y hx ↦ ?_
    obtain ⟨hnotes', hstored⟩ := exec_storeAccount hx
    rw [Stores, hdb] at hstored
    exact .inr ⟨_, tok, hholder, hsome, hnotes'.trans hnotes, hstored⟩

end Requests

/-! ## Runs -/

section Runs

variable {b : OAuthBroker} {O : Outside} {s s' : Books} {w' : World} {n : Notes}

/-- Stored refresh tokens are current, and the provider has replaced none. -/
structure Settled (O : Outside) (s : Books) : Prop where
  kept : Kept O s
  unreplaced : ∀ j, s.replaced j = []

theorem Settled.start (O : Outside) (w : World) : Settled O (.start O w) := by
  refine ⟨fun j box hbox ↦ ?_, fun _ ↦ rfl⟩
  show O.opens box = (refreshBox w.db j).bind O.opens
  have hbox : refreshBox w.db j = some box := hbox
  rw [hbox, Option.bind_some]

/-- A request that issues no refresh token and writes none. -/
theorem Settled.enter_blank (h : Settled O s) {holder : Option Holder}
    (hboxes : ∀ k, refreshBox w'.db k = refreshBox s.world.db k) (hissued : n.issued = [])
    (hreplaced : n.replaced = []) : Settled O (s.enter holder w' n) := by
  refine ⟨fun j box hbox ↦ ?_, fun j ↦ ?_⟩
  · have hbox : refreshBox w'.db j = some box := hbox
    rw [hboxes] at hbox
    simp only [Books.enter, hissued, List.head?_nil, Option.none_or, ite_self]
    exact h.kept j box hbox
  · simp only [Books.enter, hreplaced, List.nil_append, ite_self]
    exact h.unreplaced j

/-- A refresh shows the token that was issued last. -/
theorem Kept.shown (h : Kept O s) {answers : (e : Call) → e.Res → Prop} {j : Holder}
    (hserves : Serves b O (.refresh answers j) s w' n) {rt : String} (hrt : rt ∈ n.shown) :
    s.latest j = some rt := by
  obtain ⟨res, hx⟩ := hserves
  obtain ⟨-, hnotes | ⟨box, conf, rt', r, hbox, hopen, -, -, hnotes⟩⟩ := exec_ensureFreshToken hx
  · have hnotes : n = .blank := hnotes
    rw [hnotes] at hrt
    exact absurd hrt List.not_mem_nil
  · have hnotes : n = Notes.add (.refreshGrant conf rt') .blank r := hnotes
    have hshown : n.shown = [rt'] := by
      rw [hnotes]
      cases r with
      | error e => rfl
      | ok tok =>
          simp only [Notes.add, Notes.replace, Notes.issue]
          split <;> split <;> rfl
    rw [hshown, List.mem_singleton] at hrt
    rw [hrt, ← h j box hbox, hopen]

/-- A grant that does not rotate keeps the books settled. -/
theorem Settled.refresh (h : Settled O s) {answers : (e : Call) → e.Res → Prop} {j : Holder}
    (hok : Allowed (.refresh answers j) s) (hserves : Serves b O (.refresh answers j) s w' n) :
    Settled O (s.enter (some j) w' n) := by
  obtain ⟨res, hx⟩ := hserves
  obtain ⟨hboxes, hnotes | ⟨box, conf, rt, r, hbox, hopen, hanswers, -, hnotes⟩⟩ :=
    exec_ensureFreshToken hx
  · have hnotes : n = .blank := hnotes
    subst hnotes
    exact h.enter_blank hboxes rfl rfl
  have hnotes : n = Notes.add (.refreshGrant conf rt) .blank r := hnotes
  subst hnotes
  have hlatest : s.latest j = some rt := by rw [← h.kept j box hbox, hopen]
  cases r with
  | error e => exact h.enter_blank hboxes rfl rfl
  | ok tok =>
      have hsame := hok conf rt tok hlatest hanswers
      by_cases hempty : tok.refreshToken = ""
      · rw [Notes.add_refreshGrant_none conf rt _ hempty]
        exact h.enter_blank hboxes rfl rfl
      · obtain rfl : tok.refreshToken = rt := hsame.resolve_left hempty
        rw [Notes.add_refreshGrant_same conf _ hempty]
        refine ⟨fun k box' hbox' ↦ ?_, fun k ↦ ?_⟩
        · have hbox' : refreshBox w'.db k = some box' := hbox'
          rw [hboxes] at hbox'
          show _ = if some j = some k then _ else _
          split
          · rename_i hk
            cases hk
            rw [h.kept j box' hbox', hlatest]
            rfl
          · exact h.kept k box' hbox'
        · simp only [Books.enter, Notes.blank, List.nil_append, ite_self]
          exact h.unreplaced k

/-- A callback whose tokens are sealed keeps the books settled. -/
theorem Settled.connect (h : Settled O s) {answers : (e : Call) → e.Res → Prop} {r : Request}
    (hok : Allowed (.connect answers r) s) (hserves : Serves b O (.connect answers r) s w' n) :
    Settled O (s.enter ((Turn.connect answers r).holder b) w' n) := by
  obtain ⟨resp, hx⟩ := hserves
  rcases exec_callbackHandler hx with ⟨hboxes, hnotes⟩ | ⟨j, tok, hholder, hsome, hnotes, hstored⟩
  · have hnotes : n = .blank := hnotes
    subst hnotes
    exact h.enter_blank hboxes rfl rfl
  have hnotes : n = ⟨[], [tok.refreshToken], []⟩ := hnotes.trans (if_neg hsome)
  subst hnotes
  obtain ⟨p, e, hfails⟩ | ⟨box, hopen, hboxes⟩ := hstored
  · exact absurd hfails (hok p e)
  rw [hholder]
  refine ⟨fun k box' hbox' ↦ ?_, fun k ↦ ?_⟩
  · have hbox' : refreshBox w'.db k = some box' := hbox'
    have hboxes : refreshBox w'.db k = if k = j then some box else refreshBox s.world.db k :=
      hboxes k
    rw [hboxes] at hbox'
    show _ = if some j = some k then _ else _
    split at hbox'
    · rename_i hk
      cases hbox'
      rw [if_pos (congrArg some hk.symm), hopen]
      rfl
    · rename_i hk
      rw [if_neg fun hj ↦ hk (Option.some.inj hj).symm]
      exact h.kept k box' hbox'
  · simp only [Books.enter, List.nil_append, ite_self]
    exact h.unreplaced k

theorem Settled.served {t : Turn} (h : Settled O s) (hok : Allowed t s)
    (hserved : Served b O t s s') : Settled O s' := by
  obtain ⟨w', n, hserves, rfl⟩ := hserved
  cases t with
  | connect answers r => exact h.connect hok hserves
  | refresh answers j => exact h.refresh hok hserves

/-- In every run of callbacks and refreshes whose store writes succeed, from any stored
connections, and that all meet `Allowed`: the stored refresh tokens are the ones issued
last, and the next refresh shows the one issued last and none that was replaced. -/
theorem refresh_token_current {w : World}
    (hrun : Run (Served b O) Allowed (.start O w) s) :
    Kept O s ∧ ∀ answers j w' n, Serves b O (.refresh answers j) s w' n →
      ∀ rt ∈ n.shown, s.latest j = some rt ∧ rt ∉ s.replaced j := by
  have hsettled : Settled O s := by
    refine Run.invariant (I := Settled O) ?_ hrun (.start O w)
    exact fun _ _ _ h hok hserved ↦ h.served hok hserved
  refine ⟨hsettled.kept, fun answers j w' n hserves rt hrt ↦ ⟨hsettled.kept.shown hserves hrt, ?_⟩⟩
  rw [hsettled.unreplaced j]
  exact List.not_mem_nil

end Runs

namespace Example.Github

/-- A flow cookie names the first user. -/
def broker : OAuthBroker :=
  ⟨⟨fun _ ↦ .ok "", fun _ ↦ .ok ⟨"", "", "github", 1, "", [], 0⟩⟩, "", fun _ _ _ ↦ ""⟩

def alice : Holder := (1, "github")

def partners : Partners := ⟨⟨[]⟩, []⟩

def config : Sql := .putAuthConfig ⟨"github", "", "", "", "", [], true, ""⟩

/-- GitHub's client is configured. -/
def configured : World := .boot (config.apply .fresh).2 0

/-- Alice's connection has expired. -/
def expired : World :=
  .boot ((Sql.putConnectedAccount ⟨1, "github", Partners.vaultSeal "first",
    Partners.vaultSeal "old access", 0, []⟩).apply (config.apply .fresh).2).2 0

/-- No condition on the answers. -/
def anything : (e : Call) → e.Res → Prop := fun _ _ ↦ True

/-- The answers of the local partners. -/
def usual : (e : Call) → e.Res → Prop
  | .encrypt _, r => ∃ box, r = .ok box
  | .refreshGrant .., r => r = .ok Partners.granted
  | _, _ => True

def callback : Request := ⟨"GET", [], true, [], none, some "cookie", none, none,
  .malformed false ""⟩

theorem usual_answer {e : Call} {w w' : World} {r : e.Res}
    (h : partners.answer e w = some (r, w')) : usual e r := by
  cases e with
  | encrypt p => cases h; exact ⟨_, rfl⟩
  | refreshGrant conf rt => cases h; rfl
  | _ => trivial

/-- The books after a request the local partners have answered. -/
theorem exec_partners {α : Type} {p : Code α} {w : World} {y : World × Notes} {a : α}
    (hrun : run (noting Notes.add partners.answer) p (w, .blank) = some (a, y)) :
    Exec (turnSem Partners.outside usual []) p (w, .blank) a y := by
  refine exec_noting (fun e w r w' h ↦ ⟨partners.answer_sem h _, usual_answer h, ?_⟩) hrun
  cases e with
  | refreshGrant conf rt =>
      cases h
      exact List.not_mem_nil
  | _ => trivial

/-- Alice connects, and the local partners answer. -/
def connected : Books :=
  match run (noting Notes.add partners.answer) (broker.callbackHandler callback)
    (configured, .blank) with
  | some (_, w, n) => (Books.start Partners.outside configured).enter (some alice) w n
  | none => .start Partners.outside configured

/-- Her token is refreshed. -/
def refreshed (s : Books) : Books :=
  match run (noting Notes.add partners.answer) (broker.ensureFreshToken alice.1 alice.2)
    (s.world, .blank) with
  | some (_, w, n) => s.enter (some alice) w n
  | none => s

theorem served_connected :
    Served broker Partners.outside (.connect usual callback)
      (.start Partners.outside configured) connected :=
  ⟨_, _, ⟨_, exec_partners rfl⟩, rfl⟩

theorem served_refreshed {s : Books} {res : Except Err String} {y : World × Notes}
    (hreplaced : s.replaced alice = [])
    (hrun : run (noting Notes.add partners.answer) (broker.ensureFreshToken alice.1 alice.2)
      (s.world, .blank) = some (res, y)) :
    Served broker Partners.outside (.refresh usual alice) s (refreshed s) := by
  refine ⟨y.1, y.2, ⟨res, ?_⟩, ?_⟩
  · rw [hreplaced]
    exact exec_partners hrun
  · rw [refreshed, hrun]
    rfl

/-- A provider that knows no refresh token any more. -/
def rejecting : (e : Call) → World → Option (e.Res × World)
  | .refreshGrant .., w => some (.error (.new "invalid_grant"), w)
  | e, w => partners.answer e w

theorem rejecting_sem {e : Call} {w w' : World} {r : e.Res} (h : rejecting e w = some (r, w')) :
    sem Partners.outside writesSucceed e w r w' := by
  unfold rejecting at h
  split at h
  · cases h
    refine ⟨rfl, ?_, nofun⟩
    rintro e ⟨rfl⟩
    trivial
  · exact partners.answer_sem h _

end Example.Github

open Example.Github in
/-- A provider that answers with the refresh token it was shown: after a callback and a
refresh the stored token is the one issued. -/
theorem refresh_token_current_github :
    Run (Served broker Partners.outside) Allowed (.start Partners.outside configured)
        (refreshed connected) ∧
      (refreshed connected).latest alice = some "refresh" ∧
      refreshBox (refreshed connected).world.db alice = some (Partners.vaultSeal "refresh") ∧
      Kept Partners.outside (refreshed connected) := by
  have hrun : Run (Served broker Partners.outside) Allowed (.start Partners.outside configured)
      (refreshed connected) := by
    refine .tail (.tail .refl ?_ served_connected) ?_ (served_refreshed rfl rfl)
    · rintro p e ⟨box, hbox⟩
      cases hbox
    · intro conf rt tok hlatest htok
      cases hlatest
      cases htok
      exact .inr rfl
  exact ⟨hrun, rfl, rfl, (refresh_token_current hrun).1⟩

open Example.Github in
/-- A grant replaces Alice's refresh token `first`.  The row keeps it, and the next refresh
shows it to the provider, who rejects it. -/
theorem rotated_token_is_lost :
    Run (Served broker Partners.outside) (fun _ _ ↦ True) (.start Partners.outside expired)
        (refreshed (.start Partners.outside expired)) ∧
      ¬ Kept Partners.outside (refreshed (.start Partners.outside expired)) ∧
      ∃ w' n, Serves broker Partners.outside (.refresh anything alice)
          (refreshed (.start Partners.outside expired)) w' n ∧
        n.shown = ["first"] ∧
        "first" ∈ (refreshed (.start Partners.outside expired)).replaced alice := by
  refine ⟨.tail .refl trivial (served_refreshed rfl rfl), fun hkept ↦ ?_, ?_⟩
  · have hstored : some "first" = some "refresh" := hkept alice (Partners.vaultSeal "first") rfl
    exact absurd hstored (by decide)
  · refine ⟨_, _, ⟨_, exec_noting (h := rejecting) ?_ rfl⟩, rfl, .head _⟩
    intro e w r w' h
    refine ⟨rejecting_sem h, trivial, ?_⟩
    cases e with
    | refreshGrant conf rt => cases h; trivial
    | _ => trivial

end GigMcp.Auth.Rotation
