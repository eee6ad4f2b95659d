import GigMcp.Api.Frame
import GigMcp.Gateway.Exposure

/-!
# What requests leave offered

A stored runtime was built from the store as it was.  `Current` says that what it
exposes is still offered by the store as it is.

`Keeps X` is what a request may do at most: runtimes may go, and a tool that was offered
is still offered unless `X` says it may have been revoked.  This module has it for the
statements that write the tables a build reads, and for the handlers of users and
profiles.
-/

namespace GigMcp.Api

open GigMcp.Effect GigMcp.System GigMcp.Store GigMcp.Http GigMcp.Auth GigMcp.Data
open GigMcp.Gateway

variable {O : Outside} {w w₁ w' : World} {X : Profile → String → String → Prop}

/-- What stored runtimes expose is offered. -/
def Current (w : World) : Prop :=
  ∀ pid rt server tool, w.host.runtimeOf pid = some rt → rt.Exposes server tool →
    ∃ p, w.db.profiles.table.get? pid = some p ∧ Offered w.db p server tool

/-- Runtimes may go, and what was offered is still offered, `X` apart. -/
structure Keeps (X : Profile → String → String → Prop) (w w' : World) : Prop where
  runtimes : ∀ pid rt, w'.host.runtimeOf pid = some rt → w.host.runtimeOf pid = some rt
  offers : ∀ p server tool, w.db.profiles.table.get? p.id = some p → ¬ X p server tool →
    Offered w.db p server tool →
      w'.db.profiles.table.get? p.id = some p ∧ Offered w'.db p server tool

namespace Keeps

theorem refl (w : World) : Keeps X w w := ⟨fun _ _ h ↦ h, fun _ _ _ hp _ h ↦ ⟨hp, h⟩⟩

theorem trans (h : Keeps X w w₁) (h' : Keeps X w₁ w') : Keeps X w w' where
  runtimes := fun pid rt hrt ↦ h.runtimes pid rt (h'.runtimes pid rt hrt)
  offers := fun p server tool hp hX ho ↦ by
    obtain ⟨hp₁, ho₁⟩ := h.offers p server tool hp hX ho
    exact h'.offers p server tool hp₁ hX ho₁

/-- What stays stored is current if none of what it exposes may have been revoked. -/
theorem current (h : Keeps X w w') (hw : Current w)
    (hX : ∀ pid rt p server tool, w'.host.runtimeOf pid = some rt →
      w.db.profiles.table.get? pid = some p → rt.Exposes server tool → ¬ X p server tool) :
    Current w' := by
  intro pid rt server tool hrt hexp
  obtain ⟨p, hp, ho⟩ := hw pid rt server tool (h.runtimes pid rt hrt) hexp
  obtain rfl : p.id = pid := Table.key_of_get? hp
  exact ⟨p, h.offers p server tool hp (hX _ rt p server tool hrt hp hexp) ho⟩

end Keeps

/-! ## Calls -/

/-- A call keeps what is offered, `X` apart. -/
def KeepsCall (X : Profile → String → String → Prop) (e : Call) : Prop :=
  ∀ (O : Outside) (w : World) (r : e.Res) (w' : World), sem O healthy e w r w' → Keeps X w w'

theorem exec_keeps {α : Type} {p : Code α} (hp : All (KeepsCall X) p) {a : α}
    (hx : Exec (sem O healthy) p w a w') : Keeps X w w' :=
  hp.frame (ρ := Keeps X) Keeps.refl (fun _ _ _ ↦ Keeps.trans) (fun _ _ _ _ he hr ↦ he _ _ _ _ hr) hx

/-- A statement, from what it does to the database. -/
theorem keeps_sql {c : Sql}
    (h : ∀ (db : Database) p server tool, db.profiles.table.get? p.id = some p →
      ¬ X p server tool → Offered db p server tool →
      (c.apply db).2.profiles.table.get? p.id = some p ∧ Offered (c.apply db).2 p server tool) :
    KeepsCall X (.sql c) := by
  intro O w r w' hr
  obtain ⟨-, rfl⟩ := (sem_healthy id).mp hr
  exact ⟨fun _ _ hrt ↦ hrt, h w.db⟩

/-- The tables a build reads. -/
def buildTables : List Tbl :=
  [.servers, .manifests, .profiles, .profileServers, .userInstalls, .userDisabledTools]

/-- A call that leaves the tables a build reads alone. -/
theorem keeps_touches {ts : List Tbl} (hts : ∀ t ∈ buildTables, t ∉ ts) {e : Call}
    (he : Touches ts e) : KeepsCall X e := by
  intro O w r w' hr
  have ha := sem_touches he hr
  have hservers : w'.db.servers = w.db.servers := ha.tbl .servers (hts _ (by decide))
  have hmanifests : w'.db.manifests = w.db.manifests := ha.tbl .manifests (hts _ (by decide))
  have hprofiles : w'.db.profiles = w.db.profiles := ha.tbl .profiles (hts _ (by decide))
  have hlisted : w'.db.profileServers = w.db.profileServers :=
    ha.tbl .profileServers (hts _ (by decide))
  have hinstalls : w'.db.userInstalls = w.db.userInstalls :=
    ha.tbl .userInstalls (hts _ (by decide))
  have hdisabled : w'.db.userDisabledTools = w.db.userDisabledTools :=
    ha.tbl .userDisabledTools (hts _ (by decide))
  refine ⟨fun pid rt hrt ↦ ha.host ▸ hrt, fun p server tool hp _ ho ↦ ⟨hprofiles ▸ hp, ?_, ?_, ?_, ?_⟩⟩
  · rw [hlisted]
    exact ho.listed
  · rw [hservers]
    exact ho.row
  · rw [hinstalls]
    exact ho.installed
  · rw [hmanifests, hdisabled]
    exact ho.allowed

theorem keeps_of_touches {α : Type} {p : Code α} {ts : List Tbl} (hts : ∀ t ∈ buildTables, t ∉ ts)
    (hp : All (Touches ts) p) : All (KeepsCall X) p :=
  hp.mono fun _ he ↦ keeps_touches hts he

theorem keeps_read {c : Sql} (hc : c.writes = []) : All (KeepsCall X) (sql c) := by
  have htouches : All (Touches []) (sql c) := read_touches hc
  exact keeps_of_touches (fun _ _ ↦ List.not_mem_nil) htouches

theorem keeps_audit (ctx : Ctx) (decision detail : String) (profileID : Option Int64) :
    All (KeepsCall X) (audit ctx decision detail profileID) := by
  have htouches : All (Touches [.audit]) (audit ctx decision detail profileID) :=
    audit_touches ctx (by decide) ..
  exact keeps_of_touches (by decide) htouches

theorem keeps_now : KeepsCall X .now := by
  intro O w r w' hr
  obtain ⟨-, rfl⟩ := hr
  exact ⟨fun _ _ hrt ↦ hrt, fun _ _ _ hp _ ho ↦ ⟨hp, ho⟩⟩

/-- Taking a runtime out of the map. -/
theorem keeps_takeRuntime (pid : Int64) : KeepsCall X (.takeRuntime pid) := by
  intro O w r w' hr
  obtain ⟨-, rfl⟩ := hr
  refine ⟨fun q rt hrt ↦ ?_, fun _ _ _ hp _ ho ↦ ⟨hp, ho⟩⟩
  have hrt : (w.host.take pid).2.runtimeOf q = some rt := hrt
  rw [Host.runtimeOf_take] at hrt
  split at hrt
  · cases hrt
  · exact hrt

theorem keeps_cleanup (b : EgressBackend) : KeepsCall X (.cleanup b) := by
  intro O w r w' hr
  obtain rfl := hr
  exact ⟨fun _ _ hrt ↦ hrt, fun _ _ _ hp _ ho ↦ ⟨hp, ho⟩⟩

theorem keeps_invalidate (pid : Int64) : All (KeepsCall X) (invalidate pid) := by
  refine all_call.mpr ⟨keeps_takeRuntime pid, fun r ↦ ?_⟩
  cases r with
  | none => exact all_ret
  | some rt =>
      refine All.bind (All.each (fun b ↦ ?_) _) fun _ ↦ all_ret
      exact all_call_iff.mpr (keeps_cleanup b)

/-! ## Statements -/

theorem keeps_installForUser (userID : Int64) (server : String) (t : Time) :
    KeepsCall X (.sql (.installForUser userID server t)) := by
  refine keeps_sql fun db p s tool hp _ ho ↦ ⟨hp, ho.listed, ho.row, ?_, ho.allowed⟩
  have hinst := ho.installed
  simp only [Sql.apply, Table.get?_insertNew]
  split
  · rfl
  · exact hinst

/-- What an uninstall by a user may revoke. -/
def OfUser (userID : Int64) (server : String) (p : Profile) (s _tool : String) : Prop :=
  p.userID = userID ∧ s = server

theorem keeps_deleteOwnProfileServers (userID : Int64) (server : String) :
    KeepsCall (OfUser userID server) (.sql (.deleteOwnProfileServers userID server)) := by
  refine keeps_sql fun db p s tool hp hX ho ↦ ⟨hp, ?_, ho.row, ho.installed, ho.allowed⟩
  simp only [Sql.apply, Table.rows_deleteWhere, List.mem_filter, Bool.not_eq_true',
    decide_eq_false_iff_not]
  refine ⟨ho.listed, ?_⟩
  rintro ⟨rfl, hany⟩
  obtain ⟨q, hq, hq'⟩ := List.any_eq_true.mp hany
  obtain ⟨hid, huser⟩ := of_decide_eq_true hq'
  -- The row with the profile's id is the profile.
  obtain rfl : q = p := db.profiles.table.eq_of_key_eq hq (Table.mem_of_get? hp) hid
  exact hX ⟨huser, rfl⟩

theorem keeps_deleteOwnDisabledTools (userID : Int64) (server : String) :
    KeepsCall X (.sql (.deleteOwnDisabledTools userID server)) := by
  refine keeps_sql fun db p s tool hp _ ho ↦ ⟨hp, ho.listed, ho.row, ho.installed, ?_⟩
  intro rec hrec
  obtain ⟨hconsent, htool, hdis⟩ := ho.allowed rec hrec
  exact ⟨hconsent, htool, fun h ↦ hdis (List.mem_of_mem_filter h)⟩

theorem keeps_deleteOwnInstall (userID : Int64) (server : String) :
    KeepsCall (OfUser userID server) (.sql (.deleteOwnInstall userID server)) := by
  refine keeps_sql fun db p s tool hp hX ho ↦ ⟨hp, ho.listed, ho.row, ?_, ho.allowed⟩
  obtain ⟨i, hi⟩ := Option.isSome_iff_exists.mp ho.installed
  have hkey : i.key = (p.userID, s) := Table.key_of_get? hi
  obtain ⟨huser, hserver⟩ := Prod.mk.inj hkey
  simp only [Sql.apply, Table.get?_deleteWhere, hi, Option.filter]
  rw [if_pos]
  · rfl
  · simp only [Bool.not_eq_true', decide_eq_false_iff_not]
    exact fun h ↦ hX ⟨huser ▸ h.1, hserver ▸ h.2⟩

/-- What turning a tool off may revoke. -/
def OfTool (userID : Int64) (server tool : String) (p : Profile) (s t : String) : Prop :=
  p.userID = userID ∧ s = server ∧ t = tool

theorem keeps_enableTool (userID : Int64) (server tool : String) :
    KeepsCall X (.sql (.setUserToolEnabled userID server tool true)) := by
  refine keeps_sql fun db p s t hp _ ho ↦ ⟨hp, ho.listed, ho.row, ho.installed, ?_⟩
  intro rec hrec
  obtain ⟨hconsent, htool, hdis⟩ := ho.allowed rec hrec
  exact ⟨hconsent, htool, fun h ↦ hdis (List.mem_of_mem_filter h)⟩

theorem keeps_disableTool (userID : Int64) (server tool : String) :
    KeepsCall (OfTool userID server tool)
      (.sql (.setUserToolEnabled userID server tool false)) := by
  refine keeps_sql fun db p s t hp hX ho ↦ ⟨hp, ho.listed, ho.row, ho.installed, ?_⟩
  intro rec hrec
  obtain ⟨hconsent, htool, hdis⟩ := ho.allowed rec hrec
  refine ⟨hconsent, htool, fun h ↦ ?_⟩
  have hget := Table.get?_of_mem h
  simp only [Sql.apply, Table.get?_insertNew] at hget
  split at hget
  · rename_i hkey
    obtain ⟨huser, hserver, htool⟩ : p.userID = userID ∧ s = server ∧ t = tool := by
      simpa using hkey
    exact hX ⟨huser, hserver, htool⟩
  · exact hdis (Table.mem_of_get? hget)

/-- What a statement about one server may revoke. -/
def OfServer (server : String) (_ : Profile) (s _tool : String) : Prop := s = server

theorem keeps_deleteServer (server : String) :
    KeepsCall (OfServer server) (.sql (.deleteServer server)) := by
  refine keeps_sql fun db p s tool hp hX ho ↦ ⟨hp, ho.listed, ?_, ho.installed, ho.allowed⟩
  obtain ⟨srv, hsrv, hname⟩ := ho.row
  refine ⟨srv, List.mem_filter.mpr ⟨hsrv, ?_⟩, hname⟩
  simp only [Bool.not_eq_true', decide_eq_false_iff_not]
  exact fun h ↦ hX (hname.symm.trans h)

theorem keeps_deleteManifest (server : String) :
    KeepsCall (OfServer server) (.sql (.deleteManifest server)) := by
  refine keeps_sql fun db p s tool hp hX ho ↦ ⟨hp, ho.listed, ho.row, ho.installed, ?_⟩
  intro rec hrec
  simp only [Sql.apply, Table.get?_deleteWhere] at hrec
  exact ho.allowed rec (Option.filter_eq_some_iff.mp hrec).1

theorem keeps_removeServerFromProfiles (server : String) :
    KeepsCall (OfServer server) (.sql (.removeServerFromProfiles server)) := by
  refine keeps_sql fun db p s tool hp hX ho ↦ ⟨hp, ?_, ho.row, ho.installed, ho.allowed⟩
  refine List.mem_filter.mpr ⟨ho.listed, ?_⟩
  simp only [Bool.not_eq_true', decide_eq_false_iff_not]
  exact hX

theorem keeps_deleteInstallsOf (server : String) :
    KeepsCall (OfServer server) (.sql (.deleteInstallsOf server)) := by
  refine keeps_sql fun db p s tool hp hX ho ↦ ⟨hp, ho.listed, ho.row, ?_, ho.allowed⟩
  obtain ⟨i, hi⟩ := Option.isSome_iff_exists.mp ho.installed
  have hkey : i.key = (p.userID, s) := Table.key_of_get? hi
  simp only [Sql.apply, Table.get?_deleteWhere, hi, Option.filter]
  rw [if_pos]
  · rfl
  · simp only [Bool.not_eq_true', decide_eq_false_iff_not]
    exact fun h ↦ hX ((Prod.mk.inj hkey).2.symm.trans h)

theorem keeps_deleteUserDisabledToolsOf (server : String) :
    KeepsCall X (.sql (.deleteUserDisabledToolsOf server)) := by
  refine keeps_sql fun db p s tool hp _ ho ↦ ⟨hp, ho.listed, ho.row, ho.installed, ?_⟩
  intro rec hrec
  obtain ⟨hconsent, htool, hdis⟩ := ho.allowed rec hrec
  exact ⟨hconsent, htool, fun h ↦ hdis (List.mem_of_mem_filter h)⟩

theorem keeps_deleteProfileServersOf (server : String) :
    KeepsCall (OfServer server) (.sql (.deleteProfileServersOf server)) := by
  refine keeps_sql fun db p s tool hp hX ho ↦ ⟨hp, ?_, ho.row, ho.installed, ho.allowed⟩
  refine List.mem_filter.mpr ⟨ho.listed, ?_⟩
  simp only [Bool.not_eq_true', decide_eq_false_iff_not]
  exact hX

/-- What a statement about one profile may revoke. -/
def OfProfile (pid : Int64) (p : Profile) (_s _tool : String) : Prop := p.id = pid

theorem keeps_deleteProfile (pid : Int64) :
    KeepsCall (OfProfile pid) (.sql (.deleteProfile pid)) := by
  refine keeps_sql fun db p s tool hp hX ho ↦ ⟨?_, ?_, ho.row, ho.installed, ho.allowed⟩
  · simp only [Sql.apply, AutoTable.table_deleteWhere, Table.get?_deleteWhere, hp, Option.filter]
    rw [if_pos]
    simp only [Bool.not_eq_true', decide_eq_false_iff_not]
    exact hX
  · refine List.mem_filter.mpr ⟨ho.listed, ?_⟩
    simp only [Bool.not_eq_true', decide_eq_false_iff_not]
    exact hX

theorem keeps_setProfileServers (pid : Int64) (names : List String) :
    KeepsCall (OfProfile pid) (.sql (.setProfileServers pid names)) := by
  refine keeps_sql fun db p s tool hp hX ho ↦ ?_
  show (db.setProfileServers pid names).2.profiles.table.get? p.id = some p ∧
    Offered (db.setProfileServers pid names).2 p s tool
  unfold Database.setProfileServers
  split
  · exact ⟨hp, ho⟩
  · refine ⟨hp, ?_, ho.row, ho.installed, ho.allowed⟩
    -- The rows of the other profiles survive the delete, and inserts add to them.
    have hfold : ∀ (names : List String) (t : Table (id : ProfileServer → ProfileServer)),
        (p.id, s) ∈ t.rows → (p.id, s) ∈ (names.foldl (fun t n ↦ t.insertNew (pid, n)) t).rows := by
      intro names
      induction names with
      | nil => exact fun t ht ↦ ht
      | cons n names ih =>
          intro t ht
          refine ih _ (Table.mem_of_get? (k := (p.id, s)) ?_)
          rw [Table.get?_insertNew, if_neg]
          · exact Table.get?_of_mem ht
          · exact fun h ↦ hX (Prod.mk.inj h).1
    refine hfold names _ (List.mem_filter.mpr ⟨ho.listed, ?_⟩)
    simp only [Bool.not_eq_true', decide_eq_false_iff_not]
    exact hX

/-! ## Handlers -/

section Handlers

variable (srv : Server) (ctx : Ctx)

theorem handleInstallForUser_keeps (name : String) :
    All (KeepsCall X) (handleInstallForUser ctx name) := by
  unfold handleInstallForUser
  split
  · exact all_ret
  · refine (keeps_read rfl).except (fun _ ↦ all_ret) fun _ ↦ ?_
    refine All.except ?_ (fun _ ↦ all_ret) fun _ ↦ all_ret
    refine all_call.mpr ⟨keeps_now, fun t ↦ ?_⟩
    exact all_call_iff.mpr (keeps_installForUser _ _ t)

theorem handleUninstallForUser_keeps (name : String) :
    All (KeepsCall (OfUser ctx.effective.id name)) (handleUninstallForUser ctx name) := by
  unfold handleUninstallForUser
  split
  · exact all_ret
  · refine All.except ?_ (fun _ ↦ all_ret) fun _ ↦ all_ret
    refine All.except (all_call_iff.mpr (keeps_deleteOwnProfileServers _ _)) (fun _ ↦ all_ret)
      fun _ ↦ ?_
    refine All.except (all_call_iff.mpr (keeps_deleteOwnDisabledTools _ _)) (fun _ ↦ all_ret)
      fun _ ↦ ?_
    exact all_call_iff.mpr (keeps_deleteOwnInstall _ _)

/-- What a toggle may revoke: the tool, when it is turned off. -/
def OfToggle (userID : Int64) (server tool : String) (body : Payload) (p : Profile)
    (s t : String) : Prop :=
  body = .setAppTool false ∧ OfTool userID server tool p s t

theorem handleSetAppTool_keeps (name tool : String) (body : Payload) :
    All (KeepsCall (OfToggle ctx.effective.id name tool body))
      (handleSetAppTool ctx name tool body) := by
  unfold handleSetAppTool
  split
  · exact all_ret
  · refine (keeps_read rfl).bind fun installed ↦ ?_
    split
    · exact all_ret
    · refine (keeps_read rfl).except (fun e ↦ ?_) fun rec ↦ ?_
      · dsimp only
        split
        · exact all_ret
        · exact all_ret
      · dsimp only
        split
        · exact all_ret
        · split
          · rename_i enabled
            refine All.except (all_call_iff.mpr ?_) (fun _ ↦ all_ret) fun _ ↦ all_ret
            cases enabled with
            | true => exact keeps_enableTool _ _ _
            | false =>
                intro O w r w' hr
                have hk := keeps_disableTool _ _ _ O w r w' hr
                exact ⟨hk.runtimes, fun p s t hp hX ↦ hk.offers p s t hp fun h ↦ hX ⟨rfl, h⟩⟩
          · exact all_ret

/-- After `Invalidate` no runtime is stored for the profile. -/
theorem exec_invalidate {pid : Int64} {a : Unit} (hx : Exec (sem O healthy) (invalidate pid) w a w') :
    w'.host.runtimeOf pid = none := by
  obtain ⟨r₁, w₁, ⟨-, rfl⟩, hx₁⟩ := exec_call.mp hx
  have hnone : (w.host.take pid).2.runtimeOf pid = none := by
    rw [Host.runtimeOf_take, if_pos rfl]
  cases r₁ with
  | none =>
      obtain ⟨-, rfl⟩ := hx₁
      exact hnone
  | some rt =>
      have hhost := (exec_runCleanups hx₁).host
      rw [hhost]
      exact hnone

theorem Keeps.runtimeOf_none (h : Keeps X w w') {pid : Int64}
    (hnone : w.host.runtimeOf pid = none) : w'.host.runtimeOf pid = none := by
  cases hrt : w'.host.runtimeOf pid with
  | none => rfl
  | some rt =>
      rw [h.runtimes pid rt hrt] at hnone
      cases hnone

/-- A change of one profile that invalidates its runtime. -/
theorem Keeps.current_of_invalidated {pid : Int64} (h : Keeps (OfProfile pid) w w') (hw : Current w)
    (hnone : w'.host.runtimeOf pid = none) : Current w' := by
  refine h.current hw ?_
  rintro q rt p server tool hrt hp - hpid
  obtain rfl : p.id = q := Table.key_of_get? hp
  rw [show p.id = pid from hpid, hnone] at hrt
  cases hrt

theorem handleDeleteProfile_current {pathID : String} {resp : Response} (hw : Current w)
    (hx : Exec (sem O healthy) (handleDeleteProfile ctx pathID) w resp w') : Current w' := by
  obtain ⟨r₁, w₁, hx₁, hx₂⟩ := exec_bind.mp hx
  have htouches : All (Touches []) (loadOwnedProfile ctx pathID) := loadOwnedProfile_touches ctx pathID
  have hload : ∀ X, Keeps X w w₁ := fun X ↦
    exec_keeps (keeps_of_touches (fun _ _ ↦ List.not_mem_nil) htouches) hx₁
  cases r₁ with
  | error e =>
      obtain ⟨-, rfl⟩ := hx₂
      exact (hload fun _ _ _ ↦ False).current hw fun _ _ _ _ _ _ _ _ ↦ id
  | ok p =>
      obtain ⟨r₂, w₂, hr₂, hx₃⟩ := exec_call.mp hx₂
      have hdelete := keeps_deleteProfile p.id O w₁ r₂ w₂ hr₂
      obtain ⟨rfl, -⟩ := (sem_healthy id).mp hr₂
      obtain ⟨a, w₃, hx₄, hx₅⟩ := exec_bind.mp hx₃
      obtain ⟨b, w₄, hx₆, hx₇⟩ := exec_bind.mp hx₅
      obtain ⟨-, rfl⟩ := hx₇
      have haudit : Keeps (OfProfile p.id) w₃ w' := exec_keeps (keeps_audit ctx _ _ _) hx₆
      refine Keeps.current_of_invalidated ?_ hw (haudit.runtimeOf_none (exec_invalidate hx₄))
      exact ((hload _).trans hdelete).trans ((exec_keeps (keeps_invalidate _) hx₄).trans haudit)

theorem setProfileServers_error {db : Database} {pid : Int64} {names : List String} {e : Err}
    (h : (db.setProfileServers pid names).1 = .error e) : (db.setProfileServers pid names).2 = db := by
  unfold Database.setProfileServers at h ⊢
  split
  · rfl
  · rename_i p hp
    rw [hp] at h
    cases h

theorem handlePutProfileServers_current {pathID : String} {body : Payload} {resp : Response}
    (hw : Current w)
    (hx : Exec (sem O healthy) (handlePutProfileServers ctx pathID body) w resp w') :
    Current w' := by
  obtain ⟨r₁, w₁, hx₁, hx₂⟩ := exec_bind.mp hx
  have htouches : All (Touches []) (loadOwnedProfile ctx pathID) := loadOwnedProfile_touches ctx pathID
  have hload : ∀ X, Keeps X w w₁ := fun X ↦
    exec_keeps (keeps_of_touches (fun _ _ ↦ List.not_mem_nil) htouches) hx₁
  have hw₁ : Current w₁ := (hload fun _ _ _ ↦ False).current hw fun _ _ _ _ _ _ _ _ ↦ id
  cases r₁ with
  | error e =>
      obtain ⟨-, rfl⟩ := hx₂
      exact hw₁
  | ok p =>
      dsimp only at hx₂
      split at hx₂
      · rename_i servers
        obtain ⟨r₂, w₂, hr₂, hx₃⟩ := exec_call.mp hx₂
        obtain ⟨rfl, rfl⟩ := sem_select rfl hr₂
        dsimp only [Sql.apply] at hx₃
        split at hx₃
        · obtain ⟨-, rfl⟩ := hx₃
          exact hw₁
        · obtain ⟨r₃, w₃, hr₃, hx₄⟩ := exec_call.mp hx₃
          have hset := keeps_setProfileServers p.id servers O w₂ r₃ w₃ hr₃
          obtain ⟨hanswer, rfl⟩ := (sem_healthy id).mp hr₃
          cases r₃ with
          | error e =>
              obtain ⟨-, rfl⟩ := hx₄
              -- The profile is not there, so nothing was written.
              have hsame : ((Sql.setProfileServers p.id servers).apply w₂.db).2 = w₂.db :=
                setProfileServers_error hanswer.symm
              rw [hsame]
              exact hw₁
          | ok u =>
              obtain ⟨a, w₄, hx₅, hx₆⟩ := exec_bind.mp hx₄
              obtain ⟨b, w₅, hx₇, hx₈⟩ := exec_bind.mp hx₆
              have haudit : Keeps (OfProfile p.id) w₄ w₅ := exec_keeps (keeps_audit ctx _ _ _) hx₇
              have hwrite : All (Touches []) (writeProfile 200 p "") := writeProfile_touches ..
              have hrest : Keeps (OfProfile p.id) w₄ w' := haudit.trans
                (exec_keeps (keeps_of_touches (fun _ _ ↦ List.not_mem_nil) hwrite) hx₈)
              refine Keeps.current_of_invalidated ?_ hw₁ (hrest.runtimeOf_none (exec_invalidate hx₅))
              exact hset.trans ((exec_keeps (keeps_invalidate _) hx₅).trans hrest)
      · obtain ⟨-, rfl⟩ := hx₂
        exact hw₁

end Handlers

end GigMcp.Api
