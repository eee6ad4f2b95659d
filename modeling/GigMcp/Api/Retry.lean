import GigMcp.Api.Revocation
import GigMcp.Api.Serve

/-!
# Uninstalling again

`handleUninstallServer` goes on when one of its statements fails, and the operator is told to
uninstall again.  The profiles to invalidate are read from the rows of `profile_servers`, which
the cascade of the same attempt deletes: when the read fails and the cascade does not, no later
attempt finds the profiles, and their runtimes keep the server.  When no attempt does that, an
attempt in which nothing fails leaves nothing of the server.
-/

namespace GigMcp.Api

open GigMcp.Effect GigMcp.System GigMcp.Store GigMcp.Data GigMcp.Gateway GigMcp.Registry
open GigMcp.Http GigMcp.Auth

/-- A runtime has a backend for a server: its sandbox, or a tool that is forwarded to it. -/
def HasBackend (rt : ProfileRuntime) (server : String) : Prop :=
  (∃ b ∈ rt.cleanups, b.server = server) ∨ ∃ t ∈ rt.tools, t.backend = server

/-- No stored runtime has a backend for a server. -/
def Unserved (server : String) (w : World) : Prop :=
  ∀ pid rt, w.host.runtimeOf pid = some rt → ¬ HasBackend rt server

/-- The profiles whose runtimes have a backend for a server list it. -/
def Listed (server : String) (w : World) : Prop :=
  ∀ pid rt, w.host.runtimeOf pid = some rt → HasBackend rt server →
    (pid, server) ∈ w.db.profileServers.rows

/-- Nothing is left of a server. -/
structure Gone (name : String) (w : World) : Prop where
  servers : ∀ s ∈ w.db.servers.table.rows, s.name ≠ name
  manifests : ∀ m ∈ w.db.manifests.rows, m.server ≠ name
  installs : ∀ i ∈ w.db.userInstalls.rows, i.server ≠ name
  disabledTools : ∀ r ∈ w.db.userDisabledTools.rows, r.2.1 ≠ name
  profiles : ∀ r ∈ w.db.profileServers.rows, r.2 ≠ name
  runtimes : Unserved name w

variable {O : Outside} {plan : Sql → Option Bool} {srv : Server} {ctx : Ctx} {name : String}
  {w w' w₁ w₂ w₃ : World}

theorem Unserved.listed (h : Unserved name w) : Listed name w :=
  fun pid rt hrt hb ↦ absurd hb (h pid rt hrt)

/-! ## Rows and runtimes only go -/

/-- Nothing was added to what an uninstall removes. -/
structure Fewer (w w' : World) : Prop where
  servers : w'.db.servers.table.rows ⊆ w.db.servers.table.rows
  manifests : w'.db.manifests.rows ⊆ w.db.manifests.rows
  installs : w'.db.userInstalls.rows ⊆ w.db.userInstalls.rows
  disabledTools : w'.db.userDisabledTools.rows ⊆ w.db.userDisabledTools.rows
  profiles : w'.db.profileServers.rows ⊆ w.db.profileServers.rows
  runtimes : ∀ pid rt, w'.host.runtimeOf pid = some rt → w.host.runtimeOf pid = some rt

theorem Fewer.refl (w : World) : Fewer w w where
  servers := List.Subset.refl _
  manifests := List.Subset.refl _
  installs := List.Subset.refl _
  disabledTools := List.Subset.refl _
  profiles := List.Subset.refl _
  runtimes := fun _ _ hrt ↦ hrt

theorem Fewer.trans (h : Fewer w₁ w₂) (h' : Fewer w₂ w₃) : Fewer w₁ w₃ where
  servers := List.Subset.trans h'.servers h.servers
  manifests := List.Subset.trans h'.manifests h.manifests
  installs := List.Subset.trans h'.installs h.installs
  disabledTools := List.Subset.trans h'.disabledTools h.disabledTools
  profiles := List.Subset.trans h'.profiles h.profiles
  runtimes := fun pid rt hrt ↦ h.runtimes pid rt (h'.runtimes pid rt hrt)

theorem Fewer.unserved (h : Fewer w w') (hw : Unserved name w) : Unserved name w' :=
  fun pid rt hrt ↦ hw pid rt (h.runtimes pid rt hrt)

/-- The tables an uninstall removes rows from. -/
def removedFrom : List Tbl :=
  [.servers, .manifests, .userInstalls, .userDisabledTools, .profileServers]

/-- A call of an uninstall: it removes rows or a runtime, or leaves those tables and the host
alone. -/
inductive Removes : Call → Prop
  | other {ts : List Tbl} {e : Call} : (∀ t ∈ removedFrom, t ∉ ts) → Touches ts e → Removes e
  | server (name : String) : Removes (.sql (.deleteServer name))
  | manifest (name : String) : Removes (.sql (.deleteManifest name))
  | profiles (name : String) : Removes (.sql (.removeServerFromProfiles name))
  | installs (name : String) : Removes (.sql (.deleteInstallsOf name))
  | disabledTools (name : String) : Removes (.sql (.deleteUserDisabledToolsOf name))
  | cascade (name : String) : Removes (.sql (.deleteProfileServersOf name))
  | runtime (pid : Int64) : Removes (.takeRuntime pid)
  | cleanup (b : EgressBackend) : Removes (.cleanup b)

theorem fewer_of_alike {ts : List Tbl} (h : Alike ts w w') (hts : ∀ t ∈ removedFrom, t ∉ ts) :
    Fewer w w' := by
  have hsame (t : Tbl) (ht : t ∈ removedFrom) : w'.db.tbl t = w.db.tbl t := h.tbl t (hts t ht)
  have hs : w'.db.servers = w.db.servers := hsame .servers (by decide)
  have hm : w'.db.manifests = w.db.manifests := hsame .manifests (by decide)
  have hi : w'.db.userInstalls = w.db.userInstalls := hsame .userInstalls (by decide)
  have hd : w'.db.userDisabledTools = w.db.userDisabledTools :=
    hsame .userDisabledTools (by decide)
  have hp : w'.db.profileServers = w.db.profileServers := hsame .profileServers (by decide)
  constructor
  · rw [hs]
    exact List.Subset.refl _
  · rw [hm]
    exact List.Subset.refl _
  · rw [hi]
    exact List.Subset.refl _
  · rw [hd]
    exact List.Subset.refl _
  · rw [hp]
    exact List.Subset.refl _
  · rw [h.host]
    exact fun _ _ hrt ↦ hrt

/-- A deletion of rows, whether or not it took effect. -/
theorem fewer_of_sql {c : Sql} {faults : Call → Prop} {r : Except Err c.Ans}
    (h : sem O faults (.sql c) w r w') (hc : Fewer w { w with db := (c.apply w.db).2 }) :
    Fewer w w' := by
  rcases h with ⟨-, rfl⟩ | ⟨-, -, rfl | rfl⟩
  · exact hc
  · exact .refl _
  · exact hc

theorem sem_fewer {faults : Call → Prop} {e : Call} {r : e.Res} (he : Removes e)
    (h : sem O faults e w r w') : Fewer w w' := by
  cases he with
  | other hts he => exact fewer_of_alike (sem_touches he h) hts
  | server name =>
      exact fewer_of_sql h { Fewer.refl w with servers := List.filter_sublist.subset }
  | manifest name =>
      exact fewer_of_sql h { Fewer.refl w with manifests := List.filter_sublist.subset }
  | installs name =>
      exact fewer_of_sql h { Fewer.refl w with installs := List.filter_sublist.subset }
  | disabledTools name =>
      exact fewer_of_sql h { Fewer.refl w with disabledTools := List.filter_sublist.subset }
  | profiles name | cascade name =>
      exact fewer_of_sql h { Fewer.refl w with profiles := List.filter_sublist.subset }
  | runtime pid =>
      obtain ⟨-, rfl⟩ := h
      refine { Fewer.refl w with runtimes := fun q rt hrt ↦ ?_ }
      rw [Host.runtimeOf_take] at hrt
      split at hrt
      · cases hrt
      · exact hrt
  | cleanup b =>
      obtain rfl := h
      exact { Fewer.refl w with }

/-- The calls of a program only remove. -/
theorem exec_fewer {α : Type} {p : Code α} (hp : All Removes p) {a : α}
    (hx : Exec (planned O plan) p w a w') : Fewer w w' :=
  hp.frame (ρ := Fewer) .refl (fun _ _ _ ↦ .trans) (fun _ _ _ _ he hr ↦ sem_fewer he (planned_sem hr))
    hx

theorem uninstall_removes (i : IndexInstaller) (name : String) :
    All Removes (i.uninstall name) := by
  refine (uninstall_calls i name).mono fun e he ↦ ?_
  cases he with
  | other he => exact .other (by decide) he
  | server => exact .server name
  | manifest => exact .manifest name

theorem removeServerFromProfiles_removes (name : String) :
    All Removes (removeServerFromProfiles name) := by
  have hread : Touches [] (.sql (.affectedProfiles name)) := List.nil_subset _
  refine All.except (all_call_iff.mpr (.other (by decide) hread)) (fun _ ↦ all_ret) fun ids ↦ ?_
  exact all_call.mpr ⟨.profiles name, fun _ ↦ all_ret⟩

theorem invalidate_removes (pid : Int64) : All Removes (invalidate pid) := by
  refine all_call.mpr ⟨.runtime pid, fun rt ↦ ?_⟩
  cases rt with
  | none => exact all_ret
  | some rt =>
      refine All.bind (All.each (fun b ↦ ?_) _) fun _ ↦ all_ret
      exact all_call_iff.mpr (.cleanup b)

theorem cascadeRemoveServer_removes (name : String) :
    All Removes (cascadeRemoveServer name) := by
  refine All.except (all_call_iff.mpr (.installs name)) (fun _ ↦ all_ret) fun _ ↦ ?_
  refine All.except (all_call_iff.mpr (.disabledTools name)) (fun _ ↦ all_ret) fun _ ↦ ?_
  exact all_call_iff.mpr (.cascade name)

theorem audit_removes (ctx : Ctx) (decision detail : String) :
    All Removes (audit ctx decision detail none) := by
  have haudit : All (Touches [.audit]) (audit ctx decision detail none) :=
    audit_touches ctx (by decide) ..
  exact haudit.mono fun _ he ↦ .other (by decide) he

/-! ## The parts of an attempt -/

/-- An attempt ends with its uninstall, which changes no profile and no runtime, or it goes
through the profiles, their runtimes and the cascade. -/
theorem exec_handleUninstallServer {resp : Response}
    (hx : Exec (planned O plan) (handleUninstallServer srv ctx name) w resp w') :
    (resp ≠ writeHeader 204 ∧ Alike [.servers, .manifests, .disabledTools] w w') ∨
    ∃ i w₁ affected committed w₂ us w₃ r w₄,
      Exec (planned O plan) (IndexInstaller.uninstall i name) w (.ok ()) w₁ ∧
      Exec (planned O plan) (removeServerFromProfiles name) w₁ (affected, committed) w₂ ∧
      Exec (planned O plan) (Prog.each invalidate affected) w₂ us w₃ ∧
      Exec (planned O plan) (cascadeRemoveServer name) w₃ r w₄ ∧
      Exec (planned O plan) (audit ctx "server_uninstall" ("name=" ++ name) none) w₄ () w' := by
  unfold handleUninstallServer at hx
  split at hx
  · obtain ⟨rfl, rfl⟩ := hx
    exact .inl ⟨by rintro ⟨⟩, .refl _ _⟩
  · rename_i i hi
    obtain ⟨r₁, w₁, hx₁, hx⟩ := exec_bind.mp hx
    cases r₁ with
    | error e =>
        obtain ⟨rfl, rfl⟩ := hx
        refine .inl ⟨by rintro ⟨⟩, ?_⟩
        exact exec_touches (uninstall_touches (List.Subset.refl _) i name)
          (hx₁.mono fun _ _ _ _ ↦ planned_sem)
    | ok _ =>
        obtain ⟨⟨affected, committed⟩, w₂, hx₂, hx⟩ := exec_bind.mp hx
        obtain ⟨us, w₃, hx₃, hx⟩ := exec_bind.mp hx
        obtain ⟨r, w₄, hx₄, hx⟩ := exec_bind.mp hx
        obtain ⟨_, w₅, hx₅, -, rfl⟩ := exec_bind.mp hx
        exact .inr ⟨i, w₁, affected, committed, w₂, us, w₃, r, w₄, hx₁, hx₂, hx₃, hx₄, hx₅⟩

/-- A program that makes no statements does not notice that statements fail. -/
theorem exec_unplanned {α : Type} {p : Code α} (hp : All (fun e ↦ ∀ c, e ≠ Call.sql c) p) {a : α}
    (hx : Exec (planned O plan) p w a w') : Exec (sem O healthy) p w a w' := by
  refine hp.exec_map (g := fun w ↦ w) ?_ hx
  intro e w r w' he hr
  cases e with
  | sql c => exact absurd rfl (he c)
  | _ => exact hr

theorem invalidate_unplanned (pid : Int64) : All (fun e ↦ ∀ c, e ≠ Call.sql c) (invalidate pid) := by
  refine all_call.mpr ⟨by rintro _ ⟨⟩, fun rt ↦ ?_⟩
  cases rt with
  | none => exact all_ret
  | some rt =>
      refine All.bind (All.each (fun b ↦ ?_) _) fun _ ↦ all_ret
      exact all_call_iff.mpr (by rintro _ ⟨⟩)

/-- A deletion leaves no row it is for. -/
theorem ne_of_mem_deleted {α : Type} (server : α → String) {rows : List α} {a : α}
    (h : a ∈ rows.filter fun r ↦ !decide (server r = name)) : server a ≠ name := by
  simpa using (List.mem_filter.mp h).2

/-- An uninstall that succeeds has made its three deletions. -/
theorem exec_uninstall {i : IndexInstaller} {u : Unit}
    (hx : Exec (planned O plan) (i.uninstall name) w (.ok u) w') :
    (plan (.deleteServer name) = none ∧ plan (.deleteManifest name) = none ∧
      plan (.deleteDisabledToolsForServer name) = none) ∧
    (∀ s ∈ w'.db.servers.table.rows, s.name ≠ name) ∧
    ∀ m ∈ w'.db.manifests.rows, m.server ≠ name := by
  have hall := uninstall_removes i name
  unfold IndexInstaller.uninstall at hx hall
  split at hx
  · exact absurd hx not_exec_error
  · rename_i hname
    rw [if_neg hname] at hall
    obtain ⟨u₁, w₁, hr₁, hx₁⟩ := exec_ok hx fun _ _ ↦ not_exec_error
    obtain ⟨u₂, w₂, hr₂, hx₂⟩ := exec_ok hx₁ fun _ _ ↦ not_exec_error
    obtain ⟨u₃, w₃, hr₃, hx₃⟩ := exec_ok hx₂ fun _ _ ↦ not_exec_error
    have hall₁ := (all_call.mp hall).2 (.ok u₁)
    have hall₂ := (all_call.mp hall₁).2 (.ok u₂)
    have hserver := planned_ok (exec_call_iff.mp hr₁)
    have hmanifest := planned_ok (exec_call_iff.mp hr₂)
    have htools := planned_ok (exec_call_iff.mp hr₃)
    obtain ⟨-, rfl⟩ := (planned_none hserver).mp (exec_call_iff.mp hr₁)
    obtain ⟨-, rfl⟩ := (planned_none hmanifest).mp (exec_call_iff.mp hr₂)
    refine ⟨⟨hserver, hmanifest, htools⟩, ?_, ?_⟩
    · intro s hs
      exact ne_of_mem_deleted Server.name ((exec_fewer hall₁ hx₁).servers hs)
    · intro m hm
      exact ne_of_mem_deleted ManifestRecord.server ((exec_fewer hall₂ hx₂).manifests hm)

/-- The profiles that listed the server are invalidated when the read of them succeeds. -/
theorem unserved_of_invalidated {affected : List Int64} {committed : Except Err Unit}
    {us : List Unit} (hw : Listed name w) (hplan : plan (.affectedProfiles name) = none)
    (hremove : Exec (planned O plan) (removeServerFromProfiles name) w (affected, committed) w₁)
    (heach : Exec (planned O plan) (Prog.each invalidate affected) w₁ us w') : Unserved name w' := by
  have hfewer : Fewer w w' :=
    (exec_fewer (removeServerFromProfiles_removes name) hremove).trans
      (exec_fewer (All.each invalidate_removes affected) heach)
  have haffected :
      affected = (w.db.profileServers.rows.filter fun r ↦ r.2 = name).map Prod.fst := by
    obtain ⟨r, w₂, hr, hx⟩ := exec_call.mp hremove
    obtain ⟨rfl, -⟩ := (planned_none hplan).mp hr
    obtain ⟨r₂, w₃, -, hpair, -⟩ := exec_call.mp hx
    cases hpair
    rfl
  have hgone := exec_each_invalidate (exec_unplanned (All.each invalidate_unplanned affected) heach)
  intro pid rt hrt hb
  have hrow : (pid, name) ∈ w.db.profileServers.rows := hw pid rt (hfewer.runtimes pid rt hrt) hb
  have hpid : pid ∈ affected := by
    rw [haffected]
    exact List.mem_map.mpr ⟨(pid, name), List.mem_filter.mpr ⟨hrow, by simp⟩, rfl⟩
  rw [hgone pid hpid] at hrt
  cases hrt

/-- A read of the profiles that fails finds none of them. -/
theorem unlisted_of_failed {affected : List Int64} {committed : Except Err Unit} {us : List Unit}
    {took : Bool} (hplan : plan (.affectedProfiles name) = some took)
    (hremove : Exec (planned O plan) (removeServerFromProfiles name) w (affected, committed) w₁)
    (heach : Exec (planned O plan) (Prog.each invalidate affected) w₁ us w') : w' = w := by
  obtain ⟨r, w₂, hr, hx⟩ := exec_call.mp hremove
  obtain ⟨⟨e, rfl, -⟩, hw₂⟩ := (planned_some hplan).mp hr
  obtain ⟨hpair, rfl⟩ := hx
  cases hpair
  obtain ⟨-, rfl⟩ := heach
  rw [hw₂]
  cases took <;> rfl

/-- The plan stops the cascade before it deletes the rows of the profiles. -/
def StopsCascade (name : String) (plan : Sql → Option Bool) : Prop :=
  plan (.deleteInstallsOf name) ≠ none ∨ plan (.deleteUserDisabledToolsOf name) ≠ none ∨
    plan (.deleteProfileServersOf name) = some false

theorem cascade_stopped {r : Except Err Unit} (hplan : StopsCascade name plan)
    (hx : Exec (planned O plan) (cascadeRemoveServer name) w r w') :
    Alike [.userInstalls, .userDisabledTools] w w' := by
  obtain ⟨r₁, w₁, hr₁, hx₁⟩ := exec_call.mp hx
  have htouches₁ : Touches [.userInstalls, .userDisabledTools] (.sql (.deleteInstallsOf name)) :=
    (by decide : [Tbl.userInstalls] ⊆ [.userInstalls, .userDisabledTools])
  have hw₁ := sem_touches htouches₁ (planned_sem hr₁)
  cases r₁ with
  | error e =>
      obtain ⟨-, rfl⟩ := hx₁
      exact hw₁
  | ok _ =>
      obtain ⟨r₂, w₂, hr₂, hx₂⟩ := exec_call.mp hx₁
      have htouches₂ :
          Touches [.userInstalls, .userDisabledTools] (.sql (.deleteUserDisabledToolsOf name)) :=
        (by decide : [Tbl.userDisabledTools] ⊆ [.userInstalls, .userDisabledTools])
      have hw₂ := hw₁.trans (sem_touches htouches₂ (planned_sem hr₂))
      cases r₂ with
      | error e =>
          obtain ⟨-, rfl⟩ := hx₂
          exact hw₂
      | ok _ =>
          rcases hplan with hplan | hplan | hplan
          · exact absurd (planned_ok hr₁) hplan
          · exact absurd (planned_ok hr₂) hplan
          · obtain ⟨-, rfl⟩ := (planned_some hplan).mp (exec_call_iff.mp hx₂)
            exact hw₂

/-- An attempt whose read of the profiles does not fail while its cascade goes through: no runtime
has the server any more, the uninstall fails before it comes to the profiles, the read succeeds, or
the rows stay. -/
def Spares (name : String) (plan : Sql → Option Bool) (w : World) : Prop :=
  Unserved name w ∨
  (plan (.deleteServer name) ≠ none ∨ plan (.deleteManifest name) ≠ none ∨
    plan (.deleteDisabledToolsForServer name) ≠ none) ∨
  plan (.affectedProfiles name) = none ∨ StopsCascade name plan

/-- An attempt to uninstall a server, with the statements that fail in it. -/
def Attempt (O : Outside) (srv : Server) (name : String) (plan : Sql → Option Bool) (w w' : World) :
    Prop :=
  ∃ ctx resp, Exec (planned O plan) (handleUninstallServer srv ctx name) w resp w'

theorem Listed.of_alike {ts : List Tbl} (h : Alike ts w w') (hts : Tbl.profileServers ∉ ts)
    (hw : Listed name w) : Listed name w' := by
  have hrows : w'.db.profileServers = w.db.profileServers := h.tbl .profileServers hts
  intro pid rt hrt hb
  rw [h.host] at hrt
  rw [hrows]
  exact hw pid rt hrt hb

/-- What an attempt keeps: the runtimes that have the server can still be found by its rows. -/
theorem Attempt.listed (h : Attempt O srv name plan w w') (hok : Spares name plan w)
    (hw : Listed name w) : Listed name w' := by
  obtain ⟨ctx, resp, hx⟩ := h
  rcases exec_handleUninstallServer hx with ⟨-, halike⟩ |
    ⟨i, w₁, affected, committed, w₂, us, w₃, r, w₄, huninstall, hremove, heach, hcascade, haudit⟩
  · exact hw.of_alike halike (by decide)
  have hfewer : Fewer w₃ w' :=
    (exec_fewer (cascadeRemoveServer_removes name) hcascade).trans
      (exec_fewer (audit_removes ctx _ _) haudit)
  have hw₁ : Alike [.servers, .manifests, .disabledTools] w w₁ :=
    exec_touches (uninstall_touches (List.Subset.refl _) i name)
      (huninstall.mono fun _ _ _ _ ↦ planned_sem)
  rcases hok with hnone | hfails | hread | hstops
  · have hbefore : Fewer w w₃ :=
      (exec_fewer (uninstall_removes i name) huninstall).trans
        ((exec_fewer (removeServerFromProfiles_removes name) hremove).trans
          (exec_fewer (All.each invalidate_removes affected) heach))
    exact ((hbefore.trans hfewer).unserved hnone).listed
  · obtain ⟨⟨hserver, hmanifest, htools⟩, -⟩ := exec_uninstall huninstall
    rcases hfails with h | h | h
    · exact absurd hserver h
    · exact absurd hmanifest h
    · exact absurd htools h
  · have hnone : Unserved name w₃ :=
      unserved_of_invalidated (hw.of_alike hw₁ (by decide)) hread hremove heach
    exact (hfewer.unserved hnone).listed
  · cases hread : plan (.affectedProfiles name) with
    | none =>
        have hnone : Unserved name w₃ :=
          unserved_of_invalidated (hw.of_alike hw₁ (by decide)) hread hremove heach
        exact (hfewer.unserved hnone).listed
    | some took =>
        obtain rfl := unlisted_of_failed hread hremove heach
        have htouches : All (Touches [.audit]) (audit ctx "server_uninstall" ("name=" ++ name) none) :=
          audit_touches ctx (by decide) ..
        have haudited := exec_touches htouches (haudit.mono fun _ _ _ _ ↦ planned_sem)
        exact ((hw.of_alike hw₁ (by decide)).of_alike (cascade_stopped hstops hcascade)
          (by decide)).of_alike haudited (by decide)

namespace Example.Retry

open Revocation.Example.Echo

/-- A server that can uninstall. -/
def server : Server := { Local.server with installer := some ⟨Registry.Example.schema, "/data", false⟩ }

/-- The read of the profiles fails, and the first deletion of the cascade as it is told to. -/
def unread (cascade : Option Bool) : Sql → Option Bool
  | .affectedProfiles _ => some false
  | .deleteInstallsOf _ => cascade
  | _ => none

/-- An attempt to uninstall `echo`. -/
def attempt (plan : Sql → Option Bool) (w : World) : Option (Response × World) :=
  run (partners.faulty plan) (handleUninstallServer server alicesCtx "echo") w

def after (plan : Sql → Option Bool) (w : World) : World := ((attempt plan w).map Prod.snd).getD w

theorem exec_attempt {plan : Sql → Option Bool} {w w' : World} {resp : Response}
    (h : attempt plan w = some (resp, w')) :
    Exec (planned Partners.outside plan) (handleUninstallServer server alicesCtx "echo") w resp w' := by
  unfold attempt at h
  exact exec_run (fun _ _ _ _ hr ↦ partners.faulty_planned hr) h

end Example.Retry

end GigMcp.Api
