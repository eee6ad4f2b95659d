import GigMcp.Gateway.Threads

/-!
# What the host's goroutines keep to

`Permitted` says when a job may make a call, in terms of its record, and `Ends`
how it may end.  `body_conducts` shows that the code of every job keeps to that,
whatever its calls answer: a job commits only under the claim it holds and only
what it has spawned, it takes runtimes only while it owes nothing, it runs only
cleanups of backends it has in hand, and it ends owing nothing.
-/

namespace GigMcp.Gateway

open GigMcp.Effect GigMcp.System GigMcp.Store GigMcp.Data

/-- The backends a build hands over. -/
def handed : Except Err ProfileRuntime → List EgressBackend
  | .ok rt => rt.cleanups
  | .error _ => []

/-- When a job may make a call. -/
def Permitted (j : Job) : Call → Record → Prop
  | .enter pid, g => j.builds = some pid ∧ g.Idle
  | .spawn _ tenant _, g => ∃ pid, g.claim = some pid ∧ tenant = formatInt pid
  | .cleanup b, g => b ∈ g.held
  | .commit pid built, g => g.claim = some pid ∧ g.held = handed built
  | .takeRuntime pid, g =>
      j.TearsDown ∧ g.Idle ∧ ∀ ctx pathID, j = .deleteProfile ctx pathID → g.dropped = some pid
  | .takeAll, g => j.TearsDown ∧ g.Idle
  | .sql c, g => ∀ pid, c = .deleteProfile pid → pid ∈ g.seen
  | _, _ => True

/-- How a job may end: owing nothing, and going on only to build the runtime of its
profile, or of one that its token lookup found. -/
def Ends (j : Job) : Outcome ⊕ Job → Record → Prop
  | .inl _, g => g.Idle ∧ (j = .close → g.shut = true)
  | .inr j', g => g.Idle ∧ ∃ p, j' = .getOrCreate p ∧
      (j.builds = some p.id ∨ (j.builds = none ∧ ¬ j.TearsDown ∧ p.id ∈ g.seen))

/-- A program of a job keeps to what is permitted. -/
abbrev Conducts {α : Type} (j : Job) (fin : α → Record → Prop) (p : Code α) (g : Record) : Prop :=
  Conforms Record.track (Permitted j) fin p g

/-- A call that is always permitted and that records do not show. -/
def Quiet (j : Job) (e : Call) : Prop :=
  (∀ g, Permitted j e g) ∧ ∀ g (r : e.Res), Record.track e g r = g

variable {j : Job} {g : Record}

/-- A quiet program leaves the record as it is. -/
theorem conducts_of_quiet {α : Type} {p : Code α} (hp : All (Quiet j) p) :
    Conducts j (fun _ g' ↦ g' = g) p g := Conforms.of_all hp

/-! ## Building -/

theorem exposeFor_quiet (p : Profile) (server : String) :
    All (Quiet j) (exposeFor p server) := by
  refine All.except (all_call_iff.mpr ⟨nofun, fun _ _ ↦ rfl⟩)
    (fun _ ↦ all_ret) fun installed ↦ ?_
  cases installed with
  | false => exact all_ret
  | true =>
      refine All.except (all_call_iff.mpr ⟨nofun, fun _ _ ↦ rfl⟩)
        (fun e ↦ ?_) fun rec ↦ ?_
      · dsimp only
        split
        · exact all_ret
        · exact all_ret
      · exact all_call.mpr ⟨⟨nofun, fun _ _ ↦ rfl⟩, fun _ ↦ all_ret⟩

theorem aggregate_quiet (bs : List Backend) (tools : List AggTool) :
    All (Quiet j) (aggregate bs tools) := by
  induction bs generalizing tools with
  | nil => exact all_ret
  | cons b bs ih =>
      exact All.except (all_call_iff.mpr ⟨fun _ ↦ trivial, fun _ _ ↦ rfl⟩) (fun _ ↦ all_ret)
        fun _ ↦ ih _

theorem newAggregator_quiet (bs : List Backend) : All (Quiet j) (newAggregator bs) := by
  unfold newAggregator
  split
  · exact all_ret
  · exact aggregate_quiet bs []

/-- Running the cleanups of what a thread has in hand empties its hands. -/
theorem runCleanups_conducts {bs : List EgressBackend} (h : g.held = bs) :
    Conducts j (fun _ g' ↦ g' = { g with held := [] }) (runCleanups bs) g := by
  have heach : ∀ (bs : List EgressBackend) (g : Record), g.held = bs →
      Conducts j (fun _ g' ↦ g' = { g with held := [] })
        (Prog.each (fun b ↦ perform (.cleanup b)) bs) g := by
    intro bs
    induction bs with
    | nil =>
        intro g hg
        exact congrArg (fun l ↦ { g with held := l }) hg
    | cons b bs ih =>
        intro g hg
        refine conforms_call.mpr ⟨?_, fun _ ↦ ?_⟩
        · show b ∈ g.held
          rw [hg]
          exact .head _
        · have herase : (Record.track (.cleanup b) g ()).held = bs := by
            show g.held.erase b = bs
            rw [hg, List.erase_cons_head]
          exact (ih _ herase).bind fun _ _ hg' ↦ hg'
  exact (heach bs g h).bind fun _ _ hg' ↦ hg'

theorem failBuild_conducts {α : Type} {bs : List EgressBackend} (h : g.held = bs) (e : Err) :
    Conducts j (fun r g' ↦ r = .error e ∧ g' = { g with held := [] })
      (failBuild (α := α) bs e) g :=
  (runCleanups_conducts h).bind fun _ _ hg' ↦ ⟨rfl, hg'⟩

/-- What a spawn leaves in hand. -/
def withSpawned (g : Record) : Except Err EgressBackend → Record
  | .ok b => { g with held := g.held ++ [b] }
  | .error _ => g

theorem spawn_conducts (srv : Server) {pid : Int64} (hg : g.claim = some pid)
    (placeholder : String) :
    Conducts j (fun r g' ↦ g' = withSpawned g r)
      (perform (.spawn srv (formatInt pid) placeholder)) g := by
  refine ⟨⟨pid, hg, rfl⟩, fun r ↦ ?_⟩
  cases r with
  | ok b => rfl
  | error e => rfl

theorem spawnBackend_conducts (srv : Server) {pid : Int64} (hg : g.claim = some pid) :
    Conducts j (fun r g' ↦ g' = withSpawned g r) (spawnBackend srv (formatInt pid)) g := by
  refine conforms_call.mpr ⟨nofun, fun r ↦ ?_⟩
  cases r with
  | ok rec =>
      dsimp only
      split
      · rfl
      · exact spawn_conducts srv hg _
  | error e =>
      dsimp only
      split
      · exact spawn_conducts srv hg _
      · rfl

/-- The backends a spawning loop has collected. -/
def collected : Except Err (List Backend × List EgressBackend) → List EgressBackend
  | .ok (_, cleanups) => cleanups
  | .error _ => []

/-- The spawning loop keeps in hand exactly what it has collected, and nothing when it
gives up. -/
theorem spawnServers_conducts (p : Profile) (all : List Server) (names : List String)
    (backends : List Backend) {cleanups : List EgressBackend} (hclaim : g.claim = some p.id)
    (hheld : g.held = cleanups) :
    Conducts j (fun r g' ↦ g'.claim = some p.id ∧ g'.held = collected r)
      (spawnServers p all names backends cleanups) g := by
  induction names generalizing g backends cleanups with
  | nil => exact ⟨hclaim, hheld⟩
  | cons name names ih =>
      unfold spawnServers
      split
      · exact ih _ hclaim hheld
      · rename_i srv _
        refine (conducts_of_quiet (exposeFor_quiet p name)).bind ?_
        rintro r g' rfl
        split
        · refine (failBuild_conducts hheld _).mono (fun _ _ h ↦ h) ?_
          rintro r g' ⟨rfl, rfl⟩
          exact ⟨hclaim, rfl⟩
        · exact ih _ hclaim hheld
        · refine (spawnBackend_conducts srv hclaim).bind ?_
          rintro r g' rfl
          cases r with
          | error e =>
              refine (failBuild_conducts hheld _).mono (fun _ _ h ↦ h) ?_
              rintro r g' ⟨rfl, rfl⟩
              exact ⟨hclaim, rfl⟩
          | ok b =>
              refine ih _ hclaim ?_
              exact congrArg (· ++ [b]) hheld

/-- A build has in hand exactly what it hands over. -/
theorem spawnProfile_conducts (p : Profile) (hclaim : g.claim = some p.id) (hheld : g.held = []) :
    Conducts j (fun r g' ↦ g'.claim = some p.id ∧ g'.held = handed r) (spawnProfile p) g := by
  refine conforms_call.mpr ⟨nofun, fun r ↦ ?_⟩
  cases r with
  | error e => exact ⟨hclaim, hheld⟩
  | ok names =>
      refine conforms_call.mpr ⟨nofun, fun r ↦ ?_⟩
      cases r with
      | error e => exact ⟨hclaim, hheld⟩
      | ok all =>
          refine (spawnServers_conducts p all names [] hclaim hheld).bind ?_
          rintro r g₁ ⟨hclaim, hheld⟩
          cases r with
          | error e => exact ⟨hclaim, hheld⟩
          | ok bs =>
              refine (conducts_of_quiet (newAggregator_quiet bs.1)).bind ?_
              rintro r g₂ rfl
              cases r with
              | ok tools => exact ⟨hclaim, hheld⟩
              | error e =>
                  refine (failBuild_conducts hheld e).mono (fun _ _ h ↦ h) ?_
                  rintro r g₃ ⟨rfl, rfl⟩
                  exact ⟨hclaim, rfl⟩

/-! ## The jobs -/

theorem getOrCreateBody_conducts {p : Profile} (hj : j.builds = some p.id) (hg : g.Idle) :
    Conducts j (fun _ g' ↦ g'.Idle) (getOrCreateBody p) g := by
  refine conforms_call.mpr ⟨⟨hj, hg⟩, fun r ↦ ?_⟩
  cases r with
  | closed => exact hg
  | warm rt => exact hg
  | inflight ch => exact conforms_call.mpr ⟨trivial, fun _ ↦ hg⟩
  | claimed ch =>
      refine Conforms.bind
        (spawnProfile_conducts (g := { g with claim := some p.id }) p rfl hg.2) ?_
      rintro built g₁ ⟨hclaim, hheld⟩
      refine conforms_call.mpr ⟨⟨hclaim, hheld⟩, fun r ↦ ?_⟩
      exact conforms_call.mpr ⟨trivial, fun _ ↦ ⟨rfl, rfl⟩⟩

theorem lookupProfile_conducts (slug : String) (bearer : Option String) (hg : g.Idle) :
    Conducts j (fun r g' ↦ g'.Idle ∧ ∀ p, r = some p → p.id ∈ g'.seen)
      (lookupProfile slug bearer) g := by
  cases bearer with
  | none => exact ⟨hg, nofun⟩
  | some hash =>
      refine conforms_call.mpr ⟨nofun, fun r ↦ ?_⟩
      cases r with
      | error e => exact ⟨hg, nofun⟩
      | ok p =>
          refine ⟨hg, fun p' hp' ↦ ?_⟩
          obtain rfl := Option.some.inj hp'
          exact .head _

theorem invalidate_conducts {pid : Int64} (hj : j.TearsDown) (hg : g.Idle)
    (hdropped : ∀ ctx pathID, j = .deleteProfile ctx pathID → g.dropped = some pid) :
    Conducts j (fun _ g' ↦ g'.Idle) (invalidate pid) g := by
  refine conforms_call.mpr ⟨⟨hj, hg, hdropped⟩, fun r ↦ ?_⟩
  cases r with
  | none => exact hg
  | some rt =>
      refine Conforms.mono (fun _ _ h ↦ h) ?_
        (runCleanups_conducts (g := { g with held := rt.cleanups }) rfl)
      rintro _ g' rfl
      exact ⟨hg.1, rfl⟩

theorem close_conducts (hj : j.TearsDown) (hg : g.Idle) :
    Conducts j (fun _ g' ↦ g'.Idle ∧ g'.shut = true) close g := by
  refine conforms_call.mpr ⟨⟨hj, hg⟩, fun rts ↦ ?_⟩
  refine Conforms.mono (fun _ _ h ↦ h) ?_ (runCleanups_conducts
    (g := { g with held := rts.flatMap ProfileRuntime.cleanups, shut := true }) rfl)
  rintro _ g' rfl
  exact ⟨⟨hg.1, rfl⟩, rfl⟩

theorem audit_quiet (ctx : Auth.Ctx) (decision detail : String) (profileID : Option Int64) :
    All (Quiet j) (Api.audit ctx decision detail profileID) := by
  refine All.bind ?_ fun _ ↦ all_ret
  refine all_call.mpr ⟨⟨fun _ ↦ trivial, fun _ _ ↦ rfl⟩, fun now ↦ ?_⟩
  exact all_call_iff.mpr ⟨nofun, fun _ _ ↦ rfl⟩

theorem loadOwnedProfile_conducts (ctx : Auth.Ctx) (pathID : String) (hg : g.Idle) :
    Conducts j (fun r g' ↦ g'.Idle ∧ ∀ p, r = .ok p → p.id ∈ g'.seen)
      (Api.loadOwnedProfile ctx pathID) g := by
  unfold Api.loadOwnedProfile
  split
  · exact ⟨hg, nofun⟩
  · refine conforms_call.mpr ⟨nofun, fun r ↦ ?_⟩
    cases r with
    | error e =>
        dsimp only
        split
        · exact ⟨hg, nofun⟩
        · exact ⟨hg, nofun⟩
    | ok p =>
        dsimp only
        split
        · exact ⟨hg, nofun⟩
        · refine ⟨hg, fun p' hp' ↦ ?_⟩
          obtain rfl := Except.ok.inj hp'
          exact .head _

theorem handleDeleteProfile_conducts (ctx : Auth.Ctx) (pathID : String)
    (hj : j = .deleteProfile ctx pathID) (hg : g.Idle) :
    Conducts j (fun _ g' ↦ g'.Idle) (Api.handleDeleteProfile ctx pathID) g := by
  have htears : j.TearsDown := by
    rw [hj]
    trivial
  refine (loadOwnedProfile_conducts ctx pathID hg).bind ?_
  rintro r g₁ ⟨hg, hseen⟩
  cases r with
  | error resp => exact hg
  | ok p =>
      refine conforms_call.mpr ⟨?_, fun r ↦ ?_⟩
      · rintro pid ⟨rfl⟩
        exact hseen p rfl
      · cases r with
        | error e => exact hg
        | ok u =>
            refine Conforms.bind (invalidate_conducts (g := { g₁ with dropped := some p.id })
              htears hg fun _ _ _ ↦ rfl) ?_
            intro _ g₂ hg
            refine (conducts_of_quiet (audit_quiet ctx _ _ _)).bind ?_
            rintro _ g₃ rfl
            exact hg

/-- The code of every job keeps to what is permitted. -/
theorem body_conducts (j : Job) (hg : g.Idle) : Conducts j (Ends j) j.body g := by
  cases j with
  | serve slug bearer =>
      refine (lookupProfile_conducts slug bearer hg).bind ?_
      rintro r g' ⟨hg, hseen⟩
      cases r with
      | none => exact ⟨hg, nofun⟩
      | some p => exact ⟨hg, p, rfl, .inr ⟨rfl, id, hseen p rfl⟩⟩
  | getOrCreate p =>
      refine (getOrCreateBody_conducts rfl hg).bind ?_
      rintro r g' hg
      cases r with
      | inl r => exact ⟨hg, nofun⟩
      | inr u => exact ⟨hg, p, rfl, .inl rfl⟩
  | invalidate pid =>
      refine Conforms.bind (invalidate_conducts (j := .invalidate pid) trivial hg ?_) ?_
      · rintro _ _ ⟨⟩
      · exact fun _ g' hg ↦ ⟨hg, nofun⟩
  | close =>
      refine Conforms.bind (close_conducts (j := .close) trivial hg) ?_
      exact fun _ g' hg ↦ ⟨hg.1, fun _ ↦ hg.2⟩
  | deleteProfile ctx pathID =>
      refine (handleDeleteProfile_conducts ctx pathID rfl hg).bind ?_
      exact fun _ g' hg ↦ ⟨hg, nofun⟩

/-- In particular from its start on. -/
theorem host_conducts (O : Outside) (starts : Job → Prop) (j : Job) (_ : (host O starts).starts j) :
    Conducts j (Ends j) j.body ((host O starts).init j) := body_conducts j ⟨rfl, rfl⟩

end GigMcp.Gateway
