import GigMcp.Registry.Consent
import GigMcp.System.Local

/-!
# Placeholders over a history of installs

A sandbox keeps the placeholder it was started with, and the proxy looks for the one
in the store.  Over any history of installs and uninstalls, a placeholder belongs to one credential
of one server, a credential keeps its placeholder as long as installs of its server
have it, and the other fields of a stored injection are those of the manifest that
was installed last.

Random values are assumed to be drawn once.  The values that were drawn go with the world; the
proof keeps a ledger of who has been given which.
-/

namespace GigMcp.Registry

open GigMcp.Effect GigMcp.System GigMcp.Store GigMcp.Data

/-- The injections stored for a server. -/
def injectionsOf (w : World) (server : String) : Option (List Injection) :=
  (w.db.manifests.get? server).map ManifestRecord.injections

/-- A placeholder is stored for a credential of a server. -/
def HasPlaceholder (w : World) (server credID placeholder : String) : Prop :=
  ∃ injections, injectionsOf w server = some injections ∧
    ∃ i ∈ injections, i.id = credID ∧ i.placeholder = placeholder

/-! ## Values that are drawn once -/

/-- A world and the random values drawn so far. -/
abbrev Drawing : Type := World × List String

/-- No random value is drawn twice. -/
def draws : Sem gateway (List String)
  | .random, drawn, .ok v, drawn' => v ∉ drawn ∧ drawn' = v :: drawn
  | _, drawn, _, drawn' => drawn' = drawn

/-- The world, with random values that are drawn once. -/
def drawing (O : Outside) (faults : Call → Prop) : Sem gateway Drawing :=
  paired (sem O faults) draws

variable {O : Outside} {faults : Call → Prop} {x y z : Drawing} {prior : Option ManifestRecord}

theorem draws_subset {e : Call} {drawn drawn' : List String} {r : e.Res}
    (h : draws e drawn r drawn') : drawn ⊆ drawn' := by
  unfold draws at h
  split at h
  · rw [h.2]
    exact List.subset_cons_self _ _
  · rw [h]
    exact List.Subset.refl _

/-- What was drawn stays drawn. -/
theorem exec_subset {α : Type} {p : Code α} {a : α} (hx : Exec (drawing O faults) p x a y) :
    x.2 ⊆ y.2 :=
  hx.frame (ρ := fun x y ↦ x.2 ⊆ y.2) (fun _ ↦ List.Subset.refl _)
    (fun _ _ _ ↦ List.Subset.trans) fun _ _ _ _ hr ↦ draws_subset hr.2

/-! ## The placeholders of one install -/

/-- A placeholder of a prior install is one it stored for the credential. -/
theorem priorPlaceholder_eq_some {credID p : String} (h : priorPlaceholder prior credID = some p) :
    p ≠ "" ∧ ∃ rec, prior = some rec ∧
      ∃ i ∈ rec.injections, i.id = credID ∧ i.placeholder = p := by
  cases prior with
  | none => cases h
  | some rec =>
      obtain ⟨i, hi, rfl⟩ := Option.map_eq_some_iff.mp h
      obtain ⟨hmem, hi⟩ := List.mem_filter.mp (List.mem_of_getLast? hi)
      obtain ⟨hne, hid⟩ := of_decide_eq_true hi
      exact ⟨hne, rec, rfl, i, hmem, hid, rfl⟩

/-- What a prior install stored is found. -/
theorem priorPlaceholder_ne_none {rec : ManifestRecord} {i : Injection} (hi : i ∈ rec.injections)
    (hne : i.placeholder ≠ "") : priorPlaceholder (some rec) i.id ≠ none := by
  intro h
  have hnil := List.getLast?_eq_none_iff.mp (Option.map_eq_none_iff.mp h)
  have hmem : i ∈ rec.injections.filter fun j ↦ j.placeholder ≠ "" ∧ j.id = i.id :=
    List.mem_filter.mpr ⟨hi, decide_eq_true ⟨hne, rfl⟩⟩
  rw [hnil] at hmem
  exact absurd hmem List.not_mem_nil

/-- An injection is made from a credential: with the placeholder of the prior install, or, when
that has none, with a value that was drawn for the credential. -/
def MadeFrom (prior : Option ManifestRecord) (given : List (String × String)) (c : Credential)
    (i : Injection) : Prop :=
  i = toInjection c i.placeholder ∧
    (priorPlaceholder prior c.id = some i.placeholder ∨
      priorPlaceholder prior c.id = none ∧ ∃ v, (v, c.id) ∈ given ∧ i.placeholder = "gigph-" ++ v)

/-- The injections of an install: `given` are the values that were drawn for them. -/
structure Builds (prior : Option ManifestRecord) (cs : List Credential)
    (injections : List Injection)
    (drawn drawn' : List String) (given : List (String × String)) : Prop where
  nodup : (given.map Prod.fst).Nodup
  fresh : ∀ v ∈ given.map Prod.fst, v ∈ drawn' ∧ v ∉ drawn
  made : List.Forall₂ (MadeFrom prior given) cs injections

theorem MadeFrom.mono {given given' : List (String × String)} (h : given ⊆ given') {c : Credential}
    {i : Injection} (hi : MadeFrom prior given c i) : MadeFrom prior given' c i := by
  obtain ⟨hfields, hp | ⟨hnone, v, hv, hp⟩⟩ := hi
  · exact ⟨hfields, .inl hp⟩
  · exact ⟨hfields, .inr ⟨hnone, v, h hv, hp⟩⟩

theorem MadeFrom.ne_empty {given : List (String × String)} {c : Credential} {i : Injection}
    (h : MadeFrom prior given c i) : i.placeholder ≠ "" := by
  obtain ⟨-, hp | ⟨-, v, -, hp⟩⟩ := h
  · exact (priorPlaceholder_eq_some hp).1
  · rw [hp]
    intro hempty
    have hlength := congrArg String.length hempty
    rw [String.length_append] at hlength
    exact absurd hlength (by simp)

/-- The placeholder of one credential: the prior one, or a value that is drawn. -/
theorem exec_placeholderFor {credID p : String}
    (hx : Exec (drawing O faults) (placeholderFor prior credID) x (.ok p) y) :
    priorPlaceholder prior credID = some p ∧ y.2 = x.2 ∨
      priorPlaceholder prior credID = none ∧
        ∃ v, p = "gigph-" ++ v ∧ v ∉ x.2 ∧ y.2 = v :: x.2 := by
  unfold placeholderFor at hx
  split at hx
  · rename_i q hq
    obtain ⟨hp, rfl⟩ := hx
    cases hp
    exact .inl ⟨hq, rfl⟩
  · rename_i hnone
    obtain ⟨v, z, hr, hp, rfl⟩ := exec_ok hx fun _ _ ↦ not_exec_error
    cases hp
    obtain ⟨-, hfresh, hdrawn⟩ := exec_call_iff.mp hr
    exact .inr ⟨hnone, v, rfl, hfresh, hdrawn⟩

theorem exec_buildInjections_ok {cs : List Credential} {injections : List Injection}
    (hx : Exec (drawing O faults) (buildInjections prior cs) x (.ok injections) y) :
    ∃ given, Builds prior cs injections x.2 y.2 given := by
  induction cs generalizing x injections with
  | nil =>
      obtain ⟨hnil, rfl⟩ := hx
      cases hnil
      exact ⟨[], List.nodup_nil, by simp, .nil⟩
  | cons c cs ih =>
      obtain ⟨p, x₁, hp, hx₁⟩ := exec_ok hx fun _ _ ↦ not_exec_error
      obtain ⟨is, x₂, his, hlast⟩ := exec_ok hx₁ fun _ _ ↦ not_exec_error
      obtain ⟨hcons, rfl⟩ := hlast
      cases hcons
      obtain ⟨given, hbuilds⟩ := ih his
      rcases exec_placeholderFor hp with ⟨hprior, hsame⟩ | ⟨hnone, v, rfl, hv, hdrawn⟩
      · rw [hsame] at hbuilds
        exact ⟨given, hbuilds.nodup, hbuilds.fresh, .cons ⟨rfl, .inl hprior⟩ hbuilds.made⟩
      · rw [hdrawn] at hbuilds
        have hsubset : v :: x.2 ⊆ y.2 := hdrawn ▸ exec_subset his
        refine ⟨(v, c.id) :: given, ?_, ?_, ?_⟩
        · refine List.nodup_cons.mpr ⟨?_, hbuilds.nodup⟩
          exact fun hmem ↦ (hbuilds.fresh v hmem).2 List.mem_cons_self
        · intro u hu
          rcases List.mem_cons.mp hu with rfl | hu
          · exact ⟨hsubset List.mem_cons_self, hv⟩
          · obtain ⟨hin, hout⟩ := hbuilds.fresh u hu
            exact ⟨hin, fun hmem ↦ hout (List.mem_cons_of_mem _ hmem)⟩
        · refine .cons ⟨rfl, .inr ⟨hnone, v, List.mem_cons_self, rfl⟩⟩ ?_
          exact hbuilds.made.imp fun _ _ h ↦ h.mono (List.subset_cons_self _ _)

/-! ## One install -/

/-- Nothing happened to the injections. -/
structure Unmoved (x y : Drawing) : Prop where
  drawn : x.2 ⊆ y.2
  injections : ∀ s, injectionsOf y.1 s = injectionsOf x.1 s

/-- The injections of a manifest were built over a prior record and stored, and those of other
servers stayed. -/
def Rebuilt (prior : Option ManifestRecord) (m : Manifest) (x y : Drawing) : Prop :=
  ∃ injections given, Builds prior m.credentials injections x.2 y.2 given ∧
    ∀ s, injectionsOf y.1 s = if s = m.name then some injections else injectionsOf x.1 s

theorem Unmoved.trans (h : Unmoved x y) (h' : Unmoved y z) : Unmoved x z :=
  ⟨List.Subset.trans h.drawn h'.drawn, fun s ↦ (h'.injections s).trans (h.injections s)⟩

theorem unmoved_of_touches {α : Type} {ts : List Tbl} {p : Code α} (hp : All (Touches ts) p)
    (hts : Tbl.manifests ∉ ts) {a : α} (hx : Exec (drawing O faults) p x a y) : Unmoved x y := by
  have hsame : y.1.db.manifests = x.1.db.manifests := (exec_touches hp hx.fst).tbl .manifests hts
  refine ⟨exec_subset hx, fun s ↦ ?_⟩
  rw [injectionsOf, hsame, injectionsOf]

section Install

variable {i : IndexInstaller} {m : Manifest} {hash : String}

theorem Unmoved.rebuilt (h : Unmoved x y) (h' : Rebuilt prior m y z) : Rebuilt prior m x z := by
  obtain ⟨injections, given, hbuilds, hstored⟩ := h'
  refine ⟨injections, given, ⟨hbuilds.nodup, fun v hv ↦ ?_, hbuilds.made⟩, fun s ↦ ?_⟩
  · obtain ⟨hin, hout⟩ := hbuilds.fresh v hv
    exact ⟨hin, fun hmem ↦ hout (h.drawn hmem)⟩
  · rw [hstored, h.injections]

theorem Rebuilt.unmoved (h : Rebuilt prior m x y) (h' : Unmoved y z) : Rebuilt prior m x z := by
  obtain ⟨injections, given, hbuilds, hstored⟩ := h
  refine ⟨injections, given, ⟨hbuilds.nodup, fun v hv ↦ ?_, hbuilds.made⟩, fun s ↦ ?_⟩
  · obtain ⟨hin, hout⟩ := hbuilds.fresh v hv
    exact ⟨h'.drawn hin, hout⟩
  · rw [h'.injections, hstored]

theorem exec_ensureRow_unmoved {r : Except Err Server}
    (hx : Exec (drawing O faults) (i.ensureRow m) x r y) : Unmoved x y := by
  have htouches : All (Touches [.servers]) (i.ensureRow m) :=
    ensureRow_touches List.mem_cons_self i m
  exact unmoved_of_touches htouches (by decide) hx

theorem injectionsOf_putManifest (w : World) (rec : ManifestRecord) (s : String) :
    injectionsOf { w with db := ((Sql.putManifest rec).apply w.db).2 } s =
      if s = rec.server then some rec.injections else injectionsOf w s := by
  simp only [injectionsOf, Sql.get?_putManifest]
  split
  · rfl
  · rfl

theorem injectionsOf_recordConsent (w : World) (name hash s : String) :
    injectionsOf { w with db := ((Sql.recordConsent name hash).apply w.db).2 } s =
      injectionsOf w s := by
  simp only [injectionsOf, Sql.get?_recordConsent]
  split
  · rw [Option.map_map]
    rfl
  · rfl

theorem exec_maybeConsent_unmoved {name : String}
    (hx : Exec (drawing O faults) (i.maybeConsent name hash prior) x (.ok ()) y) : Unmoved x y := by
  refine ⟨exec_subset hx, fun s ↦ ?_⟩
  unfold IndexInstaller.maybeConsent at hx
  split at hx
  · obtain ⟨hr, -⟩ := exec_call_iff.mp hx
    rw [(sem_sql_ok hr).2]
    exact injectionsOf_recordConsent x.1 name hash s
  · obtain ⟨-, rfl⟩ := hx
    rfl

/-- The two steps both paths have in common: the injections are built and stored. -/
theorem rebuilt_of_put {injections : List Injection}
    (hbuild : Exec (drawing O faults) (buildInjections prior m.credentials) x (.ok injections) y)
    (hput : Exec (drawing O faults) (sql (.putManifest (toRecord m injections hash))) y (.ok ()) z) :
    Rebuilt prior m x z := by
  have htouches : All (Touches []) (buildInjections prior m.credentials) :=
    buildInjections_touches prior m.credentials
  have hunmoved := unmoved_of_touches htouches List.not_mem_nil hbuild
  obtain ⟨given, hbuilds⟩ := exec_buildInjections_ok hbuild
  obtain ⟨hr, hdrawn⟩ := exec_call_iff.mp hput
  obtain hdrawn : z.2 = y.2 := hdrawn
  refine ⟨injections, given, hdrawn ▸ hbuilds, fun s ↦ ?_⟩
  rw [← hunmoved.injections, (sem_sql_ok hr).2]
  exact injectionsOf_putManifest y.1 (toRecord m injections hash) s

theorem exec_record_rebuilt {srv : Server}
    (hx : Exec (drawing O faults) (i.record m hash prior) x (.ok srv) y) : Rebuilt prior m x y := by
  obtain ⟨injections, x₁, hbuild, hx₁⟩ := exec_ok hx fun _ _ ↦ not_exec_error
  obtain ⟨_, x₂, hput, hx₂⟩ := exec_ok hx₁ fun _ _ ↦ not_exec_error
  obtain ⟨srv', x₃, hrow, hx₃⟩ := exec_ok hx₂ fun _ _ ↦ not_exec_error
  obtain ⟨_, x₄, hconsent, -, rfl⟩ := exec_ok hx₃ fun _ _ ↦ not_exec_error
  exact (rebuilt_of_put hbuild hput).unmoved
    ((exec_ensureRow_unmoved hrow).trans (exec_maybeConsent_unmoved hconsent))

theorem exec_refresh_rebuilt {srv : Server}
    (hx : Exec (drawing O faults) (i.refresh m hash prior) x (.ok srv) y) : Rebuilt prior m x y := by
  obtain ⟨srv', x₁, hrow, hx₁⟩ := exec_ok hx fun _ _ ↦ not_exec_error
  obtain ⟨injections, x₂, hbuild, hx₂⟩ := exec_ok hx₁ fun _ _ ↦ not_exec_error
  obtain ⟨_, x₃, hput, hx₃⟩ := exec_ok hx₂ fun _ _ ↦ not_exec_error
  obtain ⟨_, x₄, hconsent, -, rfl⟩ := exec_ok hx₃ fun _ _ ↦ not_exec_error
  exact (exec_ensureRow_unmoved hrow).rebuilt
    ((rebuilt_of_put hbuild hput).unmoved (exec_maybeConsent_unmoved hconsent))

theorem alreadyInstalled_touches (i : IndexInstaller) (m : Manifest) (hash : String)
    (prior : Option ManifestRecord) : All (Touches []) (i.alreadyInstalled m hash prior) := by
  unfold IndexInstaller.alreadyInstalled
  split
  · exact all_call_iff.mpr trivial
  · exact all_ret

/-- Whichever path an install takes, it rebuilds the injections over the prior record. -/
theorem exec_installOver_rebuilt {srv : Server}
    (hx : Exec (drawing O faults) (i.installOver m hash prior) x (.ok srv) y) :
    Rebuilt prior m x y := by
  obtain ⟨b, x₁, hb, hx₁⟩ := exec_bind.mp hx
  have hunmoved :=
    unmoved_of_touches (alreadyInstalled_touches i m hash prior) List.not_mem_nil hb
  cases b with
  | true => exact hunmoved.rebuilt (exec_refresh_rebuilt hx₁)
  | false =>
      obtain ⟨_, x₂, hpull, hx₂⟩ := exec_ok hx₁ fun _ _ ↦ not_exec_error
      have htouches : All (Touches []) (i.pull m) := pull_touches i m
      have hpulled := unmoved_of_touches htouches List.not_mem_nil hpull
      exact (hunmoved.trans hpulled).rebuilt (exec_record_rebuilt hx₂)

theorem exec_installManifest_rebuilt {srv : Server}
    (hx : Exec (drawing O faults) (i.installManifest m) x (.ok srv) y) :
    Rebuilt (x.1.db.manifests.get? m.name) m x y := by
  unfold IndexInstaller.installManifest at hx
  split at hx
  · exact absurd hx not_exec_error
  · split at hx
    · exact absurd hx not_exec_error
    · obtain ⟨r, x₁, ⟨hr, hdrawn⟩, hx₁⟩ := exec_call.mp hx
      obtain rfl : x₁ = x := Prod.ext (sem_reads rfl hr) hdrawn
      cases r with
      | error e =>
          dsimp only at hx₁
          split at hx₁
          · rename_i hmiss
            rw [getManifest_missing hr hmiss]
            exact exec_installOver_rebuilt hx₁
          · exact absurd hx₁ not_exec_error
      | ok rec =>
          rw [Sql.fetch_eq_ok.mp (sem_read_ok hr rfl).1]
          exact exec_installOver_rebuilt hx₁

end Install

/-! ## Histories -/

/-- An install from an index, with the manifest the reference stands for, or an uninstall. -/
inductive Errand
  | install (i : IndexInstaller) (ref : String) (ix : Index) (m : Manifest)
  | uninstall (i : IndexInstaller) (name : String)

/-- The server an errand is about. -/
def Errand.server : Errand → String
  | .install _ _ _ m => m.name
  | .uninstall _ name => name

/-- The registry serves an index. -/
def serves (ix : Index) : (e : Call) → e.Res → Prop
  | .fetchIndex, r => r = .ok ix
  | _, _ => True

/-- An install that succeeds, or an uninstall that may fail. -/
def Done (O : Outside) (faults : Call → Prop) : Errand → Drawing → Drawing → Prop
  | .install i ref ix m, x, y => i.schema.resolve ix ref = .ok m ∧
      ∃ srv, Exec (answered (serves ix) (drawing O faults)) (i.install ref) x (.ok srv) y
  | .uninstall i name, x, y => ∃ r, Exec (drawing O faults) (i.uninstall name) x r y

/-- Errands, one after the other, with the worlds between them. -/
structure History (O : Outside) (faults : Call → Prop) (n : Nat) where
  state : Nat → Drawing
  errand : Nat → Errand
  done : ∀ k < n, Done O faults (errand k) (state k) (state (k + 1))

/-- An install rebuilds the injections over what is stored. -/
theorem Done.install {i : IndexInstaller} {ref : String} {ix : Index} {m : Manifest}
    (h : Done O faults (.install i ref ix m) x y) :
    Rebuilt (x.1.db.manifests.get? m.name) m x y := by
  obtain ⟨hresolve, srv, hx⟩ := h
  obtain ⟨r, x₁, ⟨⟨hr, hdrawn⟩, rfl⟩, hx₁⟩ := exec_call.mp hx
  obtain rfl : x₁ = x := Prod.ext hr.1 hdrawn
  simp only [IndexInstaller.installFrom, hresolve] at hx₁
  exact exec_installManifest_rebuilt hx₁.of_answered

/-- The injections of one server may have been removed. -/
def Cleared (name : String) (w w' : World) : Prop :=
  ∀ s, injectionsOf w' s = injectionsOf w s ∨ s = name ∧ injectionsOf w' s = none

theorem Cleared.refl (name : String) (w : World) : Cleared name w w := fun _ ↦ .inl rfl

theorem Cleared.trans {name : String} {w₁ w₂ w₃ : World} (h : Cleared name w₁ w₂)
    (h' : Cleared name w₂ w₃) : Cleared name w₁ w₃ := by
  intro s
  rcases h' s with hsame | hgone
  · rw [hsame]
    exact h s
  · exact .inr hgone

theorem sem_uninstall_cleared {name : String} {e : Call} {w w' : World} {r : e.Res}
    (he : UninstallCall name e) (h : sem O faults e w r w') : Cleared name w w' := by
  have hkeep {ts : List Tbl} (hts : Tbl.manifests ∉ ts) (htouches : Touches ts e) :
      Cleared name w w' := by
    have hsame : w'.db.manifests = w.db.manifests := (sem_touches htouches h).tbl .manifests hts
    exact fun s ↦ .inl (by rw [injectionsOf, hsame, injectionsOf])
  cases he with
  | other htouches => exact hkeep (by decide) htouches
  | server =>
      have hservers : Tbl.manifests ∉ [Tbl.servers] := by decide
      exact hkeep hservers (List.Subset.refl _)
  | manifest =>
      have hdeleted : Cleared name w { w with db := ((Sql.deleteManifest name).apply w.db).2 } := by
        intro s
        simp only [injectionsOf, Sql.get?_deleteManifest]
        split
        · rename_i hs
          exact .inr ⟨hs, rfl⟩
        · exact .inl rfl
      rcases h with ⟨-, rfl⟩ | ⟨-, -, rfl | rfl⟩
      · exact hdeleted
      · exact .refl name _
      · exact hdeleted

/-- An uninstall leaves the injections of its server or removes them, and leaves all others. -/
theorem Done.uninstall {i : IndexInstaller} {name : String}
    (h : Done O faults (.uninstall i name) x y) : Cleared name x.1 y.1 := by
  obtain ⟨r, hx⟩ := h
  exact (uninstall_calls i name).frame (ρ := Cleared name) (.refl name) (fun _ _ _ ↦ .trans)
    (fun _ _ _ _ he hr ↦ sem_uninstall_cleared he hr) hx.fst

theorem Done.drawn {a : Errand} (h : Done O faults a x y) : x.2 ⊆ y.2 := by
  cases a with
  | install i ref ix m =>
      obtain ⟨-, srv, hx⟩ := h
      exact exec_subset hx.of_answered
  | uninstall i name =>
      obtain ⟨r, hx⟩ := h
      exact exec_subset hx

/-- An errand leaves the injections of other servers alone. -/
theorem Done.others {a : Errand} (h : Done O faults a x y) {s : String} (hs : a.server ≠ s) :
    injectionsOf y.1 s = injectionsOf x.1 s := by
  cases a with
  | install i ref ix m =>
      obtain ⟨injections, given, -, hstored⟩ := h.install
      exact (hstored s).trans (if_neg (Ne.symm hs))
  | uninstall i name =>
      rcases h.uninstall s with hsame | ⟨rfl, -⟩
      · exact hsame
      · exact absurd rfl hs

/-! ## The ledger -/

/-- Values with the credentials they were given to. -/
abbrev Ledger : Type := List (String × String × String)

/-- The stored placeholders are values that the ledger has for their credentials. -/
def Ledger.Explains (ledger : Ledger) (w : World) : Prop :=
  ∀ server credID p, HasPlaceholder w server credID p →
    ∃ v, (v, server, credID) ∈ ledger ∧ p = "gigph-" ++ v

/-- No value was given twice, and all were drawn. -/
structure Ledger.Sound (ledger : Ledger) (drawn : List String) : Prop where
  nodup : (ledger.map Prod.fst).Nodup
  drawn : ∀ v ∈ ledger.map Prod.fst, v ∈ drawn

theorem Ledger.Explains.mono {ledger ledger' : Ledger} (h : ledger ⊆ ledger') {w : World}
    (hw : ledger.Explains w) : ledger'.Explains w := by
  intro server credID p hp
  obtain ⟨v, hv, rfl⟩ := hw server credID p hp
  exact ⟨v, h hv, rfl⟩

/-- An injection that was made from a credential, with the credential. -/
theorem exists_madeFrom {given : List (String × String)} {cs : List Credential}
    {injections : List Injection} (h : List.Forall₂ (MadeFrom prior given) cs injections)
    {i : Injection} (hi : i ∈ injections) : ∃ c ∈ cs, MadeFrom prior given c i := by
  induction h with
  | nil => exact absurd hi List.not_mem_nil
  | cons hmade _ ih =>
      rcases List.mem_cons.mp hi with rfl | hi
      · exact ⟨_, List.mem_cons_self, hmade⟩
      · obtain ⟨c, hc, hmade'⟩ := ih hi
        exact ⟨c, List.mem_cons_of_mem _ hc, hmade'⟩

/-- An errand extends the ledger by the values it draws. -/
theorem Done.ledger {a : Errand} (h : Done O faults a x y) {ledger : Ledger}
    (hsound : ledger.Sound x.2) (hledger : ledger.Explains x.1) :
    ∃ ledger' : Ledger, ledger ⊆ ledger' ∧ ledger'.Sound y.2 ∧ ledger'.Explains y.1 := by
  cases a with
  | uninstall i name =>
      refine ⟨ledger, List.Subset.refl _, ⟨hsound.nodup, fun v hv ↦ h.drawn (hsound.drawn v hv)⟩, ?_⟩
      rintro server credID p ⟨injections, hstored, hp⟩
      rcases h.uninstall server with hsame | ⟨-, hnone⟩
      · exact hledger server credID p ⟨injections, hsame ▸ hstored, hp⟩
      · rw [hnone] at hstored
        cases hstored
  | install i ref ix m =>
      obtain ⟨injections, given, hbuilds, hstored⟩ := h.install
      have hvalues : (given.map fun e ↦ (e.1, m.name, e.2)).map Prod.fst = given.map Prod.fst :=
        List.map_map
      refine ⟨given.map (fun e ↦ (e.1, m.name, e.2)) ++ ledger, List.subset_append_right _ _,
        ⟨?_, ?_⟩, ?_⟩
      · rw [List.map_append, hvalues]
        refine hbuilds.nodup.append hsound.nodup ?_
        intro v hv hv'
        exact (hbuilds.fresh v hv).2 (hsound.drawn v hv')
      · rw [List.map_append, hvalues]
        intro v hv
        rcases List.mem_append.mp hv with hv | hv
        · exact (hbuilds.fresh v hv).1
        · exact h.drawn (hsound.drawn v hv)
      · rintro server credID p ⟨is, his, inj, hinj, rfl, rfl⟩
        rw [hstored] at his
        split at his
        · rename_i hserver
          cases his
          subst hserver
          obtain ⟨c, -, hfields, hp⟩ := exists_madeFrom hbuilds.made hinj
          have hid : inj.id = c.id := congrArg Injection.id hfields
          rcases hp with hp | ⟨-, v, hv, hp⟩
          · -- the prior install had it, so the ledger has it already
            obtain ⟨-, rec, hrec, j, hj, hjid, hjp⟩ := priorPlaceholder_eq_some hp
            have hbefore : HasPlaceholder x.1 m.name inj.id inj.placeholder :=
              ⟨rec.injections, by rw [injectionsOf, hrec]; rfl, j, hj, hjid.trans hid.symm, hjp⟩
            obtain ⟨v, hv, hpv⟩ := hledger _ _ _ hbefore
            exact ⟨v, List.mem_append_right _ hv, hpv⟩
          · refine ⟨v, List.mem_append_left _ (List.mem_map.mpr ⟨(v, c.id), hv, ?_⟩), hp⟩
            rw [hid]
        · obtain ⟨v, hv, hpv⟩ := hledger server inj.id inj.placeholder ⟨is, his, inj, hinj, rfl, rfl⟩
          exact ⟨v, List.mem_append_right _ hv, hpv⟩

/-! ## Along a history -/

/-- The injections of a manifest's credentials: each has one, with a placeholder and otherwise the
fields of the credential. -/
def Projects (cs : List Credential) (injections : List Injection) : Prop :=
  List.Forall₂ (fun c i ↦ i = toInjection c i.placeholder ∧ i.placeholder ≠ "") cs injections

theorem Projects.ids {cs : List Credential} {injections : List Injection}
    (h : Projects cs injections) :
    injections.map Injection.id = cs.map Credential.id := by
  unfold Projects at h
  induction h with
  | nil => rfl
  | cons hi _ ih => rw [List.map_cons, List.map_cons, ih, hi.1]; rfl

/-- A credential of a manifest has one placeholder. -/
theorem Projects.unique {cs : List Credential} {injections : List Injection}
    (h : Projects cs injections) (hunique : (cs.map Credential.id).Nodup) {i j : Injection}
    (hi : i ∈ injections)
    (hj : j ∈ injections) (hid : i.id = j.id) : i = j := by
  rw [← h.ids] at hunique
  exact List.inj_on_of_nodup_map hunique hi hj hid

theorem Projects.ne_empty {cs : List Credential} {injections : List Injection}
    (h : Projects cs injections) {i : Injection} (hi : i ∈ injections) : i.placeholder ≠ "" := by
  unfold Projects at h
  induction h with
  | nil => exact absurd hi List.not_mem_nil
  | cons hc _ ih =>
      rcases List.mem_cons.mp hi with rfl | hi
      · exact hc.2
      · exact ih hi

theorem Builds.projects {m : Manifest} {injections : List Injection} {drawn drawn' : List String}
    {given : List (String × String)} (h : Builds prior m.credentials injections drawn drawn' given) :
    Projects m.credentials injections :=
  h.made.imp fun _ _ hmade ↦ ⟨hmade.1, hmade.ne_empty⟩

section History

variable {n : Nat} (h : History O faults n)

/-- The world after some of the errands. -/
abbrev History.world (k : Nat) : World := (h.state k).1

/-- The injections of a server stay from one time to another without errands about it. -/
theorem History.unmoved {s : String} {j t : Nat} (hj : j ≤ t) (ht : t ≤ n)
    (hother : ∀ u, j ≤ u → u < t → (h.errand u).server ≠ s) :
    injectionsOf (h.world t) s = injectionsOf (h.world j) s := by
  induction t, hj using Nat.le_induction with
  | base => rfl
  | succ t hjt ih =>
      have hstep := (h.done t ht).others (hother t hjt (Nat.lt_succ_self t))
      exact hstep.trans (ih (Nat.le_of_succ_le ht) fun u hu hut ↦ hother u hu (Nat.lt_succ_of_lt hut))

/-- One ledger explains all placeholders there ever were. -/
theorem History.exists_ledger (hstart : (h.world 0).db.manifests.rows = []) :
    ∀ t ≤ n, ∃ ledger : Ledger, ledger.Sound (h.state t).2 ∧
      ∀ u ≤ t, ledger.Explains (h.world u) := by
  intro t
  induction t with
  | zero =>
      intro _
      refine ⟨[], ⟨List.nodup_nil, by simp⟩, ?_⟩
      rintro u hu server credID p ⟨injections, hstored, -⟩
      obtain rfl := Nat.le_zero.mp hu
      obtain ⟨rec, hrec, -⟩ := Option.map_eq_some_iff.mp hstored
      have hmem := Table.mem_of_get? hrec
      rw [hstart] at hmem
      exact absurd hmem List.not_mem_nil
  | succ t ih =>
      intro ht
      obtain ⟨ledger, hsound, hledger⟩ := ih (Nat.le_of_succ_le ht)
      obtain ⟨ledger', hsubset, hsound', hlast⟩ := (h.done t ht).ledger hsound (hledger t le_rfl)
      refine ⟨ledger', hsound', fun u hu ↦ ?_⟩
      rcases Nat.le_succ_iff.mp hu with hu | rfl
      · exact (hledger u hu).mono hsubset
      · exact hlast

/-- What holds of the placeholders along a history. -/
structure PlaceholdersKept : Prop where
  /-- Until the next errand about its server, an installed manifest has its injections stored. -/
  present : ∀ j i ref ix m, h.errand j = .install i ref ix m → ∀ t, j < t → t ≤ n →
    (∀ u, j < u → u < t → (h.errand u).server ≠ m.name) →
    ∃ injections, injectionsOf (h.world t) m.name = some injections ∧
      Projects m.credentials injections
  /-- Two consecutive installs of a server agree on the credentials they share. -/
  stable : ∀ j i ref ix m, h.errand j = .install i ref ix m →
    ∀ k i' ref' ix' m', h.errand k = .install i' ref' ix' m' → m'.name = m.name → j < k → k < n →
    (∀ u, j < u → u < k → (h.errand u).server ≠ m.name) →
    ∀ credID p p', HasPlaceholder (h.world (j + 1)) m.name credID p →
      HasPlaceholder (h.world (k + 1)) m.name credID p' → p' = p
  /-- No two credentials ever have the same placeholder, not even at different times. -/
  distinct : ∀ t ≤ n, ∀ t' ≤ n, ∀ server credID server' credID' p,
    HasPlaceholder (h.world t) server credID p → HasPlaceholder (h.world t') server' credID' p →
      server = server' ∧ credID = credID'

theorem History.present {j t : Nat} {i : IndexInstaller} {ref : String} {ix : Index} {m : Manifest}
    (hj : h.errand j = .install i ref ix m) (hjt : j < t) (ht : t ≤ n)
    (hother : ∀ u, j < u → u < t → (h.errand u).server ≠ m.name) :
    ∃ injections, injectionsOf (h.world t) m.name = some injections ∧
      Projects m.credentials injections := by
  have hdone := h.done j (Nat.lt_of_lt_of_le hjt ht)
  rw [hj] at hdone
  obtain ⟨injections, given, hbuilds, hstored⟩ := hdone.install
  refine ⟨injections, ?_, hbuilds.projects⟩
  rw [h.unmoved hjt ht hother, hstored, if_pos rfl]

theorem History.stable {j k : Nat} {i i' : IndexInstaller} {ref ref' : String} {ix ix' : Index}
    {m m' : Manifest} (hunique : (m.credentials.map Credential.id).Nodup)
    (hj : h.errand j = .install i ref ix m) (hk : h.errand k = .install i' ref' ix' m')
    (hname : m'.name = m.name) (hjk : j < k) (hkn : k < n)
    (hother : ∀ u, j < u → u < k → (h.errand u).server ≠ m.name) {credID p p' : String}
    (hp : HasPlaceholder (h.world (j + 1)) m.name credID p)
    (hp' : HasPlaceholder (h.world (k + 1)) m.name credID p') : p' = p := by
  obtain ⟨before, hbefore, hprojects⟩ := h.present hj hjk (Nat.le_of_lt hkn) hother
  -- what the first install stored is what the second one finds
  obtain ⟨is, his, inj, hinj, rfl, rfl⟩ := hp
  have hsame := h.unmoved hjk (Nat.le_of_lt hkn) hother
  obtain rfl : is = before := Option.some.inj (his.symm.trans (hsame.symm.trans hbefore))
  obtain ⟨rec, hrec, rfl⟩ := Option.map_eq_some_iff.mp hbefore
  have hdone := h.done k hkn
  rw [hk] at hdone
  obtain ⟨after, given, hbuilds, hstored⟩ := hdone.install
  rw [hname, hrec] at hbuilds
  obtain ⟨is', his', inj', hinj', hid, rfl⟩ := hp'
  rw [hstored, if_pos hname.symm] at his'
  cases his'
  obtain ⟨c, -, hfields, hmade⟩ := exists_madeFrom hbuilds.made hinj'
  have hc : c.id = inj.id := (congrArg Injection.id hfields).symm.trans hid
  rw [hc] at hmade
  rcases hmade with hmade | ⟨hnone, -⟩
  · obtain ⟨-, rec', hrec', q, hq, hqid, hqp⟩ := priorPlaceholder_eq_some hmade
    cases hrec'
    rw [← hqp, hprojects.unique hunique hq hinj hqid]
  · exact absurd hnone (priorPlaceholder_ne_none hinj (hprojects.ne_empty hinj))

/-- **Placeholders are present, stable and distinct.**  In every history of installs that succeed
and uninstalls, from a store without manifests, in which credential ids are unique within each
manifest and no random value is drawn twice. -/
theorem placeholders_kept (hstart : (h.world 0).db.manifests.rows = [])
    (hunique : ∀ k < n, ∀ i ref ix m, h.errand k = .install i ref ix m →
      (m.credentials.map Credential.id).Nodup) : PlaceholdersKept h where
  present := fun _ _ _ _ _ hj _ hjt ht hother ↦ h.present hj hjt ht hother
  stable := by
    intro j i ref ix m hj k i' ref' ix' m' hk hname hjk hkn hother credID p p' hp hp'
    exact h.stable (hunique j (hjk.trans hkn) i ref ix m hj) hj hk hname hjk hkn hother hp hp'
  distinct := by
    intro t ht t' ht' server credID server' credID' p hp hp'
    obtain ⟨ledger, hsound, hledger⟩ := h.exists_ledger hstart n le_rfl
    obtain ⟨v, hv, rfl⟩ := hledger t ht server credID p hp
    obtain ⟨v', hv', hvalue⟩ := hledger t' ht' server' credID' _ hp'
    obtain rfl : v = v' := by
      have hlist := congrArg String.toList hvalue
      rw [String.toList_append, String.toList_append] at hlist
      exact String.toList_inj.mp (List.append_cancel_left hlist)
    have hentry := List.inj_on_of_nodup_map hsound.nodup hv hv' rfl
    exact ⟨congrArg (fun e ↦ e.2.1) hentry, congrArg (fun e ↦ e.2.2) hentry⟩

end History

namespace Example.Placeholders

def installer : IndexInstaller := ⟨schema, "/data", false⟩

def token (vendor : String) : Credential :=
  ⟨"token", "api_key", "github", vendor, [], ⟨"Authorization", "Bearer", ""⟩⟩

def webhook : Credential := ⟨"webhook", "api_key", "github", "", [], ⟨"X-Hook", "", ""⟩⟩

def manifest (credentials : List Credential) : Manifest :=
  { github "1" ["api.github.com"] with credentials }

def served (m : Manifest) : Index := ⟨[⟨"github", "1", [("github@1", m)]⟩]⟩

/-- A machine that draws its numbers in order. -/
def answer (m : Manifest) : (e : Call) → Drawing → Option (e.Res × Drawing)
  | .random, x =>
      let v := formatInt (Int64.ofNat x.2.length)
      if v ∈ x.2 then none else some (.ok v, (x.1, v :: x.2))
  | e, x => (Partners.answer ⟨served m, []⟩ e x.1).map fun r ↦ (r.1, (r.2, x.2))

theorem answer_drawing {m : Manifest} {e : Call} {x y : Drawing} {r : e.Res}
    (h : answer m e x = some (r, y)) :
    answered (serves (served m)) (drawing Partners.outside fun _ ↦ False) e x r y := by
  unfold answer at h
  split at h
  · dsimp only at h
    split at h
    · cases h
    · rename_i hfresh
      cases h
      exact ⟨⟨⟨rfl, Partners.foreign_ok _⟩, hfresh, rfl⟩, trivial⟩
  · rename_i hrandom
    obtain ⟨⟨r', w'⟩, hanswer, heq⟩ := Option.map_eq_some_iff.mp h
    cases heq
    refine ⟨⟨Partners.answer_sem _ hanswer _, ?_⟩, ?_⟩
    · unfold draws
      split
      · exact absurd rfl hrandom
      · rfl
    · unfold serves
      split
      · cases hanswer
        rfl
      · trivial

/-- An install of a manifest under `github@1`. -/
def installed (m : Manifest) (x : Drawing) : Drawing :=
  ((run (answer m) (installer.install "github@1") x).map Prod.snd).getD x

theorem done_install {m : Manifest} {x y : Drawing} {srv : Server}
    (hresolve : schema.resolve (served m) "github@1" = .ok m)
    (h : run (answer m) (installer.install "github@1") x = some (.ok srv, y)) :
    Done Partners.outside (fun _ ↦ False) (.install installer "github@1" (served m) m) x y :=
  ⟨hresolve, srv, exec_run (fun _ _ _ _ hr ↦ answer_drawing hr) h⟩

def start : Drawing := (.boot .fresh 0, [])

/-- The first manifest has one credential. -/
def first : Manifest := manifest [token ""]

/-- The second has another one before it, and a vendor. -/
def second : Manifest := manifest [webhook, token "github"]

def history : History Partners.outside (fun _ ↦ False) 2 where
  state := fun k ↦
    if k = 0 then start else if k = 1 then installed first start
    else installed second (installed first start)
  errand := fun k ↦
    if k = 0 then .install installer "github@1" (served first) first
    else .install installer "github@1" (served second) second
  done := by
    intro k hk
    obtain rfl | rfl : k = 0 ∨ k = 1 := by omega
    · exact done_install rfl rfl
    · exact done_install rfl rfl

end Example.Placeholders

open Example.Placeholders in
/-- The credential that both manifests have keeps its placeholder. -/
theorem placeholders_kept_github :
    PlaceholdersKept history ∧
      HasPlaceholder (history.world 1) "github" "token" "gigph-0" ∧
      HasPlaceholder (history.world 2) "github" "token" "gigph-0" := by
  refine ⟨placeholders_kept history rfl ?_, ?_, ?_⟩
  · intro k hk i ref ix m hm
    obtain rfl | rfl : k = 0 ∨ k = 1 := by omega
    · cases hm
      decide
    · cases hm
      decide
  · exact ⟨_, rfl, _, List.mem_singleton.mpr rfl, rfl, rfl⟩
  · exact ⟨_, rfl, _, List.mem_cons_of_mem _ (List.mem_singleton.mpr rfl), rfl, rfl⟩

end GigMcp.Registry
