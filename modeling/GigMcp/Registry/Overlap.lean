import GigMcp.Effect.Pool
import GigMcp.Registry.Journal

/-!
# Installs and uninstalls that overlap

A server row without a manifest row is spawned on the legacy path, with every tool exposed.
An install writes the manifest before the server row and an uninstall deletes them in the
opposite order, so that a crash of either never leaves such a row.  Nothing keeps the two
apart, though: an uninstall may delete the manifest that an install counts on before it has
written the server row.

`Progress` says how far a request has got.  An install *relies* on a manifest row that it
has found or written and has yet to write the server row; an uninstall is *clearing* a
server whose row it has deleted and whose manifest it has not.  As long as no server row is
written while an uninstall is clearing the server, and no manifest deleted while an install
relies on it, no unguarded row comes up, whatever fails and wherever the process dies.
-/

namespace GigMcp.Registry.Overlap

open GigMcp.Effect GigMcp.System GigMcp.Store GigMcp.Registry.Journal

/-! ## Requests -/

/-- How far a request has got: the server whose manifest row an install relies on, whether
it has written the server row, and the server an uninstall is clearing. -/
structure Progress where
  relying : Option String
  ensured : Bool
  clearing : Option String

namespace Progress

def fresh : Progress := ⟨none, false, none⟩

/-- An install that has written the server row relies on nothing. -/
def rely (g : Progress) (s : String) : Progress :=
  if g.ensured then g else { g with relying := some s }

/-- The progress after a statement. -/
def noted (g : Progress) : (c : Sql) → Except Err c.Ans → Progress
  | .getManifest s, .ok _ => g.rely s
  | .putManifest rec, .ok _ => g.rely rec.server
  | .putManifest _, .error _ => { g with relying := none }
  | .ensureServer .., _ => { g with relying := none, ensured := true }
  | .deleteServer s, .ok _ => { g with clearing := some s }
  | .deleteManifest _, _ => { g with clearing := none }
  | _, _ => g

/-- The progress after a call.  A full install does not rely on the manifest it has found. -/
def track : (e : Call) → Progress → e.Res → Progress
  | .sql c, g, r => g.noted c r
  | .stat _, g, false => { g with relying := none }
  | .extract .., g, _ => { g with relying := none }
  | .extractBundle .., g, _ => { g with relying := none }
  | .random, g, .error _ => { g with relying := none }
  | _, g, _ => g

end Progress

/-- Installs and uninstalls, any number at once.  Any call may fail. -/
def requests (O : Outside) (g : Setup) : Effect.System gateway Unit Act Progress World where
  sem := sem O fun _ ↦ True
  starts := fun _ ↦ True
  body
    | .install auto ref => do
        let _ ← (g.installer auto).install ref
        return .inl ()
    | .uninstall name => do
        let _ ← (g.installer false).uninstall name
        return .inl ()
  init := fun _ ↦ .fresh
  track := Progress.track
  env := Eq

/-- The condition on the calls of a run: a server row is written while no uninstall is
clearing the server, and a manifest is deleted while no install relies on it. -/
def Apart : Guard gateway Act Progress World
  | _, .sql (.ensureServer s _ _), _, _, others => ∀ x ∈ others, x.2.clearing ≠ some s
  | _, .sql (.deleteManifest s), _, _, others => ∀ x ∈ others, x.2.relying ≠ some s
  | _, _, _, _, _ => True

/-- A server row has a manifest row. -/
def Guarded (s : String) (w : World) : Prop :=
  (w.db.serverByName s).isSome → (w.db.manifests.get? s).isSome

/-! ## How requests conduct themselves -/

/-- When a request may make which call. -/
def Permitted : Call → Progress → Prop
  | .sql (.ensureServer s _ _), g => g.relying = some s ∧ g.clearing = none
  | .sql (.deleteManifest s), g => g.clearing = some s ∧ g.relying = none
  | .sql (.getManifest _), _ => True
  | .sql (.putManifest _), _ => True
  | .sql (.recordConsent ..), _ => True
  | .sql (.deleteServer _), _ => True
  | .sql (.deleteDisabledToolsForServer _), _ => True
  | .sql _, _ => False
  | e, _ => Touches [] e

abbrev Conducts {α : Type} (fin : α → Progress → Prop) (p : Code α) (g : Progress) : Prop :=
  Conforms (S := gateway) Progress.track Permitted fin p g

/-- Whatever the progress. -/
def Ends {α : Type} (_ : α) (_ : Progress) : Prop := True

section Conducts

variable {i : IndexInstaller} {m : Manifest} {hash : String} {prior : Option ManifestRecord}
  {g : Progress}

/-- Injections that were built leave the progress as it was. -/
theorem buildInjections_conducts (cs : List Credential) :
    Conducts (fun r g' ↦ ∀ is, r = .ok is → g' = g) (buildInjections prior cs) g := by
  induction cs with
  | nil => exact fun _ _ ↦ rfl
  | cons c cs ih =>
      have hplaceholder : Conducts (fun r g' ↦ ∀ p, r = .ok p → g' = g)
          (placeholderFor prior c.id) g := by
        unfold placeholderFor
        split
        · exact fun _ _ ↦ rfl
        · refine conforms_call.mpr ⟨trivial, fun r ↦ ?_⟩
          cases r with
          | error e => exact nofun
          | ok text => exact fun _ _ ↦ rfl
      refine hplaceholder.bind fun r g' hg' ↦ ?_
      cases r with
      | error e => exact nofun
      | ok p =>
          obtain rfl := hg' p rfl
          refine ih.bind fun r g'' hg'' ↦ ?_
          cases r with
          | error e => exact nofun
          | ok is => exact fun _ _ ↦ hg'' is rfl

theorem maybeConsent_conducts : Conducts Ends (i.maybeConsent m.name hash prior) g := by
  unfold IndexInstaller.maybeConsent
  split
  · exact ⟨trivial, fun _ ↦ trivial⟩
  · trivial

/-- An install that relies on the manifest of its server may write the server row. -/
theorem ensureRow_conducts (hrelying : g.relying = some m.name) (hclearing : g.clearing = none) :
    Conducts (fun _ g' ↦ g' = { g with relying := none, ensured := true }) (i.ensureRow m) g := by
  unfold IndexInstaller.ensureRow
  dsimp only
  split
  · exact ⟨⟨hrelying, hclearing⟩, fun _ ↦ rfl⟩
  · exact ⟨⟨hrelying, hclearing⟩, fun _ ↦ rfl⟩

theorem refresh_conducts (hrelying : g.relying = some m.name) (hclearing : g.clearing = none) :
    Conducts Ends (i.refresh m hash prior) g := by
  refine (ensureRow_conducts hrelying hclearing).bind fun r g' _ ↦ ?_
  cases r with
  | error e => trivial
  | ok srv =>
      refine (buildInjections_conducts m.credentials).bind fun r g'' _ ↦ ?_
      cases r with
      | error e => trivial
      | ok injections =>
          refine conforms_call.mpr ⟨trivial, fun r ↦ ?_⟩
          cases r with
          | error e => trivial
          | ok _ =>
              refine maybeConsent_conducts.bind fun r _ _ ↦ ?_
              cases r with
              | error e => trivial
              | ok _ => trivial

theorem record_conducts (hensured : g.ensured = false) (hclearing : g.clearing = none) :
    Conducts Ends (i.record m hash prior) g := by
  refine (buildInjections_conducts m.credentials).bind fun r g' hg' ↦ ?_
  cases r with
  | error e => trivial
  | ok injections =>
      obtain rfl := hg' injections rfl
      refine conforms_call.mpr ⟨trivial, fun r ↦ ?_⟩
      cases r with
      | error e => trivial
      | ok _ =>
          have hrely : Progress.track (.sql (.putManifest (toRecord m injections hash))) g'
              (.ok ()) = { g' with relying := some m.name } :=
            if_neg (hensured ▸ Bool.false_ne_true)
          rw [hrely]
          have hensure := ensureRow_conducts (i := i) (m := m)
            (g := { g' with relying := some m.name }) rfl hclearing
          refine hensure.bind fun r _ _ ↦ ?_
          cases r with
          | error e => trivial
          | ok srv =>
              refine maybeConsent_conducts.bind fun r _ _ ↦ ?_
              cases r with
              | error e => trivial
              | ok _ => trivial

/-- Putting the artifact in place leaves an install that relies on nothing. -/
theorem pull_conducts :
    Conducts (fun _ g' ↦ g' = { g with relying := none }) (i.pull m) g := by
  have hcheck (dir : String) (g : Progress) :
      Conducts (fun _ g' ↦ g' = g) (i.crossCheckBundledManifest dir m) g := by
    refine conforms_call.mpr ⟨trivial, fun r ↦ ?_⟩
    cases r with
    | error e => rfl
    | ok raw =>
        dsimp only
        split
        · rfl
        split
        · rfl
        split
        · rfl
        split
        · rfl
        split
        · rfl
        · rfl
  unfold IndexInstaller.pull
  dsimp only
  split
  · refine conforms_call.mpr ⟨trivial, fun r ↦ ?_⟩
    cases r with
    | error e => rfl
    | ok _ =>
        refine (hcheck _ _).bind fun r g' hg' ↦ ?_
        cases r with
        | error e => exact ⟨trivial, fun _ ↦ hg'⟩
        | ok _ => exact hg'
  · exact ⟨trivial, fun _ ↦ rfl⟩

theorem installOver_conducts (hprior : prior.isSome → g.relying = some m.name)
    (hensured : g.ensured = false) (hclearing : g.clearing = none) :
    Conducts Ends (i.installOver m hash prior) g := by
  have halready : Conducts (fun b g' ↦ g'.ensured = false ∧ g'.clearing = none ∧
      (b = true → g'.relying = some m.name)) (i.alreadyInstalled m hash prior) g := by
    unfold IndexInstaller.alreadyInstalled
    split
    · rename_i hsame
      refine ⟨trivial, fun b ↦ ?_⟩
      cases b with
      | false => exact ⟨hensured, hclearing, nofun⟩
      | true =>
          refine ⟨hensured, hclearing, fun _ ↦ hprior ?_⟩
          cases prior with
          | none => exact absurd hsame Bool.false_ne_true
          | some rec => rfl
    · exact ⟨hensured, hclearing, nofun⟩
  refine halready.bind fun b g' hg' ↦ ?_
  obtain ⟨hensured', hclearing', hrelying⟩ := hg'
  cases b with
  | true => exact refresh_conducts (hrelying rfl) hclearing'
  | false =>
      refine pull_conducts.bind fun r g'' hg'' ↦ ?_
      subst hg''
      cases r with
      | error e => trivial
      | ok _ => exact record_conducts hensured' hclearing'

theorem install_conducts (ref : String) : Conducts Ends (i.install ref) .fresh := by
  refine conforms_call.mpr ⟨trivial, fun fetched ↦ ?_⟩
  show Conducts Ends (i.installFrom ref fetched) .fresh
  unfold IndexInstaller.installFrom
  split
  · trivial
  · split
    · trivial
    · unfold IndexInstaller.installManifest
      split
      · trivial
      split
      · trivial
      refine conforms_call.mpr ⟨trivial, fun r ↦ ?_⟩
      cases r with
      | ok rec => exact installOver_conducts (fun _ ↦ rfl) rfl rfl
      | error e =>
          dsimp only
          split
          · exact installOver_conducts nofun rfl rfl
          · trivial

theorem removeDirs_conducts (dirs : List String) :
    Conducts Ends (IndexInstaller.removeDirs dirs) g := by
  induction dirs with
  | nil => trivial
  | cons d ds ih =>
      refine conforms_call.mpr ⟨trivial, fun r ↦ ih.bind fun rest _ _ ↦ ?_⟩
      cases r with
      | error e => trivial
      | ok _ => trivial

theorem uninstall_conducts (name : String) : Conducts Ends (i.uninstall name) .fresh := by
  unfold IndexInstaller.uninstall
  split
  · trivial
  · refine conforms_call.mpr ⟨trivial, fun r ↦ ?_⟩
    cases r with
    | error e => trivial
    | ok _ =>
        refine conforms_call.mpr ⟨⟨rfl, rfl⟩, fun r ↦ ?_⟩
        cases r with
        | error e => trivial
        | ok _ =>
            refine conforms_call.mpr ⟨trivial, fun r ↦ ?_⟩
            cases r with
            | error e => trivial
            | ok _ =>
                refine conforms_call.mpr ⟨trivial, fun r ↦ ?_⟩
                cases r with
                | error e => trivial
                | ok dirs => exact removeDirs_conducts dirs

end Conducts

/-! ## The invariant -/

/-- What is known of a server while requests are under way. -/
structure Sheltered (s : String) (w : World) (xs : Multiset (Act × Progress)) : Prop where
  guarded : Guarded s w
  relying : ∀ x ∈ xs, x.2.relying = some s → (w.db.manifests.get? s).isSome
  clearing : ∀ x ∈ xs, x.2.clearing = some s → w.db.serverByName s = none

section Steps

variable {O : Outside} {s : String} {w w' : World} {act : Act} {g g' : Progress}
  {xs : Multiset (Act × Progress)}

/-- A call that writes no server row and deletes no manifest of the server. -/
theorem Sheltered.keep (h : Sheltered s w ((act, g) ::ₘ xs))
    (hrow : w.db.serverByName s = none → w'.db.serverByName s = none)
    (hmanifest : (w.db.manifests.get? s).isSome → (w'.db.manifests.get? s).isSome)
    (hrelying : g'.relying = some s → g.relying = some s ∨ (w'.db.manifests.get? s).isSome)
    (hclearing : g'.clearing = some s → g.clearing = some s ∨ w'.db.serverByName s = none) :
    Sheltered s w' ((act, g') ::ₘ xs) := by
  have hme := Multiset.mem_cons_self (act, g) xs
  refine ⟨fun hsome ↦ hmanifest (h.guarded ?_), Multiset.forall_mem_cons.mpr ⟨fun hg ↦ ?_, ?_⟩,
    Multiset.forall_mem_cons.mpr ⟨fun hg ↦ ?_, ?_⟩⟩
  · cases hold : w.db.serverByName s with
    | none =>
        rw [hrow hold] at hsome
        exact hsome
    | some srv => rfl
  · rcases hrelying hg with hold | hsome
    · exact hmanifest (h.relying _ hme hold)
    · exact hsome
  · exact fun x hx hxs ↦ hmanifest (h.relying x (Multiset.mem_cons_of_mem hx) hxs)
  · rcases hclearing hg with hold | hnone
    · exact hrow (h.clearing _ hme hold)
    · exact hnone
  · exact fun x hx hxs ↦ hrow (h.clearing x (Multiset.mem_cons_of_mem hx) hxs)

/-- A call that touches neither table. -/
theorem Sheltered.quiet (h : Sheltered s w ((act, g) ::ₘ xs))
    (hservers : w'.db.servers = w.db.servers) (hmanifests : w'.db.manifests = w.db.manifests)
    (hrelying : g'.relying = some s → g.relying = some s) (hclearing : g'.clearing = g.clearing) :
    Sheltered s w' ((act, g') ::ₘ xs) := by
  refine h.keep ?_ ?_ (fun hg ↦ .inl (hrelying hg)) fun hg ↦ .inl (hclearing ▸ hg)
  · rw [Database.serverByName, Database.serverByName, hservers]
    exact id
  · rw [hmanifests]
    exact id

/-- A statement that does not write a table leaves it alone. -/
theorem sem_leaves {c : Sql} {r : Except Err c.Ans} {t : Tbl}
    (hr : sem O (fun _ ↦ True) (.sql c) w r w') (ht : t ∉ c.writes) : w'.db.tbl t = w.db.tbl t :=
  have he : Writes c.writes (.sql c) := List.Subset.refl _
  sem_writes he hr ht

theorem sem_quiet {e : Call} {r : e.Res} (hr : sem O (fun _ ↦ True) e w r w') (he : Touches [] e) :
    w'.db.servers = w.db.servers ∧ w'.db.manifests = w.db.manifests :=
  have halike := sem_touches he hr
  ⟨halike.tbl .servers List.not_mem_nil, halike.tbl .manifests List.not_mem_nil⟩

/-- The server row is written while nobody is clearing the server. -/
theorem Sheltered.ensure {name binary bundleDir : String} {r : Except Err Server}
    (h : Sheltered s w ((act, g) ::ₘ xs))
    (hpre : Permitted (.sql (.ensureServer name binary bundleDir)) g)
    (hok : ∀ x ∈ xs, x.2.clearing ≠ some name)
    (hr : sem O (fun _ ↦ True) (.sql (.ensureServer name binary bundleDir)) w r w') :
    Sheltered s w' ((act, { g with relying := none, ensured := true }) ::ₘ xs) := by
  obtain ⟨hrelying, hclearing⟩ := hpre
  have hmanifests : w'.db.manifests = w.db.manifests := sem_leaves (t := .manifests) hr (by simp [Sql.writes])
  by_cases hs : s = name
  · subst hs
    have hsome : (w'.db.manifests.get? s).isSome := by
      rw [hmanifests]
      exact h.relying _ (Multiset.mem_cons_self _ _) hrelying
    refine ⟨fun _ ↦ hsome, fun _ _ _ ↦ hsome, Multiset.forall_mem_cons.mpr ⟨fun hg ↦ ?_, ?_⟩⟩
    · rw [hclearing] at hg
      cases hg
    · exact fun x hx hxs ↦ absurd hxs (hok x hx)
  · have hrow : w'.db.serverByName s = w.db.serverByName s := by
      rcases sem_db hr with hdb | ⟨c, hc, hdb⟩
      · rw [hdb]
      · cases hc
        rw [hdb]
        exact Sql.serverByName_ensureServer_of_ne hs binary bundleDir w.db
    refine h.keep ?_ ?_ ?_ fun hg ↦ .inl hg
    · rw [hrow]
      exact id
    · rw [hmanifests]
      exact id
    · rintro ⟨⟩

/-- The manifest is deleted while nobody relies on it. -/
theorem Sheltered.deleteManifest {name : String} {r : Except Err Unit}
    (h : Sheltered s w ((act, g) ::ₘ xs)) (hpre : Permitted (.sql (.deleteManifest name)) g)
    (hok : ∀ x ∈ xs, x.2.relying ≠ some name)
    (hr : sem O (fun _ ↦ True) (.sql (.deleteManifest name)) w r w') :
    Sheltered s w' ((act, { g with clearing := none }) ::ₘ xs) := by
  obtain ⟨hclearing, hrelying⟩ := hpre
  have hservers : w'.db.servers = w.db.servers := sem_leaves (t := .servers) hr (by simp [Sql.writes])
  have hrow : w'.db.serverByName s = w.db.serverByName s := by
    rw [Database.serverByName, hservers, Database.serverByName]
  by_cases hs : s = name
  · subst hs
    have hnone : w'.db.serverByName s = none := by
      rw [hrow]
      exact h.clearing _ (Multiset.mem_cons_self _ _) hclearing
    refine ⟨fun hsome ↦ ?_, Multiset.forall_mem_cons.mpr ⟨fun hg ↦ ?_, ?_⟩, fun _ _ _ ↦ hnone⟩
    · rw [hnone] at hsome
      cases hsome
    · rw [hrelying] at hg
      cases hg
    · exact fun x hx hxs ↦ absurd hxs (hok x hx)
  · have hmanifest : w'.db.manifests.get? s = w.db.manifests.get? s := by
      rcases sem_db hr with hdb | ⟨c, hc, hdb⟩
      · rw [hdb]
      · cases hc
        rw [hdb, Sql.get?_deleteManifest, if_neg hs]
    refine h.keep ?_ ?_ (fun hg ↦ .inl hg) ?_
    · rw [hrow]
      exact id
    · rw [hmanifest]
      exact id
    · rintro ⟨⟩

theorem Sheltered.deleteServer {name : String} {r : Except Err Unit}
    (h : Sheltered s w ((act, g) ::ₘ xs))
    (hr : sem O (fun _ ↦ True) (.sql (.deleteServer name)) w r w') :
    Sheltered s w' ((act, g.noted (.deleteServer name) r) ::ₘ xs) := by
  have hmanifests : w'.db.manifests = w.db.manifests := sem_leaves (t := .manifests) hr (by simp [Sql.writes])
  have hrow : w.db.serverByName s = none → w'.db.serverByName s = none := by
    intro hnone
    rcases sem_db hr with hdb | ⟨c, hc, hdb⟩
    · rw [hdb, hnone]
    · cases hc
      rw [hdb, Sql.serverByName_deleteServer, hnone, ite_self]
  cases r with
  | error e => exact h.keep hrow (hmanifests ▸ id) (fun hg ↦ .inl hg) fun hg ↦ .inl hg
  | ok _ =>
      refine h.keep hrow (hmanifests ▸ id) (fun hg ↦ .inl hg) fun hg ↦ .inr ?_
      obtain rfl : name = s := Option.some.inj hg
      rw [(sem_sql_ok hr).2]
      exact (Sql.serverByName_deleteServer name w.db name).trans (if_pos rfl)

/-- A manifest that was written is there. -/
theorem Sheltered.put {rec : ManifestRecord} {r : Except Err Unit}
    (h : Sheltered s w ((act, g) ::ₘ xs))
    (hr : sem O (fun _ ↦ True) (.sql (.putManifest rec)) w r w') :
    Sheltered s w' ((act, g.noted (.putManifest rec) r) ::ₘ xs) := by
  have hservers : w'.db.servers = w.db.servers := sem_leaves (t := .servers) hr (by simp [Sql.writes])
  have hrow : w.db.serverByName s = none → w'.db.serverByName s = none := by
    rw [Database.serverByName, Database.serverByName, hservers]
    exact id
  have hmanifest : (w.db.manifests.get? s).isSome → (w'.db.manifests.get? s).isSome := by
    intro hsome
    rcases sem_db hr with hdb | ⟨c, hc, hdb⟩
    · rwa [hdb]
    · cases hc
      rw [hdb, Sql.get?_putManifest]
      split
      · rfl
      · exact hsome
  cases r with
  | error e =>
      refine h.keep hrow hmanifest ?_ fun hg ↦ .inl hg
      rintro ⟨⟩
  | ok _ =>
      show Sheltered s w' ((act, if g.ensured then g else _) ::ₘ xs)
      split
      · exact h.keep hrow hmanifest (fun hg ↦ .inl hg) fun hg ↦ .inl hg
      · refine h.keep hrow hmanifest (fun hg ↦ .inr ?_) fun hg ↦ .inl hg
        obtain rfl : rec.server = s := Option.some.inj hg
        rw [(sem_sql_ok hr).2]
        show (((Sql.putManifest rec).apply w.db).2.manifests.get? rec.server).isSome
        rw [Sql.get?_putManifest, if_pos rfl]
        rfl

theorem Sheltered.getManifest {name : String} {r : Except Err ManifestRecord}
    (h : Sheltered s w ((act, g) ::ₘ xs))
    (hr : sem O (fun _ ↦ True) (.sql (.getManifest name)) w r w') :
    Sheltered s w' ((act, g.noted (.getManifest name) r) ::ₘ xs) := by
  obtain rfl : w' = w := sem_reads rfl hr
  cases r with
  | error e => exact h
  | ok rec =>
      show Sheltered s w' ((act, if g.ensured then g else _) ::ₘ xs)
      split
      · exact h
      · refine h.keep id id (fun hg ↦ .inr ?_) fun hg ↦ .inl hg
        obtain rfl : name = s := Option.some.inj hg
        have hrow : w'.db.manifests.get? name = some rec :=
          Sql.fetch_eq_ok.mp (sem_read_ok hr rfl).1
        rw [hrow]
        rfl

theorem Sheltered.recordConsent {name hash : String} {r : Except Err Unit}
    (h : Sheltered s w ((act, g) ::ₘ xs))
    (hr : sem O (fun _ ↦ True) (.sql (.recordConsent name hash)) w r w') :
    Sheltered s w' ((act, g) ::ₘ xs) := by
  have hservers : w'.db.servers = w.db.servers := sem_leaves (t := .servers) hr (by simp [Sql.writes])
  refine h.keep ?_ ?_ (fun hg ↦ .inl hg) fun hg ↦ .inl hg
  · rw [Database.serverByName, Database.serverByName, hservers]
    exact id
  · intro hsome
    rcases sem_db hr with hdb | ⟨c, hc, hdb⟩
    · rwa [hdb]
    · cases hc
      rw [hdb, Sql.get?_recordConsent]
      split
      · rwa [Option.isSome_map]
      · exact hsome

/-- **Step lemma.**  A permitted call that meets the condition keeps the server
sheltered. -/
theorem Sheltered.call {e : Call} {r : e.Res} (h : Sheltered s w ((act, g) ::ₘ xs))
    (hpre : Permitted e g) (hok : Apart act e g w xs) (hr : sem O (fun _ ↦ True) e w r w') :
    Sheltered s w' ((act, Progress.track e g r) ::ₘ xs) := by
  have hdrop {p : Prop} : (none : Option String) = some s → p := nofun
  cases e with
  | sql c =>
      cases c with
      | ensureServer name binary bundleDir => exact h.ensure hpre hok hr
      | deleteManifest name => exact h.deleteManifest hpre hok hr
      | deleteServer name => exact h.deleteServer hr
      | putManifest rec => exact h.put hr
      | getManifest name => exact h.getManifest hr
      | recordConsent name hash => exact h.recordConsent hr
      | deleteDisabledToolsForServer name =>
          exact h.quiet (sem_leaves (t := .servers) hr (by simp [Sql.writes]))
            (sem_leaves (t := .manifests) hr (by simp [Sql.writes])) id rfl
      | _ => exact hpre.elim
  | stat path =>
      obtain ⟨hservers, hmanifests⟩ := sem_quiet hr hpre
      cases r with
      | false => exact h.quiet hservers hmanifests hdrop rfl
      | true => exact h.quiet hservers hmanifests id rfl
  | extract image dest =>
      obtain ⟨hservers, hmanifests⟩ := sem_quiet hr hpre
      exact h.quiet hservers hmanifests hdrop rfl
  | extractBundle image dir =>
      obtain ⟨hservers, hmanifests⟩ := sem_quiet hr hpre
      exact h.quiet hservers hmanifests hdrop rfl
  | random =>
      obtain ⟨hservers, hmanifests⟩ := sem_quiet hr hpre
      cases r with
      | error e => exact h.quiet hservers hmanifests hdrop rfl
      | ok text => exact h.quiet hservers hmanifests id rfl
  | _ =>
      obtain ⟨hservers, hmanifests⟩ := sem_quiet hr hpre
      exact h.quiet hservers hmanifests id rfl

end Steps

/-- Requests that stay apart keep a server sheltered. -/
def shelter (O : Outside) (g : Setup) (s : String) : GuardedDiscipline (requests O g) Apart where
  pre := fun _ ↦ Permitted
  fin := fun _ x _ ↦ x = .inl ()
  Inv := Sheltered s
  body_conforms := by
    intro act _
    cases act with
    | install auto ref => exact (install_conducts ref).bind fun _ _ _ ↦ rfl
    | uninstall name => exact (uninstall_conducts name).bind fun _ _ _ ↦ rfl
  again_conforms := fun _ _ _ _ _ _ hfin ↦ nomatch hfin
  inv_start := fun w xs act _ h ↦
    ⟨h.guarded, Multiset.forall_mem_cons.mpr ⟨nofun, h.relying⟩,
      Multiset.forall_mem_cons.mpr ⟨nofun, h.clearing⟩⟩
  inv_call := fun _ _ _ _ _ _ _ h hpre hok hr ↦ h.call hpre hok hr
  inv_again := fun _ _ _ _ _ _ hfin ↦ nomatch hfin
  inv_env := by
    rintro w xs _ h rfl
    exact h

theorem sheltered_nil {s : String} {w : World} (h : Guarded s w) : Sheltered s w 0 :=
  ⟨h, fun x hx ↦ absurd hx (Multiset.notMem_zero x), fun x hx ↦ absurd hx (Multiset.notMem_zero x)⟩

/-- However installs and uninstalls interleave, whatever fails and wherever the process dies
and starts again, as long as no server row is written while an uninstall is clearing the
server and no manifest deleted while an install relies on it: a server that started with a
guarded row, or with none, never has an unguarded one. -/
theorem no_unguarded_row {O : Outside} {g : Setup} {s : String} {w w' : World}
    (hw : Guarded s w) (h : (requests O g).Restarts Apart w w') : Guarded s w' :=
  ((shelter O g s).restarts (fun _ _ h ↦ sheltered_nil h.guarded) (sheltered_nil hw) h).guarded

namespace Github

open GigMcp.Registry.Example

/-- An install runs to its end, and then an uninstall does. -/
def inTurn : List (Move Act) :=
  .start (.install false "github@1") :: List.replicate 6 (.step 0) ++
    .start (.uninstall "github") :: List.replicate 2 (.step 1)

/-- An uninstall deletes the manifest an install has written, and then the install writes
the server row. -/
def crossed : List (Move Act) :=
  .start (.install false "github@1") :: .start (.uninstall "github") ::
    List.replicate 4 (.step 0) ++ List.replicate 2 (.step 1) ++ [.step 0]

abbrev after (moves : List (Move Act)) : Pool gateway Unit Act Progress World :=
  (requests Partners.outside setup).play partners.answer ⟨.boot .fresh 0, []⟩ moves

theorem answer_sem (e : Call) (w : World) (r : e.Res) (w' : World)
    (h : partners.answer e w = some (r, w')) :
    (requests Partners.outside setup).sem e w r w' :=
  partners.answer_sem h fun _ ↦ True

theorem boot_guarded : Guarded "github" (.boot .fresh 0) := nofun

end Github

open Github GigMcp.Registry.Example in
/-- Requests in turn: the row is guarded after the install, and gone after the uninstall. -/
theorem no_unguarded_row_github :
    Guarded "github" (after inTurn).shared ∧
      (after (inTurn.take 7)).shared.db.serverByName "github" =
        some ⟨1, "github", "/data/servers/github@1/server", ""⟩ ∧
      (after inTurn).shared.db.serverByName "github" = none := by
  have hmeets : System.Meets (requests Partners.outside setup) partners.answer Apart
      ⟨.boot .fresh 0, []⟩ inTurn := by
    refine ⟨trivial, trivial, trivial, trivial, trivial, ?_, trivial, trivial, trivial, ?_, trivial⟩
    · exact fun x hx ↦ absurd hx (Multiset.notMem_zero x)
    · intro x hx
      obtain rfl := Multiset.mem_singleton.mp hx
      exact nofun
  have hreach := System.reachIf_play answer_sem (fun _ _ ↦ trivial) _ hmeets
  exact ⟨no_unguarded_row boot_guarded (.single ⟨_, hreach⟩), rfl, rfl⟩

open Github GigMcp.Registry.Example in
/-- An install and an uninstall that cross leave a server row without a manifest. -/
theorem unguarded_row :
    Guarded "github" (.boot .fresh 0) ∧
      (requests Partners.outside setup).Reach ⟨.boot .fresh 0, []⟩ (after crossed) ∧
      (after crossed).shared.db.serverByName "github" =
        some ⟨1, "github", "/data/servers/github@1/server", ""⟩ ∧
      (after crossed).shared.db.manifests.get? "github" = none := by
  refine ⟨boot_guarded, ?_, rfl, rfl⟩
  exact System.reach_play answer_sem (fun _ _ ↦ trivial) _

end GigMcp.Registry.Overlap
