import GigMcp.Data.View
import GigMcp.System.World

/-!
# What holds of the store at any time

The schema declares `UNIQUE` columns and no foreign keys (`foreign_keys` is off), so that a
bundle without its profile is a state that SQLite would accept.  `Intact` is what the statements
keep nevertheless: whatever the gateway's code issued in whatever order, and whichever statement
failed, whether or not it took effect.
-/

namespace GigMcp.Store

open GigMcp.Data GigMcp.System

/-- The secondary keys of the tables, and the reference from `profile_servers` to `profiles`. -/
structure Intact (db : Database) : Prop where
  slugs : Table.Unique Profile.slug db.profiles.table
  names : Table.Unique Server.name db.servers.table
  subjects : Table.Unique (fun u : User ↦ (u.issuer, u.subject)) db.users.table
  bundles : ∀ r ∈ db.profileServers.rows, ∃ p ∈ db.profiles.table.rows, p.id = r.1

variable {O : Outside} {w w' : World}

namespace Intact

variable {db : Database}

theorem fresh : Intact .fresh where
  slugs := Table.unique_empty
  names := Table.unique_empty
  subjects := Table.unique_empty
  bundles := List.forall_mem_nil _

/-- A statement that writes none of the four tables. -/
theorem frame (h : Intact db) {c : Sql}
    (hc : ∀ t ∈ [Tbl.profiles, .servers, .users, .profileServers], t ∉ c.writes) :
    Intact (c.apply db).2 := by
  have hprofiles : (c.apply db).2.profiles = db.profiles :=
    Sql.apply_frame (hc .profiles (by decide)) db
  have hservers : (c.apply db).2.servers = db.servers :=
    Sql.apply_frame (hc .servers (by decide)) db
  have husers : (c.apply db).2.users = db.users := Sql.apply_frame (hc .users (by decide)) db
  have hbundles : (c.apply db).2.profileServers = db.profileServers :=
    Sql.apply_frame (hc .profileServers (by decide)) db
  exact ⟨hprofiles ▸ h.slugs, hservers ▸ h.names, husers ▸ h.subjects,
    hbundles ▸ hprofiles ▸ h.bundles⟩

/-- A statement that takes servers out of bundles. -/
theorem deleteBundled (h : Intact db) (q : ProfileServer → Bool) :
    Intact { db with profileServers := db.profileServers.deleteWhere q } :=
  { h with bundles := fun r hr ↦ h.bundles r (List.mem_filter.mp hr).1 }

theorem ensureServer (h : Intact db) (name binary bundleDir : String) :
    Intact (db.ensureServer name binary bundleDir).2 := by
  unfold Database.ensureServer
  split
  · refine { h with names := ?_ }
    exact h.names.update (f := fun s ↦ { s with binary := binary, bundleDir := bundleDir })
      (fun _ ↦ rfl) fun _ ↦ rfl
  · rename_i hnone
    split
    · rename_i i t hinsert
      refine { h with names := h.names.append (AutoTable.rows_insert hinsert) fun s hs ↦ ?_ }
      simpa using List.find?_eq_none.mp hnone s hs
    · exact h

theorem upsertUserByOIDC (h : Intact db) (issuer subject email displayName : String) (role : Role)
    (now : Time) :
    Intact (db.upsertUserByOIDC issuer subject email displayName role now).2 := by
  unfold Database.upsertUserByOIDC
  split
  · refine { h with subjects := ?_ }
    exact h.subjects.update (f := fun u ↦ { u with
      email := email, displayName := displayName, role := role,
      lastLoginAt := now.throughColumn }) (fun _ ↦ rfl) fun _ ↦ rfl
  · rename_i hnone
    split
    · rename_i i t hinsert
      refine { h with
        subjects := h.subjects.append (AutoTable.rows_insert hinsert) fun u hu heq ↦ ?_ }
      have hfind := List.find?_eq_none.mp hnone u hu
      rw [decide_eq_true_eq] at hfind
      exact hfind (Prod.mk.inj heq)
    · exact h

theorem createProfile (h : Intact db) (slug name : String) (userID : Int64) (tokenHash : String)
    (now : Time) : Intact (db.createProfile slug name userID tokenHash now).2 := by
  unfold Database.createProfile
  split
  · exact h
  · rename_i htaken
    rw [List.any_eq_true] at htaken
    push Not at htaken
    split
    · rename_i i t hinsert
      have hrows := AutoTable.rows_insert hinsert
      refine { h with slugs := h.slugs.append hrows fun p hp ↦ ?_, bundles := fun r hr ↦ ?_ }
      · simpa using htaken p hp
      · obtain ⟨p, hp, hid⟩ := h.bundles r hr
        exact ⟨p, hrows ▸ List.mem_append_left _ hp, hid⟩
    · exact h

/-- An update of a profile that leaves its slug alone. -/
theorem updateProfile (h : Intact db) {q : Profile → Bool} {f : Profile → Profile}
    (hid : ∀ p, (f p).id = p.id) (hslug : ∀ p, (f p).slug = p.slug) :
    Intact { db with profiles := db.profiles.update q f hid } := by
  refine { h with slugs := h.slugs.update hid hslug, bundles := fun r hr ↦ ?_ }
  obtain ⟨p, hp, hpid⟩ := h.bundles r hr
  refine ⟨if q p then f p else p, List.mem_map_of_mem hp, ?_⟩
  split
  · exact (hid p).trans hpid
  · exact hpid

/-- The transaction of `DeleteProfile` takes the bundle along. -/
theorem deleteProfile (h : Intact db) (i : Int64) :
    Intact ((Sql.deleteProfile i).apply db).2 := by
  refine { h with slugs := h.slugs.deleteWhere _, bundles := fun r hr ↦ ?_ }
  obtain ⟨hr, hne⟩ := List.mem_filter.mp hr
  obtain ⟨p, hp, hid⟩ := h.bundles r hr
  refine ⟨p, List.mem_filter.mpr ⟨hp, ?_⟩, hid⟩
  simpa only [hid] using hne

theorem mem_insertServers {pid : Int64} {names : List String}
    {t : Table (id : ProfileServer → ProfileServer)} {r : ProfileServer}
    (hr : r ∈ (names.foldl (fun t n ↦ t.insertNew (pid, n)) t).rows) : r ∈ t.rows ∨ r.1 = pid := by
  induction names generalizing t with
  | nil => exact .inl hr
  | cons n names ih =>
      rcases ih hr with hr | hr
      · have hget := Table.get?_of_mem hr
        rw [Table.get?_insertNew] at hget
        split at hget
        · rename_i hkey
          exact .inr (congrArg Prod.fst hkey)
        · exact .inl (Table.mem_of_get? hget)
      · exact .inr hr

/-- The transaction of `SetProfileServers` looks the profile up first. -/
theorem setProfileServers (h : Intact db) (pid : Int64) (names : List String) :
    Intact (db.setProfileServers pid names).2 := by
  unfold Database.setProfileServers
  split
  · exact h
  · rename_i p hp
    refine { h with bundles := fun r hr ↦ ?_ }
    rcases mem_insertServers hr with hr | hr
    · exact h.bundles r (List.mem_filter.mp hr).1
    · exact ⟨p, Table.mem_of_get? hp, (Table.key_of_get? hp).trans hr.symm⟩

/-- **Step lemma.**  Every statement keeps the store intact. -/
theorem apply (h : Intact db) (c : Sql) : Intact (c.apply db).2 := by
  cases c with
  | ensureServer name binary bundleDir => exact h.ensureServer name binary bundleDir
  | deleteServer name => exact { h with names := h.names.deleteWhere _ }
  | upsertUserByOIDC issuer subject email displayName role now =>
      exact h.upsertUserByOIDC issuer subject email displayName role now
  | createProfile slug name userID tokenHash now =>
      exact h.createProfile slug name userID tokenHash now
  | updateProfileName i name => exact h.updateProfile _ fun _ ↦ rfl
  | setProfileToken i tokenHash => exact h.updateProfile _ fun _ ↦ rfl
  | deleteProfile i => exact h.deleteProfile i
  | setProfileServers i names => exact h.setProfileServers i names
  | removeServerFromProfiles _ | deleteOwnProfileServers _ _ | deleteProfileServersOf _ =>
      exact h.deleteBundled _
  | _ => exact h.frame (by simp [Sql.writes])

/-- **Run lemma.**  So does everything the gateway's code does. -/
theorem later (h : Intact w.db) (hlater : Later O w w') : Intact w'.db := by
  induction hlater with
  | refl => exact h
  | tail _ hstep ih =>
      obtain ⟨e, r, hr⟩ := hstep
      rcases sem_db hr with hdb | ⟨c, -, hdb⟩
      · exact hdb ▸ ih
      · exact hdb ▸ ih.apply c

end Intact

/-- The store is intact at any time after the gateway was started over a new database. -/
theorem store_intact {t : Time} (h : Later O (.boot .fresh t) w) : Intact w.db :=
  Intact.fresh.later h

/-- Statements that succeed, one after the other. -/
theorem later_statements (cs : List Sql) (w : World) :
    Later O w { w with db := cs.foldl (fun db c ↦ (c.apply db).2) w.db } := by
  induction cs generalizing w with
  | nil => exact .refl
  | cons c cs ih => exact .head ⟨.sql c, (c.apply w.db).1, .inl ⟨rfl, rfl⟩⟩ (ih _)

/-- A profile with a bundle, and one whose slug is taken. -/
def Example.statements : List Sql :=
  [.createProfile "work" "Work" 1 "hash" 0, .setProfileServers 1 ["echo"],
    .createProfile "work" "Again" 2 "other" 0]

open Example in
theorem store_intact_statements :
    Intact (statements.foldl (fun db c ↦ (c.apply db).2) .fresh) :=
  store_intact (O := ⟨fun _ ↦ none, fun _ _ _ ↦ False⟩)
    (later_statements statements (.boot .fresh 0))

end GigMcp.Store
