import GigMcp.Gateway.ProfileHost
import GigMcp.System.World

/-!
# What a profile's runtime exposes

`Offered` says which tools `spawnProfile` and `exposeFor` give a profile from the
contents of the store: those of the servers that the profile lists, that have a row,
that the profile's owner has installed and whose manifest is consented to, as far as
the manifest names them and the owner has not turned them off.  Over a store whose
statements do not fail, a build exposes nothing else.
-/

namespace GigMcp.Gateway

open GigMcp.Effect GigMcp.System GigMcp.Store GigMcp.Data

/-- A tool of a server is one that a build for the profile exposes. -/
structure Offered (db : Database) (p : Profile) (server tool : String) : Prop where
  listed : (p.id, server) ∈ db.profileServers.rows
  row : ∃ srv ∈ db.servers.table.rows, srv.name = server
  installed : (db.userInstalls.get? (p.userID, server)).isSome
  allowed : ∀ rec, db.manifests.get? server = some rec →
    rec.needsReconsent = false ∧ tool ∈ rec.tools.map ToolEntry.name ∧
      (p.userID, server, tool) ∉ db.userDisabledTools.rows

/-- A runtime exposes a tool of a server. -/
def ProfileRuntime.Exposes (rt : ProfileRuntime) (server tool : String) : Prop :=
  ∃ t ∈ rt.tools, t.backend = server ∧ t.upstream = tool

/-- Worlds with the same store and host. -/
structure Same (w w' : World) : Prop where
  db : w'.db = w.db
  host : w'.host = w.host

theorem Same.refl (w : World) : Same w w := ⟨rfl, rfl⟩

theorem Same.trans {w₁ w₂ w₃ : World} (h : Same w₁ w₂) (h' : Same w₂ w₃) : Same w₁ w₃ :=
  ⟨h'.db.trans h.db, h'.host.trans h.host⟩

/-- No call goes wrong. -/
abbrev healthy : Call → Prop := fun _ ↦ False

variable {O : Outside} {w w' : World}

/-- A statement that only reads answers from the store, and changes nothing. -/
theorem sem_select {c : Sql} (hc : c.Reads = true) {r : Except Err c.Ans}
    (h : sem O healthy (.sql c) w r w') : r = (c.apply w.db).1 ∧ w' = w :=
  ⟨((sem_healthy id).mp h).1, sem_reads hc h⟩

/-! ## `exposeFor` -/

/-- The tools of a server that a user has turned off. -/
def disabledTools (db : Database) (userID : Int64) (server : String) : List String :=
  orderBy id ((db.userDisabledTools.rows.filter fun r ↦ r.1 = userID ∧ r.2.1 = server).map
    fun r ↦ r.2.2)

theorem mem_disabledTools {db : Database} {userID : Int64} {server tool : String} :
    tool ∈ disabledTools db userID server ↔ (userID, server, tool) ∈ db.userDisabledTools.rows := by
  simp only [disabledTools, mem_orderBy, List.mem_map, List.mem_filter, decide_eq_true_eq]
  constructor
  · rintro ⟨⟨u, s, t⟩, ⟨hr, rfl, rfl⟩, rfl⟩
    exact hr
  · exact fun h ↦ ⟨(userID, server, tool), ⟨h, rfl, rfl⟩, rfl⟩

/-- What `exposeFor` answers. -/
def exposure (db : Database) (p : Profile) (server : String) : Option (List String) × Bool :=
  if (db.userInstalls.get? (p.userID, server)).isSome then
    ((db.manifests.get? server).map fun rec ↦
      exposedTools rec (disabledTools db p.userID server), false)
  else (none, true)

theorem exec_exposeFor {p : Profile} {server : String}
    {r : Except Err (Option (List String) × Bool)}
    (hx : Exec (sem O healthy) (exposeFor p server) w r w') :
    r = .ok (exposure w.db p server) ∧ w' = w := by
  obtain ⟨r₁, w₁, hr₁, hx₁⟩ := exec_call.mp hx
  obtain ⟨rfl, rfl⟩ := sem_select rfl hr₁
  unfold exposure
  cases hinst : (w₁.db.userInstalls.get? (p.userID, server)).isSome with
  | false =>
      simp only [Sql.apply, hinst] at hx₁
      exact hx₁
  | true =>
      simp only [Sql.apply, hinst] at hx₁
      obtain ⟨r₂, w₂, hr₂, hx₂⟩ := exec_call.mp hx₁
      obtain ⟨rfl, rfl⟩ := sem_select rfl hr₂
      cases hrec : w₂.db.manifests.get? server with
      | none =>
          simp only [Sql.apply, hrec, Sql.fetch] at hx₂
          exact hx₂
      | some rec =>
          simp only [Sql.apply, hrec, Sql.fetch] at hx₂
          obtain ⟨r₃, w₃, hr₃, hx₃⟩ := exec_call.mp hx₂
          obtain ⟨rfl, rfl⟩ := sem_select rfl hr₃
          exact hx₃

/-! ## Building -/

theorem sem_spawn_same {srv : Server} {tenant placeholder : String}
    {r : Except Err EgressBackend} (h : sem O healthy (.spawn srv tenant placeholder) w r w') :
    Same w w' := by
  rcases h with ⟨-, rfl⟩ | ⟨rfl, -⟩
  · exact ⟨rfl, rfl⟩
  · exact .refl _

/-- A backend is only spawned for a server whose manifest was consented to. -/
theorem exec_spawnBackend {srv : Server} {tenant : String} {r : Except Err EgressBackend}
    (hx : Exec (sem O healthy) (spawnBackend srv tenant) w r w') :
    Same w w' ∧ ∀ b rec, r = .ok b → w.db.manifests.get? srv.name = some rec →
      rec.needsReconsent = false := by
  obtain ⟨r₁, w₁, hr₁, hx₁⟩ := exec_call.mp hx
  obtain ⟨rfl, rfl⟩ := sem_select rfl hr₁
  cases hrec : w₁.db.manifests.get? srv.name with
  | none =>
      simp only [Sql.apply, hrec, Sql.fetch] at hx₁
      refine ⟨sem_spawn_same (exec_call_iff.mp hx₁), ?_⟩
      rintro b rec - ⟨⟩
  | some rec =>
      simp only [Sql.apply, hrec, Sql.fetch] at hx₁
      split at hx₁
      · obtain ⟨rfl, rfl⟩ := hx₁
        refine ⟨.refl _, ?_⟩
        rintro b rec ⟨⟩
      · rename_i hconsent
        refine ⟨sem_spawn_same (exec_call_iff.mp hx₁), ?_⟩
        rintro b rec' - ⟨rfl⟩
        exact Bool.eq_false_iff.mpr hconsent

theorem exec_runCleanups {bs : List EgressBackend} {a : Unit}
    (hx : Exec (sem O healthy) (runCleanups bs) w a w') : Same w w' := by
  have hall : All (fun e ↦ ∃ b, e = Call.cleanup b) (runCleanups bs) := by
    refine All.bind (All.each (fun b ↦ ?_) bs) fun _ ↦ all_ret
    exact all_call_iff.mpr ⟨b, rfl⟩
  refine hall.frame (ρ := Same) Same.refl (fun _ _ _ ↦ Same.trans) ?_ hx
  rintro _ w r w' ⟨b, rfl⟩ hr
  obtain rfl := hr
  exact ⟨rfl, rfl⟩

theorem exec_failBuild {α : Type} {bs : List EgressBackend} {e : Err} {r : Except Err α}
    (hx : Exec (sem O healthy) (failBuild bs e) w r w') : r = .error e ∧ Same w w' := by
  obtain ⟨a, w₁, hx₁, hx₂⟩ := exec_bind.mp hx
  obtain ⟨rfl, rfl⟩ := hx₂
  exact ⟨rfl, exec_runCleanups hx₁⟩

/-- A backend exposes nothing but what is offered. -/
def Backend.Offers (db : Database) (p : Profile) (b : Backend) : Prop :=
  ∀ tool, b.exposes tool = true → Offered db p b.name tool

/-- What is offered is what passes the gates of a build: the profile lists the server, the
server has a row and is consented to, and the filter of `exposeFor` lets the tool through. -/
theorem offered_iff {db : Database} {p : Profile} {server tool : String} :
    Offered db p server tool ↔
      (p.id, server) ∈ db.profileServers.rows ∧
      (∃ srv ∈ db.servers.table.rows, srv.name = server) ∧
      (∀ rec, db.manifests.get? server = some rec → rec.needsReconsent = false) ∧
      ∃ expose, exposure db p server = (expose, false) ∧ expose.all (·.contains tool) := by
  have hfilter (rec : ManifestRecord) :
      (exposedTools rec (disabledTools db p.userID server)).contains tool = true ↔
        tool ∈ rec.tools.map ToolEntry.name ∧
          (p.userID, server, tool) ∉ db.userDisabledTools.rows := by
    simp only [List.contains_eq_mem, decide_eq_true_eq, exposedTools, List.mem_filter,
      Bool.not_eq_true', decide_eq_false_iff_not, mem_disabledTools]
  constructor
  · intro ho
    refine ⟨ho.listed, ho.row, fun rec hrec ↦ (ho.allowed rec hrec).1, _,
      if_pos ho.installed, ?_⟩
    cases hrec : db.manifests.get? server with
    | none => rfl
    | some rec => exact (hfilter rec).mpr (ho.allowed rec hrec).2
  · rintro ⟨hlisted, hrow, hconsent, expose, hexposure, htool⟩
    unfold exposure at hexposure
    split at hexposure
    · rename_i hinst
      obtain ⟨rfl, -⟩ := Prod.mk.inj hexposure
      refine ⟨hlisted, hrow, hinst, fun rec hrec ↦ ⟨hconsent rec hrec, ?_⟩⟩
      rw [hrec] at htool
      exact (hfilter rec).mp htool
    · cases hexposure

/-- The loop of a build collects backends that expose what is offered. -/
theorem exec_spawnServers {p : Profile} {all : List Server} {names : List String}
    {backends : List Backend} {cleanups : List EgressBackend}
    {r : Except Err (List Backend × List EgressBackend)}
    (hall : ∀ srv ∈ all, srv ∈ w.db.servers.table.rows)
    (hnames : ∀ name ∈ names, (p.id, name) ∈ w.db.profileServers.rows)
    (hbackends : ∀ b ∈ backends, Backend.Offers w.db p b)
    (hx : Exec (sem O healthy) (spawnServers p all names backends cleanups) w r w') :
    Same w w' ∧ ∀ bs cs, r = .ok (bs, cs) → ∀ b ∈ bs, Backend.Offers w.db p b := by
  induction names generalizing w backends cleanups with
  | nil =>
      obtain ⟨rfl, rfl⟩ := hx
      refine ⟨.refl _, ?_⟩
      rintro bs cs ⟨rfl⟩
      exact hbackends
  | cons name names ih =>
      have hrest : ∀ n ∈ names, (p.id, n) ∈ w.db.profileServers.rows :=
        fun n hn ↦ hnames n (.tail _ hn)
      unfold spawnServers at hx
      split at hx
      · exact ih hall hrest hbackends hx
      · rename_i srv hsrv
        obtain rfl : srv.name = name := by simpa using List.find?_some hsrv
        have hrow : srv ∈ w.db.servers.table.rows :=
          hall srv (List.mem_reverse.mp (List.mem_of_find?_eq_some hsrv))
        obtain ⟨r₁, w₁, hx₁, hx₂⟩ := exec_bind.mp hx
        obtain ⟨rfl, rfl⟩ := exec_exposeFor hx₁
        split at hx₂
        · obtain ⟨rfl, hsame⟩ := exec_failBuild hx₂
          refine ⟨hsame, ?_⟩
          rintro bs cs ⟨⟩
        · exact ih hall hrest hbackends hx₂
        · rename_i expose hexpose
          have hexposure := Except.ok.inj hexpose
          obtain ⟨r₂, w₂, hx₃, hx₄⟩ := exec_bind.mp hx₂
          obtain ⟨hsame, hconsent⟩ := exec_spawnBackend hx₃
          cases r₂ with
          | error e =>
              obtain ⟨rfl, hsame'⟩ := exec_failBuild hx₄
              refine ⟨hsame.trans hsame', ?_⟩
              rintro bs cs ⟨⟩
          | ok eb =>
              have hoffers : Backend.Offers w₁.db p ⟨srv.name, eb, expose⟩ := fun tool htool ↦
                offered_iff.mpr ⟨hnames _ (.head _), ⟨srv, hrow, rfl⟩,
                  fun rec ↦ hconsent eb rec rfl, expose, hexposure, htool⟩
              rw [← hsame.db] at hall hrest hbackends hoffers ⊢
              obtain ⟨hsame', hbs⟩ := ih hall hrest
                (fun b hb ↦ (List.mem_append.mp hb).elim (hbackends b) fun hb ↦
                  List.mem_singleton.mp hb ▸ hoffers) hx₄
              exact ⟨hsame.trans hsame', hbs⟩

theorem mem_addTool {tools : List AggTool} {t a : AggTool} (h : a ∈ addTool tools t) :
    a ∈ tools ∨ a = t := by
  rcases List.mem_append.mp h with h | h
  · exact .inl (List.mem_of_mem_filter h)
  · exact .inr (List.mem_singleton.mp h)

/-- The tools that are added are tools the backend exposes. -/
theorem mem_addTools {b : Backend} {listed : List String} {tools : List AggTool} {a : AggTool}
    (h : a ∈ addTools b listed tools) :
    a ∈ tools ∨ (a.backend = b.name ∧ b.exposes a.upstream = true) := by
  have hfold : ∀ (names : List String) (tools : List AggTool),
      (∀ n ∈ names, b.exposes n = true) →
      a ∈ names.foldl
        (fun ts tool ↦ addTool ts ⟨b.name ++ "_" ++ tool, b.name, b.session, tool⟩) tools →
      a ∈ tools ∨ (a.backend = b.name ∧ b.exposes a.upstream = true) := by
    intro names
    induction names with
    | nil => exact fun tools _ ha ↦ .inl ha
    | cons n names ih =>
        intro tools hn ha
        rcases ih _ (fun m hm ↦ hn m (.tail _ hm)) ha with ha | ha
        · rcases mem_addTool ha with ha | rfl
          · exact .inl ha
          · exact .inr ⟨rfl, hn n (.head _)⟩
        · exact .inr ha
  refine hfold _ _ (fun n hn ↦ ?_) h
  exact List.of_mem_filter hn

theorem exec_aggregate {db : Database} {p : Profile} {bs : List Backend} {tools : List AggTool}
    {r : Except Err (List AggTool)} (hbs : ∀ b ∈ bs, Backend.Offers db p b)
    (htools : ∀ a ∈ tools, Offered db p a.backend a.upstream)
    (hx : Exec (sem O healthy) (aggregate bs tools) w r w') :
    w' = w ∧ ∀ ts, r = .ok ts → ∀ a ∈ ts, Offered db p a.backend a.upstream := by
  induction bs generalizing tools with
  | nil =>
      obtain ⟨rfl, rfl⟩ := hx
      refine ⟨rfl, ?_⟩
      rintro ts ⟨rfl⟩
      exact htools
  | cons b bs ih =>
      obtain ⟨r₁, w₁, ⟨rfl, -⟩, hx₁⟩ := exec_call.mp hx
      cases r₁ with
      | error e =>
          obtain ⟨rfl, rfl⟩ := hx₁
          exact ⟨rfl, nofun⟩
      | ok listed =>
          refine ih (fun b' hb' ↦ hbs b' (.tail _ hb')) (fun a ha ↦ ?_) hx₁
          rcases mem_addTools ha with ha | ⟨hname, hexposes⟩
          · exact htools a ha
          · rw [hname]
            exact hbs b (.head _) _ hexposes

/-- **A build exposes only what is offered.** -/
theorem exec_spawnProfile {p : Profile} {r : Except Err ProfileRuntime}
    (hx : Exec (sem O healthy) (spawnProfile p) w r w') :
    Same w w' ∧ ∀ rt, r = .ok rt → ∀ server tool, rt.Exposes server tool →
      Offered w.db p server tool := by
  obtain ⟨r₁, w₁, hr₁, hx₁⟩ := exec_call.mp hx
  obtain ⟨rfl, rfl⟩ := sem_select rfl hr₁
  obtain ⟨r₂, w₂, hr₂, hx₂⟩ := exec_call.mp hx₁
  obtain ⟨rfl, rfl⟩ := sem_select rfl hr₂
  obtain ⟨r₃, w₃, hx₃, hx₄⟩ := exec_bind.mp hx₂
  obtain ⟨hsame, hbs⟩ := exec_spawnServers (fun srv hsrv ↦ (mem_orderBy ..).mp hsrv)
    (fun name hname ↦ by
      obtain ⟨⟨i, n⟩, hr, rfl⟩ := List.mem_map.mp ((mem_orderBy ..).mp hname)
      obtain ⟨hr, hi⟩ := List.mem_filter.mp hr
      obtain rfl : i = p.id := by simpa using hi
      exact hr) (List.forall_mem_nil _) hx₃
  cases r₃ with
  | error e =>
      obtain ⟨rfl, rfl⟩ := hx₄
      exact ⟨hsame, nofun⟩
  | ok bc =>
      obtain ⟨r₅, w₅, hx₅, hx₆⟩ := exec_bind.mp hx₄
      have hagg : w₅ = w₃ ∧ ∀ ts, r₅ = .ok ts → ∀ a ∈ ts, Offered w₂.db p a.backend a.upstream := by
        unfold newAggregator at hx₅
        split at hx₅
        · obtain ⟨rfl, rfl⟩ := hx₅
          exact ⟨rfl, nofun⟩
        · exact exec_aggregate (hbs bc.1 bc.2 rfl) (List.forall_mem_nil _) hx₅
      obtain ⟨rfl, htools⟩ := hagg
      cases r₅ with
      | error e =>
          obtain ⟨rfl, hsame'⟩ := exec_failBuild hx₆
          exact ⟨hsame.trans hsame', nofun⟩
      | ok tools =>
          obtain ⟨rfl, rfl⟩ := hx₆
          refine ⟨hsame, ?_⟩
          rintro rt ⟨rfl⟩ server tool ⟨a, ha, rfl, rfl⟩
          exact htools tools rfl a ha

end GigMcp.Gateway
