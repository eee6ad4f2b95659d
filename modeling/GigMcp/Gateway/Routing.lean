import GigMcp.Effect.Trace
import GigMcp.Gateway.Exposure

/-!
# Calls through the aggregator

`New` joins the name of a backend and the name of a tool with a separator that the tool may
contain and the backend may not, so the first separator of a joined name tells where it was
joined.  As no two backends have the same name, what is added later never replaces a tool of
another backend, and a call goes to the tool that its name was made from.

What `New` adds are the tools that a backend lists in answer to one request.  A server may
split its tools into pages, and the answer is then the first of them.
-/

namespace GigMcp.Gateway.Routing

open GigMcp.Effect GigMcp.System GigMcp.Data

/-! ## Calls by name -/

/-- A call on the session of a backend. -/
structure Upstream (α : Type) where
  session : EgressBackend
  name : String
  arguments : α
deriving DecidableEq

/-- What the handler of an aggregated tool does with a call: the arguments go on as they
are. -/
def handle {α : Type} (t : AggTool) (arguments : α) : Upstream α := ⟨t.session, t.upstream, arguments⟩

/-- The call that the aggregator makes for a call by name; it makes none for a name that it
does not have. -/
def dispatch {α : Type} (tools : List AggTool) (name : String) (arguments : α) :
    Option (Upstream α) :=
  (tools.find? fun t ↦ t.name = name).map (handle · arguments)

/-- The name of a backend's tool in the aggregator. -/
def qualified (b : Backend) (tool : String) : String := b.name ++ "_" ++ tool

/-- A backend's tool in the aggregator. -/
def entry (b : Backend) (tool : String) : AggTool := ⟨qualified b tool, b.name, b.session, tool⟩

/-! ## Names -/

/-- What `New` asks of the names of its backends. -/
structure Named (bs : List Backend) : Prop where
  separator : ∀ b ∈ bs, '_' ∉ b.name.toList
  distinct : (bs.map Backend.name).Nodup

theorem checkNames_ok {seen : List String} {bs : List Backend} (h : checkNames seen bs = .ok ()) :
    Named bs ∧ ∀ b ∈ bs, b.name ∉ seen := by
  induction bs generalizing seen with
  | nil => exact ⟨⟨List.forall_mem_nil _, List.nodup_nil⟩, List.forall_mem_nil _⟩
  | cons b bs ih =>
      rw [checkNames] at h
      split at h
      · exact nomatch h
      · rename_i hsep
        split at h
        · exact nomatch h
        · rename_i hseen
          obtain ⟨hnamed, hfresh⟩ := ih h
          have hnot : b.name ∉ bs.map Backend.name := by
            rintro hmem
            obtain ⟨b', hb', heq⟩ := List.mem_map.mp hmem
            exact hfresh b' hb' (heq ▸ List.mem_cons_self)
          refine ⟨⟨List.forall_mem_cons.mpr ⟨by simpa using hsep, hnamed.separator⟩,
            List.nodup_cons.mpr ⟨hnot, hnamed.distinct⟩⟩, List.forall_mem_cons.mpr ⟨by simpa using hseen, ?_⟩⟩
          exact fun b' hb' hmem ↦ hfresh b' hb' (.tail _ hmem)

section Names

variable {bs : List Backend} {b b' : Backend} {tool tool' : String}

theorem qualified_toList (b : Backend) (tool : String) :
    (qualified b tool).toList = b.name.toList ++ '_' :: tool.toList := by
  simp [qualified]

/-- A joined name comes from one backend and one tool. -/
theorem Named.qualified_inj (h : Named bs) (hb : b ∈ bs) (hb' : b' ∈ bs)
    (heq : qualified b tool = qualified b' tool') : b = b' ∧ tool = tool' := by
  have hlist := congrArg String.toList heq
  rw [qualified_toList, qualified_toList] at hlist
  obtain ⟨hname, htool⟩ := cut_inj (h.separator b hb) (h.separator b' hb') hlist
  exact ⟨List.inj_on_of_nodup_map h.distinct hb hb' (String.toList_inj.mp hname),
    String.toList_inj.mp htool⟩

end Names

/-! ## What is added -/

section Adding

variable {tools : List AggTool} {b : Backend} {a : AggTool}

/-- A tool of the same name is replaced, and nothing changes if it is the same tool. -/
theorem mem_addTool_iff {t : AggTool} (h : ∀ a ∈ tools, a.name = t.name → a = t) :
    a ∈ addTool tools t ↔ a ∈ tools ∨ a = t := by
  rw [addTool, List.mem_append, List.mem_filter, List.mem_singleton]
  constructor
  · rintro (⟨ha, -⟩ | ha)
    · exact .inl ha
    · exact .inr ha
  · rintro (ha | ha)
    · by_cases hname : a.name = t.name
      · exact .inr (h a ha hname)
      · exact .inl ⟨ha, by simpa using hname⟩
    · exact .inr ha

theorem mem_addTools_iff {listed : List String}
    (h : ∀ a ∈ tools, ∀ tool, a.name = qualified b tool → a = entry b tool) :
    a ∈ addTools b listed tools ↔
      a ∈ tools ∨ ∃ tool ∈ listed, b.exposes tool = true ∧ a = entry b tool := by
  have hfold : ∀ (names : List String) (tools : List AggTool),
      (∀ a ∈ tools, ∀ tool, a.name = qualified b tool → a = entry b tool) →
      (a ∈ names.foldl (fun ts tool ↦ addTool ts (entry b tool)) tools ↔
        a ∈ tools ∨ ∃ tool ∈ names, a = entry b tool) := by
    intro names
    induction names with
    | nil => simp
    | cons n names ih =>
        intro tools h
        have hadd : ∀ a, a ∈ addTool tools (entry b n) ↔ a ∈ tools ∨ a = entry b n :=
          fun a ↦ mem_addTool_iff fun a ha ↦ h a ha n
        rw [List.foldl_cons, ih, hadd]
        · simp only [List.mem_cons, exists_eq_or_imp, or_assoc]
        · intro a ha tool hname
          rcases (hadd a).mp ha with ha | rfl
          · exact h a ha tool hname
          · have htool : n = tool := by
              simpa [entry, qualified] using hname
            rw [htool]
  have hadd := hfold (listed.filter b.exposes) tools h
  rw [addTools]
  refine hadd.trans (or_congr_right ?_)
  simp only [List.mem_filter, and_assoc]

end Adding

/-- A backend and the tools it has listed. -/
abbrev Listing := Backend × List String

/-- The tools of some listings that are let through. -/
def Admitted (ps : List Listing) (a : AggTool) : Prop :=
  ∃ p ∈ ps, ∃ tool ∈ p.2, p.1.exposes tool = true ∧ a = entry p.1 tool

section Aggregate

variable {W : Type} {R : Sem gateway W} {w w' : W} {backends bs : List Backend} {a : AggTool}
  {tools ts : List AggTool} {ps qs : List Listing}

/-- The aggregator asks each backend for its tools once, in order. -/
theorem traced_aggregate {t : List (Event gateway)}
    (hx : Traced R (aggregate bs tools) w t (.ok ts) w') :
    ∃ ps : List Listing, ps.map Prod.fst = bs ∧
      t = ps.map (fun p ↦ ⟨.listTools p.1.session, .ok p.2⟩) ∧
      ts = ps.foldl (fun ts p ↦ addTools p.1 p.2 ts) tools := by
  induction bs generalizing tools w t with
  | nil =>
      obtain ⟨rfl, hts, -⟩ := hx
      exact ⟨[], rfl, rfl, Except.ok.inj hts⟩
  | cons b bs ih =>
      obtain ⟨r, w₁, t', -, rfl, hx₁⟩ := traced_call.mp hx
      cases r with
      | error e => exact nomatch hx₁.2.1
      | ok listed =>
          obtain ⟨ps, rfl, rfl, hts⟩ := ih hx₁
          exact ⟨(b, listed) :: ps, rfl, rfl, hts⟩

/-- What is added for some listings, after others of the same backends. -/
theorem mem_foldl_addTools (h : Named bs) (hqs : ∀ p ∈ qs, p.1 ∈ bs) (hps : ∀ p ∈ ps, p.1 ∈ bs)
    (htools : ∀ a, a ∈ tools ↔ Admitted qs a) :
    a ∈ ps.foldl (fun ts p ↦ addTools p.1 p.2 ts) tools ↔ Admitted (qs ++ ps) a := by
  induction ps generalizing tools qs with
  | nil => simpa using htools a
  | cons p ps ih =>
      obtain ⟨hp, hps⟩ := List.forall_mem_cons.mp hps
      have hadd : ∀ a, a ∈ addTools p.1 p.2 tools ↔ Admitted (qs ++ [p]) a := by
        intro a
        rw [mem_addTools_iff, htools]
        · simp only [Admitted, List.mem_append, List.mem_singleton, or_and_right, exists_or,
            exists_eq_left]
        · intro a ha tool hname
          obtain ⟨q, hq, tool', -, -, rfl⟩ := (htools a).mp ha
          obtain ⟨hb, ht⟩ := h.qualified_inj (hqs q hq) hp hname
          rw [hb, ht]
      have hqs' : ∀ q ∈ qs ++ [p], q.1 ∈ bs := by
        intro q hq
        rcases List.mem_append.mp hq with hq | hq
        · exact hqs q hq
        · exact List.mem_singleton.mp hq ▸ hp
      rw [List.foldl_cons, ih hqs' hps hadd, List.append_assoc]
      rfl

/-- The tools of an aggregator are those that its backends list and that are let through. -/
theorem traced_newAggregator {t : List (Event gateway)}
    (hx : Traced R (newAggregator backends) w t (.ok ts) w') :
    Named backends ∧ ∃ ps : List Listing, ps.map Prod.fst = backends ∧
      t = ps.map (fun p ↦ ⟨.listTools p.1.session, .ok p.2⟩) ∧ ∀ a, a ∈ ts ↔ Admitted ps a := by
  unfold newAggregator at hx
  cases hnames : checkNames [] backends with
  | error e =>
      rw [hnames] at hx
      exact nomatch hx.2.1
  | ok _ =>
      rw [hnames] at hx
      obtain ⟨hnamed, -⟩ := checkNames_ok hnames
      obtain ⟨ps, hps, ht, rfl⟩ := traced_aggregate hx
      refine ⟨hnamed, ps, hps, ht, fun a ↦ ?_⟩
      have hmem : ∀ p ∈ ps, p.1 ∈ backends := fun p hp ↦ hps ▸ List.mem_map_of_mem hp
      have hnone : ∀ a, a ∈ ([] : List AggTool) ↔ Admitted [] a := by simp [Admitted]
      exact mem_foldl_addTools hnamed (List.forall_mem_nil _) hmem hnone

/-- The same of an execution: each listing is an answer. -/
theorem exec_newAggregator_tools (hx : Exec R (newAggregator backends) w (.ok ts) w') :
    Named backends ∧ ∃ ps : List Listing, ps.map Prod.fst = backends ∧
      (∀ p ∈ ps, ∃ v v', R (.listTools p.1.session) v (.ok p.2) v') ∧
      ∀ a, a ∈ ts ↔ Admitted ps a := by
  obtain ⟨t, hx⟩ := hx.traced
  obtain ⟨hnamed, ps, hps, rfl, htools⟩ := traced_newAggregator hx
  refine ⟨hnamed, ps, hps, fun p hp ↦ ?_, htools⟩
  exact hx.answered _ (List.mem_map_of_mem hp)

theorem dispatch_eq_some {α : Type} {name : String} {arguments : α} {u : Upstream α}
    (h : Named bs) (hps : ∀ p ∈ ps, p.1 ∈ bs) (htools : ∀ a, a ∈ ts ↔ Admitted ps a) :
    dispatch ts name arguments = some u ↔ ∃ p ∈ ps, ∃ tool ∈ p.2, p.1.exposes tool = true ∧
      name = qualified p.1 tool ∧ u = ⟨p.1.session, tool, arguments⟩ := by
  constructor
  · intro hd
    obtain ⟨a, ha, rfl⟩ := Option.map_eq_some_iff.mp hd
    obtain ⟨p, hp, tool, htool, hexposes, rfl⟩ := (htools a).mp (List.mem_of_find?_eq_some ha)
    have hname := List.find?_some ha
    exact ⟨p, hp, tool, htool, hexposes, (of_decide_eq_true hname).symm, rfl⟩
  · rintro ⟨p, hp, tool, htool, hexposes, rfl, rfl⟩
    have hmem : entry p.1 tool ∈ ts := (htools _).mpr ⟨p, hp, tool, htool, hexposes, rfl⟩
    cases hfind : ts.find? fun t ↦ t.name = qualified p.1 tool with
    | none =>
        have hno := List.find?_eq_none.mp hfind _ hmem
        exact absurd (decide_eq_true (rfl : (entry p.1 tool).name = _)) hno
    | some a =>
        -- another tool of the name would be the same tool
        obtain ⟨q, hq, tool', -, -, rfl⟩ := (htools a).mp (List.mem_of_find?_eq_some hfind)
        have hname := List.find?_some hfind
        obtain ⟨hb, ht⟩ := h.qualified_inj (hps q hq) (hps p hp) (of_decide_eq_true hname)
        rw [dispatch, hfind, hb, ht]
        rfl

end Aggregate

/-- **Routing is unambiguous.**  For every aggregator that `New` returns, and the listings its
backends have answered: different tools have different names, and a call by name is made on
the session of the backend and for the tool that the name was made from, with the arguments
as they are, and for none that is not let through. -/
theorem routing_unambiguous {W α : Type} {R : Sem gateway W} {w w' : W} {backends : List Backend}
    {tools : List AggTool} (hx : Exec R (newAggregator backends) w (.ok tools) w') :
    ∃ ps : List Listing, ps.map Prod.fst = backends ∧
      (∀ p ∈ ps, ∃ v v', R (.listTools p.1.session) v (.ok p.2) v') ∧
      (∀ p ∈ ps, ∀ q ∈ ps, ∀ tool tool', qualified p.1 tool = qualified q.1 tool' →
        p.1 = q.1 ∧ tool = tool') ∧
      ∀ name (arguments : α) u, dispatch tools name arguments = some u ↔
        ∃ p ∈ ps, ∃ tool ∈ p.2, p.1.exposes tool = true ∧ name = qualified p.1 tool ∧
          u = ⟨p.1.session, tool, arguments⟩ := by
  obtain ⟨hnamed, ps, hps, hlists, htools⟩ := exec_newAggregator_tools hx
  have hmem : ∀ p ∈ ps, p.1 ∈ backends := fun p hp ↦ hps ▸ List.mem_map_of_mem hp
  refine ⟨ps, hps, hlists, ?_, fun name arguments u ↦ dispatch_eq_some hnamed hmem htools⟩
  exact fun p hp q hq tool tool' ↦ hnamed.qualified_inj (hmem p hp) (hmem q hq)

/-! ## Pages -/

/-- A server's tools in pages: the first, and those behind its cursor. -/
structure Paged where
  first : List String
  later : List (List String)

def Paged.tools (p : Paged) : List String := p.first ++ p.later.flatten

/-- A request without a cursor is answered with the first page. -/
def Answers {W : Type} (R : Sem gateway W) (pages : EgressBackend → Paged) : Prop :=
  ∀ b w listed w', R (.listTools b) w (.ok listed) w' → listed = (pages b).first

/-- The aggregator has the tools of its backends that are let through, and no others. -/
def Complete (pages : EgressBackend → Paged) (backends : List Backend) (tools : List AggTool) :
    Prop :=
  ∀ name, (∃ a ∈ tools, a.name = name) ↔ ∃ b ∈ backends, ∃ tool ∈ (pages b.session).tools,
    b.exposes tool = true ∧ name = qualified b tool

/-- No tool is lost if and only if every tool that is let through is on its first page. -/
theorem aggregator_complete_iff {W : Type} {R : Sem gateway W} {w w' : W}
    {backends : List Backend} {tools : List AggTool} {pages : EgressBackend → Paged}
    (hpages : Answers R pages) (hx : Exec R (newAggregator backends) w (.ok tools) w') :
    Complete pages backends tools ↔ ∀ b ∈ backends, ∀ tool ∈ (pages b.session).tools,
      b.exposes tool = true → tool ∈ (pages b.session).first := by
  obtain ⟨hnamed, ps, rfl, hlists, htools⟩ := exec_newAggregator_tools hx
  have hfirst : ∀ p ∈ ps, p.2 = (pages p.1.session).first := by
    intro p hp
    obtain ⟨v, v', hr⟩ := hlists p hp
    exact hpages _ _ _ _ hr
  have hhas : ∀ name, (∃ a ∈ tools, a.name = name) ↔ ∃ b ∈ ps.map Prod.fst,
      ∃ tool ∈ (pages b.session).first, b.exposes tool = true ∧ name = qualified b tool := by
    intro name
    constructor
    · rintro ⟨a, ha, rfl⟩
      obtain ⟨p, hp, tool, htool, hexposes, rfl⟩ := (htools a).mp ha
      exact ⟨p.1, List.mem_map_of_mem hp, tool, hfirst p hp ▸ htool, hexposes, rfl⟩
    · rintro ⟨b, hb, tool, htool, hexposes, rfl⟩
      obtain ⟨p, hp, rfl⟩ := List.mem_map.mp hb
      exact ⟨entry p.1 tool, (htools _).mpr ⟨p, hp, tool, hfirst p hp ▸ htool, hexposes, rfl⟩, rfl⟩
  constructor
  · intro hcomplete b hb tool htool hexposes
    have hthere := (hcomplete (qualified b tool)).mpr ⟨b, hb, tool, htool, hexposes, rfl⟩
    obtain ⟨b', hb', tool', htool', -, hname⟩ := (hhas _).mp hthere
    obtain ⟨rfl, rfl⟩ := hnamed.qualified_inj hb hb' hname
    exact htool'
  · intro hall name
    rw [hhas]
    constructor
    · rintro ⟨b, hb, tool, htool, hexposes, hname⟩
      exact ⟨b, hb, tool, List.mem_append_left _ htool, hexposes, hname⟩
    · rintro ⟨b, hb, tool, htool, hexposes, hname⟩
      exact ⟨b, hb, tool, hall b hb tool htool hexposes, hexposes, hname⟩

/-! ## Two backends -/

namespace Pair

def git : Backend := ⟨"git", ⟨1, "git", "7"⟩, none⟩

def gitlab : Backend := ⟨"gitlab", ⟨2, "gitlab", "7"⟩, some ["list_issues"]⟩

/-- The second server has two pages. -/
def pages : EgressBackend → Paged
  | ⟨2, _, _⟩ => ⟨["delete", "list_issues"], [["search"]]⟩
  | _ => ⟨["lab_search", "search"], []⟩

/-- The servers answer with their first pages, and nothing else is asked of the outside. -/
def answer : (e : Call) → Unit → Option (Call.Res e × Unit)
  | .listTools b, _ => some (.ok (pages b).first, ())
  | _, _ => none

abbrev Answered : Sem gateway Unit := fun e w r w' ↦ answer e w = some (r, w')

theorem answers : Answers Answered pages := by
  intro b w listed w' h
  exact (Except.ok.inj (Prod.mk.inj (Option.some.inj h)).1).symm

/-- The tools of the two. -/
def tools : List AggTool := [entry git "lab_search", entry git "search", entry gitlab "list_issues"]

theorem exec_new : Exec Answered (newAggregator [git, gitlab]) () (.ok tools) () :=
  exec_run (fun _ _ _ _ h ↦ h) (by decide : run answer (newAggregator [git, gitlab]) () = _)

/-- A name with two separators goes to the backend before the first. -/
theorem routing_unambiguous_pair :
    ∃ ps : List Listing, ps.map Prod.fst = [git, gitlab] ∧
      ∀ name (arguments : ℕ) u, dispatch tools name arguments = some u ↔
        ∃ p ∈ ps, ∃ tool ∈ p.2, p.1.exposes tool = true ∧ name = qualified p.1 tool ∧
          u = ⟨p.1.session, tool, arguments⟩ := by
  obtain ⟨ps, hps, -, -, hdispatch⟩ := routing_unambiguous exec_new
  exact ⟨ps, hps, hdispatch⟩

/-- Nothing that is let through is on the second page. -/
theorem aggregator_complete_pair : Complete pages [git, gitlab] tools := by
  refine (aggregator_complete_iff answers exec_new).mpr ?_
  decide

/-- With all tools let through, one is on the second page and is lost. -/
theorem aggregator_loses_page :
    Exec Answered (newAggregator [{ gitlab with expose := none }]) ()
        (.ok [entry gitlab "delete", entry gitlab "list_issues"]) () ∧
      "search" ∈ (pages gitlab.session).tools ∧
      ¬ Complete pages [{ gitlab with expose := none }]
        [entry gitlab "delete", entry gitlab "list_issues"] := by
  refine ⟨exec_run (fun _ _ _ _ h ↦ h)
    (by decide : run answer (newAggregator [{ gitlab with expose := none }]) () = _), by decide, ?_⟩
  intro hcomplete
  obtain ⟨a, ha, hname⟩ := (hcomplete "gitlab_search").mpr
    ⟨_, List.mem_singleton_self _, "search", by decide, by decide, by decide⟩
  revert a
  decide

end Pair

end GigMcp.Gateway.Routing
