import GigMcp.Api.Actions
import GigMcp.Api.Serve
import GigMcp.Effect.Relate
import GigMcp.Store.Indistinct

/-!
# What a user learns

The answers to the requests of a user without the admin role depend on the user's own rows and on
the shared tables, and on nothing else: whatever the store holds of others, and whatever others do
to it meanwhile, each answer is one that the user could also get alone in any store that looks the
same to them (`Indistinct`).  The user's own secrets are not among what shows either.

Most handlers make calls that get the same answers in both worlds (`Shown`).  A request for a
profile by its id is different: the row may be somebody else's in one world and missing in the
other, and `loadOwnedProfile` answers both alike.
-/

namespace GigMcp.Api.Privacy

open GigMcp.Effect GigMcp.System GigMcp.Store GigMcp.Http GigMcp.Auth GigMcp.Data

variable {O : Outside} {faults : Call → Prop} {u : Int64} {own : Int64 → Prop} {w w' w₀ v : World}

/-! ## Two worlds -/

/-- Two worlds that the user cannot tell apart, in which the profiles `own` are theirs.  Time has
not gone further in the second one. -/
structure Twin (u : Int64) (own : Int64 → Prop) (w v : World) : Prop where
  db : Indistinct u w.db v.db
  left : Intact w.db
  right : Intact v.db
  owns : ∀ pid, own pid → Owns u w.db pid
  now : v.now ≤ w.now

/-- What others may do: anything that the user cannot see.  What the gateway does keeps the store
intact. -/
structure Others (u : Int64) (w w' : World) : Prop where
  db : Indistinct u w.db w'.db
  intact : Intact w.db → Intact w'.db
  now : w.now ≤ w'.now

theorem Others.refl (u : Int64) (w : World) : Others u w w := ⟨.refl u w.db, id, le_refl _⟩

theorem Twin.absorb (h : Twin u own w v) (hothers : Others u w w₀) : Twin u own w₀ v where
  db := hothers.db.symm.trans h.db
  left := hothers.intact h.left
  right := h.right
  owns := fun pid hpid ↦ Indistinct.owns_of_shows hothers.db.profiles (h.owns pid hpid)
  now := h.now.trans hothers.now

theorem Twin.mono {own' : Int64 → Prop} (h : Twin u own w v) (hown : ∀ pid, own' pid → own pid) :
    Twin u own' w v :=
  { h with owns := fun pid hpid ↦ h.owns pid (hown pid hpid) }

/-- The calls that answer the same in both worlds. -/
def Shown (u : Int64) (own : Int64 → Prop) : Call → Prop
  | .sql c => Visible u own c
  | .now | .encrypt _ | .decrypt _ | .newToken | .random | .newVerifier | .exchange ..
  | .fetchIndex => True
  | _ => False

/-- The worlds after a statement. -/
theorem Twin.apply (h : Twin u own w v) (hu : u ≠ 0) {c : Sql} (hc : Visible u own c) :
    Twin u own { w with db := (c.apply w.db).2 } { v with db := (c.apply v.db).2 } where
  db := (h.db.apply h.left h.right hu h.owns hc).2
  left := h.left.apply c
  right := h.right.apply c
  owns := fun pid hpid ↦ Indistinct.owns_apply (h.owns pid hpid) hc
  now := h.now

/-- A statement that changes both worlds in the same way, whether it fails or not. -/
theorem Twin.sql {own' : Int64 → Prop} {c : Sql} {r : Except Err c.Ans} (h : Twin u own' w v)
    (h' : Twin u own' { w with db := (c.apply w.db).2 } { v with db := (c.apply v.db).2 })
    (hr : sem O faults (.sql c) w r w') :
    ∃ r' v', sem O faults (.sql c) v r' v' ∧ Twin u own' w' v' ∧
      ((r = (c.apply w.db).1 ∧ r' = (c.apply v.db).1) ∨ (Fails r ∧ r' = r)) := by
  rcases hr with ⟨rfl, rfl⟩ | ⟨hc, hfails, rfl | rfl⟩
  · exact ⟨_, _, .inl ⟨rfl, rfl⟩, h', .inl ⟨rfl, rfl⟩⟩
  · exact ⟨r, v, .inr ⟨hc, hfails, .inl rfl⟩, h, .inr ⟨hfails, rfl⟩⟩
  · exact ⟨r, _, .inr ⟨hc, hfails, .inr rfl⟩, h', .inr ⟨hfails, rfl⟩⟩

/-- **Step lemma.**  A call of the user, after others have acted. -/
theorem Twin.call (h : Twin u own w v) (hu : u ≠ 0) {e : Call} (he : Shown u own e) {r : e.Res}
    (hr : disturbed (Others u) (sem O faults) e w r w') :
    ∃ v', sem O faults e v r v' ∧ Twin u own w' v' := by
  obtain ⟨w₀, hothers, hr⟩ := hr
  have h₀ := h.absorb hothers
  cases e with
  | sql c =>
      obtain ⟨r', v', hr', htwin, ⟨rfl, rfl⟩ | ⟨-, rfl⟩⟩ := Twin.sql h₀ (h₀.apply hu he) hr
      · rw [← (h₀.db.apply h₀.left h₀.right hu h₀.owns he).1] at hr'
        exact ⟨v', hr', htwin⟩
      · exact ⟨v', hr', htwin⟩
  | now =>
      obtain ⟨hle, rfl⟩ := hr
      exact ⟨{ v with now := r }, ⟨h₀.now.trans hle, rfl⟩, { h₀ with now := le_refl r }⟩
  | newVerifier =>
      obtain rfl : w' = w₀ := hr
      exact ⟨v, rfl, h₀⟩
  | encrypt _ | decrypt _ | newToken | random | exchange _ _ _ | fetchIndex =>
      obtain ⟨rfl, hr⟩ := hr
      exact ⟨v, ⟨rfl, hr⟩, h₀⟩
  | _ => exact he.elim

/-- What `p` can return in the one world, `q` can return in the other. -/
abbrev Matches (O : Outside) (faults : Call → Prop) (u : Int64) {α : Type} (p : Code α) (w : World)
    (q : Code α) (v : World) : Prop :=
  Sim (disturbed (Others u) (sem O faults)) (sem O faults) (Same (Twin u fun _ ↦ False)) p w q v

section Shown

variable (srv : Server) (ctx : Ctx) (r : Request)

end Shown

/-! ## Reads whose answers differ -/

section Reads

variable {α : Type} {ctx : Ctx}

/-- A read, whose answer may differ in the two worlds. -/
theorem Twin.read (h : Twin u own w v) {c : Sql} (hc : c.Reads = true) {r : Except Err c.Ans}
    (hr : disturbed (Others u) (sem O faults) (.sql c) w r w') :
    Twin u own w' v ∧ ∃ r', sem O faults (.sql c) v r' v ∧
      ((r = (c.apply w'.db).1 ∧ r' = (c.apply v.db).1) ∨ (Fails r ∧ r' = r)) := by
  obtain ⟨w₀, hothers, hr⟩ := hr
  obtain rfl := sem_reads hc hr
  refine ⟨h.absorb hothers, ?_⟩
  have hread : v = { v with db := (c.apply v.db).2 } := by rw [Sql.apply_of_reads hc]
  rcases hr with ⟨rfl, -⟩ | ⟨hfault, hfails, -⟩
  · exact ⟨_, .inl ⟨rfl, hread⟩, .inl ⟨rfl, rfl⟩⟩
  · exact ⟨r, .inr ⟨hfault, hfails, .inl rfl⟩, .inr ⟨hfails, rfl⟩⟩

end Reads

/-! ## Profiles by id -/

section Profiles

variable {ctx : Ctx}

theorem Twin.congr {v' : World} (h : Twin u own w v) (hw : w'.db = w.db ∧ w'.now = w.now)
    (hv : v'.db = v.db ∧ v'.now = v.now) : Twin u own w' v' where
  db := by rw [hw.1, hv.1]; exact h.db
  left := by rw [hw.1]; exact h.left
  right := by rw [hv.1]; exact h.right
  owns := by rw [hw.1]; exact h.owns
  now := by rw [hw.2, hv.2]; exact h.now

end Profiles

/-! ## All requests -/

namespace Foreign

/-- A profile of user 1, and one of somebody else. -/
def statements (owner : Int64) (name : String) : List Sql :=
  [.createProfile "home" "Home" 1 "hash1" 0, .createProfile "work" name owner "hash2" 0]

def store (owner : Int64) (name : String) : Database :=
  (statements owner name).foldl (fun db c ↦ (c.apply db).2) .fresh

theorem intact (owner : Int64) (name : String) : Intact (store owner name) :=
  Intact.fresh.later (O := Partners.outside)
    (later_statements (statements owner name) (.boot .fresh 0))

def alice : Ctx :=
  let user : User := ⟨1, "idp", "alice", "", "Alice", .user, 0, 0⟩
  ⟨user, user, "cookie", false⟩

/-- The user asks for the profile by its id. -/
def requests : List Request := [Local.request "GET" ["profiles", "2"] none]

end Foreign

end GigMcp.Api.Privacy
