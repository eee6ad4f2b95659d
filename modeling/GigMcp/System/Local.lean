import GigMcp.System.World

/-!
# A gateway on one machine

A handler for the gateway's calls, so that its programs can be run: a vault that
marks what it seals, an identity provider whose tokens spell out the user and the
role, an OAuth provider that grants one token, a registry and a file system that
never fail, and a clock that stands still.  `answer_sem` says that its answers
are among those `sem` allows.
-/

namespace GigMcp.System

open GigMcp.Effect GigMcp.Data

/-- What the registry serves and what a sandbox lists. -/
structure Partners where
  index : Registry.Index
  tools : List String

namespace Partners

def vaultSeal (plaintext : String) : String := String.ofList ('#' :: plaintext.toList)

def vaultOpen (box : String) : Option String :=
  match box.toList with
  | '#' :: cs => some (String.ofList cs)
  | _ => none

@[simp] theorem vaultOpen_vaultSeal (p : String) : vaultOpen (vaultSeal p) = some p := by
  simp [vaultSeal, vaultOpen]

/-- The token the OAuth provider grants. -/
def granted : Auth.OAuthToken := ⟨"access", "refresh", 0, none⟩

/-- The outside such a handler stands for. -/
def outside : Outside := ⟨vaultOpen, fun _ _ tok ↦ tok = granted⟩

/-- The identity token `subject:role`. -/
def idToken (rawID : String) : Auth.IDToken :=
  let parts := splitChar ':' rawID
  let subject := parts.headD ""
  ⟨"idp", subject, "nonce", .ok ⟨subject, subject, parts.tail⟩⟩

/-- A token no other row was made with. -/
def freshToken (w : World) : Auth.Token :=
  let n := formatInt (Int64.ofNat (w.db.sessions.rows.length + w.db.profiles.seq))
  ⟨"token" ++ n, "hash" ++ n⟩

variable (P : Partners)

/-- The answer to a call, unless it waits for a channel that is open. -/
def answer : (e : Call) → World → Option (e.Res × World)
  | .sql c, w => some ((c.apply w.db).1, { w with db := (c.apply w.db).2 })
  | .now, w => some (w.now, w)
  | .encrypt p, w => some (.ok (vaultSeal p), w)
  | .decrypt box, w =>
      match vaultOpen box with
      | some p => some (.ok p, w)
      | none => some (.error (.new "vault: open failed"), w)
  | .newToken, w => some (.ok (freshToken w), w)
  | .random, w => some (.ok "random", w)
  | .newVerifier, w => some ("verifier", w)
  | .exchange .., w => some (.ok granted, w)
  | .refreshGrant .., w => some (.ok granted, w)
  | .oidcExchange code _, w => some (.ok (some code), w)
  | .oidcVerify rawID, w => some (.ok (idToken rawID), w)
  | .enter pid, w => some ((w.host.enter pid).1, { w with host := (w.host.enter pid).2 })
  | .await ch, w => if ch ∈ w.host.closedChans then some ((), w) else none
  | .commit pid built, w =>
      some ((w.host.commit pid built).1.1,
        { w with
          host := (w.host.commit pid built).2
          cleaned := (w.host.commit pid built).1.2.reverse ++ w.cleaned })
  | .closeChan ch, w => some ((), { w with host := w.host.closeChan ch })
  | .takeRuntime pid, w => some ((w.host.take pid).1, { w with host := (w.host.take pid).2 })
  | .takeAll, w => some (w.host.takeAll.1, { w with host := w.host.takeAll.2 })
  | .spawn srv tenant _, w =>
      some (.ok ⟨w.spawned.length, srv.name, tenant⟩,
        { w with spawned := ⟨w.spawned.length, srv.name, tenant⟩ :: w.spawned })
  | .cleanup b, w => some ((), { w with cleaned := b :: w.cleaned })
  | .listTools _, w => some (.ok P.tools, w)
  | .fetchIndex, w => some (.ok P.index, w)
  | .stat _, w => some (false, w)
  | .extract .., w => some (.ok (), w)
  | .extractBundle .., w => some (.ok (), w)
  | .readFile _, w => some (.ok "", w)
  | .glob _, w => some (.ok [], w)
  | .removeAll _, w => some (.ok (), w)

/-- A successful answer is one a third party may give. -/
theorem foreign_ok {α : Type} (a : α) : Foreign (Except.ok a : Except Err α) :=
  fun _ h ↦ nomatch h

/-- The handler answers as the world allows, and no call goes wrong. -/
theorem answer_sem {e : Call} {w w' : World} {r : e.Res} (h : P.answer e w = some (r, w'))
    (faults : Call → Prop) : sem outside faults e w r w' := by
  cases e with
  | await ch =>
      simp only [answer] at h
      split at h
      · rename_i hch
        cases h
        exact ⟨hch, rfl⟩
      · cases h
  | decrypt box =>
      simp only [answer] at h
      split at h
      · rename_i p hp
        cases h
        exact ⟨rfl, .inl ⟨p, rfl, hp⟩⟩
      · rename_i hp
        cases h
        exact ⟨rfl, .inr ⟨.inl hp, _, rfl, trivial⟩⟩
  | sql c =>
      cases h
      exact .inl ⟨rfl, rfl⟩
  | now =>
      cases h
      exact ⟨le_refl _, rfl⟩
  | encrypt p =>
      cases h
      exact ⟨rfl, .inl ⟨_, rfl, vaultOpen_vaultSeal p⟩⟩
  | spawn srv tenant placeholder =>
      cases h
      exact .inl ⟨rfl, rfl⟩
  | refreshGrant conf rt =>
      cases h
      refine ⟨rfl, foreign_ok _, ?_⟩
      intro tok htok
      cases htok
      rfl
  | newVerifier => cases h; rfl
  | stat path => cases h; rfl
  | closeChan ch => cases h; rfl
  | cleanup b => cases h; rfl
  | enter pid => cases h; exact ⟨rfl, rfl⟩
  | commit pid built => cases h; exact ⟨rfl, rfl⟩
  | takeRuntime pid => cases h; exact ⟨rfl, rfl⟩
  | takeAll => cases h; exact ⟨rfl, rfl⟩
  | _ => cases h; exact ⟨rfl, foreign_ok _⟩

/-- A run against the handler is an execution in which no call goes wrong. -/
theorem exec_of_run {α : Type} {p : Code α} {w w' : World} {a : α}
    (h : run P.answer p w = some (a, w')) (faults : Call → Prop) :
    Exec (sem outside faults) p w a w' :=
  exec_run (fun _ _ _ _ he ↦ P.answer_sem he faults) h

/-- The same, when only what the program returns is looked at. -/
theorem exec_of_run_fst {α : Type} {p : Code α} {w : World} {a : α}
    (h : (run P.answer p w).map Prod.fst = some a) (faults : Call → Prop) :
    ∃ w', Exec (sem outside faults) p w a w' := by
  obtain ⟨⟨a', w'⟩, hrun, rfl⟩ := Option.map_eq_some_iff.mp h
  exact ⟨w', P.exec_of_run hrun faults⟩

/-- The world a program leaves. -/
def after {α : Type} (p : Code α) (w : World) : World := ((run P.answer p w).map Prod.snd).getD w

theorem exec_after {α : Type} {p : Code α} {w : World} (h : (run P.answer p w).isSome)
    (faults : Call → Prop) : ∃ a, Exec (sem outside faults) p w a (P.after p w) := by
  obtain ⟨⟨a, w'⟩, hrun⟩ := Option.isSome_iff_exists.mp h
  rw [after, hrun]
  exact ⟨a, P.exec_of_run hrun faults⟩

/-- The partners with a store on which statements fail: `some took` is a failure, `took` saying
whether the statement has taken effect. -/
def faulty (fails : Store.Sql → Option Bool) : (e : Call) → World → Option (e.Res × World)
  | .sql c, w =>
      match fails c with
      | none => P.answer (.sql c) w
      | some took =>
          some (.error (.new "disk I/O error"), if took then { w with db := (c.apply w.db).2 } else w)
  | e, w => P.answer e w

theorem faulty_planned {fails : Store.Sql → Option Bool} {e : Call} {w w' : World} {r : e.Res}
    (h : P.faulty fails e w = some (r, w')) : planned outside fails e w r w' := by
  cases e with
  | sql c =>
      simp only [faulty] at h
      cases hc : fails c with
      | none =>
          rw [hc] at h
          cases h
          exact (planned_none hc).mpr ⟨rfl, rfl⟩
      | some took =>
          rw [hc] at h
          cases h
          exact (planned_some hc).mpr ⟨⟨_, rfl, trivial⟩, rfl⟩
  | _ =>
      have hanswer : P.answer _ w = some (r, w') := h
      exact P.answer_sem hanswer fun _ ↦ False

theorem faulty_sem {fails : Store.Sql → Option Bool} {e : Call} {w w' : World} {r : e.Res}
    (h : P.faulty fails e w = some (r, w')) : sem outside (fun _ ↦ True) e w r w' :=
  planned_sem (P.faulty_planned h)

end Partners

end GigMcp.System
