import GigMcp.Proxy.Handle

/-!
# Where the secret goes

Two tunnels that differ in the secret only, with the same sandbox and the same upstream.  What
`pump` reads and delivers is the same in both, and what it writes are the same requests with
the same fields, except for the values of one header in those that show the placeholder.

The sandbox and the upstream are given by what they do in each round.  As the responses are
the same in both tunnels, this leaves the sandbox free to choose each request by those before.
-/

namespace GigMcp.Proxy

open GigMcp.Effect GigMcp.Data GigMcp.Gateway

/-! ## A sandbox and an upstream -/

/-- What happens in a round, as far as the round gets. -/
structure Round where
  request : Except Err HttpRequest
  written : Except Err Unit
  response : Except Err HttpResponse
  delivered : Except Err Unit

/-- The rounds to come, the requests that were written upstream, and the responses that were
written to the sandbox. -/
structure Feed where
  rounds : List Round
  sent : List Wire
  received : List HttpResponse

def Feed.answer : (e : Call) → Feed → Option (e.Res × Feed)
  | .readRequest, w =>
      match w.rounds with
      | [] => some (.error (.new "EOF"), w)
      | r :: _ => some (r.request, w)
  | .writeUpstream m, w =>
      match w.rounds with
      | [] => none
      | r :: _ => some (r.written, { w with sent := w.sent ++ [m] })
  | .readResponse, w =>
      match w.rounds with
      | [] => none
      | r :: _ => some (r.response, w)
  | .writeClient resp, w =>
      match w.rounds with
      | [] => none
      | r :: rs => some (r.delivered, { w with rounds := rs, received := w.received ++ [resp] })
  | _, _ => none

/-! ## What does not depend on the tunnel -/

section Uniform

variable {rounds : List Round} {received : List HttpResponse}

/-- What a tunnel writes for some requests. -/
def written (t : Tunnel) (reqs : List HttpRequest) : List Wire := reqs.map fun r ↦ (forward t r).wire

/-- A request that the sandbox has sent. -/
def Sent (rounds : List Round) (r : HttpRequest) : Prop := ∃ round ∈ rounds, round.request = .ok r

/-- Which requests a round reads, how it ends and what is left does not depend on the tunnel. -/
theorem run_pumpOnce_uniform (rounds : List Round) (received : List HttpResponse) :
    ∃ again reqs rounds' received', (∀ r ∈ reqs, Sent rounds r) ∧ rounds' ⊆ rounds ∧
      ∀ t sent, run Feed.answer (pumpOnce t) ⟨rounds, sent, received⟩ =
        some (again, ⟨rounds', sent ++ written t reqs, received'⟩) := by
  have hnone : ∀ t sent, sent ++ written t [] = sent := fun _ _ ↦ List.append_nil _
  cases rounds with
  | nil =>
      refine ⟨false, [], [], received, List.forall_mem_nil _, List.Subset.refl _, fun t sent ↦ ?_⟩
      rw [hnone]
      rfl
  | cons round rounds =>
      obtain ⟨request, wrote, response, delivered⟩ := round
      cases request with
      | error e =>
          refine ⟨false, [], _, received, List.forall_mem_nil _, List.Subset.refl _, fun t sent ↦ ?_⟩
          rw [hnone]
          rfl
      | ok req =>
          have hsent : ∀ r ∈ [req], Sent (⟨.ok req, wrote, response, delivered⟩ :: rounds) r := by
            intro r hr
            exact ⟨_, List.mem_cons_self, List.mem_singleton.mp hr ▸ rfl⟩
          cases wrote with
          | error e => exact ⟨false, [req], _, received, hsent, List.Subset.refl _, fun _ _ ↦ rfl⟩
          | ok _ =>
              cases response with
              | error e => exact ⟨false, [req], _, received, hsent, List.Subset.refl _, fun _ _ ↦ rfl⟩
              | ok resp =>
                  have hrest := List.subset_cons_self (⟨.ok req, .ok (), .ok resp, delivered⟩ : Round) rounds
                  cases delivered with
                  | error e =>
                      exact ⟨false, [req], rounds, received ++ [resp], hsent, hrest, fun _ _ ↦ rfl⟩
                  | ok _ =>
                      exact ⟨!(req.close || resp.close), [req], rounds, received ++ [resp], hsent, hrest,
                        fun _ _ ↦ rfl⟩

/-- So it is for a whole run. -/
theorem run_pump_uniform (n : Nat) (rounds : List Round) (received : List HttpResponse) :
    ∃ reqs rounds' received', (∀ r ∈ reqs, Sent rounds r) ∧
      ∀ t sent, run Feed.answer (pump t n) ⟨rounds, sent, received⟩ =
        some ((), ⟨rounds', sent ++ written t reqs, received'⟩) := by
  induction n generalizing rounds received with
  | zero =>
      refine ⟨[], rounds, received, List.forall_mem_nil _, fun t sent ↦ ?_⟩
      rw [written, List.map_nil, List.append_nil]
      rfl
  | succ n ih =>
      obtain ⟨again, reqs₁, rounds₁, received₁, hsent₁, hsub, hround⟩ :=
        run_pumpOnce_uniform rounds received
      cases again with
      | false =>
          refine ⟨reqs₁, rounds₁, received₁, hsent₁, fun t sent ↦ ?_⟩
          rw [pump, run_bind, hround]
          rfl
      | true =>
          obtain ⟨reqs₂, rounds₂, received₂, hsent₂, hrest⟩ := ih rounds₁ received₁
          refine ⟨reqs₁ ++ reqs₂, rounds₂, received₂, fun r hr ↦ ?_, fun t sent ↦ ?_⟩
          · rcases List.mem_append.mp hr with hr | hr
            · exact hsent₁ r hr
            · obtain ⟨round, hmem, heq⟩ := hsent₂ r hr
              exact ⟨round, hsub hmem, heq⟩
          · rw [pump, run_bind, hround, Option.bind_some]
            refine (hrest t _).trans ?_
            rw [written, written, written, List.map_append, List.append_assoc]

end Uniform

/-! ## What does -/

/-- The values of a header field. -/
def Header.values (h : Header) (key : String) : List String :=
  (h.filter fun f ↦ f.1 = canonicalKey key).map Prod.snd

/-- The other fields. -/
def Header.others (h : Header) (key : String) : Header := h.filter fun f ↦ f.1 ≠ canonicalKey key

section Header

variable (h : Header) (key value : String)

@[simp] theorem Header.values_set : (h.set key value).values key = [value] := by
  have hnone : (h.filter fun f ↦ f.1 ≠ canonicalKey key).filter (fun f ↦ f.1 = canonicalKey key) = [] := by
    rw [List.filter_filter, List.filter_eq_nil_iff]
    simp
  rw [Header.values, Header.set, List.filter_append, hnone]
  simp

@[simp] theorem Header.others_set : (h.set key value).others key = h.others key := by
  rw [Header.others, Header.set, List.filter_append, List.filter_filter]
  simp [Header.others]

end Header

/-- A request shows the placeholder in the first value of the configured header. -/
def Shows (cred : ProxyCredential) (r : HttpRequest) : Prop :=
  cred.injectHeader ≠ "" ∧ cred.placeholder ≠ "" ∧
    hasInfix cred.placeholder (r.header.get cred.injectHeader) = true

/-- The value that stands for the placeholder: the format with every token in it replaced, or
the secret if there is no format. -/
def value (cred : ProxyCredential) (secret : String) : String :=
  if cred.injectFormat = "" then secret
  else replaceAll "\x7btoken\x7d" secret cred.injectFormat

/-- What is the same in two messages, and how they differ, if they are written for one request
under two secrets. -/
structure Confined (cred : ProxyCredential) (r : HttpRequest) (s₁ s₂ : String) (m₁ m₂ : Wire) :
    Prop where
  method : m₁.method = m₂.method
  target : m₁.target = m₂.target
  host : m₁.host = m₂.host
  body : m₁.body = m₂.body
  others : m₁.header.others cred.injectHeader = m₂.header.others cred.injectHeader
  shown : Shows cred r → m₁.header.values cred.injectHeader = [value cred s₁] ∧
    m₂.header.values cred.injectHeader = [value cred s₂]
  hidden : ¬ Shows cred r → m₁ = m₂

/-- A tunnel with a given secret. -/
def tunnelWith (hostport : String) (id : Identity) (cred : ProxyCredential) (secret : String) : Tunnel :=
  ⟨hostport, id, { cred with realSecret := secret }⟩

section Forward

variable {hostport : String} {id : Identity} {cred : ProxyCredential} {r : HttpRequest} {s s₁ s₂ : String}

theorem wire_of_shows (h : Shows cred r) :
    (forward (tunnelWith hostport id cred s) r).wire =
      ⟨r.method, r.target, if r.host = "" then hostport else r.host,
        r.header.set cred.injectHeader (value cred s), r.body⟩ := by
  have hvalue : injected { cred with realSecret := s } = value cred s := by
    by_cases hf : cred.injectFormat = ""
    · simp [injected, value, hf]
    · simp [injected, value, hf]
  have hinject : inject { cred with realSecret := s } r =
      { r with header := r.header.set cred.injectHeader (value cred s) } := by
    rw [← hvalue]
    exact if_pos h
  rw [forward, tunnelWith, hinject]
  rfl

theorem wire_of_not_shows (h : ¬ Shows cred r) :
    (forward (tunnelWith hostport id cred s) r).wire =
      ⟨r.method, r.target, if r.host = "" then hostport else r.host, r.header, r.body⟩ := by
  have hinject : inject { cred with realSecret := s } r = r := if_neg h
  rw [forward, tunnelWith, hinject]
  rfl

theorem confined_forward : Confined cred r s₁ s₂ (forward (tunnelWith hostport id cred s₁) r).wire
    (forward (tunnelWith hostport id cred s₂) r).wire := by
  by_cases h : Shows cred r
  · rw [wire_of_shows h, wire_of_shows h]
    refine ⟨rfl, rfl, rfl, rfl, ?_, fun _ ↦ ⟨?_, ?_⟩, fun hno ↦ absurd h hno⟩
    · rw [Header.others_set, Header.others_set]
    · exact Header.values_set _ _ _
    · exact Header.values_set _ _ _
  · rw [wire_of_not_shows h, wire_of_not_shows h]
    exact ⟨rfl, rfl, rfl, rfl, rfl, fun hyes ↦ absurd hyes h, fun _ ↦ rfl⟩

end Forward

/-- **The secret influences one header only.**  Whatever the sandbox sends and the upstream
answers, a tunnel reads and delivers the same with every secret; what it writes are the same
requests, of which those with two secrets agree but for the values of the configured header,
and in these only where the placeholder was shown.  Without a header or a placeholder nothing
that is written depends on the secret. -/
theorem secret_in_one_header (hostport : String) (id : Identity) (cred : ProxyCredential) (n : Nat)
    (feed : Feed) :
    ∃ reqs rounds received, (∀ r ∈ reqs, Sent feed.rounds r) ∧
      (∀ s, run Feed.answer (pump (tunnelWith hostport id cred s) n) feed =
        some ((), ⟨rounds, feed.sent ++ written (tunnelWith hostport id cred s) reqs, received⟩)) ∧
      (∀ s₁ s₂, ∀ r ∈ reqs, Confined cred r s₁ s₂ (forward (tunnelWith hostport id cred s₁) r).wire
        (forward (tunnelWith hostport id cred s₂) r).wire) ∧
      (cred.injectHeader = "" ∨ cred.placeholder = "" →
        ∀ s₁ s₂, written (tunnelWith hostport id cred s₁) reqs =
          written (tunnelWith hostport id cred s₂) reqs) := by
  obtain ⟨reqs, rounds, received, hsent, hrun⟩ := run_pump_uniform n feed.rounds feed.received
  refine ⟨reqs, rounds, received, hsent, fun s ↦ hrun _ feed.sent,
    fun s₁ s₂ r _ ↦ confined_forward, fun hempty s₁ s₂ ↦ ?_⟩
  refine List.map_congr_left fun r _ ↦ confined_forward.hidden ?_
  rintro ⟨hheader, hplaceholder, -⟩
  exact hempty.elim hheader hplaceholder

end GigMcp.Proxy
