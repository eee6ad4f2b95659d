import GigMcp.Proxy.Handle

/-!
# Requests and responses of a tunnel

`pump` reads one response for each request it forwards.  An upstream may send interim
responses before the final one, and each of them is a response that is read: after the first,
every response that is delivered belongs to an earlier place in the upstream's stream than the
request it is delivered for, and at the end as many are left over as there were interim ones.
-/

namespace GigMcp.Proxy

open GigMcp.Effect GigMcp.Gateway

/-! ## An upstream with interim responses -/

/-- A request and how the upstream answers it.  Nobody asks to close the connection. -/
structure Exchange where
  request : HttpRequest
  interim : List HttpResponse
  final : HttpResponse
  request_open : request.close = false
  interim_status : ∀ r ∈ interim, 100 ≤ r.status ∧ r.status < 200
  interim_open : ∀ r ∈ interim, r.close = false
  final_status : 200 ≤ final.status
  final_open : final.close = false

/-- All responses to a request. -/
def Exchange.responses (x : Exchange) : List HttpResponse := x.interim ++ [x.final]

/-- Something `pump` does with the `k`-th request, after some responses have been delivered. -/
inductive Event
  | read (k : Nat) (delivered : List HttpResponse)
  | forward (k : Nat) (delivered : List HttpResponse)
deriving DecidableEq

/-- The two connections: the requests to come with their answers, the number of those that
have been forwarded, the responses that the upstream has sent and that are yet to be read, and
what has been delivered. -/
structure Line where
  pending : List Exchange
  forwarded : Nat
  stream : List HttpResponse
  delivered : List HttpResponse
  log : List Event

/-- Nothing fails.  The upstream answers a request when it is forwarded, and the client is done
after its last request. -/
def Line.answer : (e : Call) → Line → Option (e.Res × Line)
  | .readRequest, w =>
      match w.pending with
      | [] => some (.error (.new "EOF"), w)
      | x :: _ =>
          some (.ok x.request, { w with log := w.log ++ [.read w.forwarded w.delivered] })
  | .writeUpstream _, w =>
      match w.pending with
      | [] => none
      | x :: xs => some (.ok (),
          { w with
            pending := xs
            forwarded := w.forwarded + 1
            stream := w.stream ++ x.responses
            log := w.log ++ [.forward w.forwarded w.delivered] })
  | .readResponse, w =>
      match w.stream with
      | [] => none
      | r :: rs => some (.ok r, { w with stream := rs })
  | .writeClient r, w => some (.ok (), { w with delivered := w.delivered ++ [r] })
  | _, _ => none

/-- A tunnel in which some requests are going to be sent. -/
def Line.start (xs : List Exchange) : Line := ⟨xs, 0, [], [], []⟩

/-- Everything the upstream has sent is delivered, and no request is read or forwarded before
the responses to those before it have been delivered. -/
structure Paired (xs : List Exchange) (w : Line) : Prop where
  delivered : w.delivered = xs.flatMap Exchange.responses
  read : ∀ k d, .read k d ∈ w.log → (xs.take k).flatMap Exchange.responses <+: d
  forward : ∀ k d, .forward k d ∈ w.log → (xs.take k).flatMap Exchange.responses <+: d

/-! ## Rounds -/

section Rounds

variable {t : Tunnel} {x : Exchange} {xs : List Exchange} {k : Nat} {st rs d : List HttpResponse}
  {r : HttpResponse} {l : List Event}

/-- A round reads the request, forwards it, and delivers the next response of the stream. -/
theorem run_pumpOnce (hr : r.close = false) (hst : st ++ x.responses = r :: rs) :
    run Line.answer (pumpOnce t) ⟨x :: xs, k, st, d, l⟩ =
      some (true, ⟨xs, k + 1, rs, d ++ [r], l ++ [.read k d] ++ [.forward k d]⟩) := by
  rw [pumpOnce, run_bind, run_call]
  simp only [Line.answer, Option.bind_some]
  rw [run_bind, run_call]
  simp only [Line.answer, Option.bind_some]
  rw [run_bind, run_call]
  simp only [Line.answer, hst, Option.bind_some]
  rw [run_bind, run_call]
  simp only [Line.answer, Option.bind_some, x.request_open, hr, Bool.or_false, Bool.not_false]
  rfl

/-- There is always a response to read, and it does not close the connection. -/
theorem exists_next (hst : ∀ r ∈ st, r.close = false) :
    ∃ r rs, st ++ x.responses = r :: rs ∧ r.close = false ∧ ∀ r' ∈ rs, r'.close = false := by
  have hall : ∀ r ∈ st ++ x.responses, r.close = false := by
    intro r hr
    rcases List.mem_append.mp hr with hr | hr
    · exact hst r hr
    · rcases List.mem_append.mp hr with hr | hr
      · exact x.interim_open r hr
      · rw [List.mem_singleton.mp hr]
        exact x.final_open
  cases h : st ++ x.responses with
  | nil => exact absurd h (by simp [Exchange.responses])
  | cons r rs =>
      rw [h] at hall
      obtain ⟨hr, hrs⟩ := List.forall_mem_cons.mp hall
      exact ⟨r, rs, rfl, hr, hrs⟩

/-- What is read or forwarded with exactly the responses to earlier requests delivered, where
those before `xs` have been answered with `d`. -/
def OnTime (xs : List Exchange) (k : Nat) (d : List HttpResponse) (e : Event) : Prop :=
  ∃ i, e = .read (k + i) (d ++ (xs.take i).flatMap Exchange.responses) ∨
    e = .forward (k + i) (d ++ (xs.take i).flatMap Exchange.responses)

theorem OnTime.cons {e : Event} (h : OnTime xs (k + 1) (d ++ x.responses) e) :
    OnTime (x :: xs) k d e := by
  obtain ⟨i, h⟩ := h
  refine ⟨i + 1, ?_⟩
  rw [List.take_succ_cons, List.flatMap_cons, ← List.append_assoc, Nat.add_comm i, ← Nat.add_assoc]
  exact h

/-- The pump goes round once per request, delivers one response in each round, and ends when
the client is done.  Without interim responses each round ends with nothing left over. -/
theorem run_pump (hst : ∀ r ∈ st, r.close = false) :
    ∃ w, (∀ n, xs.length < n → run Line.answer (pump t n) ⟨xs, k, st, d, l⟩ = some ((), w)) ∧
      w.delivered.length = d.length + xs.length ∧
      (st = [] → (∀ x ∈ xs, x.interim = []) →
        w.delivered = d ++ xs.flatMap Exchange.responses ∧ ∀ e ∈ w.log, e ∈ l ∨ OnTime xs k d e) := by
  induction xs generalizing k st d l with
  | nil =>
      refine ⟨⟨[], k, st, d, l⟩, fun n hn ↦ ?_, rfl, fun _ _ ↦ ⟨?_, fun e he ↦ .inl he⟩⟩
      · obtain ⟨n, rfl⟩ := Nat.exists_eq_add_of_lt hn
        rfl
      · rw [List.flatMap_nil, List.append_nil]
  | cons x xs ih =>
      obtain ⟨r, rs, hnext, hr, hrs⟩ := exists_next (x := x) hst
      obtain ⟨w, hrun, hlen, hplain⟩ := ih hrs
      refine ⟨w, fun n hn ↦ ?_, ?_, fun hnil hnone ↦ ?_⟩
      · obtain ⟨n, rfl⟩ : ∃ m, n = m + 1 := ⟨n - 1, by omega⟩
        rw [pump, run_bind, run_pumpOnce hr hnext, Option.bind_some]
        exact hrun n (by simpa using hn)
      · rw [hlen, List.length_append, List.length_singleton, List.length_cons]
        omega
      · obtain ⟨hnone, hrest⟩ := List.forall_mem_cons.mp hnone
        -- the only response to the request is the one that was delivered
        have hresponses : x.responses = r :: rs := by rw [← hnext, hnil, List.nil_append]
        have hone : x.responses = [x.final] := by rw [Exchange.responses, hnone, List.nil_append]
        obtain ⟨hr, hrs⟩ := List.cons.inj (hresponses.symm.trans hone)
        obtain ⟨hdelivered, hlog⟩ := hplain hrs hrest
        rw [hr, ← hone] at hdelivered hlog
        refine ⟨?_, fun e he ↦ ?_⟩
        · rw [hdelivered, List.flatMap_cons, List.append_assoc]
        · rcases hlog e he with he | he
          · have hnow : d ++ ((x :: xs).take 0).flatMap Exchange.responses = d := by simp
            rcases List.mem_append.mp he with he | he
            · rcases List.mem_append.mp he with he | he
              · exact .inl he
              · exact .inr ⟨0, .inl (by rw [hnow]; exact List.mem_singleton.mp he)⟩
            · exact .inr ⟨0, .inr (by rw [hnow]; exact List.mem_singleton.mp he)⟩
          · exact .inr he.cons

/-- As many responses as requests leave no room for an interim one. -/
theorem length_flatMap_responses (xs : List Exchange) :
    (xs.flatMap Exchange.responses).length = xs.length ↔ ∀ x ∈ xs, x.interim = [] := by
  have hle : ∀ xs : List Exchange, xs.length ≤ (xs.flatMap Exchange.responses).length := by
    intro xs
    induction xs with
    | nil => exact Nat.le_refl 0
    | cons x xs ih =>
        simp only [List.flatMap_cons, List.length_append, List.length_cons, Exchange.responses,
          List.length_nil]
        omega
  induction xs with
  | nil => simp
  | cons x xs ih =>
      have hrest := hle xs
      rw [List.forall_mem_cons]
      refine Iff.trans ?_ (and_congr List.length_eq_zero_iff ih)
      simp only [List.flatMap_cons, List.length_append, List.length_cons, Exchange.responses,
        List.length_nil]
      omega

end Rounds

/-- For every sequence of requests the pump comes to an end, and it has kept requests and
responses together if and only if no request was answered with an interim response. -/
theorem pump_paired_iff (t : Tunnel) (xs : List Exchange) :
    ∃ w, (∀ n, xs.length < n → run Line.answer (pump t n) (.start xs) = some ((), w)) ∧
      (Paired xs w ↔ ∀ x ∈ xs, x.interim = []) := by
  obtain ⟨w, hrun, hlen, hplain⟩ : ∃ w, (∀ n, xs.length < n →
      run Line.answer (pump t n) (.start xs) = some ((), w)) ∧ _ :=
    run_pump (List.forall_mem_nil _)
  refine ⟨w, hrun, fun h ↦ ?_, fun h ↦ ?_⟩
  · rw [← length_flatMap_responses, ← h.delivered, hlen]
    exact Nat.zero_add _
  · obtain ⟨hdelivered, hlog⟩ := hplain rfl h
    have hontime : ∀ e ∈ w.log, OnTime xs 0 [] e := fun e he ↦
      (hlog e he).resolve_left List.not_mem_nil
    refine ⟨hdelivered, fun k d he ↦ ?_, fun k d he ↦ ?_⟩
    · obtain ⟨i, heq | heq⟩ := hontime _ he
      · cases heq
        rw [Nat.zero_add]
        exact List.prefix_refl _
      · exact nomatch heq
    · obtain ⟨i, heq | heq⟩ := hontime _ he
      · exact nomatch heq
      · cases heq
        rw [Nat.zero_add]
        exact List.prefix_refl _

/-! ## An early hint -/

def get (target : String) : HttpRequest :=
  ⟨"GET", "", "", target, target, "api.github.com", [], "", false⟩

/-- A request that is answered at once. -/
def plain (target body : String) : Exchange where
  request := get target
  interim := []
  final := ⟨200, body, false⟩
  request_open := rfl
  interim_status := List.forall_mem_nil _
  interim_open := List.forall_mem_nil _
  final_status := Nat.le_refl 200
  final_open := rfl

/-- A request that is answered with an early hint first. -/
def hinted (target body : String) : Exchange where
  request := get target
  interim := [⟨103, "", false⟩]
  final := ⟨200, body, false⟩
  request_open := rfl
  interim_status := by simp
  interim_open := by simp
  final_status := Nat.le_refl 200
  final_open := rfl

def github : Tunnel where
  hostport := "api.github.com:443"
  id := ⟨"github", "7"⟩
  cred := ⟨"s3cret", "Authorization", "", "PLACEHOLDER", ["api.github.com"]⟩

/-- The hint is delivered for the first request, then the second request is read, and gets the
answer to the first.  Its own answer is not delivered. -/
theorem pump_hinted_unpaired :
    ∃ w, run Line.answer (pump github 3) (.start [hinted "/me" "me", plain "/you" "you"]) =
        some ((), w) ∧
      w.delivered = [⟨103, "", false⟩, ⟨200, "me", false⟩] ∧
      w.stream = [⟨200, "you", false⟩] ∧
      .read 1 [⟨103, "", false⟩] ∈ w.log ∧
      ¬ Paired [hinted "/me" "me", plain "/you" "you"] w := by
  refine ⟨_, rfl, rfl, rfl, by decide, fun h ↦ ?_⟩
  exact absurd h.delivered (by decide)

end GigMcp.Proxy
