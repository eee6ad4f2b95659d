import GigMcp.Auth.Session
import GigMcp.Data.Base64
import GigMcp.System.World

/-!
# Flow cookies

`signFlow` and `verifyFlow` of the OAuth broker (`auth/oauthbroker.go`) and of the OIDC
authenticator (`auth/oidc.go`), down to the bytes of the cookie: the JSON of a flow state and its
HMAC, both in base64, with a dot between them.  The two pairs differ in the state and in the texts
of their errors only, so that each is one definition applied to its `FlowKind`.

HMAC-SHA256 under the process's key and `encoding/json` are the fields of a `Signer`.  The codec
that `GigMcp.Auth.Broker` and `GigMcp.Auth.Session` are written over is the one made from a signer
(`FlowKind.codec`).
-/

namespace GigMcp.Auth

open GigMcp.Data GigMcp.Effect GigMcp.System GigMcp.Store

/-- What signing rests on. -/
structure Signer (α : Type) where
  mac : Bytes → Bytes
  marshal : α → Except Err Bytes
  unmarshal : Bytes → Except Err α

/-- What the two kinds of flow differ in. -/
structure FlowKind (α : Type) where
  malformed : String
  badSignature : String
  expired : String
  expires : α → Int

/-- The flows of `OAuthBroker`. -/
def oauthFlow : FlowKind OAuthFlowState where
  malformed := "malformed oauth flow cookie"
  badSignature := "bad oauth flow cookie signature"
  expired := "oauth flow expired"
  expires := OAuthFlowState.expires

/-- The flows of `Authenticator`. -/
def oidcFlow : FlowKind FlowState where
  malformed := "malformed flow cookie"
  badSignature := "bad flow cookie signature"
  expired := "login flow expired"
  expires := FlowState.expires

/-- The two parts that `strings.SplitN` makes at the first dot, if there is one. -/
def splitDot (v : Bytes) : Option (Bytes × Bytes) :=
  match v.dropWhile (· ≠ 46) with
  | [] => none
  | _ :: rest => some (v.takeWhile (· ≠ 46), rest)

/-- `base64.RawURLEncoding.DecodeString`. -/
def decodeString (s : Bytes) : Except Err Bytes :=
  (Base64.decode s).mapError fun n ↦ .new ("illegal base64 data at input byte " ++ toString n)

section Flow

variable {α : Type} (kind : FlowKind α) (k : Signer α)

def signFlow (fs : α) : Except Err Bytes :=
  match k.marshal fs with
  | .error e => .error e
  | .ok payload => .ok (Base64.encode payload ++ 46 :: Base64.encode (k.mac payload))

/-- The payload and the tag of a cookie. -/
def cookieParts (v : Bytes) : Except Err (Bytes × Bytes) :=
  match splitDot v with
  | none => .error (.new kind.malformed)
  | some (first, second) =>
      match decodeString first with
      | .error e => .error e
      | .ok payload =>
          match decodeString second with
          | .error e => .error e
          | .ok sig => .ok (payload, sig)

/-- `verifyFlow` up to the look at the clock. -/
def checkFlow (v : Bytes) : Except Err α :=
  match cookieParts kind v with
  | .error e => .error e
  | .ok (payload, sig) =>
      if sig = k.mac payload then k.unmarshal payload
      else .error (.new kind.badSignature)

/-- `verifyFlow`, with the time in seconds. -/
def verifyFlow (now : Int) (v : Bytes) : Except Err α :=
  match checkFlow kind k v with
  | .error e => .error e
  | .ok fs => if now > kind.expires fs then .error (.new kind.expired) else .ok fs

variable {kind k} {v : Bytes} {fs : α}

/-- What it takes for a cookie to check out. -/
theorem checkFlow_eq_ok :
    checkFlow kind k v = .ok fs ↔
      ∃ payload, cookieParts kind v = .ok (payload, k.mac payload) ∧
        k.unmarshal payload = .ok fs := by
  unfold checkFlow
  split
  · rename_i e hparts
    simp [hparts]
  · rename_i payload sig hparts
    rw [hparts]
    constructor
    · intro h
      split at h
      · rename_i hsig
        exact ⟨payload, by rw [hsig], h⟩
      · cases h
    · rintro ⟨payload', heq, hjson⟩
      cases heq
      rw [if_pos rfl]
      exact hjson

theorem verifyFlow_eq_ok {now : Int} :
    verifyFlow kind k now v = .ok fs ↔ checkFlow kind k v = .ok fs ∧ now ≤ kind.expires fs := by
  unfold verifyFlow
  split
  · rename_i e hcheck
    simp [hcheck]
  · rename_i fs' hcheck
    rw [hcheck]
    constructor
    · intro h
      split at h
      · cases h
      · rename_i hnow
        cases h
        exact ⟨rfl, Int.not_lt.mp hnow⟩
    · rintro ⟨heq, hnow⟩
      cases heq
      exact if_neg (Int.not_lt.mpr hnow)

/-! ## Round trips -/

/-- `encoding/json` reads back what it wrote for this state. -/
def Signer.RoundTrips (k : Signer α) (fs : α) : Prop :=
  ∃ payload, k.marshal fs = .ok payload ∧ k.unmarshal payload = .ok fs

theorem splitDot_append {p s : Bytes} (hp : 46 ∉ p) : splitDot (p ++ 46 :: s) = some (p, s) := by
  have hne : ∀ c ∈ p, decide (c ≠ 46) = true := by
    intro c hc
    exact decide_eq_true (ne_of_mem_of_not_mem hc hp)
  simp only [splitDot, List.dropWhile_append_of_pos hne, List.takeWhile_append_of_pos hne]
  simp

theorem dot_notMem_encode (xs : Bytes) : 46 ∉ Base64.encode xs := by
  have hall : ∀ n : Fin 64, Base64.digit n ≠ 46 := by decide
  intro h
  obtain ⟨n, hn⟩ := Base64.exists_digit_of_mem h
  exact hall n hn

theorem decodeString_encode (xs : Bytes) : decodeString (Base64.encode xs) = .ok xs := by
  rw [decodeString, Base64.decode_encode]
  rfl

/-- A cookie is taken apart into what it was made of. -/
theorem cookieParts_encode (payload sig : Bytes) :
    cookieParts kind (Base64.encode payload ++ 46 :: Base64.encode sig) = .ok (payload, sig) := by
  simp only [cookieParts, splitDot_append (dot_notMem_encode payload), decodeString_encode]

variable (kind) in
theorem checkFlow_signFlow (hjson : k.RoundTrips fs) :
    ∃ v, signFlow k fs = .ok v ∧ checkFlow kind k v = .ok fs := by
  obtain ⟨payload, hmarshal, hunmarshal⟩ := hjson
  refine ⟨_, by rw [signFlow, hmarshal], ?_⟩
  exact checkFlow_eq_ok.mpr ⟨payload, cookieParts_encode payload _, hunmarshal⟩

/-! ## The cookies of a process -/

/-- What a process does with its key: it signs a state, or it verifies a cookie that a request
came with at some time. -/
inductive Use (α : Type)
  | sign (fs : α)
  | verify (now : Int) (v : Bytes)

/-- Tags verify only for payloads that were signed with the key before. -/
def Unforged (kind : FlowKind α) (k : Signer α) (run : List (Use α)) : Prop :=
  ∀ (i : ℕ) now v payload, run[i]? = some (Use.verify now v) →
    cookieParts kind v = .ok (payload, k.mac payload) →
    ∃ j < i, ∃ fs, run[j]? = some (Use.sign fs) ∧ k.marshal fs = .ok payload

/-- What the cookies of a process are good for. -/
structure Sound (kind : FlowKind α) (k : Signer α) (run : List (Use α)) : Prop where
  /-- A signed state is verified until it expires, and comes back as it was. -/
  roundTrip : ∀ fs, k.RoundTrips fs → ∃ v, signFlow k fs = .ok v ∧
    ∀ now, verifyFlow kind k now v = .ok fs ↔ now ≤ kind.expires fs
  /-- What is verified was signed before. -/
  genuine : ∀ (i : ℕ) now v fs, run[i]? = some (Use.verify now v) → verifyFlow kind k now v = .ok fs →
    ∃ j < i, run[j]? = some (Use.sign fs)

theorem sound_of_unforged {run : List (Use α)} (hjson : ∀ fs, Use.sign fs ∈ run → k.RoundTrips fs)
    (hmac : Unforged kind k run) : Sound kind k run := by
  constructor
  · intro fs hfs
    obtain ⟨v, hsign, hcheck⟩ := checkFlow_signFlow kind hfs
    refine ⟨v, hsign, fun now ↦ ?_⟩
    rw [verifyFlow_eq_ok, and_iff_right hcheck]
  · intro i now v fs hi hverify
    obtain ⟨hcheck, -⟩ := verifyFlow_eq_ok.mp hverify
    obtain ⟨payload, hparts, hread⟩ := checkFlow_eq_ok.mp hcheck
    obtain ⟨j, hji, fs', hj, hwritten⟩ := hmac i now v payload hi hparts
    -- The payload is the JSON of the state that was signed, and reads back as that state only.
    obtain ⟨payload', hmarshal, hunmarshal⟩ := hjson fs' (List.mem_of_getElem? hj)
    obtain rfl := Except.ok.inj (hwritten.symm.trans hmarshal)
    obtain rfl := Except.ok.inj (hread.symm.trans hunmarshal)
    exact ⟨j, hji, hj⟩

/-! ## The codec of the handlers -/

/-- Signing and checking with a signer. -/
def FlowKind.codec (kind : FlowKind α) (k : Signer α) : FlowCodec α where
  sign fs := (signFlow k fs).map textOf
  check s := checkFlow kind k (bytesOf s)

theorem ascii_encode {xs : Bytes} {c : UInt8} (hc : c ∈ Base64.encode xs) : c < 128 := by
  have hall : ∀ n : Fin 64, Base64.digit n < 128 := by decide
  obtain ⟨n, rfl⟩ := Base64.exists_digit_of_mem hc
  exact hall n

/-- A signed cookie is its bytes. -/
theorem signFlow_of_codec {s : String} (h : (kind.codec k).sign fs = .ok s) :
    signFlow k fs = .ok (bytesOf s) := by
  cases hsign : signFlow k fs with
  | error e =>
      simp only [FlowKind.codec, hsign, Except.map] at h
      cases h
  | ok v =>
      simp only [FlowKind.codec, hsign, Except.map] at h
      cases h
      rw [bytesOf_textOf]
      intro c hc
      unfold signFlow at hsign
      split at hsign
      · cases hsign
      · cases hsign
        rcases List.mem_append.mp hc with hc | hc
        · exact ascii_encode hc
        · rcases List.mem_cons.mp hc with rfl | hc
          · decide
          · exact ascii_encode hc

/-- A verifier that asks for the time after the rest of its checks. -/
def timed (kind : FlowKind α) (k : Signer α) (s : String) : Code (Except Err α) := do
  match (kind.codec k).check s with
  | .error e => return .error e
  | .ok fs =>
      let t ← now
      if t.unix > kind.expires fs then return .error (.new kind.expired)
      else return .ok fs

theorem exec_timed {O : Outside} {faults : Call → Prop} {s : String} {w w' : World}
    {r : Except Err α} (hx : Exec (sem O faults) (timed kind k s) w r w') :
    r = verifyFlow kind k w'.now.unix (bytesOf s) := by
  unfold timed at hx
  unfold verifyFlow
  cases hcheck : checkFlow kind k (bytesOf s) with
  | error e =>
      simp only [FlowKind.codec, hcheck] at hx
      exact hx.1
  | ok fs =>
      simp only [FlowKind.codec, hcheck] at hx
      obtain ⟨t, w₁, ⟨-, rfl⟩, hx⟩ := exec_call.mp hx
      split at hx
      · rename_i hlate
        obtain ⟨rfl, rfl⟩ := hx
        exact (if_pos hlate).symm
      · rename_i hlate
        obtain ⟨rfl, rfl⟩ := hx
        exact (if_neg hlate).symm

end Flow

section Handlers

variable {O : Outside} {faults : Call → Prop} {s : String} {w w' : World}

/-- What the broker's handlers verify a cookie with, over a signer. -/
theorem exec_oauth_verifyFlow {b : OAuthBroker} {k : Signer OAuthFlowState}
    {r : Except Err OAuthFlowState} (hb : b.flow = oauthFlow.codec k)
    (hx : Exec (sem O faults) (b.verifyFlow s) w r w') :
    r = verifyFlow oauthFlow k w'.now.unix (bytesOf s) := by
  have htimed : b.verifyFlow s = timed oauthFlow k s := by
    rw [OAuthBroker.verifyFlow, timed, hb]
    cases (oauthFlow.codec k).check s <;> rfl
  exact exec_timed (htimed ▸ hx)

/-- What the authenticator's handlers verify a cookie with. -/
theorem exec_oidc_verifyFlow {a : Authenticator} {k : Signer FlowState}
    {r : Except Err FlowState} (ha : a.flow = oidcFlow.codec k)
    (hx : Exec (sem O faults) (a.verifyFlow s) w r w') :
    r = verifyFlow oidcFlow k w'.now.unix (bytesOf s) := by
  have htimed : a.verifyFlow s = timed oidcFlow k s := by
    rw [Authenticator.verifyFlow, timed, ha]
    cases (oidcFlow.codec k).check s <;> rfl
  exact exec_timed (htimed ▸ hx)

end Handlers

/-- **Flow cookies round-trip and cannot be forged**, those of the broker and those of the
authenticator. -/
theorem flow_cookies_sound {b : Signer OAuthFlowState} {a : Signer FlowState}
    {connects : List (Use OAuthFlowState)} {logins : List (Use FlowState)}
    (hbjson : ∀ fs, Use.sign fs ∈ connects → b.RoundTrips fs)
    (hajson : ∀ fs, Use.sign fs ∈ logins → a.RoundTrips fs)
    (hbmac : Unforged oauthFlow b connects) (hamac : Unforged oidcFlow a logins) :
    Sound oauthFlow b connects ∧ Sound oidcFlow a logins :=
  ⟨sound_of_unforged hbjson hbmac, sound_of_unforged hajson hamac⟩

namespace Example.Flow

/-- A checksum in place of the HMAC, and the JSON of one state. -/
def signer {α : Type} (fs : α) (json : Bytes) : Signer α where
  mac p := [UInt8.ofNat (p.foldl (fun n c ↦ n * 31 + c.toNat) 7)]
  marshal _ := .ok json
  unmarshal p := if p = json then .ok fs else .error (.new "invalid character")

/-- The state is signed, and the cookie comes back ten seconds later. -/
def replay {α : Type} (fs : α) (json : Bytes) : List (Use α) :=
  [.sign fs, .verify 10 (Base64.encode json ++ 46 :: Base64.encode ((signer fs json).mac json))]

theorem roundTrips_signer {α : Type} (fs : α) (json : Bytes) : (signer fs json).RoundTrips fs :=
  ⟨json, rfl, if_pos rfl⟩

theorem unforged_replay {α : Type} (kind : FlowKind α) (fs : α) (json : Bytes) :
    Unforged kind (signer fs json) (replay fs json) := by
  intro i now v payload hi hparts
  rcases i with _ | _ | i
  · cases hi
  · cases hi
    rw [cookieParts_encode] at hparts
    cases hparts
    exact ⟨0, Nat.zero_lt_one, fs, rfl, rfl⟩
  · cases hi

def connect : OAuthFlowState := ⟨"s", "v", "github", 1, "/connected-accounts", ["repo"], 600⟩

def connectJson : Bytes := bytesOf <|
  "\x7b\"state\":\"s\",\"verifier\":\"v\",\"vendor\":\"github\",\"uid\":1," ++
  "\"return_to\":\"/connected-accounts\",\"scopes\":[\"repo\"],\"expires\":600\x7d"

def login : FlowState := ⟨"s", "n", "v", 600⟩

def loginJson : Bytes := bytesOf
  "\x7b\"state\":\"s\",\"nonce\":\"n\",\"verifier\":\"v\",\"expires\":600\x7d"

end Example.Flow

open Example.Flow in
/-- A connect flow and a login, each of which is started and comes back. -/
theorem flow_cookies_sound_replay :
    Sound oauthFlow (signer connect connectJson) (replay connect connectJson) ∧
      Sound oidcFlow (signer login loginJson) (replay login loginJson) := by
  refine flow_cookies_sound ?_ ?_ (unforged_replay _ _ _) (unforged_replay _ _ _)
  · intro fs hfs
    obtain rfl : fs = connect := by simpa [replay] using hfs
    exact roundTrips_signer _ _
  · intro fs hfs
    obtain rfl : fs = login := by simpa [replay] using hfs
    exact roundTrips_signer _ _

end GigMcp.Auth
