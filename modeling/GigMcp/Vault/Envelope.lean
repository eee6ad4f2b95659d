import GigMcp.Data.Bytes
import GigMcp.Store.Schema

/-!
# The vault's envelope

`encrypt` seals a secret under a fresh key (DEK) and that key under the vault's own (KEK), and
puts the two ciphertexts in one box, the first behind its length.  `decrypt` computes where to
cut a box with the integers of the platform, so it has their width as a parameter, and a slice
expression out of bounds is a panic.

The length and the cuts are not authenticated by themselves.  `decode` is `decrypt` with
offsets that do not wrap around; what it accepts is described in terms of the two ciphertexts
alone, and `layout_injective` is why a box cannot be cut in another way.
-/

namespace GigMcp

open GigMcp.Data GigMcp.Store

namespace Vault

/-- The length of a key. -/
def keySize : Nat := 32

/-- The length of a nonce. -/
def nonceSizeX : Nat := 24

/-- The version byte. -/
def version : UInt8 := 1

/-- An authenticated encryption: under a key and a nonce, exactly the sealed plaintexts can be
opened. -/
structure Aead where
  sealed : Bytes → Bytes → Bytes → Bytes
  opened : Bytes → Bytes → Bytes → Option Bytes
  opened_eq_some : ∀ {key nonce ct m}, key.length = keySize → nonce.length = nonceSizeX →
    (opened key nonce ct = some m ↔ ct = sealed key nonce m)
  /-- A ciphertext has a tag of 16 bytes. -/
  length_sealed : ∀ {key nonce m}, key.length = keySize → nonce.length = nonceSizeX →
    (sealed key nonce m).length = m.length + 16

end Vault

structure Vault where
  kek : Bytes
  length_kek : kek.length = Vault.keySize

namespace Vault

def new (kek : Bytes) : Except Err Vault :=
  if h : kek.length = keySize then .ok ⟨kek, h⟩
  else .error (.new ("KEK must be " ++ toString keySize ++ " bytes, got " ++ toString kek.length))

/-- `n` bytes of the random source. -/
abbrev Draw (n : Nat) := Except Err {b : Bytes // b.length = n}

def badKeyLength : Err := .new "chacha20poly1305: bad key length"

def sealWith (A : Aead) (draw : Draw nonceSizeX) (key plaintext : Bytes) :
    Except Err (Bytes × Bytes) :=
  if key.length ≠ keySize then .error badKeyLength
  else do
    let nonce ← draw
    return (nonce.1, A.sealed key nonce.1 plaintext)

def openWith (A : Aead) (key nonce ciphertext : Bytes) : Except Err Bytes :=
  if key.length ≠ keySize then .error badKeyLength
  else
    match A.opened key nonce ciphertext with
    | some m => .ok m
    | none => .error (.new "chacha20poly1305: message authentication failed")

/-! ## Encryption -/

/-- The parts of a box in a row. -/
def layout (nKEK wrapped nDEK ct : Bytes) : Bytes :=
  [version] ++ nKEK ++ beBytes wrapped.length ++ wrapped ++ nDEK ++ ct

/-- The reads of the random source of an encryption: the key, and a nonce for each seal. -/
structure Draws where
  dek : Draw keySize
  nKEK : Draw nonceSizeX
  nDEK : Draw nonceSizeX

def encrypt (A : Aead) (v : Vault) (draws : Draws) (plaintext : Bytes) : Except Err Bytes := do
  let dek ← draws.dek
  let (nKEK, wrapped) ← sealWith A draws.nKEK v.kek dek.1
  let (nDEK, ct) ← sealWith A draws.nDEK dek.1 plaintext
  return layout nKEK wrapped nDEK ct

/-! ## Decryption -/

/-- How a decryption ends without a plaintext. -/
inductive Stop
  | error (err : Err)
  | panic
deriving DecidableEq

def malformed : Err := .new "vault: malformed or unsupported ciphertext"

def truncated : Err := .new "vault: truncated ciphertext"

def unwrapped (err : Err) : Err := .wrap "vault: unwrap DEK" err

/-- An index or slice expression. -/
def checked {α : Type} : Option α → Except Stop α
  | some a => .ok a
  | none => .error .panic

/-- Decryption with integers of `w` bits. -/
def decrypt (A : Aead) (w : Nat) (v : Vault) (box : Bytes) : Except Stop Bytes :=
  if box.length < 1 + nonceSizeX + 4 then .error (.error malformed)
  else do
  let b ← checked box.head?
  if b ≠ version then .error (.error malformed)
  else do
  let p : Int := 1
  let nKEK ← checked (slice box p (wrap w (p + nonceSizeX)))
  let p := wrap w (p + nonceSizeX)
  let field ← checked (slice box p (wrap w (p + 4)))
  let wlen := wrap w (beNat field)
  let p := wrap w (p + 4)
  if wlen < 0 ∨ box.length < wrap w (wrap w (p + wlen) + nonceSizeX) then .error (.error truncated)
  else do
  let wrapped ← checked (slice box p (wrap w (p + wlen)))
  let p := wrap w (p + wlen)
  let dek ← (openWith A v.kek nKEK wrapped).mapError (.error ∘ unwrapped)
  let nDEK ← checked (slice box p (wrap w (p + nonceSizeX)))
  let p := wrap w (p + nonceSizeX)
  let ct ← checked (slice box p box.length)
  (openWith A dek nDEK ct).mapError .error

/-! ## The parts of a box -/

def nonceKEK (box : Bytes) : Bytes := (box.drop 1).take nonceSizeX

def lengthField (box : Bytes) : Bytes := (box.drop (1 + nonceSizeX)).take 4

/-- The length that a box gives for its wrapped key. -/
def wrappedLength (box : Bytes) : Nat := beNat (lengthField box)

def wrappedKey (box : Bytes) : Bytes := (box.drop 29).take (wrappedLength box)

def nonceDEK (box : Bytes) : Bytes := (box.drop (29 + wrappedLength box)).take nonceSizeX

def body (box : Bytes) : Bytes := box.drop (53 + wrappedLength box)

/-- Decryption with offsets that do not wrap around. -/
def decode (A : Aead) (v : Vault) (box : Bytes) : Except Err Bytes :=
  if box.length < 29 ∨ box.head? ≠ some version then .error malformed
  else if box.length < 53 + wrappedLength box then .error truncated
  else
    match openWith A v.kek (nonceKEK box) (wrappedKey box) with
    | .error err => .error (unwrapped err)
    | .ok dek => openWith A dek (nonceDEK box) (body box)

section Cut

variable {box : Bytes}

theorem length_nonceKEK (h : 29 ≤ box.length) : (nonceKEK box).length = nonceSizeX := by
  simp only [nonceKEK, nonceSizeX, List.length_take, List.length_drop]
  omega

theorem length_lengthField (h : 29 ≤ box.length) : (lengthField box).length = 4 := by
  simp only [lengthField, nonceSizeX, List.length_take, List.length_drop]
  omega

theorem wrappedLength_lt (h : 29 ≤ box.length) : wrappedLength box < 2 ^ 32 :=
  beNat_lt (length_lengthField h)

theorem length_wrappedKey (h : 29 + wrappedLength box ≤ box.length) :
    (wrappedKey box).length = wrappedLength box := by
  simp only [wrappedKey, List.length_take, List.length_drop]
  omega

theorem length_nonceDEK (h : 53 + wrappedLength box ≤ box.length) :
    (nonceDEK box).length = nonceSizeX := by
  simp only [nonceDEK, nonceSizeX, List.length_take, List.length_drop]
  omega

/-- A box of the right version that is not truncated is its parts in a row. -/
theorem eq_layout (hversion : box.head? = some version)
    (hlen : 53 + wrappedLength box ≤ box.length) :
    box = layout (nonceKEK box) (wrappedKey box) (nonceDEK box) (body box) := by
  have hfield : beBytes (wrappedKey box).length = lengthField box := by
    rw [length_wrappedKey (by omega)]
    exact beBytes_beNat (length_lengthField (by omega))
  have hfirst : box.take 1 = [version] := by
    cases box with
    | nil => exact nomatch hversion
    | cons b bs =>
        obtain rfl : b = version := Option.some.inj hversion
        rfl
  have hjoin : ∀ a n : Nat, box.take a ++ (box.drop a).take n = box.take (a + n) :=
    fun _ _ ↦ List.take_add.symm
  have hbody : 29 + wrappedLength box + nonceSizeX = 53 + wrappedLength box := by
    simp only [nonceSizeX]
    omega
  rw [layout, hfield, ← hfirst, nonceKEK, hjoin, lengthField, hjoin, wrappedKey]
  change box = box.take 29 ++ _ ++ nonceDEK box ++ body box
  rw [hjoin, nonceDEK, hjoin, hbody, body, List.take_append_drop]

end Cut

/-- Parts that a box can be made of. -/
structure Regular (nKEK wrapped nDEK : Bytes) : Prop where
  nKEK : nKEK.length = nonceSizeX
  wrapped : wrapped.length < 2 ^ 32
  nDEK : nDEK.length = nonceSizeX

section Layout

variable {nKEK wrapped nDEK ct : Bytes}

theorem head?_layout : (layout nKEK wrapped nDEK ct).head? = some version := rfl

theorem Regular.length_layout (h : Regular nKEK wrapped nDEK) :
    (layout nKEK wrapped nDEK ct).length = 53 + wrapped.length + ct.length := by
  simp only [layout, List.length_append, List.length_singleton, h.nKEK, length_beBytes, h.nDEK,
    nonceSizeX]
  omega

theorem Regular.nonceKEK_layout (h : Regular nKEK wrapped nDEK) :
    nonceKEK (layout nKEK wrapped nDEK ct) = nKEK := by
  simp only [nonceKEK, layout, List.append_assoc]
  rw [List.drop_left' (by rfl), List.take_left' h.nKEK]

theorem Regular.wrappedLength_layout (h : Regular nKEK wrapped nDEK) :
    wrappedLength (layout nKEK wrapped nDEK ct) = wrapped.length := by
  have hpre : ([version] ++ nKEK).length = 1 + nonceSizeX := by
    rw [List.length_append, h.nKEK]
    rfl
  have hfield : lengthField (layout nKEK wrapped nDEK ct) = beBytes wrapped.length := by
    simp only [lengthField, layout, List.append_assoc]
    rw [← List.append_assoc [version], List.drop_left' hpre, List.take_left' (length_beBytes _)]
  rw [wrappedLength, hfield, beNat_beBytes h.wrapped]

theorem Regular.wrappedKey_layout (h : Regular nKEK wrapped nDEK) :
    wrappedKey (layout nKEK wrapped nDEK ct) = wrapped := by
  have hpre : ([version] ++ nKEK ++ beBytes wrapped.length).length = 29 := by
    rw [List.length_append, List.length_append, h.nKEK]
    rfl
  rw [wrappedKey, h.wrappedLength_layout, layout, List.append_assoc _ nDEK, List.append_assoc _ wrapped,
    List.drop_left' hpre, List.take_left' rfl]

theorem Regular.nonceDEK_layout (h : Regular nKEK wrapped nDEK) :
    nonceDEK (layout nKEK wrapped nDEK ct) = nDEK := by
  have hpre : ([version] ++ nKEK ++ beBytes wrapped.length ++ wrapped).length =
      29 + wrapped.length := by
    rw [List.length_append, List.length_append, List.length_append, h.nKEK]
    rfl
  rw [nonceDEK, h.wrappedLength_layout, layout, List.append_assoc _ nDEK, List.drop_left' hpre,
    List.take_left' h.nDEK]

theorem Regular.body_layout (h : Regular nKEK wrapped nDEK) :
    body (layout nKEK wrapped nDEK ct) = ct := by
  have hpre : ([version] ++ nKEK ++ beBytes wrapped.length ++ wrapped ++ nDEK).length =
      53 + wrapped.length := by
    simp only [List.length_append, List.length_singleton, h.nKEK, length_beBytes, h.nDEK, nonceSizeX]
    omega
  rw [body, h.wrappedLength_layout, layout, List.drop_left' hpre]

/-- A box can be cut in one way only. -/
theorem layout_injective {nKEK' wrapped' nDEK' ct' : Bytes} (h : Regular nKEK wrapped nDEK)
    (h' : Regular nKEK' wrapped' nDEK')
    (heq : layout nKEK wrapped nDEK ct = layout nKEK' wrapped' nDEK' ct') :
    nKEK = nKEK' ∧ wrapped = wrapped' ∧ nDEK = nDEK' ∧ ct = ct' := by
  refine ⟨?_, ?_, ?_, ?_⟩
  · exact h.nonceKEK_layout.symm.trans ((congrArg nonceKEK heq).trans h'.nonceKEK_layout)
  · exact h.wrappedKey_layout.symm.trans ((congrArg wrappedKey heq).trans h'.wrappedKey_layout)
  · exact h.nonceDEK_layout.symm.trans ((congrArg nonceDEK heq).trans h'.nonceDEK_layout)
  · exact h.body_layout.symm.trans ((congrArg body heq).trans h'.body_layout)

end Layout

/-! ## What is accepted -/

section Accepted

variable {A : Aead} {v : Vault} {box m : Bytes}

theorem openWith_eq_ok {key nonce ct : Bytes} (hnonce : nonce.length = nonceSizeX) :
    openWith A key nonce ct = .ok m ↔ key.length = keySize ∧ ct = A.sealed key nonce m := by
  unfold openWith
  by_cases hkey : key.length = keySize
  · rw [if_neg (not_not.mpr hkey), ← A.opened_eq_some hkey hnonce]
    cases A.opened key nonce ct with
    | none => simp
    | some m' => simp [hkey]
  · simp [hkey]

/-- A box of a secret under a vault's key: the secret is sealed under some key, and that key
under the vault's. -/
def Sealed (A : Aead) (v : Vault) (m box : Bytes) : Prop :=
  ∃ dek nKEK nDEK : Bytes, dek.length = keySize ∧ nKEK.length = nonceSizeX ∧
    nDEK.length = nonceSizeX ∧
    box = layout nKEK (A.sealed v.kek nKEK dek) nDEK (A.sealed dek nDEK m)

/-- The parts of a sealed box are as long as they have to be. -/
theorem regular_sealed {dek nKEK nDEK : Bytes} (hdek : dek.length = keySize)
    (hnKEK : nKEK.length = nonceSizeX) (hnDEK : nDEK.length = nonceSizeX) :
    Regular nKEK (A.sealed v.kek nKEK dek) nDEK := by
  refine ⟨hnKEK, ?_, hnDEK⟩
  rw [A.length_sealed v.length_kek hnKEK, hdek]
  decide

/-- Without overflow, exactly the sealed boxes are accepted. -/
theorem decode_eq_ok : v.decode A box = .ok m ↔ Sealed A v m box := by
  constructor
  · intro h
    unfold decode at h
    split at h
    · exact nomatch h
    · rename_i hhead
      obtain ⟨hshort, hversion⟩ := not_or.mp hhead
      split at h
      · exact nomatch h
      · rename_i htrunc
        have hlen : 53 + wrappedLength box ≤ box.length := Nat.not_lt.mp htrunc
        have hnKEK := length_nonceKEK (Nat.not_lt.mp hshort)
        have hnDEK := length_nonceDEK hlen
        cases hopen : openWith A v.kek (nonceKEK box) (wrappedKey box) with
        | error err =>
            rw [hopen] at h
            exact nomatch h
        | ok dek =>
            rw [hopen] at h
            obtain ⟨-, hwrapped⟩ := (openWith_eq_ok hnKEK).mp hopen
            obtain ⟨hdek, hbody⟩ := (openWith_eq_ok hnDEK).mp h
            refine ⟨dek, nonceKEK box, nonceDEK box, hdek, hnKEK, hnDEK, ?_⟩
            rw [← hwrapped, ← hbody]
            exact eq_layout (not_not.mp hversion) hlen
  · rintro ⟨dek, nKEK, nDEK, hdek, hnKEK, hnDEK, rfl⟩
    have hreg := regular_sealed (A := A) (v := v) hdek hnKEK hnDEK
    have hwrapped := (openWith_eq_ok (A := A) hnKEK).mpr
      ⟨v.length_kek, (rfl : A.sealed v.kek nKEK dek = _)⟩
    have hbody := (openWith_eq_ok (A := A) hnDEK).mpr ⟨hdek, (rfl : A.sealed dek nDEK m = _)⟩
    unfold decode
    rw [hreg.length_layout, hreg.wrappedLength_layout, hreg.nonceKEK_layout, hreg.wrappedKey_layout,
      hreg.nonceDEK_layout, hreg.body_layout, hwrapped, head?_layout,
      if_neg (by simp only [ne_eq, not_true_eq_false, or_false]; omega), if_neg (by omega)]
    exact hbody

/-- What is left of a decryption once the length has been read. -/
def unpack (A : Aead) (w : Nat) (v : Vault) (box : Bytes) (wlen : Int) : Except Stop Bytes :=
  if wlen < 0 ∨ box.length < wrap w (wrap w (29 + wlen) + nonceSizeX) then .error (.error truncated)
  else do
  let wrapped ← checked (slice box 29 (wrap w (29 + wlen)))
  let p := wrap w (29 + wlen)
  let dek ← (openWith A v.kek (nonceKEK box) wrapped).mapError (.error ∘ unwrapped)
  let nDEK ← checked (slice box p (wrap w (p + nonceSizeX)))
  let p := wrap w (p + nonceSizeX)
  let ct ← checked (slice box p box.length)
  (openWith A dek nDEK ct).mapError .error

/-- Up to the length, the offsets are fixed. -/
theorem decrypt_eq_unpack {w : Nat} (hw : 6 ≤ w) (hlen : 29 ≤ box.length)
    (hversion : box.head? = some version) :
    v.decrypt A w box = v.unpack A w box (wrap w (wrappedLength box)) := by
  have hpow : 2 ^ 5 ≤ 2 ^ (w - 1) := Nat.pow_le_pow_right (by decide) (by omega)
  have hnonce : wrap w (1 + nonceSizeX) = (25 : Nat) := wrap_of_lt (n := 25) (by omega) (by omega)
  have hlength : wrap w ((25 : Nat) + 4) = (29 : Nat) := wrap_of_lt (n := 29) (by omega) (by omega)
  have hnKEK : slice box 1 (25 : Nat) = some (nonceKEK box) :=
    slice_of_le (a := 1) (n := 24) (by omega)
  have hfield : slice box (25 : Nat) (29 : Nat) = some (lengthField box) :=
    slice_of_le (n := 4) (by omega)
  unfold decrypt
  rw [if_neg (by simp only [nonceSizeX]; omega), hversion]
  simp only [checked, hnonce, hlength, hnKEK, hfield]
  rfl

/-- Offsets that fit do not wrap around. -/
theorem unpack_of_fit {w : Nat} (hfit : 53 + wrappedLength box < 2 ^ (w - 1)) (hw : 0 < w)
    (hlen : 29 ≤ box.length) (hversion : box.head? = some version) :
    v.unpack A w box (wrap w (wrappedLength box)) = (v.decode A box).mapError .error := by
  have hwlen : wrap w (wrappedLength box) = wrappedLength box := wrap_of_lt hw (by omega)
  have hend : wrap w (29 + (wrappedLength box : Int)) = (29 + wrappedLength box : Nat) :=
    wrap_of_lt (n := 29 + wrappedLength box) hw (by omega)
  have hnext : wrap w ((29 + wrappedLength box : Nat) + nonceSizeX) =
      (29 + wrappedLength box + nonceSizeX : Nat) :=
    wrap_of_lt (n := 29 + wrappedLength box + 24) hw (by omega)
  have hbodyAt : 29 + wrappedLength box + nonceSizeX = 53 + wrappedLength box := by
    simp only [nonceSizeX]
    omega
  unfold unpack decode
  rw [if_neg (not_or.mpr ⟨Nat.not_lt.mpr hlen, not_not.mpr hversion⟩), hwlen, hend, hnext]
  by_cases htrunc : box.length < 53 + wrappedLength box
  · rw [if_pos (by simp only [nonceSizeX]; omega), if_pos htrunc]
    rfl
  · have hwrapped : slice box 29 ((29 + wrappedLength box : Nat) : Int) = some (wrappedKey box) :=
      slice_of_le (a := 29) (by omega)
    have hnDEK : slice box ((29 + wrappedLength box : Nat) : Int)
        ((29 + wrappedLength box + nonceSizeX : Nat) : Int) = some (nonceDEK box) :=
      slice_of_le (by simp only [nonceSizeX]; omega)
    have hbody : slice box ((29 + wrappedLength box + nonceSizeX : Nat) : Int) box.length =
        some (body box) := by
      rw [hbodyAt, slice_to_end (by omega), body]
    rw [if_neg (by simp only [nonceSizeX]; omega), if_neg htrunc]
    simp only [checked, hwrapped, hnext, hnDEK, hbody, bind, Except.bind]
    cases openWith A v.kek (nonceKEK box) (wrappedKey box) with
    | error err => rfl
    | ok dek => rfl

/-- A box without the header is refused, whatever the width. -/
theorem decrypt_malformed {w : Nat} (h : box.length < 29 ∨ box.head? ≠ some version) :
    v.decrypt A w box = .error (.error malformed) := by
  unfold decrypt
  by_cases hshort : box.length < 29
  · rw [if_pos (by simp only [nonceSizeX]; omega)]
  · rw [if_neg (by simp only [nonceSizeX]; omega)]
    cases box with
    | nil => exact absurd (by decide) hshort
    | cons b bs =>
        have hb : b ≠ version := fun heq ↦ h.resolve_left hshort (congrArg some heq)
        simp only [List.head?_cons, checked, bind, Except.bind, if_pos hb]

/-- With integers of 64 bits nothing wraps around. -/
theorem decrypt_eq_decode : v.decrypt A 64 box = (v.decode A box).mapError .error := by
  by_cases hhead : box.length < 29 ∨ box.head? ≠ some version
  · rw [decrypt_malformed hhead, decode, if_pos hhead]
    rfl
  · obtain ⟨hshort, hversion⟩ := not_or.mp hhead
    have hlen := Nat.not_lt.mp hshort
    have hfield := wrappedLength_lt hlen
    have hversion := not_not.mp hversion
    rw [decrypt_eq_unpack (by decide) hlen hversion,
      unpack_of_fit (Nat.lt_of_lt_of_le (by omega) (show 2 ^ 33 ≤ 2 ^ (64 - 1) by decide)) (by decide)
        hlen hversion]

theorem decrypt_eq_ok : v.decrypt A 64 box = .ok m ↔ Sealed A v m box := by
  rw [decrypt_eq_decode, ← decode_eq_ok]
  cases v.decode A box with
  | error err => simp [Except.mapError]
  | ok m' => simp [Except.mapError]

/-- An encryption whose reads of the random source succeed yields a sealed box. -/
theorem encrypt_eq_ok (dek : {b : Bytes // b.length = keySize})
    (nKEK nDEK : {b : Bytes // b.length = nonceSizeX}) :
    v.encrypt A ⟨.ok dek, .ok nKEK, .ok nDEK⟩ m =
      .ok (layout nKEK.1 (A.sealed v.kek nKEK.1 dek.1) nDEK.1 (A.sealed dek.1 nDEK.1 m)) := by
  simp only [encrypt, sealWith, v.length_kek, dek.2, ne_eq, not_true_eq_false, if_false, bind,
    Except.bind, pure, Except.pure]

/-- The parts of an accepted box are those it is cut into, and no others. -/
theorem Sealed.eq_layout_iff (h : Sealed A v m box) {nKEK wrapped nDEK ct : Bytes}
    (hreg : Regular nKEK wrapped nDEK) :
    box = layout nKEK wrapped nDEK ct ↔
      nonceKEK box = nKEK ∧ wrappedKey box = wrapped ∧ nonceDEK box = nDEK ∧ body box = ct := by
  obtain ⟨dek, n, n', hdek, hn, hn', rfl⟩ := h
  have hreg' : Regular n (A.sealed v.kek n dek) n' := regular_sealed hdek hn hn'
  rw [hreg'.nonceKEK_layout, hreg'.wrappedKey_layout, hreg'.nonceDEK_layout, hreg'.body_layout]
  constructor
  · exact fun heq ↦ layout_injective hreg' hreg heq
  · rintro ⟨rfl, rfl, rfl, rfl⟩
    rfl

/-- Decryption undoes encryption and accepts nothing else: an accepted box is, byte for byte,
the row of a nonce, the length of a wrapped key, that key, a nonce and a ciphertext, the key
sealed under the vault's and the plaintext under the key; and it is so in one way. -/
theorem decrypt_accepts_exactly_sealed (A : Aead) (v : Vault) :
    (∀ dek nKEK nDEK plaintext, ∃ box,
        v.encrypt A ⟨.ok dek, .ok nKEK, .ok nDEK⟩ plaintext = .ok box ∧
          v.decrypt A 64 box = .ok plaintext) ∧
      (∀ box m, v.decrypt A 64 box = .ok m ↔ Sealed A v m box) ∧
      ∀ box m, v.decrypt A 64 box = .ok m → ∀ nKEK wrapped nDEK ct, Regular nKEK wrapped nDEK →
        (box = layout nKEK wrapped nDEK ct ↔
          nonceKEK box = nKEK ∧ wrappedKey box = wrapped ∧ nonceDEK box = nDEK ∧ body box = ct) := by
  refine ⟨?_, fun box m ↦ decrypt_eq_ok, ?_⟩
  · intro dek nKEK nDEK plaintext
    refine ⟨_, encrypt_eq_ok dek nKEK nDEK, decrypt_eq_ok.mpr ?_⟩
    exact ⟨dek.1, nKEK.1, nDEK.1, dek.2, nKEK.2, nDEK.2, rfl⟩
  · intro box m h nKEK wrapped nDEK ct hreg
    exact (decrypt_eq_ok.mp h).eq_layout_iff hreg

end Accepted

/-! ## A cipher to compute with -/

/-- A tag of 16 bytes that depends on the key. -/
def tag (key : Bytes) : Bytes := key.take 16

/-- The plaintext with the tag behind it. -/
def tagged : Aead where
  sealed key _ m := m ++ tag key
  opened key _ ct :=
    if ct.drop (ct.length - 16) = tag key then some (ct.take (ct.length - 16)) else none
  opened_eq_some := by
    intro key nonce ct m hkey _
    have htag : (tag key).length = 16 := by
      rw [tag, List.length_take, hkey]
      rfl
    constructor
    · intro h
      split at h
      · rename_i heq
        rw [← heq, ← Option.some.inj h, List.take_append_drop]
      · exact nomatch h
    · rintro rfl
      have hlen : (m ++ tag key).length - 16 = m.length := by
        rw [List.length_append, htag, Nat.add_sub_cancel]
      rw [hlen, List.drop_left, List.take_left, if_pos rfl]
  length_sealed := by
    intro key nonce m hkey _
    rw [List.length_append, tag, List.length_take, hkey]
    rfl

/-- A vault whose key is a row of one byte. -/
def sevens : Vault := ⟨List.replicate 32 7, rfl⟩

/-- A secret of three bytes comes back. -/
theorem decrypt_accepts_exactly_sealed_sevens :
    ∃ box, sevens.encrypt tagged ⟨.ok ⟨List.replicate 32 1, rfl⟩, .ok ⟨List.replicate 24 2, rfl⟩,
        .ok ⟨List.replicate 24 3, rfl⟩⟩ [97, 98, 99] = .ok box ∧
      sevens.decrypt tagged 64 box = .ok [97, 98, 99] :=
  (decrypt_accepts_exactly_sealed tagged sevens).1 _ _ _ _

end Vault

end GigMcp
