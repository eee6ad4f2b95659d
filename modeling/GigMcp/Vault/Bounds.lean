import GigMcp.Vault.Envelope

/-!
# The bounds of a decryption

The offsets of a decryption are sums with a length that comes from the box and has not been
verified.  With integers of 64 bits the sums do not wrap around, and all slices are within the
box.  With 32 bits a length above `2 ^ 31` is negative and refused; one that is below, but not
by the 53 bytes that stand around the wrapped key, makes a sum negative that the check
compares with the length of the box.  Such a box passes the check.
-/

namespace GigMcp.Vault

open GigMcp.Data GigMcp.Store

section Bounds

variable {A : Aead} {v : Vault} {box : Bytes}

/-- Offsets that fit do not lead out of the box. -/
theorem decrypt_of_fit {w : Nat} (hfit : 53 + wrappedLength box < 2 ^ (w - 1)) (hw : 6 ≤ w)
    (hlen : 29 ≤ box.length) (hversion : box.head? = some version) :
    v.decrypt A w box ≠ .error .panic := by
  rw [decrypt_eq_unpack hw hlen hversion, unpack_of_fit hfit (by omega) hlen hversion]
  cases v.decode A box with
  | error err => simp [Except.mapError]
  | ok m => simp [Except.mapError]

/-- A length with the top bit of an integer is negative. -/
theorem unpack_of_negative {w : Nat} (hw : 0 < w) (h : 2 ^ (w - 1) ≤ wrappedLength box)
    (h' : wrappedLength box < 2 ^ w) :
    v.unpack A w box (wrap w (wrappedLength box)) = .error (.error truncated) := by
  have hwlen : wrap w (wrappedLength box) = wrappedLength box - (2 ^ w : Nat) :=
    wrap_of_overflow hw h h'
  rw [unpack, hwlen, if_pos (.inl (by omega))]

/-- The end of the wrapped key is beyond the integers of the platform: the check passes, and
the slice has a negative bound. -/
theorem unpack_of_far_end {w : Nat} (hw : 7 ≤ w) (h : 2 ^ (w - 1) ≤ 29 + wrappedLength box)
    (h' : wrappedLength box < 2 ^ (w - 1)) :
    v.unpack A w box (wrap w (wrappedLength box)) = .error .panic := by
  have hpow := two_pow_eq (show 0 < w by omega)
  have hroom : 2 ^ 6 ≤ 2 ^ (w - 1) := Nat.pow_le_pow_right (by decide) (by omega)
  have hwlen : wrap w (wrappedLength box) = wrappedLength box := wrap_of_lt (by omega) h'
  have hend : wrap w (29 + (wrappedLength box : Int)) =
      (29 + wrappedLength box : Nat) - (2 ^ w : Nat) :=
    wrap_of_overflow (n := 29 + wrappedLength box) (by omega) h (by omega)
  have hnext : wrap w ((29 + wrappedLength box : Nat) - (2 ^ w : Nat) + nonceSizeX) =
      (29 + wrappedLength box : Nat) - (2 ^ w : Nat) + nonceSizeX := by
    refine wrap_of_fits (by omega) ?_ ?_
    · simp only [nonceSizeX]
      omega
    · simp only [nonceSizeX]
      omega
  have hslice : slice box 29 ((29 + wrappedLength box : Nat) - (2 ^ w : Nat)) = none :=
    slice_of_neg (a := 29) (by omega)
  rw [unpack, hwlen, hend, hnext, if_neg (by simp only [nonceSizeX]; omega), hslice]
  rfl

/-- The vault's own key has the right length, so opening fails only if the cipher refuses. -/
theorem openWith_kek_error {nonce ct : Bytes} :
    (∃ err, openWith A v.kek nonce ct = .error err) ↔ A.opened v.kek nonce ct = none := by
  unfold openWith
  rw [if_neg (not_not.mpr v.length_kek)]
  cases A.opened v.kek nonce ct with
  | none => exact ⟨fun _ ↦ rfl, fun _ ↦ ⟨_, rfl⟩⟩
  | some dek => simp

/-- The end of the second nonce is: the check passes, the wrapped key is cut if the box is as
long as that, and once it has been opened the slice of the nonce has a negative bound. -/
theorem unpack_of_far_nonce {w : Nat} (hw : 7 ≤ w) (h : 29 + wrappedLength box < 2 ^ (w - 1))
    (h' : 2 ^ (w - 1) ≤ 53 + wrappedLength box) :
    v.unpack A w box (wrap w (wrappedLength box)) ≠ .error .panic ↔
      29 + wrappedLength box ≤ box.length ∧
        A.opened v.kek (nonceKEK box) (wrappedKey box) = none := by
  have hpow := two_pow_eq (show 0 < w by omega)
  have hroom : 2 ^ 6 ≤ 2 ^ (w - 1) := Nat.pow_le_pow_right (by decide) (by omega)
  have hwlen : wrap w (wrappedLength box) = wrappedLength box := wrap_of_lt (by omega) (by omega)
  have hend : wrap w (29 + (wrappedLength box : Int)) = (29 + wrappedLength box : Nat) :=
    wrap_of_lt (n := 29 + wrappedLength box) (by omega) h
  have hnext : wrap w ((29 + wrappedLength box : Nat) + nonceSizeX) =
      (29 + wrappedLength box + 24 : Nat) - (2 ^ w : Nat) :=
    wrap_of_overflow (n := 29 + wrappedLength box + 24) (by omega) (by omega) (by omega)
  rw [unpack, hwlen, hend, hnext, if_neg (by omega)]
  by_cases hlen : 29 + wrappedLength box ≤ box.length
  · have hwrapped : slice box 29 ((29 + wrappedLength box : Nat) : Int) = some (wrappedKey box) :=
      slice_of_le (a := 29) hlen
    have hnDEK : slice box ((29 + wrappedLength box : Nat) : Int)
        ((29 + wrappedLength box + 24 : Nat) - (2 ^ w : Nat)) = none := slice_of_neg (by omega)
    simp only [hwrapped, hnext, hnDEK, checked, bind, Except.bind, hlen, true_and]
    rw [← openWith_kek_error]
    cases openWith A v.kek (nonceKEK box) (wrappedKey box) with
    | error err => simp [Except.mapError]
    | ok dek => simp [Except.mapError]
  · have hwrapped : slice box 29 ((29 + wrappedLength box : Nat) : Int) = none :=
      slice_of_lt (a := 29) (by omega)
    simp only [hwrapped, checked, bind, Except.bind, hlen, false_and]
    simp

/-- The boxes that are decrypted within their bounds, on a platform of a given width. -/
def InBounds (A : Aead) (v : Vault) (w : Nat) (box : Bytes) : Prop :=
  w = 64 ∨ box.length < 29 ∨ box.head? ≠ some version ∨ 2 ^ 31 ≤ wrappedLength box ∨
    53 + wrappedLength box < 2 ^ 31 ∨
    (29 + wrappedLength box ≤ box.length ∧ A.opened v.kek (nonceKEK box) (wrappedKey box) = none)

/-- A decryption does not panic if and only if its box is within the bounds.  A box is never
longer than the integers of the platform go. -/
theorem decrypt_panic_free_iff (A : Aead) (v : Vault) {w : Nat} (hw : w = 32 ∨ w = 64)
    (hbox : box.length < 2 ^ (w - 1)) :
    v.decrypt A w box ≠ .error .panic ↔ InBounds A v w box := by
  by_cases hhead : box.length < 29 ∨ box.head? ≠ some version
  · rw [decrypt_malformed hhead]
    refine ⟨fun _ ↦ ?_, fun _ ↦ by simp⟩
    exact hhead.elim (fun h ↦ .inr (.inl h)) fun h ↦ .inr (.inr (.inl h))
  · obtain ⟨hshort, hversion⟩ := not_or.mp hhead
    have hlen := Nat.not_lt.mp hshort
    have hversion := not_not.mp hversion
    have hfield := wrappedLength_lt hlen
    rcases hw with rfl | rfl
    · have hin : InBounds A v 32 box ↔ 2 ^ 31 ≤ wrappedLength box ∨ 53 + wrappedLength box < 2 ^ 31 ∨
          (29 + wrappedLength box ≤ box.length ∧
            A.opened v.kek (nonceKEK box) (wrappedKey box) = none) := by
        simp [InBounds, hshort, hversion]
      rw [hin]
      by_cases hneg : 2 ^ 31 ≤ wrappedLength box
      · rw [decrypt_eq_unpack (by decide) hlen hversion, unpack_of_negative (by decide) hneg hfield]
        exact ⟨fun _ ↦ .inl hneg, fun _ ↦ by simp⟩
      · by_cases hfit : 53 + wrappedLength box < 2 ^ 31
        · exact ⟨fun _ ↦ .inr (.inl hfit), fun _ ↦ decrypt_of_fit hfit (by decide) hlen hversion⟩
        · rw [decrypt_eq_unpack (by decide) hlen hversion]
          by_cases hend : 29 + wrappedLength box < 2 ^ 31
          · rw [unpack_of_far_nonce (by decide) hend (Nat.not_lt.mp hfit)]
            simp only [hneg, hfit, false_or]
          · rw [unpack_of_far_end (by decide) (Nat.not_lt.mp hend) (Nat.not_le.mp hneg)]
            refine ⟨fun h ↦ absurd rfl h, ?_⟩
            rintro (h | h | ⟨h, -⟩)
            · exact absurd h hneg
            · exact absurd h hfit
            · exact absurd (Nat.lt_of_le_of_lt h hbox) hend
    · refine ⟨fun _ ↦ .inl rfl, fun _ ↦ decrypt_of_fit ?_ (by decide) hlen hversion⟩
      exact Nat.lt_of_lt_of_le (by omega) (show 2 ^ 33 ≤ 2 ^ (64 - 1) by decide)

end Bounds

/-- A box with a header and nothing behind it, and the largest positive length of 32 bits. -/
def crafted : Bytes := [version] ++ List.replicate 24 0 ++ [0x7f, 0xff, 0xff, 0xff]

/-- On a platform of 64 bits the box is within the bounds. -/
theorem decrypt_panic_free_crafted : sevens.decrypt tagged 64 crafted ≠ .error .panic :=
  (decrypt_panic_free_iff tagged sevens (.inr rfl) (show crafted.length < 2 ^ (64 - 1) by decide)).mpr
    (.inl rfl)

/-- On a platform of 32 bits it is not. -/
theorem decrypt_crafted_panics : sevens.decrypt tagged 32 crafted = .error .panic := by
  decide

end GigMcp.Vault
