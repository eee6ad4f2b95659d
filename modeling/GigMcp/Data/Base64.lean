import GigMcp.Data.Bytes

/-!
# Base64 without padding, with the URL alphabet

Three bytes are four digits of six bits, and what is left over is two or three digits.  The
decoder is a lenient one: it skips line ends wherever they are, and it does not look at the bits
of the last digit that no byte is made of, so that many texts have the same bytes.  What was
encoded is decoded to itself (`decode_encode`).
-/

namespace GigMcp.Data.Base64

/-! ## Digits -/

/-- The digit of a number below 64: `A` to `Z`, `a` to `z`, `0` to `9`, `-` and `_`. -/
def digit (n : Nat) : UInt8 :=
  if n < 26 then UInt8.ofNat (65 + n)
  else if n < 52 then UInt8.ofNat (71 + n)
  else if n < 62 then UInt8.ofNat (n - 4)
  else if n = 62 then 45
  else 95

/-- The number of a digit. -/
def value (c : UInt8) : Option Nat :=
  if 65 ≤ c ∧ c ≤ 90 then some (c.toNat - 65)
  else if 97 ≤ c ∧ c ≤ 122 then some (c.toNat - 71)
  else if 48 ≤ c ∧ c ≤ 57 then some (c.toNat + 4)
  else if c = 45 then some 62
  else if c = 95 then some 63
  else none

theorem value_digit {n : Nat} (hn : n < 64) : value (digit n) = some n := by
  have hall : ∀ k : Fin 64, value (digit k) = some k.val := by decide
  exact hall ⟨n, hn⟩

/-! ## Encoding -/

/-- The digits of three bytes. -/
def digits (a b c : UInt8) : List Nat :=
  let val := a.toNat * 65536 + b.toNat * 256 + c.toNat
  [val / 262144, val / 4096 % 64, val / 64 % 64, val % 64]

def encode : Bytes → Bytes
  | [] => []
  | [a] => ((digits a 0 0).take 2).map digit
  | [a, b] => ((digits a b 0).take 3).map digit
  | a :: b :: c :: rest => (digits a b c).map digit ++ encode rest

theorem digits_lt {a b c : UInt8} {n : Nat} (h : n ∈ digits a b c) : n < 64 := by
  have ha := a.toNat_lt
  have hb := b.toNat_lt
  have hc := c.toNat_lt
  simp only [digits, List.mem_cons, List.not_mem_nil, or_false] at h
  rcases h with rfl | rfl | rfl | rfl <;> omega

/-- An encoding has digits only. -/
theorem exists_digit_of_mem {xs : Bytes} {c : UInt8} (hc : c ∈ encode xs) :
    ∃ n : Fin 64, digit n = c := by
  have hdigit {ds : List Nat} (hds : ∀ n ∈ ds, n < 64) (h : c ∈ ds.map digit) :
      ∃ n : Fin 64, digit n = c := by
    obtain ⟨n, hn, rfl⟩ := List.mem_map.mp h
    exact ⟨⟨n, hds n hn⟩, rfl⟩
  induction xs using encode.induct with
  | case1 => cases hc
  | case2 a => exact hdigit (fun n hn ↦ digits_lt (List.mem_of_mem_take hn)) hc
  | case3 a b => exact hdigit (fun n hn ↦ digits_lt (List.mem_of_mem_take hn)) hc
  | case4 a b d rest ih =>
      rcases List.mem_append.mp hc with hc | hc
      · exact hdigit (fun n hn ↦ digits_lt hn) hc
      · exact ih hc

/-! ## Decoding -/

/-- The bytes of two to four digits; what is missing counts as zero. -/
def quantum (ds : List Nat) : Bytes :=
  let val := ds.getD 0 0 * 262144 + ds.getD 1 0 * 4096 + ds.getD 2 0 * 64 + ds.getD 3 0
  [UInt8.ofNat (val / 65536), UInt8.ofNat (val / 256), UInt8.ofNat val].take (ds.length - 1)

/-- Decode from position `si` on, after the digits `ds` of a quantum.  An error is the position
of what cannot be decoded. -/
def decodeFrom (ds : List Nat) (si : Nat) : Bytes → Except Nat Bytes
  | [] =>
      if ds.length = 0 then .ok []
      else if ds.length = 1 then .error (si - 1)
      else .ok (quantum ds)
  | c :: cs =>
      match value c with
      | some n =>
          if ds.length = 3 then (quantum (ds ++ [n]) ++ ·) <$> decodeFrom [] (si + 1) cs
          else decodeFrom (ds ++ [n]) (si + 1) cs
      | none => if c = 10 ∨ c = 13 then decodeFrom ds (si + 1) cs else .error si

def decode (cs : Bytes) : Except Nat Bytes := decodeFrom [] 0 cs

/-- Digits that do not fill a quantum are kept. -/
theorem decodeFrom_digits {ds es : List Nat} (si : Nat) (cs : Bytes) (hes : ∀ n ∈ es, n < 64)
    (hlen : ds.length + es.length ≤ 3) :
    decodeFrom ds si (es.map digit ++ cs) = decodeFrom (ds ++ es) (si + es.length) cs := by
  induction es generalizing ds si with
  | nil => simp
  | cons n es ih =>
      rw [List.length_cons] at hlen
      have hn := value_digit (hes n List.mem_cons_self)
      have hstep : decodeFrom ds si (digit n :: (es.map digit ++ cs)) =
          decodeFrom (ds ++ [n]) (si + 1) (es.map digit ++ cs) := by
        simp only [decodeFrom, hn, if_neg (by omega : ds.length ≠ 3)]
      rw [List.map_cons, List.cons_append, hstep,
        ih (si + 1) (fun m hm ↦ hes m (List.mem_cons_of_mem n hm)) (by simp; omega)]
      simp only [List.append_assoc, List.singleton_append, List.length_cons, Nat.add_assoc,
        Nat.add_comm 1]

/-- The fourth digit ends a quantum. -/
theorem decodeFrom_last {ds : List Nat} {n : Nat} (si : Nat) (cs : Bytes) (hn : n < 64)
    (hds : ds.length = 3) :
    decodeFrom ds si (digit n :: cs) =
      (quantum (ds ++ [n]) ++ ·) <$> decodeFrom [] (si + 1) cs := by
  simp only [decodeFrom, value_digit hn, if_pos hds]

/-- A byte is what is left of a number when the digits above it wrap around. -/
theorem ofNat_eq {x : Nat} {a : UInt8} (h : x % 256 = a.toNat) : UInt8.ofNat x = a := by
  refine UInt8.toNat_inj.mp ?_
  rw [UInt8.toNat_ofNat']
  exact h

theorem quantum_four (a b c : UInt8) : quantum (digits a b c) = [a, b, c] := by
  have ha := a.toNat_lt
  have hb := b.toNat_lt
  have hc := c.toNat_lt
  simp only [quantum, digits, List.getD_cons_zero, List.getD_cons_succ, List.length_cons,
    List.length_nil, List.take_succ_cons, List.take_zero, Nat.add_sub_cancel]
  rw [ofNat_eq (a := a) (by omega), ofNat_eq (a := b) (by omega), ofNat_eq (a := c) (by omega)]

theorem quantum_three (a b : UInt8) : quantum ((digits a b 0).take 3) = [a, b] := by
  have ha := a.toNat_lt
  have hb := b.toNat_lt
  simp only [quantum, digits, UInt8.toNat_zero, List.take_succ_cons, List.take_zero,
    List.getD_cons_zero, List.getD_cons_succ, List.getD_nil, List.length_cons, List.length_nil,
    Nat.add_sub_cancel]
  rw [ofNat_eq (a := a) (by omega), ofNat_eq (a := b) (by omega)]

theorem quantum_two (a : UInt8) : quantum ((digits a 0 0).take 2) = [a] := by
  have ha := a.toNat_lt
  simp only [quantum, digits, UInt8.toNat_zero, List.take_succ_cons, List.take_zero,
    List.getD_cons_zero, List.getD_cons_succ, List.getD_nil, List.length_cons, List.length_nil,
    Nat.add_sub_cancel]
  rw [ofNat_eq (a := a) (by omega)]

theorem decodeFrom_encode (xs : Bytes) (si : Nat) : decodeFrom [] si (encode xs) = .ok xs := by
  induction xs using encode.induct generalizing si with
  | case1 => rfl
  | case2 a =>
      have hdigits := decodeFrom_digits si [] (fun n hn ↦ digits_lt (List.mem_of_mem_take hn))
        (by simp [digits] : ([] : List Nat).length + ((digits a 0 0).take 2).length ≤ 3)
      rw [List.append_nil] at hdigits
      exact hdigits.trans (congrArg Except.ok (quantum_two a))
  | case3 a b =>
      have hdigits := decodeFrom_digits si [] (fun n hn ↦ digits_lt (List.mem_of_mem_take hn))
        (by simp [digits] : ([] : List Nat).length + ((digits a b 0).take 3).length ≤ 3)
      rw [List.append_nil] at hdigits
      exact hdigits.trans (congrArg Except.ok (quantum_three a b))
  | case4 a b c rest ih =>
      obtain ⟨ds, n, hlen, hsplit⟩ : ∃ ds n, ds.length = 3 ∧ digits a b c = ds ++ [n] :=
        ⟨(digits a b c).take 3, _, rfl, rfl⟩
      have hlt : ∀ m ∈ ds ++ [n], m < 64 := fun m hm ↦ digits_lt (hsplit ▸ hm)
      have hn : n < 64 := hlt n (List.mem_append_right ds (.head _))
      have hdigits : decodeFrom [] si (ds.map digit ++ digit n :: encode rest) =
          decodeFrom ds (si + ds.length) (digit n :: encode rest) :=
        decodeFrom_digits si _ (fun m hm ↦ hlt m (List.mem_append_left [n] hm))
          (by rw [hlen]; decide)
      have hquantum : quantum (ds ++ [n]) = [a, b, c] := hsplit ▸ quantum_four a b c
      rw [encode, hsplit, List.map_append, List.append_assoc, List.map_singleton,
        List.singleton_append, hdigits, decodeFrom_last _ _ hn hlen, ih, hquantum]
      rfl

/-- **Round trip.**  What was encoded is decoded. -/
theorem decode_encode (xs : Bytes) : decode (encode xs) = .ok xs := decodeFrom_encode xs 0

/-- `TQ` is the encoding of `M`, but `TR` and a `TQ` with a line end in it are `M`, too. -/
example : encode [77] = [84, 81] ∧ decode [84, 82] = .ok [77] ∧ decode [84, 10, 81] = .ok [77] := by
  decide

end GigMcp.Data.Base64
