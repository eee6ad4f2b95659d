import GigMcp.Netmgr.Addresses

/-!
# The subnets of a base network

An allocator is made from a base network, but keeps its first address only: `Allocate` takes
the first index that is free, however large, and never fails.  As long as it is called while
some /30 of the base network is free, the indices stay below the number of /30s there are, and
the subnets lie in the network and apart from each other.  When all are held, the next one
lies outside.
-/

namespace GigMcp.Netmgr

open GigMcp.Effect

/-! ## Networks -/

/-- An IPv4 network that has room for a /30, given by its first address. -/
structure Cidr where
  base : UInt32
  len : ℕ
  len_le : len ≤ 30
  aligned : 2 ^ (32 - len) ∣ base.toNat

namespace Cidr

variable (c : Cidr)

/-- The number of addresses. -/
def size : ℕ := 2 ^ (32 - c.len)

/-- The number of /30s. -/
def capacity : ℕ := 2 ^ (30 - c.len)

/-- The first bits of an address are those of the network. -/
def Contains (ip : UInt32) : Prop := ip.toNat / c.size = c.base.toNat / c.size

instance (ip : UInt32) : Decidable (c.Contains ip) := inferInstanceAs (Decidable (_ = _))

theorem size_eq : c.size = 4 * c.capacity := by
  have hlen : 32 - c.len = 30 - c.len + 2 := by
    have := c.len_le
    omega
  rw [size, capacity, hlen, Nat.pow_add, Nat.mul_comm]

theorem size_pos : 0 < c.size := Nat.two_pow_pos _

/-- A network ends where the address space does, or before. -/
theorem base_add_size_le : c.base.toNat + c.size ≤ 2 ^ 32 := by
  have hspace : (2 : ℕ) ^ 32 = c.size * 2 ^ c.len := by
    have := c.len_le
    rw [size, ← Nat.pow_add, Nat.sub_add_cancel (by omega)]
  obtain ⟨q, hq⟩ : c.size ∣ c.base.toNat := c.aligned
  have hlt := c.base.toNat_lt
  rw [hspace, hq] at hlt
  have hq' : q + 1 ≤ 2 ^ c.len := Nat.lt_of_mul_lt_mul_left hlt
  calc c.base.toNat + c.size = c.size * (q + 1) := by rw [hq, Nat.mul_add, Nat.mul_one]
    _ ≤ c.size * 2 ^ c.len := Nat.mul_le_mul_left _ hq'
    _ = 2 ^ 32 := hspace.symm

theorem contains_iff {ip : UInt32} :
    c.Contains ip ↔ c.base.toNat ≤ ip.toNat ∧ ip.toNat < c.base.toNat + c.size := by
  obtain ⟨q, hq⟩ : c.size ∣ c.base.toNat := c.aligned
  rw [Contains, hq, Nat.mul_div_cancel_left _ c.size_pos, Nat.div_eq_iff c.size_pos, Nat.mul_comm q]
  have := c.size_pos
  omega

end Cidr

/-! ## The /30 of an index -/

/-- The addresses of a subnet: those that agree with its host side under the mask. -/
def Subnet.Covers (s : Subnet) (ip : UInt32) : Prop := ip &&& s.mask = s.hostIP &&& s.mask

/-- Two subnets have no address in common, and no interface name. -/
structure Apart (s t : Subnet) : Prop where
  addresses : ∀ ip, ¬ (s.Covers ip ∧ t.Covers ip)
  names : s.hostVeth ≠ t.hostVeth ∧ s.hostVeth ≠ t.peerVeth ∧ s.peerVeth ≠ t.hostVeth ∧
    s.peerVeth ≠ t.peerVeth

/-- The mask drops the last two bits. -/
theorem toNat_and_mask (ip : UInt32) : (ip &&& 0xFFFFFFFC).toNat = 4 * (ip.toNat / 4) := by
  have hshift : 4 * (ip.toNat / 4) = (ip.toNat >>> 2) <<< 2 := by
    rw [Nat.shiftRight_eq_div_pow, Nat.shiftLeft_eq, Nat.mul_comm]
  rw [UInt32.toNat_and, hshift]
  refine Nat.eq_of_testBit_eq fun i ↦ ?_
  rw [Nat.testBit_and, Nat.testBit_shiftLeft, Nat.testBit_shiftRight]
  by_cases hi : i < 32
  · have hmask : ∀ i < 32, (0xFFFFFFFC : UInt32).toNat.testBit i = decide (2 ≤ i) := by decide
    rw [hmask i hi]
    by_cases htwo : 2 ≤ i
    · simp [htwo]
    · simp [htwo]
  · have hbit : ip.toNat.testBit i = false :=
      Nat.testBit_lt_two_pow (lt_of_lt_of_le ip.toNat_lt (Nat.pow_le_pow_right (by decide) (by omega)))
    have hsum : 2 + (i - 2) = i := by omega
    rw [hsum, hbit, Bool.false_and, Bool.and_false]

section Index

variable {c : Cidr} {k k' : ℕ}

theorem toNat_offset {n : ℕ} (h : n < c.size) : (offset c.base n).toNat = c.base.toNat + n := by
  have hend := c.base_add_size_le
  rw [offset, UInt32.toNat_add, UInt32.toNat_ofNat']
  omega

theorem contains_offset {n : ℕ} (h : n < c.size) : c.Contains (offset c.base n) := by
  rw [c.contains_iff, toNat_offset h]
  omega

/-- The subnet of an index covers four addresses. -/
theorem covers_subnet (h : k < c.capacity) {ip : UInt32} :
    (subnet c.base k).Covers ip ↔
      c.base.toNat + 4 * k ≤ ip.toNat ∧ ip.toNat < c.base.toNat + 4 * k + 4 := by
  have hsize := c.size_eq
  have hhost : (offset c.base (4 * k + 1)).toNat = c.base.toNat + (4 * k + 1) :=
    toNat_offset (by omega)
  obtain ⟨q, hq⟩ : c.size ∣ c.base.toNat := c.aligned
  have hfour : c.base.toNat = 4 * (c.capacity * q) := by rw [hq, hsize, Nat.mul_assoc]
  rw [Subnet.Covers, subnet, ← UInt32.toNat_inj, toNat_and_mask, toNat_and_mask, hhost, hfour]
  omega

theorem subnet_inj (h : subnet c.base k = subnet c.base k') : k = k' := congrArg Subnet.index h

/-- The subnets of different indices are apart. -/
theorem apart_subnet (hk : k < c.capacity) (hk' : k' < c.capacity) (hne : k ≠ k') :
    Apart (subnet c.base k) (subnet c.base k') := by
  constructor
  · rintro ip ⟨h, h'⟩
    rw [covers_subnet hk] at h
    rw [covers_subnet hk'] at h'
    omega
  · have hname : ∀ {x : String}, x ++ toString k ≠ x ++ toString k' := by
      intro x heq
      exact hne (Data.toString_injective ((String.append_right_inj x).mp heq))
    have hside : ∀ {i j : ℕ}, "vh" ++ toString i ≠ "vs" ++ toString j := by
      intro i j heq
      have := congrArg (fun x ↦ x.toList.take 2) heq
      simp at this
    exact ⟨hname, hside, hside.symm, hname⟩

/-- The addresses that a subnet uses lie in the network. -/
theorem contains_subnet (h : k < c.capacity) :
    c.Contains (subnet c.base k).hostIP ∧ c.Contains (subnet c.base k).sandboxIP := by
  have hsize := c.size_eq
  exact ⟨contains_offset (by omega), contains_offset (by omega)⟩

/-- Every address of the network is covered by one of its subnets. -/
theorem exists_covers {ip : UInt32} (h : c.Contains ip) :
    ∃ k < c.capacity, (subnet c.base k).Covers ip := by
  obtain ⟨hlo, hhi⟩ := c.contains_iff.mp h
  have hsize := c.size_eq
  have hk : (ip.toNat - c.base.toNat) / 4 < c.capacity := by omega
  refine ⟨(ip.toNat - c.base.toNat) / 4, hk, ?_⟩
  rw [covers_subnet hk]
  omega

end Index

/-! ## Runs of an allocator -/

/-- A call to an allocator. -/
inductive Call
  | allocate
  | free (s : Subnet)

/-- An allocator and the subnets that are held. -/
structure Ledger where
  alloc : Allocator
  held : List Subnet

/-- `NewAllocator`. -/
def Allocator.new (c : Cidr) : Allocator := ⟨c.base, ∅⟩

def Ledger.start (c : Cidr) : Ledger := ⟨.new c, []⟩

/-- A call, and what it does to the subnets that are held.  Only held subnets are freed. -/
inductive Step : Call → Ledger → Ledger → Prop
  | allocate {l : Ledger} {s : Subnet} {a : Allocator} :
      l.alloc.allocate = (.ok s, a) → Step .allocate l ⟨a, s :: l.held⟩
  | refuse {l : Ledger} {err : Err} {a : Allocator} :
      l.alloc.allocate = (.error err, a) → Step .allocate l ⟨a, l.held⟩
  | free {l : Ledger} {s : Subnet} :
      s ∈ l.held → Step (.free s) l ⟨l.alloc.free s, l.held.erase s⟩

/-- Every address of the network is held. -/
def Full (c : Cidr) (held : List Subnet) : Prop := ∀ ip, c.Contains ip → ∃ s ∈ held, s.Covers ip

/-- Subnets are only asked for while some of the network is free. -/
def Roomy (c : Cidr) : Call → Ledger → Prop
  | .allocate, l => ¬ Full c l.held
  | .free _, _ => True

/-- The subnets that are held lie in the network and apart from each other. -/
structure Sound (c : Cidr) (held : List Subnet) : Prop where
  inside : ∀ s ∈ held, c.Contains s.hostIP ∧ c.Contains s.sandboxIP
  apart : held.Pairwise Apart

/-- The next call of `Allocate` does what it should: it fails and changes nothing if the
network is full, and otherwise hands out a subnet of the network apart from those held. -/
def Meets (c : Cidr) (l : Ledger) : Prop :=
  (Full c l.held → ∃ err, l.alloc.allocate = (.error err, l.alloc)) ∧
    (¬ Full c l.held → ∃ s a, l.alloc.allocate = (.ok s, a) ∧
      (c.Contains s.hostIP ∧ c.Contains s.sandboxIP) ∧ ∀ t ∈ l.held, Apart s t)

/-- The allocator after `n` further calls. -/
def Allocator.allocates (a : Allocator) : ℕ → Allocator
  | 0 => a
  | n + 1 => a.allocate.2.allocates n

/-- A subnet is handed out again, some calls after it has been freed. -/
def Returns (a : Allocator) (s : Subnet) : Prop :=
  ∃ n, ((a.free s).allocates n).allocate.1 = .ok s

/-- What holds of a ledger in a run that is roomy: the allocator's indices are those of the
subnets that are held, each of which is the subnet of its index. -/
structure Tracks (c : Cidr) (l : Ledger) : Prop where
  base : l.alloc.base = c.base
  used : ∀ k, k ∈ l.alloc.used ↔ subnet c.base k ∈ l.held
  index : ∀ s ∈ l.held, s.index < c.capacity ∧ s = subnet c.base s.index
  nodup : l.held.Nodup

section Runs

variable {c : Cidr} {l l' : Ledger}

theorem Tracks.full_iff (h : Tracks c l) : Full c l.held ↔ ∀ k < c.capacity, k ∈ l.alloc.used := by
  constructor
  · intro hfull k hk
    obtain ⟨s, hs, hcovers⟩ := hfull _ (contains_subnet hk).2
    obtain ⟨hindex, heq⟩ := h.index s hs
    have hown : (subnet c.base k).Covers (subnet c.base k).sandboxIP := by
      have hsize := c.size_eq
      have hip : (offset c.base (4 * k + 2)).toNat = _ := toNat_offset (by omega)
      rw [covers_subnet hk, subnet, hip]
      omega
    rw [heq] at hcovers
    have hsame : s.index = k := by
      by_contra hne
      exact (apart_subnet hindex hk hne).addresses _ ⟨hcovers, hown⟩
    rw [h.used, ← hsame, ← heq]
    exact hs
  · intro hused ip hip
    obtain ⟨k, hk, hcovers⟩ := exists_covers hip
    exact ⟨_, (h.used k).mp (hused k hk), hcovers⟩

/-- No index below the one that is taken is free. -/
theorem mem_used_of_lt_next {a : Allocator} {k : ℕ} (h : k < a.next) : k ∈ a.used :=
  (firstFree_spec (by simp) (by omega)).2 (Finset.mem_range.mpr h)

theorem Tracks.next_lt (h : Tracks c l) (hroom : ¬ Full c l.held) : l.alloc.next < c.capacity := by
  rw [h.full_iff] at hroom
  push Not at hroom
  obtain ⟨k, hk, hfree⟩ := hroom
  have hle : l.alloc.next ≤ k := not_lt.mp fun hlt ↦ hfree (mem_used_of_lt_next hlt)
  omega

theorem Tracks.start : Tracks c (.start c) := by
  refine ⟨rfl, fun k ↦ ?_, fun s hs ↦ absurd hs List.not_mem_nil, List.nodup_nil⟩
  simp [Ledger.start, Allocator.new]

/-- A roomy call keeps track. -/
theorem Tracks.step {call : Call} (h : Tracks c l) (hroom : Roomy c call l)
    (hstep : Step call l l') : Tracks c l' := by
  cases hstep with
  | allocate heq =>
      obtain ⟨hs, ha⟩ := Prod.mk.inj heq
      obtain rfl := Except.ok.inj hs
      obtain rfl := ha
      have hnext := h.next_lt hroom
      rw [h.base]
      refine ⟨rfl, fun k ↦ ?_, ?_, ?_⟩
      · rw [Finset.mem_insert, List.mem_cons, h.used]
        refine or_congr_left ⟨fun hk ↦ hk ▸ rfl, subnet_inj⟩
      · rintro s hs
        rcases List.mem_cons.mp hs with rfl | hs
        · exact ⟨hnext, rfl⟩
        · exact h.index s hs
      · refine List.nodup_cons.mpr ⟨fun hmem ↦ ?_, h.nodup⟩
        exact l.alloc.next_notMem ((h.used _).mpr hmem)
  | refuse heq => exact nomatch (Prod.mk.inj heq).1
  | free hs =>
      rename_i s
      obtain ⟨-, heq⟩ := h.index s hs
      refine ⟨h.base, fun k ↦ ?_, fun t ht ↦ h.index t (List.mem_of_mem_erase ht), h.nodup.erase s⟩
      rw [Allocator.free, Finset.mem_erase, h.used, h.nodup.mem_erase_iff]
      refine and_congr_left fun _ ↦ not_congr ⟨fun hk ↦ hk ▸ heq.symm, fun hk ↦ hk ▸ rfl⟩

theorem Tracks.sound (h : Tracks c l) : Sound c l.held := by
  constructor
  · intro s hs
    obtain ⟨hindex, heq⟩ := h.index s hs
    rw [heq]
    exact contains_subnet hindex
  · refine h.nodup.pairwise_of_forall_ne fun s hs t ht hne ↦ ?_
    obtain ⟨hindex, heq⟩ := h.index s hs
    obtain ⟨hindex', heq'⟩ := h.index t ht
    rw [heq, heq']
    exact apart_subnet hindex hindex' fun hi ↦ hne (by rw [heq, heq', hi])

theorem Tracks.meets_iff (h : Tracks c l) : Meets c l ↔ ¬ Full c l.held := by
  constructor
  · rintro ⟨hfails, -⟩ hfull
    obtain ⟨err, heq⟩ := hfails hfull
    exact nomatch (Prod.mk.inj heq).1
  · intro hroom
    refine ⟨fun hfull ↦ absurd hfull hroom, fun _ ↦ ⟨_, _, rfl, ?_, fun t ht ↦ ?_⟩⟩
    · rw [h.base]
      exact contains_subnet (h.next_lt hroom)
    · obtain ⟨hindex, heq⟩ := h.index t ht
      rw [h.base, heq]
      refine apart_subnet (h.next_lt hroom) hindex fun hnext ↦ l.alloc.next_notMem ?_
      rw [h.used, hnext, ← heq]
      exact ht

/-- A free index is taken after those below it. -/
theorem exists_allocates {a : Allocator} {k : ℕ} (hfree : k ∉ a.used) :
    ∃ n, (a.allocates n).allocate.1 = .ok (subnet a.base k) := by
  -- by the number of free indices below `k`
  obtain ⟨m, hm⟩ : ∃ m, (Finset.range k \ a.used).card = m := ⟨_, rfl⟩
  induction m using Nat.strong_induction_on generalizing a with
  | _ m ih =>
      by_cases hnext : a.next = k
      · refine ⟨0, ?_⟩
        rw [← hnext]
        rfl
      · have hlt : a.next < k :=
          lt_of_le_of_ne (not_lt.mp fun hlt ↦ hfree (mem_used_of_lt_next hlt)) hnext
        have hfewer : (Finset.range k \ a.allocate.2.used).card < m := by
          rw [← hm]
          refine Finset.card_lt_card ?_
          rw [Finset.ssubset_iff_of_subset]
          · refine ⟨a.next, ?_, ?_⟩
            · simp [hlt, a.next_notMem]
            · simp [Allocator.allocate]
          · exact Finset.sdiff_subset_sdiff (subset_refl _) (Finset.subset_insert _ _)
        obtain ⟨n, hn⟩ := ih _ hfewer (a := a.allocate.2) (by
          simp only [Allocator.allocate, Finset.mem_insert, not_or]
          exact ⟨Ne.symm hnext, hfree⟩) rfl
        exact ⟨n + 1, hn⟩

theorem Tracks.returns (h : Tracks c l) {s : Subnet} (hs : s ∈ l.held) : Returns l.alloc s := by
  obtain ⟨-, heq⟩ := h.index s hs
  obtain ⟨n, hn⟩ : ∃ n, ((l.alloc.free s).allocates n).allocate.1 =
      .ok (subnet (l.alloc.free s).base s.index) := exists_allocates (Finset.notMem_erase _ _)
  refine ⟨n, hn.trans ?_⟩
  rw [Allocator.free, h.base, ← heq]

end Runs

/-- In every run of an allocator in which subnets are only asked for while some of the network
is free, the subnets held lie in the network and apart, a freed one is handed out again, and
the next call does what it should if and only if the network is not full. -/
theorem allocator_meets_iff (c : Cidr) {l : Ledger}
    (hrun : Run Step (Roomy c) (.start c) l) :
    Sound c l.held ∧ (∀ s ∈ l.held, Returns l.alloc s) ∧ (Meets c l ↔ ¬ Full c l.held) := by
  have htracks : Tracks c l := hrun.invariant (fun _ _ _ h hroom hstep ↦ h.step hroom hstep) .start
  exact ⟨htracks.sound, fun s hs ↦ htracks.returns hs, htracks.meets_iff⟩

/-! ## A full network -/

/-- A network of a single /30. -/
def smallest : Cidr where
  base := 0x0A580000
  len := 30
  len_le := le_refl _
  aligned := by decide

theorem not_full_start (c : Cidr) : ¬ Full c [] := by
  intro hfull
  obtain ⟨s, hs, -⟩ := hfull c.base rfl
  exact absurd hs List.not_mem_nil

/-- At first the only subnet of the network is handed out. -/
theorem allocator_meets_smallest : Meets smallest (.start smallest) :=
  (allocator_meets_iff smallest .refl).2.2.mpr (not_full_start smallest)

/-- When it is held the next call succeeds all the same, with addresses that are not in the
network. -/
theorem allocate_beyond_full :
    Run Step (Roomy smallest) (.start smallest)
        ⟨(Allocator.new smallest).allocate.2, [subnet smallest.base 0]⟩ ∧
      Full smallest [subnet smallest.base 0] ∧
      (Allocator.new smallest).allocate.2.allocate.1 = .ok (subnet smallest.base 1) ∧
      ¬ smallest.Contains (subnet smallest.base 1).hostIP ∧
      ¬ smallest.Contains (subnet smallest.base 1).sandboxIP := by
  have hfirst : Roomy smallest .allocate (.start smallest) := not_full_start smallest
  refine ⟨.tail .refl hfirst (.allocate rfl), ?_, rfl, by decide, by decide⟩
  intro ip hip
  obtain ⟨k, hk, hcovers⟩ := exists_covers hip
  obtain rfl : k = 0 := Nat.lt_one_iff.mp hk
  exact ⟨_, List.mem_singleton_self _, hcovers⟩

end GigMcp.Netmgr
