import Mathlib.Data.Set.Function
import Mathlib.Data.Nat.ModEq

/-! # Little-endian byte memory

A memory is a total function from addresses to bytes.  `readLE` and `writeLE`
access `n` consecutive bytes as one little-endian number; `overwrite` replaces a
range by the bytes of another function, which is what a bulk copy, a bulk fill
and the kernel's page handling do.

Everything later proofs need is here: a read after a write of the same range
gives the value back, a read of a disjoint range is unchanged, and a read depends
only on the bytes it covers.  The frame of an update is stated with `Set.EqOn`
on the complement of what it may write.
-/
namespace ByteMemory

/-- Byte-addressed memory. -/
abbrev Mem := Nat → UInt8

/-- The `n` bytes at `a` as a little-endian number. -/
def readLE (m : Mem) (a : Nat) : Nat → Nat
  | 0 => 0
  | n + 1 => (m a).toNat + 256 * readLE m (a + 1) n

/-- Store the low `n` bytes of `v` at `a`, least significant byte first. -/
def writeLE (m : Mem) (a n v : Nat) : Mem := fun x =>
  if a ≤ x ∧ x < a + n then UInt8.ofNat (v / 256 ^ (x - a)) else m x

/-- Replace the `n` bytes at `a` by those of `f`. -/
def overwrite (m : Mem) (a n : Nat) (f : Nat → UInt8) : Mem := fun x =>
  if a ≤ x ∧ x < a + n then f x else m x

/-- The bytes of a range. -/
def range (a n : Nat) : Set Nat := {x | a ≤ x ∧ x < a + n}

theorem mem_range {a n x : Nat} : x ∈ range a n ↔ a ≤ x ∧ x < a + n := Iff.rfl

theorem range_subset {a n b k : Nat} (h : b ≤ a) (h' : a + n ≤ b + k) : range a n ⊆ range b k := by
  intro x hx
  simp only [mem_range] at hx ⊢
  omega

/-! ## Reads -/

/-- A read depends only on the bytes it covers, wherever they are. -/
theorem readLE_shift {m m' : Mem} : ∀ {n a b : Nat}, (∀ i, i < n → m' (a + i) = m (b + i)) →
    readLE m' a n = readLE m b n
  | 0, _, _, _ => rfl
  | n + 1, a, b, h => by
      have h0 := h 0 (by omega)
      have ih : readLE m' (a + 1) n = readLE m (b + 1) n := by
        refine readLE_shift fun i hi => ?_
        have := h (i + 1) (by omega)
        rwa [Nat.add_right_comm a, Nat.add_right_comm b]
      rw [Nat.add_zero, Nat.add_zero] at h0
      rw [readLE, readLE, h0, ih]

theorem readLE_congr {m m' : Mem} {n a : Nat} (h : ∀ x, a ≤ x → x < a + n → m' x = m x) :
    readLE m' a n = readLE m a n :=
  readLE_shift fun i hi => h (a + i) (by omega) (by omega)

theorem readLE_of_eqOn {m m' : Mem} {a n : Nat} {W : Set Nat} (h : Set.EqOn m' m W)
    (hW : range a n ⊆ W) : readLE m' a n = readLE m a n :=
  readLE_congr fun _ hx hx' => h (hW ⟨hx, hx'⟩)

theorem readLE_lt (m : Mem) : ∀ (n a : Nat), readLE m a n < 256 ^ n
  | 0, _ => by simp [readLE]
  | n + 1, a => by
      have hb := (m a).toNat_lt
      have ih := readLE_lt m n (a + 1)
      rw [readLE, Nat.pow_succ]
      omega

/-- A read in two parts. -/
theorem readLE_add (m : Mem) (k : Nat) : ∀ (n a : Nat),
    readLE m a (n + k) = readLE m a n + 256 ^ n * readLE m (a + n) k
  | 0, a => by rw [Nat.zero_add, readLE, Nat.zero_add, Nat.pow_zero, Nat.one_mul, Nat.add_zero]
  | n + 1, a => by
      have hn : a + 1 + n = a + (n + 1) := by omega
      rw [Nat.add_right_comm n 1 k, readLE, readLE, readLE_add m k n (a + 1), hn, Nat.pow_succ,
        Nat.mul_add, Nat.mul_comm (256 ^ n) 256, Nat.mul_assoc, Nat.add_assoc]

/-- The low bytes of a read. -/
theorem readLE_mod (m : Mem) (a n k : Nat) : readLE m a (n + k) % 256 ^ n = readLE m a n := by
  rw [readLE_add, Nat.add_mul_mod_self_left, Nat.mod_eq_of_lt (readLE_lt m n a)]

/-- Zero bytes read as zero. -/
theorem readLE_eq_zero {m : Mem} : ∀ {n a : Nat}, (∀ x, a ≤ x → x < a + n → m x = 0) →
    readLE m a n = 0
  | 0, _, _ => rfl
  | n + 1, a, h => by
      rw [readLE, h a (by omega) (by omega), readLE_eq_zero fun x h1 h2 => h x (by omega) (by omega)]
      rfl

/-- A number none of whose bytes is zero is not read from a range that holds a
zero byte. -/
theorem readLE_ne_of_zero {m : Mem} : ∀ {n a v : Nat}, (∀ i, i < n → v / 256 ^ i % 256 ≠ 0) →
    (∃ x, a ≤ x ∧ x < a + n ∧ m x = 0) → readLE m a n ≠ v
  | 0, a, _, _, ⟨x, h1, h2, _⟩ => by omega
  | n + 1, a, v, hv, ⟨x, h1, h2, h3⟩ => by
      intro he
      rw [readLE] at he
      have hb := (m a).toNat_lt
      by_cases hxa : x = a
      · rw [hxa] at h3
        have h0 := hv 0 (by omega)
        rw [h3] at he
        simp only [UInt8.toNat_zero, pow_zero, Nat.div_one] at he h0
        omega
      · refine readLE_ne_of_zero (n := n) (a := a + 1) (v := v / 256) ?_
          ⟨x, by omega, by omega, h3⟩ (by omega)
        intro i hi
        have := hv (i + 1) (by omega)
        rwa [Nat.pow_succ, Nat.mul_comm, ← Nat.div_div_eq_div_mul] at this

/-! ## Writes -/

theorem writeLE_of_disjoint {m : Mem} {a n v x : Nat} (h : x < a ∨ a + n ≤ x) :
    writeLE m a n v x = m x := by
  rw [writeLE, if_neg (by omega)]

/-- A write changes only its own range. -/
theorem writeLE_eqOn (m : Mem) (a n v : Nat) : Set.EqOn (writeLE m a n v) m (range a n)ᶜ := by
  intro x hx
  simp only [Set.mem_compl_iff, mem_range] at hx
  exact writeLE_of_disjoint (by omega)

/-- The same write on two memories keeps them equal where they were. -/
theorem writeLE_congr {m m' : Mem} {W : Set Nat} (h : Set.EqOn m' m W) (a n v : Nat) :
    Set.EqOn (writeLE m' a n v) (writeLE m a n v) W := by
  intro x hx
  simp only [writeLE]
  split
  · rfl
  · exact h hx

theorem overwrite_of_disjoint {m : Mem} {a n x : Nat} {f : Nat → UInt8} (h : x < a ∨ a + n ≤ x) :
    overwrite m a n f x = m x := by
  rw [overwrite, if_neg (by omega)]

theorem overwrite_of_mem {m : Mem} {a n x : Nat} {f : Nat → UInt8} (h : a ≤ x ∧ x < a + n) :
    overwrite m a n f x = f x := by
  rw [overwrite, if_pos h]

theorem overwrite_eqOn (m : Mem) (a n : Nat) (f : Nat → UInt8) :
    Set.EqOn (overwrite m a n f) m (range a n)ᶜ := by
  intro x hx
  simp only [Set.mem_compl_iff, mem_range] at hx
  exact overwrite_of_disjoint (by omega)

/-- **A read of a disjoint range is unchanged by a write.** -/
theorem readLE_writeLE_disjoint {m : Mem} {a n v b k : Nat} (h : b + k ≤ a ∨ a + n ≤ b) :
    readLE (writeLE m a n v) b k = readLE m b k :=
  readLE_congr fun _ _ _ => writeLE_of_disjoint (by omega)

/-- Reading a part of a written range gives the corresponding bytes of the value. -/
theorem readLE_writeLE_part {m : Mem} {a n v : Nat} : ∀ {k i : Nat}, i + k ≤ n →
    readLE (writeLE m a n v) (a + i) k = v / 256 ^ i % 256 ^ k
  | 0, i, _ => by rw [readLE, Nat.pow_zero, Nat.mod_one]
  | k + 1, i, h => by
      have hbyte : (writeLE m a n v (a + i)).toNat = v / 256 ^ i % 256 := by
        rw [writeLE, if_pos (by omega), UInt8.toNat_ofNat', show a + i - a = i by omega]
      rw [readLE, hbyte, show a + i + 1 = a + (i + 1) by omega,
        readLE_writeLE_part (by omega), Nat.pow_succ, ← Nat.div_div_eq_div_mul, Nat.pow_succ,
        Nat.mul_comm (256 ^ k) 256, Nat.mod_mul]

/-- **A read of the range just written gives the value**, when it fits. -/
theorem readLE_writeLE_same {m : Mem} {a n v : Nat} (hv : v < 256 ^ n) :
    readLE (writeLE m a n v) a n = v := by
  have h := readLE_writeLE_part (m := m) (a := a) (n := n) (v := v) (k := n) (i := 0) (by omega)
  rwa [Nat.add_zero, Nat.pow_zero, Nat.div_one, Nat.mod_eq_of_lt hv] at h

-- From here on reads and writes are known by the lemmas above only; unfolding them
-- at a symbolic address helps nobody.
attribute [irreducible] readLE writeLE

end ByteMemory
