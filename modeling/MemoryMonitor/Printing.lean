import MemoryMonitor.GuiServer
import Mathlib.Data.List.TakeWhile

/-! # Numbers in decimal

What `%d` and its relatives print, `%d` and its relatives read back: the digits end where
something else begins.
-/
namespace MemoryMonitor

open CString

/-- What holds of the 256 bytes. -/
theorem forall_byte {P : UInt8 → Prop} (h : ∀ n < 256, P (UInt8.ofNat n)) (c : UInt8) : P c := by
  rw [← UInt8.ofNat_toNat (x := c)]
  exact h c.toNat (UInt8.toNat_lt c)

/-- A text without a NUL is in the C string up to its end. -/
theorem cstr_append {a b : List UInt8} (h : 0 ∉ a) : cstr (a ++ b) = a ++ cstr b := by
  unfold cstr
  refine List.takeWhile_append_of_pos fun c hc => ?_
  simpa using ne_of_mem_of_not_mem hc h

/-- A digit is neither a blank nor a sign, nor any of the bytes that end a text. -/
theorem isDigit_plain {d : UInt8} (h : isDigit d = true) :
    isSpace d = false ∧ d ≠ 45 ∧ d ≠ 43 ∧ d ≠ 0 ∧ d ≠ 40 ∧ d ≠ 41 := by
  have hall : ∀ c : UInt8, isDigit c = true →
      isSpace c = false ∧ c ≠ 45 ∧ c ≠ 43 ∧ c ≠ 0 ∧ c ≠ 40 ∧ c ≠ 41 := by
    refine forall_byte ?_
    decide +kernel
  exact hall d h

/-- The text does not go on with a digit. -/
def NoDigit (t : List UInt8) : Prop := ∀ c s, t = c :: s → isDigit c = false

theorem noDigit_nil : NoDigit [] := by
  intro c s h
  cases h

theorem noDigit_cons {c : UInt8} (h : isDigit c = false) (t : List UInt8) : NoDigit (c :: t) := by
  intro d s heq
  rw [← (List.cons.inj heq).1]
  exact h

/-- The byte of a digit. -/
theorem digitChar_byte {d : Nat} (h : d < 10) :
    (Nat.digitChar d).toNat.toUInt8 = (48 + d).toUInt8 := by
  revert d
  decide

/-- The last digit, and the digits before it. -/
theorem decimal_eq (n : Nat) :
    decimal n = (if n < 10 then [] else decimal (n / 10)) ++ [(48 + n % 10).toUInt8] := by
  unfold decimal
  rw [Nat.toDigits_eq_if (by decide)]
  split
  · rename_i h
    simp [digitChar_byte h, Nat.mod_eq_of_lt h]
  · simp [digitChar_byte (Nat.mod_lt n (show 0 < 10 by decide))]

theorem isDigit_last (n : Nat) : isDigit (48 + n % 10).toUInt8 = true := by
  have h : ∀ d < 10, isDigit (48 + d).toUInt8 = true := by decide
  exact h _ (Nat.mod_lt n (by decide))

theorem isDigit_of_mem_decimal {n : Nat} {b : UInt8} (h : b ∈ decimal n) : isDigit b = true := by
  induction n using Nat.strongRecOn with
  | ind n ih =>
    rw [decimal_eq, List.mem_append, List.mem_singleton] at h
    rcases h with h | rfl
    · split at h
      · cases h
      · exact ih (n / 10) (by omega) h
    · exact isDigit_last n

theorem decimal_ne_nil (n : Nat) : decimal n ≠ [] := by
  rw [decimal_eq]
  simp

/-- **Reading the digits of a number gives the number.** -/
theorem ofDigits_decimal (n : Nat) : ofDigits (decimal n) = n := by
  induction n using Nat.strongRecOn with
  | ind n ih =>
    have hlast : (48 + n % 10).toUInt8.toNat - 48 = n % 10 := by
      have h : ∀ d < 10, (48 + d).toUInt8.toNat - 48 = d := by decide
      exact h _ (Nat.mod_lt n (by decide))
    rw [decimal_eq]
    unfold ofDigits at ih ⊢
    rw [List.foldl_append, List.foldl_cons, List.foldl_nil, hlast]
    split
    · rw [List.foldl_nil]
      omega
    · rw [ih (n / 10) (by omega)]
      omega

theorem decimal_length {n k : Nat} (hk : 0 < k) (h : n < 10 ^ k) : (decimal n).length ≤ k := by
  unfold decimal
  rw [List.length_map]
  exact (Nat.length_toDigits_le_iff (by decide) hk).mpr h

theorem decimalInt_length {n : Int} {k : Nat} (hk : 0 < k) (h : n.natAbs < 10 ^ k) :
    (decimalInt n).length ≤ k + 1 := by
  have := decimal_length hk h
  unfold decimalInt
  split
  · rw [List.length_cons]
    omega
  · omega

/-- The bytes of a printed number. -/
theorem mem_decimalInt {n : Int} {b : UInt8} (h : b ∈ decimalInt n) : b = 45 ∨ isDigit b = true := by
  unfold decimalInt at h
  split at h
  · rcases List.mem_cons.mp h with h | h
    · exact Or.inl h
    · exact Or.inr (isDigit_of_mem_decimal h)
  · exact Or.inr (isDigit_of_mem_decimal h)

/-- A printed number begins with no blank. -/
theorem dropWhile_decimalInt (n : Int) (t : List UInt8) :
    (decimalInt n ++ t).dropWhile isSpace = decimalInt n ++ t := by
  obtain ⟨d, ds, hds⟩ := List.exists_cons_of_ne_nil (decimal_ne_nil n.natAbs)
  have hdigit : isDigit d = true := isDigit_of_mem_decimal (n := n.natAbs) (by simp [hds])
  unfold decimalInt
  split
  · exact List.dropWhile_cons_of_neg (by decide)
  · rw [hds]
    exact List.dropWhile_cons_of_neg (by simp [isDigit_plain hdigit])

theorem takeWhile_digits {ds t : List UInt8} (hd : ∀ b ∈ ds, isDigit b = true) (ht : NoDigit t) :
    (ds ++ t).takeWhile isDigit = ds ∧ (ds ++ t).dropWhile isDigit = t := by
  have htail : t.takeWhile isDigit = [] ∧ t.dropWhile isDigit = t := by
    cases t with
    | nil => exact ⟨rfl, rfl⟩
    | cons c s =>
      have hc := ht c s rfl
      exact ⟨List.takeWhile_cons_of_neg (by simp [hc]), List.dropWhile_cons_of_neg (by simp [hc])⟩
  constructor
  · rw [List.takeWhile_append_of_pos hd, htail.1, List.append_nil]
  · rw [List.dropWhile_append_of_pos hd, htail.2]

/-- **Printed numbers are read back**, behind any number of blanks. -/
theorem scanInt_decimalInt (w : List UInt8) (hw : ∀ b ∈ w, isSpace b = true) (n : Int)
    {t : List UInt8} (ht : NoDigit t) : scanInt (w ++ (decimalInt n ++ t)) = some (n, t) := by
  obtain ⟨h1, h2⟩ := takeWhile_digits (fun b hb => isDigit_of_mem_decimal (n := n.natAbs) hb) ht
  obtain ⟨d, ds, hds⟩ := List.exists_cons_of_ne_nil (decimal_ne_nil n.natAbs)
  have hdigit : isDigit d = true := isDigit_of_mem_decimal (n := n.natAbs) (by simp [hds])
  have hplain := isDigit_plain hdigit
  unfold scanInt
  rw [List.dropWhile_append_of_pos hw, dropWhile_decimalInt]
  unfold decimalInt
  by_cases hn : n < 0
  · rw [if_pos hn, List.cons_append]
    simp only [sign, h1, h2, if_neg (decimal_ne_nil n.natAbs), if_true, ofDigits_decimal]
    rw [show -(n.natAbs : Int) = n by omega]
  · have hsign : sign (decimal n.natAbs ++ t) = (false, decimal n.natAbs ++ t) := by
      rw [hds, List.cons_append]
      unfold sign
      split
      · rename_i heq
        exact absurd (List.cons.inj heq).1 hplain.2.1
      · rename_i heq
        exact absurd (List.cons.inj heq).1 hplain.2.2.1
      · rfl
    rw [if_neg hn, hsign]
    simp only [h1, h2, if_neg (decimal_ne_nil n.natAbs), Bool.false_eq_true, if_false,
      ofDigits_decimal]
    rw [show (n.natAbs : Int) = n by omega]

end MemoryMonitor
