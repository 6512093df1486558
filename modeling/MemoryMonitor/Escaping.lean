import MemoryMonitor.Printing
import MemoryMonitor.JsonText

/-! # Escaping

`escape_json_string` spells each byte of a name as one character of a JSON string.  It
asks for room once, before it knows how long the spelling is, and stops when a longest
one might not fit; what it has written is then the spelling of a prefix.
-/
namespace MemoryMonitor

open CString JsonText

/-- A hexadecimal digit, in lower case as `%x` prints it. -/
def hexOf (d : Fin 16) : Hex where
  byte := if d.val < 10 then (48 + d.val).toUInt8 else (87 + d.val).toUInt8
  valid := by
    revert d
    decide

/-- The character that `escape_json_string` spells a byte as. -/
def spelling (c : UInt8) : StrChar :=
  if h1 : c = 34 then .escape .quote
  else if h2 : c = 92 then .escape .backslash
  else if c = 8 then .escape .b
  else if c = 12 then .escape .f
  else if c = 10 then .escape .n
  else if c = 13 then .escape .r
  else if c = 9 then .escape .t
  else if h3 : c < 32 then
    .unicode (hexOf 0) (hexOf 0)
      (hexOf ⟨c.toNat / 16, by have := UInt8.toNat_lt c; omega⟩)
      (hexOf ⟨c.toNat % 16, Nat.mod_lt _ (by decide)⟩)
  else .plain c ⟨UInt8.not_lt.mp h3, h1, h2⟩

theorem spelling_text (c : UInt8) : (spelling c).text = escapeByte c := by
  revert c
  refine forall_byte ?_
  decide +kernel

theorem spelling_byte? (c : UInt8) : (spelling c).byte? = some c := by
  revert c
  refine forall_byte ?_
  decide +kernel

theorem escapeByte_length (c : UInt8) : 1 ≤ (escapeByte c).length ∧ (escapeByte c).length ≤ 6 := by
  revert c
  refine forall_byte ?_
  decide +kernel

/-- The whole spelling of a name. -/
def escaped (s : List UInt8) : List UInt8 := s.flatMap escapeByte

theorem escaped_eq_inner (s : List UInt8) : escaped s = inner (s.map spelling) := by
  unfold escaped JsonText.inner
  rw [List.flatMap_map]
  simp only [spelling_text]

/-- **Reading undoes escaping.** -/
theorem unescape_escaped (s : List UInt8) : unescape (escaped s) = some s := by
  rw [escaped_eq_inner, unescape_inner, List.mapM_map]
  induction s with
  | nil => rfl
  | cons c s ih =>
    rw [List.mapM_cons, ih]
    simp [spelling_byte?]

/-- The bytes that are spelled before the room may not do, with `idx` bytes written. -/
def spelledCount (maxOut : Nat) : Nat → List UInt8 → Nat
  | _, [] => 0
  | idx, c :: s =>
    if idx + 6 < maxOut then spelledCount maxOut (idx + (escapeByte c).length) s + 1 else 0

/-- **The loop writes the spelling of a prefix.** -/
theorem escapeLoop_eq (maxOut idx : Nat) (s : List UInt8) :
    escapeLoop maxOut idx s = escaped (s.take (spelledCount maxOut idx s)) := by
  induction s generalizing idx with
  | nil => rfl
  | cons c s ih =>
    rw [escapeLoop, spelledCount]
    split
    · rw [ih, List.take_succ_cons]
      rfl
    · rfl

/-- The loop leaves a byte for the terminator. -/
theorem escapeLoop_length {maxOut idx : Nat} (s : List UInt8) (h : idx < maxOut) :
    idx + (escapeLoop maxOut idx s).length < maxOut := by
  induction s generalizing idx with
  | nil => exact h
  | cons c s ih =>
    rw [escapeLoop]
    split
    · have hc := (escapeByte_length c).2
      have := ih (show idx + (escapeByte c).length < maxOut by omega)
      rw [List.length_append]
      omega
    · exact h

/-- The loop stops only where a longest spelling might not fit. -/
theorem spelledCount_of_lt {maxOut idx : Nat} {s : List UInt8}
    (h : idx + (escaped s).length + 6 < maxOut) : spelledCount maxOut idx s = s.length := by
  induction s generalizing idx with
  | nil => rfl
  | cons c s ih =>
    have hlen : (escaped (c :: s)).length = (escapeByte c).length + (escaped s).length := by
      rw [escaped, List.flatMap_cons, List.length_append]
      rfl
    rw [spelledCount, if_pos (by omega), ih (by omega)]
    rfl

/-- With the terminator at most `maxOut` bytes are written. -/
theorem escapeJsonString_length (s : List UInt8) {maxOut : Nat} (h : 1 ≤ maxOut) :
    (escapeJsonString s maxOut).length + 1 ≤ maxOut := by
  have := escapeLoop_length s (show 0 < maxOut from h)
  unfold escapeJsonString
  omega

/-- **Escaping is injective up to truncation, and stays in bounds.**  With the terminator
at most `maxOut` bytes are written; they are the content of a JSON string, and reading it
gives a prefix of the name, all of it when the whole spelling leaves more than six bytes. -/
theorem escapeJsonString_spec (s : List UInt8) {maxOut : Nat} (h : 1 ≤ maxOut) :
    (escapeJsonString s maxOut).length + 1 ≤ maxOut ∧
    (∃ cs, inner cs = escapeJsonString s maxOut) ∧
    (∃ k, unescape (escapeJsonString s maxOut) = some (s.take k)) ∧
    ((escaped s).length + 6 < maxOut → unescape (escapeJsonString s maxOut) = some s) := by
  refine ⟨escapeJsonString_length s h, ?_⟩
  unfold escapeJsonString
  refine ⟨?_, ?_, fun hroom => ?_⟩
  · exact ⟨_, ((escapeLoop_eq ..).trans (escaped_eq_inner _)).symm⟩
  · exact ⟨_, by rw [escapeLoop_eq, unescape_escaped]⟩
  · rw [escapeLoop_eq, unescape_escaped, spelledCount_of_lt (by omega), List.take_length]

/-- Two names with a quote and a control byte; there is room for the first only. -/
theorem escapeJsonString_spec_short :
    (escapeJsonString [34, 1] 15).length + 1 ≤ 15 ∧
    unescape (escapeJsonString [34, 1] 15) = some [34, 1] ∧
    ∃ k, unescape (escapeJsonString [34, 1, 1, 1] 15) = some ([34, 1, 1, 1].take k) := by
  obtain ⟨hlen, -, -, hall⟩ := escapeJsonString_spec [34, 1] (show 1 ≤ 15 by decide)
  exact ⟨hlen, hall (by decide), (escapeJsonString_spec [34, 1, 1, 1] (show 1 ≤ 15 by decide)).2.2.1⟩

end MemoryMonitor
