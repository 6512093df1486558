import Mathlib.Data.List.DropRight
import MemoryMonitor.Printing

/-! # Files of keyed lines (`/proc/meminfo`, `/proc/<pid>/status`)

The kernel prints these files as lines of a key, a colon and a value.  The sampler tries
its formats on every line one after the other, and each format is a key it looks for.  No
key holds a colon, so a format fits the lines of its own key only, and where a key comes
twice the last line counts.
-/
namespace MemoryMonitor

open CString

/-! ## Lines -/

/-- `key:` and what comes behind it. -/
structure KeyLine where
  key : List UInt8
  rest : List UInt8

namespace KeyLine

def text (l : KeyLine) : List UInt8 := l.key ++ 58 :: l.rest

/-- The number behind the colon, if there is one. -/
def number? (l : KeyLine) : Option Nat := (scanInt l.rest).map fun r => (Conv.lu.store r.1).toNat

/-- The key has no colon, and the line is one line. -/
structure Plain (l : KeyLine) : Prop where
  colon : 58 ∉ l.key
  newline : 10 ∉ l.text
  nul : 0 ∉ l.text

/-- The line of a number, as the kernel prints it: blanks, the number, and a unit. -/
def ofNumber (key gap : List UInt8) (n : Nat) (unit : List UInt8) : KeyLine :=
  ⟨key, gap ++ (decimalInt n ++ unit)⟩

end KeyLine

/-- The text of a file. -/
def fileText (lines : List KeyLine) : List UInt8 := lines.flatMap fun l => l.text ++ [10]

/-- The numbers of the lines with a key. -/
def numbersOf (key : List UInt8) (lines : List KeyLine) : List Nat :=
  (lines.filter fun l => l.key = key).filterMap KeyLine.number?

/-- What a file says of a key: the last number, and 0 where there is none. -/
def lookup (key : List UInt8) (lines : List KeyLine) : Nat := (numbersOf key lines).getLastD 0

/-- `strtok_r` finds the lines. -/
theorem strtokLines_fileText {lines : List KeyLine} (hl : ∀ l ∈ lines, l.Plain) :
    strtokLines (cstr (fileText lines)) = lines.map KeyLine.text := by
  have hnul : 0 ∉ fileText lines := by
    intro h
    obtain ⟨l, hmem, h⟩ := List.mem_flatMap.mp h
    rcases List.mem_append.mp h with h | h
    · exact (hl l hmem).nul h
    · cases List.mem_singleton.mp h
  rw [← List.append_nil (fileText lines), cstr_append hnul, show cstr [] = [] from rfl,
    List.append_nil]
  unfold strtokLines
  induction lines with
  | nil => rfl
  | cons l lines ih =>
    obtain ⟨hl, hls⟩ := List.forall_mem_cons.mp hl
    have hsplit : fileText (l :: lines) = l.text ++ 10 :: fileText lines := by simp [fileText]
    have hline : ∀ b ∈ l.text, decide (b = 10) = false := by
      intro b hb
      exact decide_eq_false (ne_of_mem_of_not_mem hb hl.newline)
    have hne : l.text ≠ [] := by simp [KeyLine.text]
    rw [hsplit, List.splitOnP_append_cons_of_forall_mem hline 10 rfl,
      List.filter_cons_of_pos (by simpa using hne), List.map_cons, ih hls]
    exact fun h => hnul (hsplit ▸ List.mem_append_right _ (List.mem_cons_of_mem _ h))

/-! ## Formats -/

/-- A format that looks for a key and reads the number behind it. -/
def keyFormat (key : List UInt8) (unit : List Directive) : List Directive :=
  (key ++ [58]).map .literal ++ .blank :: .int .lu :: unit

/-- Literal bytes of a format take the same bytes off the input. -/
theorem scan_literals (w : List UInt8) (f : List Directive) (s : List UInt8) :
    scan (w.map .literal ++ f) s = if w <+: s then scan f (s.drop w.length) else [] := by
  induction w generalizing s with
  | nil => simp
  | cons b w ih =>
    cases s with
    | nil => simp [scan]
    | cons c s =>
      rw [List.map_cons, List.cons_append, scan]
      by_cases hc : c = b
      · simp [hc, ih, List.cons_prefix_cons]
      · simp [hc, List.cons_prefix_cons, Ne.symm hc]

/-- A colon ends both keys. -/
theorem key_begins_iff {k key rest : List UInt8} (hk : 58 ∉ k) (hkey : 58 ∉ key) :
    k ++ [58] <+: key ++ 58 :: rest ↔ k = key := by
  constructor
  · intro h
    induction k generalizing key with
    | nil =>
      cases key with
      | nil => rfl
      | cons c key =>
        obtain ⟨hc, -⟩ := List.cons_prefix_cons.mp h
        exact absurd (hc ▸ List.mem_cons_self ..) hkey
    | cons b k ih =>
      cases key with
      | nil =>
        obtain ⟨hb, -⟩ := List.cons_prefix_cons.mp h
        exact absurd (hb ▸ List.mem_cons_self ..) hk
      | cons c key =>
        obtain ⟨hbc, h⟩ := List.cons_prefix_cons.mp h
        rw [hbc, ih (fun hm => hk (List.mem_cons_of_mem _ hm))
          (fun hm => hkey (List.mem_cons_of_mem _ hm)) h]
  · rintro rfl
    rw [show k ++ 58 :: rest = (k ++ [58]) ++ rest by simp]
    exact List.prefix_append _ _

theorem scanInt_dropWhile (s : List UInt8) : scanInt (s.dropWhile isSpace) = scanInt s := by
  unfold scanInt
  rw [List.dropWhile_idempotent]

/-- **A format fits the lines of its key**, and stores the number behind the colon. -/
theorem scan_keyFormat {l : KeyLine} (hl : l.Plain) {key : List UInt8} (hkey : 58 ∉ key)
    (unit : List Directive) :
    ((scan (keyFormat key unit) l.text).head?).map Int.toNat =
      if l.key = key then l.number? else none := by
  unfold keyFormat KeyLine.text
  rw [scan_literals]
  by_cases h : l.key = key
  · have hdrop : (l.key ++ 58 :: l.rest).drop (key ++ [58]).length = l.rest := by
      rw [show l.key ++ 58 :: l.rest = (l.key ++ [58]) ++ l.rest by simp, h, List.drop_left]
    rw [if_pos ((key_begins_iff hkey hl.colon).mpr h.symm), if_pos h, hdrop, scan, scan,
      scanInt_dropWhile, KeyLine.number?]
    cases scanInt l.rest with
    | none => rfl
    | some r => rfl
  · rw [if_neg (fun hp => h ((key_begins_iff hkey hl.colon).mp hp).symm), if_neg h]
    rfl

/-! ## Reading a file -/

/-- Variables, each with the key of its lines. -/
structure Slots (K S : Type) [DecidableEq K] where
  name : K → List UInt8
  get : K → S → Nat
  set : K → Nat → S → S
  get_set : ∀ k k' v s, get k' (set k v s) = if k = k' then v else get k' s
  name_injective : Function.Injective name

namespace Slots
variable {K S : Type} [DecidableEq K] {slots : Slots K S}

/-- The formats are tried one after the other, and the first that fits stores its number. -/
def scanLine (slots : Slots K S) : List (K × String) → S → List UInt8 → S
  | [], s, _ => s
  | (k, fmt) :: formats, s, line =>
    match Parser.field line fmt with
    | some val => slots.set k val s
    | none => slots.scanLine formats s line

/-- Every format looks for the key of its variable. -/
def Fits (slots : Slots K S) (formats : List (K × String)) : Prop :=
  ∀ f ∈ formats, 58 ∉ slots.name f.1 ∧ ∃ unit, format f.2.toList = keyFormat (slots.name f.1) unit

theorem Fits.field {formats : List (K × String)} (h : slots.Fits formats) {f : K × String}
    (hf : f ∈ formats) {l : KeyLine} (hl : l.Plain) :
    Parser.field l.text f.2 = if l.key = slots.name f.1 then l.number? else none := by
  obtain ⟨hkey, unit, hfmt⟩ := h f hf
  unfold Parser.field sscanf
  rw [hfmt, scan_keyFormat hl hkey]

/-- A line with the key of a variable and a number stores the number there. -/
theorem Fits.scanLine_hit {formats : List (K × String)} (h : slots.Fits formats) {k : K}
    (hk : k ∈ formats.map Prod.fst) {l : KeyLine} (hl : l.Plain) (hkey : l.key = slots.name k)
    {v : Nat} (hv : l.number? = some v) (s : S) :
    slots.scanLine formats s l.text = slots.set k v s := by
  induction formats with
  | nil => cases hk
  | cons f formats ih =>
    unfold scanLine
    rw [h.field (List.mem_cons_self ..) hl, hkey, hv]
    simp only [slots.name_injective.eq_iff]
    by_cases hf : k = f.1
    · rw [if_pos hf, hf]
    · rw [if_neg hf]
      exact ih (fun g hg => h g (List.mem_cons_of_mem _ hg)) ((List.mem_cons.mp hk).resolve_left hf)

/-- No other line does anything. -/
theorem Fits.scanLine_miss {formats : List (K × String)} (h : slots.Fits formats) {l : KeyLine}
    (hl : l.Plain) (hmiss : ∀ k, l.key = slots.name k → l.number? = none) (s : S) :
    slots.scanLine formats s l.text = s := by
  induction formats with
  | nil => rfl
  | cons f formats ih =>
    have hnone : (if l.key = slots.name f.1 then l.number? else none) = none := by
      split
      · exact hmiss f.1 ‹_›
      · rfl
    unfold scanLine
    rw [h.field (List.mem_cons_self ..) hl, hnone]
    exact ih fun g hg => h g (List.mem_cons_of_mem _ hg)

theorem Fits.get_scanLine {formats : List (K × String)} (h : slots.Fits formats) {k : K}
    (hall : ∀ k, k ∈ formats.map Prod.fst) {l : KeyLine} (hl : l.Plain) (s : S) :
    slots.get k (slots.scanLine formats s l.text) =
      if l.key = slots.name k then l.number?.getD (slots.get k s) else slots.get k s := by
  by_cases hkey : ∃ k', l.key = slots.name k'
  · obtain ⟨k', hkey⟩ := hkey
    simp only [hkey, slots.name_injective.eq_iff]
    cases hn : l.number? with
    | none =>
      rw [h.scanLine_miss hl fun _ _ => hn]
      simp
    | some v => rw [h.scanLine_hit (hall k') hl hkey hn, slots.get_set, Option.getD_some]
  · rw [h.scanLine_miss hl fun k' hk' => absurd ⟨k', hk'⟩ hkey, if_neg fun hk => hkey ⟨k, hk⟩]

/-- **The last line of a key counts.** -/
theorem Fits.get_foldl {formats : List (K × String)} (h : slots.Fits formats)
    (hall : ∀ k, k ∈ formats.map Prod.fst) (k : K) {lines : List KeyLine}
    (hl : ∀ l ∈ lines, l.Plain) (s : S) :
    slots.get k ((lines.map KeyLine.text).foldl (slots.scanLine formats) s) =
      (numbersOf (slots.name k) lines).getLastD (slots.get k s) := by
  induction lines generalizing s with
  | nil => rfl
  | cons l lines ih =>
    obtain ⟨hl, hls⟩ := List.forall_mem_cons.mp hl
    rw [List.map_cons, List.foldl_cons, ih hls, h.get_scanLine hall hl]
    unfold numbersOf
    by_cases hkey : l.key = slots.name k
    · rw [if_pos hkey, List.filter_cons_of_pos (by simpa using hkey), List.filterMap_cons]
      cases l.number? with
      | none => rfl
      | some n => rw [Option.getD_some, List.getLastD_cons]
    · rw [if_neg hkey, List.filter_cons_of_neg (by simpa using hkey)]

end Slots

end MemoryMonitor
