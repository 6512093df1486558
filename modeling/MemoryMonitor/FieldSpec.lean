import MemoryMonitor.GuiServer
import MemoryMonitor.JsonText
import Mathlib.Data.List.Basic

/-! # Reading a field of a JSON text

`parse_json_field` knows no grammar: it looks for the quoted key, asks for a brace or a
comma before it and a colon after it, and copies what follows.  On a JSON text this finds
the first member, at any depth, whose key is spelled like the one looked for.  The
bytes of the quoted key can also be the end of a longer string, after an escaped quote,
or a string that is no key; then the byte before or the byte after gives it away.
-/
namespace MemoryMonitor

open CString JsonText

/-- The bytes of the keys that are looked for: letters, digits and the underscore. -/
def isWord (b : UInt8) : Bool :=
  isDigit b || (65 ≤ b && b ≤ 90) || (97 ≤ b && b ≤ 122) || b = 95

/-- A key that `parse_json_field` may be asked for. -/
structure WordKey (key : List UInt8) : Prop where
  ne_nil : key ≠ []
  word : ∀ b ∈ key, isWord b = true

/-- The text does not go on with a byte of a key. -/
def NoWord (tail : List UInt8) : Prop := ∀ c t, tail = c :: t → isWord c = false

/-- The key with its quotes. -/
def searchKey (key : List UInt8) : List UInt8 := 34 :: (key ++ [34])

theorem isWord_ne {b c : UInt8} (hb : isWord b = true) (hc : isWord c = false) : b ≠ c := by
  rintro rfl
  rw [hb] at hc
  cases hc

/-! ## What follows a value -/

/-- What follows a value: blanks, and then nothing, a comma or a closing bracket. -/
inductive EndsValue : List UInt8 → Prop
  | nil : EndsValue []
  | stop {c : UInt8} (t : List UInt8) (h : c = 44 ∨ c = 93 ∨ c = 125) : EndsValue (c :: t)
  | blank (b : Blank) {t : List UInt8} : EndsValue t → EndsValue (b.byte :: t)

theorem isBlank_byte (b : Blank) : isBlank b.byte = true := by
  cases b <;> rfl

theorem dropWhile_blanks (w : List Blank) (t : List UInt8) :
    (blanks w ++ t).dropWhile isBlank = t.dropWhile isBlank := by
  induction w with
  | nil => rfl
  | cons b w ih =>
    show ((b.byte :: (blanks w ++ t)).dropWhile isBlank) = _
    rw [List.dropWhile_cons_of_pos (isBlank_byte b), ih]

theorem EndsValue.blanks {t : List UInt8} (h : EndsValue t) (w : List Blank) :
    EndsValue (blanks w ++ t) := by
  induction w with
  | nil => exact h
  | cons b w ih => exact ih.blank b

theorem EndsValue.valueAfter {t : List UInt8} (h : EndsValue t) : valueAfter t = none := by
  induction h with
  | nil => rfl
  | stop t h => rcases h with rfl | rfl | rfl <;> rfl
  | @blank b t _ ih =>
    unfold MemoryMonitor.valueAfter
    rw [List.dropWhile_cons_of_pos (isBlank_byte b)]
    exact ih

theorem EndsValue.noWord {t : List UInt8} (h : EndsValue t) : NoWord t := by
  intro c t' heq
  cases h with
  | nil => cases heq
  | stop t h =>
    cases heq
    rcases h with rfl | rfl | rfl <;> rfl
  | blank b _ =>
    cases heq
    cases b <;> rfl

/-! ## The search -/

section
variable {key : List UInt8} {back tail : List UInt8}

theorem findValue_skip (w : List UInt8) :
    findValue (searchKey key) w.length back (w ++ tail) =
      findValue (searchKey key) 0 (w.reverse ++ back) tail := by
  induction w generalizing back with
  | nil => rfl
  | cons c w ih =>
    rw [List.length_cons, List.cons_append, findValue, ih]
    simp

/-- A byte where the quoted key does not begin. -/
theorem findValue_next {c : UInt8} {s : List UInt8} (h : ¬ searchKey key <+: c :: s) :
    findValue (searchKey key) 0 back (c :: s) = findValue (searchKey key) 0 (c :: back) s := by
  rw [findValue, if_neg]
  rwa [List.isPrefixOf_iff_prefix]

theorem findValue_ne_quote {c : UInt8} {s : List UInt8} (h : c ≠ 34) :
    findValue (searchKey key) 0 back (c :: s) = findValue (searchKey key) 0 (c :: back) s :=
  findValue_next fun hp => h (List.cons_prefix_cons.mp hp).1.symm

/-- A text without quotes is passed over. -/
theorem findValue_quiet {w : List UInt8} (h : 34 ∉ w) :
    findValue (searchKey key) 0 back (w ++ tail) =
      findValue (searchKey key) 0 (w.reverse ++ back) tail := by
  induction w generalizing back with
  | nil => rfl
  | cons c w ih =>
    rw [List.mem_cons, not_or] at h
    rw [List.cons_append, findValue_ne_quote (Ne.symm h.1), ih h.2]
    simp

/-- An occurrence of the quoted key: it is taken, or passed over. -/
theorem findValue_key {t : List UInt8} :
    findValue (searchKey key) 0 back (34 :: (key ++ 34 :: t)) =
      match if precededOk back then valueAfter t else none with
      | some v => some v
      | none => findValue (searchKey key) 0 ((searchKey key).reverse ++ back) t := by
  have hsplit : 34 :: (key ++ 34 :: t) = searchKey key ++ t := by simp [searchKey]
  have hp : searchKey key <+: 34 :: (key ++ 34 :: t) := ⟨t, hsplit.symm⟩
  have hdrop : (34 :: (key ++ 34 :: t)).drop (searchKey key).length = t := by
    rw [hsplit, List.drop_left]
  have hrest : key ++ 34 :: t = (key ++ [34]) ++ t := by simp
  have hskip : findValue (searchKey key) ((searchKey key).length - 1) (34 :: back) (key ++ 34 :: t) =
      findValue (searchKey key) 0 ((searchKey key).reverse ++ back) t := by
    rw [hrest]
    refine (findValue_skip (key ++ [34])).trans ?_
    simp [searchKey]
  rw [findValue, if_pos (List.isPrefixOf_iff_prefix.mpr hp), hdrop]
  cases if precededOk back then valueAfter t else none with
  | none => exact hskip
  | some v => rfl

end

/-! ## Strings -/

section
variable {key back tail : List UInt8}

/-- Where the text of a string goes on with the key and a quote, that is all of it. -/
theorem key_prefix_iff (hk : ∀ b ∈ key, isWord b = true) (cs : List StrChar) (tail : List UInt8) :
    key ++ [34] <+: inner cs ++ 34 :: tail ↔ inner cs = key := by
  induction cs generalizing key with
  | nil =>
    cases key with
    | nil => simp [JsonText.inner]
    | cons k ks =>
      have hne : k ≠ 34 := isWord_ne (hk k (by simp)) rfl
      simp [JsonText.inner, hne]
  | cons c cs ih =>
    cases key with
    | nil =>
      cases c with
      | plain b hb => simp [JsonText.inner, StrChar.text, Ne.symm hb.2.1]
      | escape e => simp [JsonText.inner, StrChar.text]
      | unicode h₁ h₂ h₃ h₄ => simp [JsonText.inner, StrChar.text]
    | cons k ks =>
      have hne : k ≠ 92 := isWord_ne (hk k (by simp)) rfl
      have ih := @ih ks fun b hb => hk b (by simp [hb])
      cases c with
      | plain b hb =>
        have hcons : inner (.plain b hb :: cs) = b :: inner cs := rfl
        rw [hcons, List.cons_append, List.cons_append, List.cons_prefix_cons, ih]
        simp [eq_comm]
      | escape e => simp [JsonText.inner, StrChar.text, hne, Ne.symm hne]
      | unicode h₁ h₂ h₃ h₄ => simp [JsonText.inner, StrChar.text, hne, Ne.symm hne]

theorem isHex_ne_quote {b : UInt8} (h : isHex b = true) : b ≠ 34 := by
  rintro rfl
  cases h

/-- **Inside a string there is no key.**  From within a string on, the search goes on
after its closing quote. -/
theorem findValue_inner (hk : WordKey key) (hn : NoWord tail) (cs : List StrChar) :
    findValue (searchKey key) 0 back (inner cs ++ 34 :: tail) =
      findValue (searchKey key) 0 ((inner cs ++ [34]).reverse ++ back) tail := by
  induction cs generalizing back with
  | nil =>
    -- at the closing quote: no key goes on here
    refine findValue_next fun hp => ?_
    obtain ⟨k, ks, rfl⟩ := List.exists_cons_of_ne_nil hk.ne_nil
    obtain ⟨t, ht⟩ := (List.cons_prefix_cons.mp hp).2
    have := hn k _ ht.symm
    rw [hk.word k (by simp)] at this
    cases this
  | cons c cs ih =>
    cases c with
    | plain b hb =>
      show findValue _ 0 back (b :: (inner cs ++ 34 :: tail)) = _
      rw [findValue_ne_quote hb.2.1, ih]
      simp [JsonText.inner, StrChar.text]
    | escape e =>
      show findValue _ 0 back (92 :: e.letter :: (inner cs ++ 34 :: tail)) = _
      rw [findValue_ne_quote (by decide)]
      by_cases hq : e.letter = 34 ∧ inner cs = key
      · -- an escaped quote and the key: the backslash gives it away
        rw [hq.1, hq.2, findValue_key]
        have hback : precededOk (92 :: back) = false := rfl
        have hinner : inner (.escape e :: cs) = 92 :: 34 :: key := by
          rw [← hq.1, ← hq.2]
          rfl
        rw [if_neg (by simp [hback]), hinner]
        simp [searchKey]
      · rw [findValue_next, ih]
        · simp [JsonText.inner, StrChar.text]
        · intro hp
          obtain ⟨h1, h2⟩ := List.cons_prefix_cons.mp hp
          exact hq ⟨h1.symm, (key_prefix_iff hk.word cs tail).mp h2⟩
    | unicode h₁ h₂ h₃ h₄ =>
      show findValue _ 0 back
        (92 :: 117 :: h₁.byte :: h₂.byte :: h₃.byte :: h₄.byte :: (inner cs ++ 34 :: tail)) = _
      rw [findValue_ne_quote (by decide), findValue_ne_quote (by decide),
        findValue_ne_quote (isHex_ne_quote h₁.valid), findValue_ne_quote (isHex_ne_quote h₂.valid),
        findValue_ne_quote (isHex_ne_quote h₃.valid), findValue_ne_quote (isHex_ne_quote h₄.valid),
        ih]
      simp [JsonText.inner, StrChar.text]

/-- A string that is not taken as the key is passed over. -/
theorem findValue_string (hk : WordKey key) (hn : NoWord tail) (cs : List StrChar)
    (h : inner cs ≠ key ∨ valueAfter tail = none) :
    findValue (searchKey key) 0 back (quoted cs ++ tail) =
      findValue (searchKey key) 0 ((quoted cs).reverse ++ back) tail := by
  have hsplit : quoted cs ++ tail = 34 :: (inner cs ++ 34 :: tail) := by simp [quoted]
  rw [hsplit]
  by_cases heq : inner cs = key
  · have hnone : (if precededOk back then valueAfter tail else none) = none := by
      rw [h.resolve_left (not_not_intro heq), ite_self]
    rw [heq, findValue_key, hnone, quoted, heq]
    rfl
  · rw [findValue_next, findValue_inner hk hn]
    · simp [quoted]
    · intro hp
      exact heq ((key_prefix_iff hk.word cs tail).mp (List.cons_prefix_cons.mp hp).2)

end

/-! ## Trees -/

section
variable {key : List UInt8}

/-- What the search does on a part of the text with the members `ms`: it stops at the
value of the first one that is spelled like the key, or passes over the part. -/
def Scans (key back text tail : List UInt8) (ms : List Member) : Prop :=
  match ms.find? fun m => m.keyText = key with
  | none => findValue (searchKey key) 0 back (text ++ tail) =
      findValue (searchKey key) 0 (text.reverse ++ back) tail
  | some m => ∃ rest, EndsValue rest ∧
      findValue (searchKey key) 0 back (text ++ tail) = some (m.value.text ++ rest)

theorem Scans.quiet (back : List UInt8) {w tail : List UInt8} (h : 34 ∉ w) : Scans key back w tail [] :=
  findValue_quiet h

theorem Scans.append {back a b tail : List UInt8} {ms ms' : List Member}
    (h : Scans key back a (b ++ tail) ms) (h' : Scans key (a.reverse ++ back) b tail ms') :
    Scans key back (a ++ b) tail (ms ++ ms') := by
  unfold Scans at h h' ⊢
  rw [List.find?_append, List.append_assoc]
  cases hf : ms.find? fun m => m.keyText = key with
  | some m =>
    rw [hf] at h
    exact h
  | none =>
    rw [hf] at h
    simp only [Option.none_or] at h ⊢
    rw [h]
    cases hf' : ms'.find? fun m => m.keyText = key with
    | some m =>
      rw [hf'] at h'
      exact h'
    | none =>
      rw [hf'] at h'
      rw [h', List.reverse_append, List.append_assoc]

theorem quote_not_mem_blanks (w : List Blank) : 34 ∉ blanks w := by
  simp only [blanks, List.mem_map, not_exists, not_and]
  intro b _
  cases b <;> decide

/-- The bytes that a number is made of. -/
def isNumeric (b : UInt8) : Bool := isDigit b || b = 43 || b = 45 || b = 46 || b = 69 || b = 101

theorem isDigit_digitByte (d : Fin 10) : isDigit (digitByte d) = true := by
  revert d
  decide

theorem isNumeric_of_mem_digits {ds : List (Fin 10)} {b : UInt8} (h : b ∈ digits ds) :
    isNumeric b = true := by
  obtain ⟨d, -, rfl⟩ := List.mem_map.mp h
  simp [isNumeric, isDigit_digitByte]

theorem isNumeric_of_mem_number {n : Number} {b : UInt8} (h : b ∈ n.text) : isNumeric b = true := by
  have hexp : ∀ e : Exponent, b ∈ e.text → isNumeric b = true := by
    intro e he
    rcases List.mem_cons.mp he with rfl | he
    · cases e.upper <;> rfl
    · rcases List.mem_append.mp he with he | he
      · rcases hs : e.sign with _ | _ | _ <;> simp [hs, signText] at he <;> subst he <;> rfl
      · exact isNumeric_of_mem_digits he
  rcases List.mem_append.mp h with h | h
  · cases hneg : n.neg <;> simp [hneg] at h
    subst h
    rfl
  · rcases List.mem_append.mp h with h | h
    · cases hw : n.whole with
      | zero =>
        simp [hw, Whole.text] at h
        subst h
        rfl
      | pos d hd ds =>
        rw [hw] at h
        exact isNumeric_of_mem_digits h
    · rcases List.mem_append.mp h with h | h
      · cases hf : n.frac with
        | none => simp [hf] at h
        | some f =>
          rw [hf] at h
          rcases List.mem_cons.mp h with rfl | h
          · rfl
          · exact isNumeric_of_mem_digits h
      · cases he : n.exp with
        | none => simp [he] at h
        | some e =>
          rw [he] at h
          exact hexp e h

theorem quote_not_mem_number (n : Number) : 34 ∉ n.text := by
  intro h
  cases isNumeric_of_mem_number h

/-- A value does not begin with a blank. -/
theorem text_cons (v : Syn .value) : ∃ c t, v.text = c :: t ∧ isBlank c = false := by
  cases v with
  | string cs => exact ⟨34, _, rfl, rfl⟩
  | number n =>
    obtain ⟨c, t, ht⟩ : ∃ c t, n.text = c :: t := by
      cases hneg : n.neg <;> cases hw : n.whole <;> simp [Number.text, Whole.text, digits, hneg, hw]
    refine ⟨c, t, ht, ?_⟩
    have hnum : isNumeric c = true := isNumeric_of_mem_number (n := n) (by simp [ht])
    by_contra hb
    rw [Bool.not_eq_false] at hb
    simp only [isBlank, Bool.or_eq_true, decide_eq_true_eq] at hb
    rcases hb with ((rfl | rfl) | rfl) | rfl <;> cases hnum
  | literal l => cases l <;> exact ⟨_, _, rfl, rfl⟩
  | emptyArray w => exact ⟨91, _, rfl, rfl⟩
  | array es => exact ⟨91, _, rfl, rfl⟩
  | emptyObject w => exact ⟨123, _, rfl, rfl⟩
  | object ms => exact ⟨123, _, rfl, rfl⟩

theorem precededOk_blanks (w : List Blank) {back : List UInt8} (h : precededOk back = true) :
    precededOk ((blanks w).reverse ++ back) = true := by
  have hrev : (blanks w).reverse = blanks w.reverse := by simp [blanks]
  unfold precededOk
  rw [hrev, dropWhile_blanks]
  exact h

/-- What is between a key and its value. -/
def colon (w₁ w₂ : List Blank) : List UInt8 := blanks w₁ ++ 58 :: blanks w₂

theorem valueAfter_colon (w₁ w₂ : List Blank) (v : Syn .value) (t : List UInt8) :
    valueAfter (colon w₁ w₂ ++ (v.text ++ t)) = some (v.text ++ t) := by
  obtain ⟨c, s, hv, hc⟩ := text_cons v
  have hsplit : colon w₁ w₂ ++ (v.text ++ t) = blanks w₁ ++ 58 :: (blanks w₂ ++ (v.text ++ t)) := by
    simp [colon]
  unfold valueAfter
  rw [hsplit, dropWhile_blanks, List.dropWhile_cons_of_neg (by decide)]
  simp only
  rw [dropWhile_blanks, hv, List.cons_append, List.dropWhile_cons_of_neg (by simp [hc])]

theorem colon_noWord (w₁ w₂ : List Blank) (t : List UInt8) : NoWord (colon w₁ w₂ ++ t) := by
  intro c t' h
  cases w₁ with
  | nil =>
    cases h
    rfl
  | cons b w =>
    cases h
    cases b <;> rfl

theorem quote_not_mem_colon (w₁ w₂ : List Blank) : 34 ∉ colon w₁ w₂ := by
  simp [colon, quote_not_mem_blanks]

theorem Scans.string {back tail : List UInt8} (hk : WordKey key) (hn : NoWord tail)
    {cs : List StrChar} (h : inner cs ≠ key ∨ valueAfter tail = none) :
    Scans key back (quoted cs) tail [] :=
  findValue_string hk hn cs h

/-- A member whose value is scanned as `hv` says. -/
theorem Scans.member (hk : WordKey key) {back tail : List UInt8} (hback : precededOk back = true)
    (htail : EndsValue tail) (d : Nat) (w : List Blank) (cs : List StrChar) (w₁ w₂ : List Blank)
    (v : Syn .value) (w' : List Blank)
    (hv : ∀ {back tail}, EndsValue tail → Scans key back v.text tail (v.allMembers d)) :
    Scans key back (blanks w ++ quoted cs ++ (blanks w₁ ++ 58 :: blanks w₂) ++ v.text ++ blanks w')
      tail (⟨d, cs, v⟩ :: v.allMembers d) := by
  by_cases heq : inner cs = key
  · unfold Scans
    rw [List.find?_cons_of_pos (p := fun m : Member => m.keyText = key) (a := (⟨d, cs, v⟩ : Member))
      (decide_eq_true heq)]
    refine ⟨blanks w' ++ tail, htail.blanks w', ?_⟩
    have hsplit : blanks w ++ quoted cs ++ (blanks w₁ ++ 58 :: blanks w₂) ++ v.text ++ blanks w' ++
        tail = blanks w ++ 34 :: (key ++ 34 :: (colon w₁ w₂ ++ (v.text ++ (blanks w' ++ tail)))) := by
      simp [quoted, colon, heq]
    rw [hsplit, findValue_quiet (quote_not_mem_blanks w), findValue_key,
      if_pos (precededOk_blanks w hback), valueAfter_colon]
  · have hrest : Scans key back
        (blanks w ++ quoted cs ++ colon w₁ w₂ ++ v.text ++ blanks w') tail (v.allMembers d) := by
      have h := (((Scans.quiet back (quote_not_mem_blanks w)).append
        (Scans.string hk (colon_noWord w₁ w₂ _) (Or.inl heq))).append
        (Scans.quiet _ (quote_not_mem_colon w₁ w₂))).append (hv (htail.blanks w'))
      have h := h.append (Scans.quiet _ (quote_not_mem_blanks w'))
      simpa using h
    unfold Scans at hrest ⊢
    rw [List.find?_cons_of_neg (p := fun m : Member => m.keyText = key) (a := (⟨d, cs, v⟩ : Member))
      fun h => heq (of_decide_eq_true h)]
    exact hrest

/-- **The search on a tree.** -/
theorem Scans.tree (hk : WordKey key) {k : Kind} (t : Syn k) {d : Nat} {back tail : List UInt8}
    (htail : EndsValue tail) (hback : k = .members → precededOk back = true) :
    Scans key back t.text tail (t.allMembers d) := by
  induction t generalizing d back tail with
  | string cs => exact Scans.string hk htail.noWord (Or.inr htail.valueAfter)
  | number n => exact Scans.quiet _ (quote_not_mem_number n)
  | literal l =>
    apply Scans.quiet
    cases l <;> decide
  | emptyArray w => exact Scans.quiet _ (by simp [Syn.text, quote_not_mem_blanks])
  | emptyObject w => exact Scans.quiet _ (by simp [Syn.text, quote_not_mem_blanks])
  | array es ih =>
    have h := ((Scans.quiet back (w := [91]) (by decide)).append
      (ih (d := d) (EndsValue.stop tail (Or.inr (Or.inl rfl))) (by simp))).append
      (Scans.quiet _ (w := [93]) (by decide))
    simpa [Syn.text, Syn.allMembers] using h
  | object ms ih =>
    have h := ((Scans.quiet back (w := [123]) (by decide)).append
      (ih (d := d + 1) (EndsValue.stop tail (Or.inr (Or.inr rfl))) fun _ => rfl)).append
      (Scans.quiet _ (w := [125]) (by decide))
    simpa [Syn.text, Syn.allMembers] using h
  | element w v w' ih =>
    have h := ((Scans.quiet back (quote_not_mem_blanks w)).append
      (ih (d := d) (htail.blanks w') (by simp))).append (Scans.quiet _ (quote_not_mem_blanks w'))
    simpa [Syn.text, Syn.allMembers] using h
  | elements w v w' es ih ihes =>
    have hstop : EndsValue (44 :: (es.text ++ tail)) := EndsValue.stop _ (Or.inl rfl)
    have h := (((Scans.quiet back (quote_not_mem_blanks w)).append
      (ih (d := d) (hstop.blanks w') (by simp))).append
      (Scans.quiet _ (quote_not_mem_blanks w'))).append
      ((Scans.quiet _ (w := [44]) (by decide)).append (ihes (d := d) htail (by simp)))
    simpa [Syn.text, Syn.allMembers] using h
  | member w cs w₁ w₂ v w' ih =>
    exact Scans.member hk (hback rfl) htail d w cs w₁ w₂ v w' fun h => ih h (by simp)
  | members w cs w₁ w₂ v w' ms ih ihms =>
    have hstop : EndsValue (44 :: (ms.text ++ tail)) := EndsValue.stop _ (Or.inl rfl)
    have h := (Scans.member hk (hback rfl) hstop d w cs w₁ w₂ v w' fun h => ih h (by simp)).append
      ((Scans.quiet _ (w := [44]) (by decide)).append (ihms (d := d) htail fun _ => rfl))
    simpa [Syn.text, Syn.allMembers] using h

theorem Scans.object (hk : WordKey key) (doc : ObjectText) :
    Scans key [] doc.text [] doc.members := by
  have hafter : EndsValue (blanks doc.after ++ []) := EndsValue.nil.blanks _
  have h := ((Scans.quiet [] (quote_not_mem_blanks doc.before)).append
    (Scans.tree hk doc.object (d := 0) hafter (by simp))).append
    (Scans.quiet _ (quote_not_mem_blanks doc.after))
  simpa [ObjectText.text, ObjectText.members] using h

/-- **The field of a JSON object** is looked up by the spelling of its key, in the order
of the text and at any depth. -/
theorem findValue_object_some (hk : WordKey key) {doc : ObjectText} {m : Member}
    (h : doc.members.find? (fun m => m.keyText = key) = some m) :
    ∃ rest, EndsValue rest ∧ findValue (searchKey key) 0 [] doc.text = some (m.value.text ++ rest) := by
  have hs := Scans.object hk doc
  unfold Scans at hs
  rw [h, List.append_nil] at hs
  exact hs

theorem findValue_object_none (hk : WordKey key) {doc : ObjectText}
    (h : doc.members.find? (fun m => m.keyText = key) = none) :
    findValue (searchKey key) 0 [] doc.text = none := by
  have hs := Scans.object hk doc
  unfold Scans at hs
  rw [h, List.append_nil] at hs
  exact hs.trans (by rw [findValue])

end

/-! ## Copying -/

/-- A character as `parse_json_field` copies it: an escape without its backslash. -/
def copiedChar : StrChar → List UInt8
  | .plain b _ => [b]
  | .escape e => [e.letter]
  | .unicode h₁ h₂ h₃ h₄ => [117, h₁.byte, h₂.byte, h₃.byte, h₄.byte]

/-- A string as it is copied. -/
def copiedString (cs : List StrChar) : List UInt8 := cs.flatMap copiedChar

/-- What is copied of a value that is neither an array nor an object, when there is room
for it. -/
def copied? : Syn .value → Option (List UInt8)
  | .string cs => some (copiedString cs)
  | .number n => some n.text
  | .literal l => some l.text
  | _ => none

theorem copyQuoted_plain {c : UInt8} (h1 : c ≠ 34) (h2 : c ≠ 92) (room : Nat) (s : List UInt8) :
    copyQuoted (room + 1) (c :: s) = c :: copyQuoted room s := by
  rw [copyQuoted, if_neg h1]
  exact fun _ _ h _ => h2 h

/-- A run of bytes that are neither a quote nor a backslash. -/
theorem copyQuoted_append {w : List UInt8} (hw : ∀ c ∈ w, c ≠ 34 ∧ c ≠ 92) (room : Nat)
    (t : List UInt8) :
    copyQuoted room (w ++ t) = w.take room ++ copyQuoted (room - w.length) t := by
  induction w generalizing room with
  | nil => simp
  | cons c w ih =>
    cases room with
    | zero => simp [copyQuoted]
    | succ room =>
      have hc := hw c (by simp)
      rw [List.cons_append, copyQuoted_plain hc.1 hc.2, ih fun b hb => hw b (by simp [hb])]
      simp

theorem isHex_ne_backslash {b : UInt8} (h : isHex b = true) : b ≠ 92 := by
  rintro rfl
  cases h

theorem copyQuoted_inner (cs : List StrChar) (tail : List UInt8) (room : Nat) :
    copyQuoted room (inner cs ++ 34 :: tail) = (copiedString cs).take room := by
  induction cs generalizing room with
  | nil =>
    cases room with
    | zero => simp [copyQuoted]
    | succ room =>
      show copyQuoted (room + 1) (34 :: tail) = _
      rw [copyQuoted, if_pos rfl]
      · rfl
      · intro c s h
        cases h
  | cons c cs ih =>
    cases room with
    | zero => simp [copyQuoted]
    | succ room =>
      cases c with
      | plain b hb =>
        show copyQuoted (room + 1) (b :: (inner cs ++ 34 :: tail)) = _
        rw [copyQuoted_plain hb.2.1 hb.2.2, ih]
        rfl
      | escape e =>
        show copyQuoted (room + 1) (92 :: e.letter :: (inner cs ++ 34 :: tail)) = _
        rw [copyQuoted, ih]
        rfl
      | unicode h₁ h₂ h₃ h₄ =>
        have hhex : ∀ c ∈ [h₁.byte, h₂.byte, h₃.byte, h₄.byte], c ≠ 34 ∧ c ≠ 92 := by
          have key : ∀ h : Hex, h.byte ≠ 34 ∧ h.byte ≠ 92 := fun h =>
            ⟨isHex_ne_quote h.valid, isHex_ne_backslash h.valid⟩
          simp [key]
        show copyQuoted (room + 1)
          (92 :: 117 :: ([h₁.byte, h₂.byte, h₃.byte, h₄.byte] ++ (inner cs ++ 34 :: tail))) = _
        rw [copyQuoted, copyQuoted_append hhex, ih]
        show _ = 117 :: ([h₁.byte, h₂.byte, h₃.byte, h₄.byte] ++ copiedString cs).take room
        rw [List.take_append]

theorem EndsValue.copyToken {t : List UInt8} (h : EndsValue t) (room : Nat) :
    copyToken room t = [] := by
  cases room with
  | zero => rfl
  | succ room =>
    cases h with
    | nil => rfl
    | stop t h => rcases h with rfl | rfl | rfl <;> rfl
    | blank b _ => cases b <;> rfl

/-- A run of bytes that do not end a value. -/
theorem copyToken_append {w rest : List UInt8}
    (hw : ∀ c ∈ w, (c = 44 || c = 125 || c = 93 || isBlank c) = false) (hrest : EndsValue rest)
    (room : Nat) : copyToken room (w ++ rest) = w.take room := by
  induction w generalizing room with
  | nil => simpa using hrest.copyToken room
  | cons c w ih =>
    cases room with
    | zero => rfl
    | succ room =>
      rw [List.cons_append, copyToken, hw c (by simp), if_neg (by decide),
        ih fun b hb => hw b (by simp [hb])]
      rfl

theorem isNumeric_not_stop {c : UInt8} (h : isNumeric c = true) :
    (c = 44 || c = 125 || c = 93 || isBlank c) = false := by
  by_contra hs
  rw [Bool.not_eq_false] at hs
  simp only [isBlank, Bool.or_eq_true, decide_eq_true_eq] at hs
  rcases hs with ((rfl | rfl) | rfl) | ((rfl | rfl) | rfl) | rfl <;> cases h

/-! ## The field -/

section
variable {key : List UInt8} {doc : ObjectText} {m : Member} {maxLen : Nat}

/-- The arguments of `parse_json_field` are in order. -/
structure Askable (key : List UInt8) (maxLen : Nat) : Prop extends WordKey key where
  short : key.length < 126
  room : 0 < maxLen

theorem Askable.parseJsonField_eq (h : Askable key maxLen) (json : List UInt8) :
    parseJsonField json key maxLen = match findValue (searchKey key) 0 [] json with
      | none => []
      | some (34 :: s) => copyQuoted (maxLen - 1) s
      | some s => copyToken (maxLen - 1) s := by
  have h1 := h.short
  have h2 := h.room
  have hno : (maxLen = 0 || 128 ≤ ([34] ++ key ++ [34]).length) = false := by
    simp
    omega
  unfold parseJsonField
  simp only [hno]
  rfl

theorem Askable.of_quoted (h : Askable key maxLen) {json s : List UInt8}
    (hf : findValue (searchKey key) 0 [] json = some (34 :: s)) :
    parseJsonField json key maxLen = copyQuoted (maxLen - 1) s := by
  rw [h.parseJsonField_eq, hf]
  rfl

theorem Askable.of_token (h : Askable key maxLen) {json s : List UInt8}
    (hf : findValue (searchKey key) 0 [] json = some s) (hs : ∀ t, s ≠ 34 :: t) :
    parseJsonField json key maxLen = copyToken (maxLen - 1) s := by
  rw [h.parseJsonField_eq, hf]
  split
  · rename_i hnone
    cases hnone
  · rename_i t heq
    exact absurd (Option.some.inj heq) (hs t)
  · rename_i t _ heq
    rw [Option.some.inj heq]

/-- A field that is not there. -/
theorem Askable.of_none (h : Askable key maxLen)
    (hfind : doc.members.find? (fun m => m.keyText = key) = none) :
    parseJsonField doc.text key maxLen = [] := by
  rw [h.parseJsonField_eq, findValue_object_none h.toWordKey hfind]

/-- **A field that is there**, and whose value is neither an array nor an object, is
copied and cut to the room there is. -/
theorem Askable.of_some (h : Askable key maxLen)
    (hfind : doc.members.find? (fun m => m.keyText = key) = some m) {t : List UInt8}
    (ht : copied? m.value = some t) :
    parseJsonField doc.text key maxLen = t.take (maxLen - 1) := by
  obtain ⟨rest, hrest, hfound⟩ := findValue_object_some h.toWordKey hfind
  cases hv : m.value with
  | string cs =>
    rw [hv] at ht hfound
    obtain rfl := Option.some.inj ht
    have hsplit : (Syn.string cs).text ++ rest = 34 :: (inner cs ++ 34 :: rest) := by
      simp [Syn.text, quoted]
    rw [hsplit] at hfound
    rw [h.of_quoted hfound]
    exact copyQuoted_inner cs rest _
  | number n =>
    rw [hv] at ht hfound
    obtain rfl := Option.some.inj ht
    rw [h.of_token hfound]
    · exact copyToken_append (fun c hc => isNumeric_not_stop (isNumeric_of_mem_number hc)) hrest _
    · intro s hs
      obtain ⟨c, t, hc, -⟩ := text_cons (.number n)
      rw [hc] at hs
      obtain rfl := (List.cons.inj hs).1
      exact quote_not_mem_number n (show 34 ∈ (Syn.number n).text by simp [hc])
  | literal l =>
    rw [hv] at ht hfound
    obtain rfl := Option.some.inj ht
    rw [h.of_token hfound]
    · refine copyToken_append ?_ hrest _
      cases l <;> decide +kernel
    · intro s hs
      cases l <;> cases hs
  | emptyArray w => simp [hv, copied?] at ht
  | array es => simp [hv, copied?] at ht
  | emptyObject w => simp [hv, copied?] at ht
  | object ms => simp [hv, copied?] at ht

/-- An array or an object is copied from its bracket on. -/
theorem Askable.of_bracket (h : Askable key maxLen) (hroom : 1 < maxLen)
    (hfind : doc.members.find? (fun m => m.keyText = key) = some m) (ht : copied? m.value = none) :
    ∃ t, parseJsonField doc.text key maxLen = 91 :: t ∨
      parseJsonField doc.text key maxLen = 123 :: t := by
  obtain ⟨rest, hrest, hfound⟩ := findValue_object_some h.toWordKey hfind
  obtain ⟨c, s, hc, hs⟩ : ∃ c s, m.value.text ++ rest = c :: s ∧ (c = 91 ∨ c = 123) := by
    cases hv : m.value with
    | emptyArray w => exact ⟨91, _, rfl, Or.inl rfl⟩
    | array es => exact ⟨91, _, rfl, Or.inl rfl⟩
    | emptyObject w => exact ⟨123, _, rfl, Or.inr rfl⟩
    | object ms => exact ⟨123, _, rfl, Or.inr rfl⟩
    | string cs => simp [hv, copied?] at ht
    | number n => simp [hv, copied?] at ht
    | literal l => simp [hv, copied?] at ht
  obtain ⟨room, hr⟩ : ∃ room, maxLen - 1 = room + 1 := ⟨maxLen - 2, by omega⟩
  rw [hc] at hfound
  refine ⟨copyToken room s, ?_⟩
  rcases hs with rfl | rfl
  · left
    rw [h.of_token hfound (by simp), hr]
    rfl
  · right
    rw [h.of_token hfound (by simp), hr]
    rfl

/-! ## Flat objects -/

/-- An object whose members are strings, numbers and literals. -/
def Flat (doc : ObjectText) : Prop := ∀ m ∈ doc.members, (copied? m.value).isSome

instance (doc : ObjectText) : Decidable (Flat doc) :=
  inferInstanceAs (Decidable (∀ m ∈ doc.members, _))

/-- The value of the first member with a key, as it is copied; nothing when there is none. -/
def fieldOf (doc : ObjectText) (key : List UInt8) : List UInt8 :=
  ((doc.members.find? fun m => m.keyText = key).bind fun m => copied? m.value).getD []

/-- **The fields of flat objects.**  On every valid text of a flat object `parse_json_field`
finds the first member whose key is spelled like the one it is asked for, whatever the
other keys and the strings are, and copies its value as far as there is room. -/
theorem parseJsonField_flat (hflat : Flat doc) (h : Askable key maxLen) :
    parseJsonField doc.text key maxLen = (fieldOf doc key).take (maxLen - 1) := by
  unfold fieldOf
  cases hfind : doc.members.find? fun m => m.keyText = key with
  | none =>
    rw [h.of_none hfind, Option.bind_none, Option.getD_none, List.take_nil]
  | some m =>
    obtain ⟨t, ht⟩ := Option.isSome_iff_exists.mp (hflat m (List.mem_of_find?_eq_some hfind))
    rw [h.of_some hfind ht, Option.bind_some, ht]
    rfl

end

/-- `{"x" : "\"pid\": 1, ", "pid": 77}`, with a member that imitates another one. -/
def imitating : ObjectText where
  before := []
  object := .object
    (.members [] [.plain 120 (by decide)] [.space] [.space]
      (.string [.escape .quote, .plain 112 (by decide), .plain 105 (by decide),
        .plain 100 (by decide), .escape .quote, .plain 58 (by decide), .plain 32 (by decide),
        .plain 49 (by decide), .plain 44 (by decide), .plain 32 (by decide)]) []
      (.member [.space] [.plain 112 (by decide), .plain 105 (by decide), .plain 100 (by decide)]
        [] [.space] (.number ⟨false, .pos 7 (by decide) [7], none, none⟩) []))
  isObject := by trivial
  after := []

theorem parseJsonField_flat_imitating :
    imitating.text = bytes "\x7b\"x\" : \"\\\"pid\\\": 1, \", \"pid\": 77\x7d" ∧
    parseJsonField imitating.text (bytes "pid") 32 = bytes "77" := by
  refine ⟨by decide +kernel, ?_⟩
  have hflat : Flat imitating := by decide +kernel
  have hask : Askable (bytes "pid") 32 := ⟨⟨by decide, by decide +kernel⟩, by decide, by decide⟩
  rw [parseJsonField_flat hflat hask]
  decide +kernel

end MemoryMonitor
