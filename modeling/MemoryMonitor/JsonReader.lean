import MemoryMonitor.JsonText

/-! # What a JSON text means

The meaning of a tree, and a reader that finds it in the text.  The reader does not check
that a text is well formed, but on the text of a tree it finds the meaning of the tree;
so two trees with the same text mean the same (`Means.unique`), and one may speak of
the meaning of a text.
-/
namespace JsonText

open CString

/-- A value.  A number is kept as it is spelled. -/
inductive Json where
  | null
  | bool (b : Bool)
  | number (text : List UInt8)
  | string (s : List UInt8)
  | array (vs : List Json)
  | object (ms : List (List UInt8 × Json))

/-- What the trees of a nonterminal mean. -/
abbrev Meaning : Kind → Type
  | .value => Json
  | .elements => List Json
  | .members => List (List UInt8 × Json)

def Literal.value : Literal → Json
  | .true => .bool Bool.true
  | .false => .bool Bool.false
  | .null => .null

/-- The bytes of a string, if every character of it is a byte. -/
def bytes? (cs : List StrChar) : Option (List UInt8) := cs.mapM StrChar.byte?

def Syn.meaning : {k : Kind} → Syn k → Option (Meaning k)
  | _, .string cs => (bytes? cs).map Json.string
  | _, .number n => some (Json.number n.text)
  | _, .literal l => some l.value
  | _, .emptyArray _ => some (Json.array [])
  | _, .array es => es.meaning.map Json.array
  | _, .emptyObject _ => some (Json.object [])
  | _, .object ms => ms.meaning.map Json.object
  | _, .element _ v _ => v.meaning.map fun v => [v]
  | _, .elements _ v _ es => v.meaning.bind fun v => es.meaning.map fun vs => v :: vs
  | _, .member _ key _ _ v _ => (bytes? key).bind fun k => v.meaning.map fun v => [(k, v)]
  | _, .members _ key _ _ v _ ms =>
    (bytes? key).bind fun k => v.meaning.bind fun v => ms.meaning.map fun vs => (k, v) :: vs

/-! ## The reader -/

def isBlank (b : UInt8) : Bool := b = 32 || b = 9 || b = 13 || b = 10

/-- The bytes that numbers are made of. -/
def isNumeral (b : UInt8) : Bool := isDigit b || b = 43 || b = 45 || b = 46 || b = 69 || b = 101

def skip (s : List UInt8) : List UInt8 := s.dropWhile isBlank

/-- The spelling of a string up to its closing quote, and the rest. -/
def readString : List UInt8 → Option (List UInt8 × List UInt8)
  | [] => none
  | 34 :: s => some ([], s)
  | 92 :: c :: s => (readString s).map fun r => (92 :: c :: r.1, r.2)
  | c :: s => (readString s).map fun r => (c :: r.1, r.2)

/-- The bytes of a string whose opening quote is behind, and the rest. -/
def readBytes (s : List UInt8) : Option (List UInt8 × List UInt8) := do
  let (spelled, r) ← readString s
  let content ← unescape spelled
  some (content, r)

/-- The value, the elements or the members at the beginning of a text, and the rest. -/
def read : Nat → (k : Kind) → List UInt8 → Option (Meaning k × List UInt8)
  | 0, _, _ => none
  | n + 1, .value, s =>
    match s with
    | [] => none
    | c :: t =>
      if c = 34 then (readBytes t).map fun r => (Json.string r.1, r.2)
      else if c = 91 then
        match skip t with
        | 93 :: r => some (Json.array [], r)
        | _ => (read n .elements t).map fun r => (Json.array r.1, r.2.drop 1)
      else if c = 123 then
        match skip t with
        | 125 :: r => some (Json.object [], r)
        | _ => (read n .members t).map fun r => (Json.object r.1, r.2.drop 1)
      else if c = 116 then some (Json.bool true, t.drop 3)
      else if c = 102 then some (Json.bool false, t.drop 4)
      else if c = 110 then some (Json.null, t.drop 3)
      else some (Json.number (s.takeWhile isNumeral), s.dropWhile isNumeral)
  | n + 1, .elements, s => do
    let (v, r) ← read n .value (skip s)
    match skip r with
    | 44 :: r => do
      let (vs, r) ← read n .elements r
      some (v :: vs, r)
    | r => some ([v], r)
  | n + 1, .members, s => do
    let (k, r) ← readBytes ((skip s).drop 1)
    let (v, r) ← read n .value (skip ((skip r).drop 1))
    match skip r with
    | 44 :: r => do
      let (ms, r) ← read n .members r
      some ((k, v) :: ms, r)
    | r => some ([(k, v)], r)

/-! ## Tokens, read back -/

/-- The rest does not begin with a blank. -/
def NoBlank (r : List UInt8) : Prop := ∀ c s, r = c :: s → isBlank c = false

theorem skip_blanks (w : List Blank) {r : List UInt8} (hr : NoBlank r) : skip (blanks w ++ r) = r := by
  unfold skip blanks
  induction w with
  | nil =>
    cases r with
    | nil => rfl
    | cons c s => simp [hr c s rfl]
  | cons b w ih =>
    rw [List.map_cons, List.cons_append, List.dropWhile_cons_of_pos (by cases b <;> rfl), ih]

theorem readString_text (c : StrChar) (s : List UInt8) :
    readString (c.text ++ s) = (readString s).map fun r => (c.text ++ r.1, r.2) := by
  cases c with
  | plain b hb =>
    show readString (b :: s) = (readString s).map fun r => (b :: r.1, r.2)
    rw [readString]
    · exact hb.2.1
    · rintro c s' rfl
      exact absurd rfl hb.2.2
  | escape e => rfl
  | unicode h₁ h₂ h₃ h₄ =>
    have hplain : ∀ h : Hex, ∀ s, readString (h.byte :: s) =
        (readString s).map fun r => (h.byte :: r.1, r.2) := by
      intro h s
      have hne : h.byte ≠ 34 ∧ h.byte ≠ 92 := by
        have hv := h.valid
        constructor
        · intro heq
          rw [heq] at hv
          exact absurd hv (by decide)
        · intro heq
          rw [heq] at hv
          exact absurd hv (by decide)
      rw [readString]
      · exact hne.1
      · rintro c s' heq
        exact absurd heq hne.2
    show readString (92 :: 117 :: h₁.byte :: h₂.byte :: h₃.byte :: h₄.byte :: s) = _
    rw [readString, hplain, hplain, hplain, hplain]
    cases readString s with
    | none => rfl
    | some r => rfl

theorem readString_inner (cs : List StrChar) (r : List UInt8) :
    readString (inner cs ++ 34 :: r) = some (inner cs, r) := by
  induction cs with
  | nil => rfl
  | cons c cs ih =>
    show readString ((c.text ++ inner cs) ++ 34 :: r) = some (c.text ++ inner cs, r)
    rw [List.append_assoc, readString_text, ih]
    rfl

theorem readBytes_inner (cs : List StrChar) (r : List UInt8) :
    readBytes (inner cs ++ 34 :: r) = (bytes? cs).map fun b => (b, r) := by
  unfold readBytes bytes?
  rw [readString_inner, Option.bind_eq_bind, Option.bind_some]
  simp only [unescape_inner]
  cases cs.mapM StrChar.byte? with
  | none => rfl
  | some b => rfl

theorem isNumeral_digit (d : Fin 10) : isNumeral (digitByte d) = true := by
  revert d
  decide

theorem isNumeral_digits {ds : List (Fin 10)} : ∀ b ∈ digits ds, isNumeral b = true := by
  intro b hb
  obtain ⟨d, -, rfl⟩ := List.mem_map.mp hb
  exact isNumeral_digit d

theorem Exponent.isNumeral (e : Exponent) : ∀ b ∈ e.text, isNumeral b = true := by
  intro b hb
  rcases List.mem_cons.mp hb with rfl | hb
  · cases e.upper <;> rfl
  · rcases List.mem_append.mp hb with hb | hb
    · revert hb
      cases e.sign with
      | none => intro hb; cases hb
      | some neg => cases neg <;> (intro hb; rw [List.mem_singleton.mp hb]; rfl)
    · exact isNumeral_digits b hb

theorem Whole.isNumeral (w : Whole) : ∀ b ∈ w.text, isNumeral b = true := by
  cases w with
  | zero =>
    intro b hb
    rw [List.mem_singleton.mp hb]
    rfl
  | pos d hd ds => exact isNumeral_digits

/-- A number is made of the bytes of numbers. -/
theorem Number.isNumeral (n : Number) : ∀ b ∈ n.text, isNumeral b = true := by
  intro b hb
  rcases List.mem_append.mp hb with hb | hb
  · cases hneg : n.neg with
    | false =>
      rw [hneg] at hb
      cases hb
    | true =>
      rw [hneg] at hb
      rw [List.mem_singleton.mp hb]
      rfl
  rcases List.mem_append.mp hb with hb | hb
  · exact n.whole.isNumeral b hb
  rcases List.mem_append.mp hb with hb | hb
  · revert hb
    cases n.frac with
    | none => intro hb; cases hb
    | some f =>
      intro hb
      rcases List.mem_cons.mp hb with rfl | hb
      · rfl
      · exact isNumeral_digits b hb
  · revert hb
    cases n.exp with
    | none => intro hb; cases hb
    | some e => exact e.isNumeral b

theorem Number.text_ne_nil (n : Number) : n.text ≠ [] := by
  have hwhole : n.whole.text ≠ [] := by
    cases n.whole with
    | zero => simp [Whole.text]
    | pos d hd ds => simp [Whole.text, digits]
  unfold Number.text
  simp [hwhole]

/-! ## Trees, read back -/

/-- How a value begins. -/
structure Opens (c : UInt8) : Prop where
  blank : isBlank c = false
  bracket : c ≠ 93
  brace : c ≠ 125

theorem Opens.of_numeral {c : UInt8} (h : isNumeral c = true) : Opens c := by
  refine ⟨?_, ?_, ?_⟩
  · cases hb : isBlank c with
    | false => rfl
    | true =>
      exfalso
      simp only [isBlank, Bool.or_eq_true, decide_eq_true_eq] at hb
      rcases hb with ((rfl | rfl) | rfl) | rfl <;> exact absurd h (by decide)
  · rintro rfl
    exact absurd h (by decide)
  · rintro rfl
    exact absurd h (by decide)

theorem Syn.opens (v : Syn .value) : ∃ c t, v.text = c :: t ∧ Opens c := by
  have hopen : ∀ c ∈ [34, 91, 123, 116, 102, 110], Opens c := by
    simp only [List.forall_mem_cons, List.not_mem_nil, false_imp_iff, implies_true, and_true]
    refine ⟨?_, ?_, ?_, ?_, ?_, ?_⟩ <;> exact ⟨by decide, by decide, by decide⟩
  cases v with
  | string cs => exact ⟨34, _, rfl, hopen 34 (by decide)⟩
  | number n =>
    cases htext : n.text with
    | nil => exact absurd htext n.text_ne_nil
    | cons c t => exact ⟨c, t, htext, .of_numeral (n.isNumeral c (htext ▸ List.mem_cons_self ..))⟩
  | literal l =>
    cases l with
    | true => exact ⟨116, _, rfl, hopen 116 (by decide)⟩
    | false => exact ⟨102, _, rfl, hopen 102 (by decide)⟩
    | null => exact ⟨110, _, rfl, hopen 110 (by decide)⟩
  | emptyArray w => exact ⟨91, _, rfl, hopen 91 (by decide)⟩
  | array es => exact ⟨91, _, rfl, hopen 91 (by decide)⟩
  | emptyObject w => exact ⟨123, _, rfl, hopen 123 (by decide)⟩
  | object ms => exact ⟨123, _, rfl, hopen 123 (by decide)⟩

/-- What may come behind a value, elements or members. -/
def Follow : Kind → List UInt8 → Prop
  | .value, r => ∀ c s, r = c :: s → isNumeral c = false
  | .elements, r => ∃ s, r = 93 :: s
  | .members, r => ∃ s, r = 125 :: s

def Syn.height : {k : Kind} → Syn k → Nat
  | _, .string _ => 1
  | _, .number _ => 1
  | _, .literal _ => 1
  | _, .emptyArray _ => 1
  | _, .array es => es.height + 1
  | _, .emptyObject _ => 1
  | _, .object ms => ms.height + 1
  | _, .element _ v _ => v.height + 1
  | _, .elements _ v _ es => max v.height es.height + 1
  | _, .member _ _ _ _ v _ => v.height + 1
  | _, .members _ _ _ _ v _ ms => max v.height ms.height + 1

theorem noBlank_cons {c : UInt8} (h : isBlank c = false) (s : List UInt8) : NoBlank (c :: s) := by
  intro d t heq
  rw [← (List.cons.inj heq).1]
  exact h

theorem follow_cons {c : UInt8} (h : isNumeral c = false) (s : List UInt8) : Follow .value (c :: s) := by
  intro d t heq
  rw [← (List.cons.inj heq).1]
  exact h

/-- Blanks and what is not part of a number may follow a value. -/
theorem follow_blanks (w : List Blank) {c : UInt8} (h : isNumeral c = false) (s : List UInt8) :
    Follow .value (blanks w ++ c :: s) := by
  cases w with
  | nil => exact follow_cons h s
  | cons b w => exact follow_cons (by cases b <;> rfl) _

theorem Syn.noBlank_text (v : Syn .value) (r : List UInt8) : NoBlank (v.text ++ r) := by
  obtain ⟨c, t, htext, hc⟩ := v.opens
  rw [htext]
  exact noBlank_cons hc.blank _

/-- An array with elements is not read as the empty one. -/
theorem Syn.skip_elements (es : Syn .elements) (r : List UInt8) :
    ∃ c t, skip (es.text ++ r) = c :: t ∧ c ≠ 93 := by
  cases es with
  | element w v w' =>
    obtain ⟨c, t, htext, hc⟩ := v.opens
    refine ⟨c, t ++ (blanks w' ++ r), ?_, hc.bracket⟩
    rw [Syn.text, List.append_assoc, List.append_assoc, skip_blanks w (v.noBlank_text _), htext]
    rfl
  | elements w v w' es =>
    obtain ⟨c, t, htext, hc⟩ := v.opens
    refine ⟨c, t ++ (blanks w' ++ (44 :: es.text ++ r)), ?_, hc.bracket⟩
    rw [Syn.text, List.append_assoc, List.append_assoc, List.append_assoc,
      skip_blanks w (v.noBlank_text _), htext]
    rfl

theorem Syn.skip_members (ms : Syn .members) (r : List UInt8) :
    ∃ t, skip (ms.text ++ r) = 34 :: t := by
  cases ms with
  | member w key w₁ w₂ v w' =>
    simp only [Syn.text, quoted, List.append_assoc, List.cons_append]
    rw [skip_blanks w (noBlank_cons (by decide) _)]
    exact ⟨_, rfl⟩
  | members w key w₁ w₂ v w' ms =>
    simp only [Syn.text, quoted, List.append_assoc, List.cons_append]
    rw [skip_blanks w (noBlank_cons (by decide) _)]
    exact ⟨_, rfl⟩

theorem Number.read (n : Number) (m : Nat) {r : List UInt8} (hr : Follow .value r) :
    JsonText.read (m + 1) .value (n.text ++ r) = some (Json.number n.text, r) := by
  have htake : (n.text ++ r).takeWhile JsonText.isNumeral = n.text ∧
      (n.text ++ r).dropWhile JsonText.isNumeral = r := by
    rw [List.takeWhile_append_of_pos n.isNumeral, List.dropWhile_append_of_pos n.isNumeral]
    cases r with
    | nil => simp
    | cons c s => simp [hr c s rfl]
  cases htext : n.text with
  | nil => exact absurd htext n.text_ne_nil
  | cons c t =>
    have hc := n.isNumeral c (htext ▸ List.mem_cons_self ..)
    have hne : ∀ d, JsonText.isNumeral d = false → c ≠ d := by
      rintro d hd rfl
      rw [hd] at hc
      cases hc
    rw [htext] at htake
    rw [List.cons_append] at htake ⊢
    rw [JsonText.read, if_neg (hne 34 (by decide)), if_neg (hne 91 (by decide)), if_neg (hne 123 (by decide)),
      if_neg (hne 116 (by decide)), if_neg (hne 102 (by decide)), if_neg (hne 110 (by decide)),
      htake.1, htake.2]

theorem Syn.exists_succ {k : Kind} {t : Syn k} {n : Nat} (h : t.height ≤ n) : ∃ m, n = m + 1 := by
  have hpos : 0 < t.height := by
    cases t <;> exact Nat.succ_pos _
  exact ⟨n - 1, by omega⟩

/-- **The reader finds the meaning of a tree in its text.** -/
theorem read_text {k : Kind} (t : Syn k) (n : Nat) (hn : t.height ≤ n) {r : List UInt8}
    (hr : Follow k r) : read n k (t.text ++ r) = t.meaning.map fun m => (m, r) := by
  induction t generalizing n r with
  | string cs =>
    obtain ⟨n, rfl⟩ := Syn.exists_succ hn
    have htext : (Syn.string cs).text ++ r = 34 :: (inner cs ++ 34 :: r) := by simp [Syn.text, quoted]
    rw [htext, read]
    simp only [if_true]
    rw [readBytes_inner, Syn.meaning, Option.map_map, Option.map_map]
    rfl
  | number num =>
    obtain ⟨n, rfl⟩ := Syn.exists_succ hn
    exact num.read n hr
  | literal l =>
    obtain ⟨n, rfl⟩ := Syn.exists_succ hn
    cases l <;> rfl
  | emptyArray w =>
    obtain ⟨n, rfl⟩ := Syn.exists_succ hn
    have htext : (Syn.emptyArray w).text ++ r = 91 :: (blanks w ++ 93 :: r) := by simp [Syn.text]
    rw [htext, read, skip_blanks w (noBlank_cons (by decide) _)]
    rfl
  | array es ih =>
    obtain ⟨n, rfl⟩ := Syn.exists_succ hn
    have htext : (Syn.array es).text ++ r = 91 :: (es.text ++ 93 :: r) := by simp [Syn.text]
    obtain ⟨c, t, hskip, hc⟩ := es.skip_elements (93 :: r)
    have hes := ih n (Nat.le_of_succ_le_succ hn) ⟨r, rfl⟩
    rw [htext, read, if_neg (by decide), if_pos rfl, hskip, hes, Syn.meaning]
    split
    · rename_i heq
      exact absurd (List.cons.inj heq).1 hc
    · rw [Option.map_map, Option.map_map]
      rfl
  | emptyObject w =>
    obtain ⟨n, rfl⟩ := Syn.exists_succ hn
    have htext : (Syn.emptyObject w).text ++ r = 123 :: (blanks w ++ 125 :: r) := by simp [Syn.text]
    rw [htext, read, skip_blanks w (noBlank_cons (by decide) _)]
    rfl
  | object ms ih =>
    obtain ⟨n, rfl⟩ := Syn.exists_succ hn
    have htext : (Syn.object ms).text ++ r = 123 :: (ms.text ++ 125 :: r) := by simp [Syn.text]
    obtain ⟨t, hskip⟩ := ms.skip_members (125 :: r)
    have hms := ih n (Nat.le_of_succ_le_succ hn) ⟨r, rfl⟩
    rw [htext, read, if_neg (by decide), if_neg (by decide), if_pos rfl, hskip, hms, Syn.meaning]
    split
    · rename_i heq
      exact absurd (List.cons.inj heq).1 (by decide)
    · rw [Option.map_map, Option.map_map]
      rfl
  | element w v w' ih =>
    obtain ⟨n, rfl⟩ := Syn.exists_succ hn
    obtain ⟨s, rfl⟩ := hr
    have hv := ih n (Nat.le_of_succ_le_succ hn) (follow_blanks w' (c := 93) (by decide) s)
    have htext : (Syn.element w v w').text ++ 93 :: s =
        blanks w ++ (v.text ++ (blanks w' ++ 93 :: s)) := by simp [Syn.text]
    rw [htext, read, skip_blanks w (v.noBlank_text _), hv, Syn.meaning]
    cases v.meaning with
    | none => rfl
    | some m =>
      simp only [Option.map_some, Option.bind_eq_bind, Option.bind_some]
      rw [skip_blanks w' (noBlank_cons (by decide) _)]
      rfl
  | elements w v w' es ihv ihe =>
    obtain ⟨n, rfl⟩ := Syn.exists_succ hn
    rw [Syn.height] at hn
    have hv := ihv n (by omega) (follow_blanks w' (c := 44) (by decide) (es.text ++ r))
    have hes := ihe n (by omega) hr
    have htext : (Syn.elements w v w' es).text ++ r =
        blanks w ++ (v.text ++ (blanks w' ++ 44 :: (es.text ++ r))) := by simp [Syn.text]
    rw [htext, read, skip_blanks w (v.noBlank_text _), hv, Syn.meaning]
    cases v.meaning with
    | none => rfl
    | some m =>
      simp only [Option.map_some, Option.bind_eq_bind, Option.bind_some]
      rw [skip_blanks w' (noBlank_cons (by decide) _)]
      simp only
      rw [hes]
      cases es.meaning with
      | none => rfl
      | some ms => rfl
  | member w key w₁ w₂ v w' ih =>
    obtain ⟨n, rfl⟩ := Syn.exists_succ hn
    obtain ⟨s, rfl⟩ := hr
    have hv := ih n (Nat.le_of_succ_le_succ hn) (follow_blanks w' (c := 125) (by decide) s)
    have htext : (Syn.member w key w₁ w₂ v w').text ++ 125 :: s = blanks w ++ 34 :: (inner key ++
        34 :: (blanks w₁ ++ 58 :: (blanks w₂ ++ (v.text ++ (blanks w' ++ 125 :: s))))) := by
      simp [Syn.text, quoted]
    rw [htext, read, skip_blanks w (noBlank_cons (by decide) _), List.drop_one, List.tail_cons,
      readBytes_inner, Syn.meaning]
    cases bytes? key with
    | none => rfl
    | some k =>
      simp only [Option.map_some, Option.bind_eq_bind, Option.bind_some]
      rw [skip_blanks w₁ (noBlank_cons (by decide) _), List.drop_one, List.tail_cons,
        skip_blanks w₂ (v.noBlank_text _), hv]
      cases v.meaning with
      | none => rfl
      | some m =>
        simp only [Option.map_some, Option.bind_some]
        rw [skip_blanks w' (noBlank_cons (by decide) _)]
        rfl
  | members w key w₁ w₂ v w' ms ihv ihm =>
    obtain ⟨n, rfl⟩ := Syn.exists_succ hn
    rw [Syn.height] at hn
    have hv := ihv n (by omega) (follow_blanks w' (c := 44) (by decide) (ms.text ++ r))
    have hms := ihm n (by omega) hr
    have htext : (Syn.members w key w₁ w₂ v w' ms).text ++ r = blanks w ++ 34 :: (inner key ++
        34 :: (blanks w₁ ++ 58 :: (blanks w₂ ++ (v.text ++ (blanks w' ++ 44 :: (ms.text ++ r)))))) := by
      simp [Syn.text, quoted]
    rw [htext, read, skip_blanks w (noBlank_cons (by decide) _), List.drop_one, List.tail_cons,
      readBytes_inner, Syn.meaning]
    cases bytes? key with
    | none => rfl
    | some k =>
      simp only [Option.map_some, Option.bind_eq_bind, Option.bind_some]
      rw [skip_blanks w₁ (noBlank_cons (by decide) _), List.drop_one, List.tail_cons,
        skip_blanks w₂ (v.noBlank_text _), hv]
      cases v.meaning with
      | none => rfl
      | some m =>
        simp only [Option.map_some, Option.bind_some]
        rw [skip_blanks w' (noBlank_cons (by decide) _)]
        simp only
        rw [hms]
        cases ms.meaning with
        | none => rfl
        | some ms => rfl

/-! ## Texts -/

/-- A text means a value. -/
def Means (text : List UInt8) (v : Json) : Prop :=
  ∃ w, ∃ t : Syn .value, ∃ w', text = blanks w ++ (t.text ++ blanks w') ∧ t.meaning = some v

/-- **A text means one value.** -/
theorem Means.unique {text : List UInt8} {v v' : Json} (h : Means text v) (h' : Means text v') :
    v = v' := by
  have hread : ∀ v, Means text v → ∃ n, ∀ m, n ≤ m →
      (read m .value (skip text)).map Prod.fst = some v := by
    rintro v ⟨w, t, w', rfl, ht⟩
    have hfollow : Follow .value (blanks w') := by
      cases w' with
      | nil => intro c s hnil; cases hnil
      | cons b w' => exact follow_cons (by cases b <;> rfl) _
    refine ⟨t.height, fun m hm => ?_⟩
    rw [skip_blanks w (t.noBlank_text _), read_text t m hm hfollow, ht]
    rfl
  obtain ⟨n, hn⟩ := hread v h
  obtain ⟨n', hn'⟩ := hread v' h'
  have heq := (hn (max n n') (Nat.le_max_left ..)).symm.trans (hn' (max n n') (Nat.le_max_right ..))
  exact Option.some.inj heq

end JsonText
