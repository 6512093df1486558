import MemoryMonitor.FieldSpec
import MemoryMonitor.AuthSpec
import MemoryMonitor.Segmentation
import MemoryMonitor.Printing

/-! # Where a signal goes

A request to signal a process is obeyed only when it presents the token, and only for a
PID and a signal in range.  Which member of the body they come from is another matter:
`parse_json_field` takes the first member, at any depth, and cuts its value to 31 bytes.
Where that member is the object's own and its value fits, the signal goes where the body
says (`signal_goes_where_told`).
-/
namespace MemoryMonitor

open CString JsonText

/-! ## What a text denotes -/

/-- Blanks, a sign and decimal digits, and nothing else, denote the number. -/
def Denotes (t : List UInt8) (n : Int) : Prop := scanInt t = some (n, [])

instance (t : List UInt8) (n : Int) : Decidable (Denotes t n) := inferInstanceAs (Decidable (_ = _))

/-- The signals that have a name. -/
def signalNames : List (List UInt8 × Int) :=
  [(bytes "SIGKILL", sigkill), (bytes "SIGTERM", sigterm), (bytes "SIGSTOP", sigstop),
    (bytes "SIGCONT", sigcont), (bytes "SIGINT", sigint)]

/-- The text is the name of the signal, or its number. -/
def NamesSignal (t : List UInt8) (sig : Int) : Prop :=
  (t, sig) ∈ signalNames ∨ Denotes t sig ∧ 0 ≤ sig ∧ sig ≤ 31

/-- The three parts of a text that denotes a number. -/
theorem Denotes.parts {t : List UInt8} {n : Int} (h : Denotes t n) :
    ∃ sp sg ds, t = sp ++ (sg ++ ds) ∧ (∀ c ∈ sp, isSpace c = true) ∧
      (sg = [] ∨ sg = [43] ∨ sg = [45]) ∧ (∀ c ∈ ds, isDigit c = true) ∧ ds ≠ [] ∧
      n.natAbs = ofDigits ds := by
  unfold Denotes scanInt at h
  simp only at h
  split at h
  · cases h
  · rename_i hne
    obtain ⟨hn, hrest⟩ := Prod.mk.inj (Option.some.inj h)
    have hsign : ∃ sg, t.dropWhile isSpace = sg ++ (sign (t.dropWhile isSpace)).2 ∧
        (sg = [] ∨ sg = [43] ∨ sg = [45]) := by
      generalize t.dropWhile isSpace = u
      unfold sign
      split
      · exact ⟨[45], rfl, by simp⟩
      · exact ⟨[43], rfl, by simp⟩
      · exact ⟨[], rfl, by simp⟩
    obtain ⟨sg, hsg, hcases⟩ := hsign
    have hds : (sign (t.dropWhile isSpace)).2 =
        (sign (t.dropWhile isSpace)).2.takeWhile isDigit := by
      conv_lhs => rw [← List.takeWhile_append_dropWhile (p := isDigit)
        (l := (sign (t.dropWhile isSpace)).2), hrest, List.append_nil]
    refine ⟨t.takeWhile isSpace, sg, (sign (t.dropWhile isSpace)).2.takeWhile isDigit, ?_,
      fun c hc => List.mem_takeWhile_imp hc, hcases, fun c hc => List.mem_takeWhile_imp hc, hne, ?_⟩
    · rw [← hds, ← hsg, List.takeWhile_append_dropWhile]
    · rw [← hn]
      split <;> simp

/-- A byte that is copied as it is meant: no letter of an escape and no bracket. -/
def isUnescaped (c : UInt8) : Bool :=
  c < 128 && !([34, 92, 47, 98, 102, 110, 114, 116, 117, 91, 123].contains c)

theorem isUnescaped_of_isSpace {c : UInt8} (h : isSpace c = true) : isUnescaped c = true := by
  exact forall_byte (P := fun c => isSpace c = true → isUnescaped c = true) (by decide +kernel) c h

theorem isUnescaped_of_isDigit {c : UInt8} (h : isDigit c = true) : isUnescaped c = true := by
  exact forall_byte (P := fun c => isDigit c = true → isUnescaped c = true) (by decide +kernel) c h

theorem Denotes.unescaped {t : List UInt8} {n : Int} (h : Denotes t n) :
    ∀ c ∈ t, isUnescaped c = true := by
  obtain ⟨sp, sg, ds, rfl, hsp, hsg, hds, -⟩ := h.parts
  intro c hc
  rcases List.mem_append.mp hc with hc | hc
  · exact isUnescaped_of_isSpace (hsp c hc)
  · rcases List.mem_append.mp hc with hc | hc
    · rcases hsg with rfl | rfl | rfl
      · cases hc
      · rw [List.mem_singleton.mp hc]
        rfl
      · rw [List.mem_singleton.mp hc]
        rfl
    · exact isUnescaped_of_isDigit (hds c hc)

theorem NamesSignal.unescaped {t : List UInt8} {sig : Int} (h : NamesSignal t sig) :
    ∀ c ∈ t, isUnescaped c = true := by
  rcases h with h | ⟨h, -⟩
  · have hall : ∀ p ∈ signalNames, ∀ c ∈ p.1, isUnescaped c = true := by decide +kernel
    exact hall (t, sig) h
  · exact h.unescaped

/-! ## What the code takes a text for -/

theorem strtol_endptr_nil {t : List UInt8} (hne : t ≠ []) (hrange : (strtol t).range = false)
    (hend : (strtol t).endptr = []) : Denotes t (strtol t).value := by
  unfold strtol at hrange hend ⊢
  unfold Denotes
  cases hs : scanInt t with
  | none =>
    rw [hs] at hend
    exact absurd hend hne
  | some r =>
    obtain ⟨n, u⟩ := r
    rw [hs] at hrange hend
    simp only at hrange hend ⊢
    split at hrange
    · cases hrange
    · split at hrange
      · cases hrange
      · rename_i h1 h2
        simp only [if_neg h1, if_neg h2] at hend ⊢
        rw [hend]

theorem parsePid_some {t : List UInt8} {n : Int} (hne : t ≠ []) (h : parsePid t = some n) :
    Denotes t n ∧ 1 < n ∧ n ≤ 4194304 := by
  unfold parsePid at h
  simp only at h
  split at h
  · cases h
  · rename_i hok
    simp only [Bool.or_eq_true, decide_eq_true_eq, not_or, not_not, ne_eq, Bool.not_eq_true] at hok
    obtain ⟨⟨⟨hrange, hend⟩, hlow⟩, hhigh⟩ := hok
    have hd := strtol_endptr_nil hne hrange hend
    rw [Option.some.inj h] at hd hlow hhigh
    exact ⟨hd, by omega, by omega⟩

theorem signalParseName_nonneg {t : List UInt8} {sig : Int} (hne : t ≠ [])
    (hsig : signalParseName t = sig) (h : 0 ≤ sig) : sig ≤ 31 ∧ NamesSignal t sig := by
  -- a branch for a name and a number of the signal `v`
  have named : ∀ {a b : List UInt8} {v : Int}, t = a ∨ t = b → v = sig → (a, v) ∈ signalNames →
      Denotes b v ∧ 0 ≤ v ∧ v ≤ 31 → sig ≤ 31 ∧ NamesSignal t sig := by
    rintro a b v (rfl | rfl) rfl ha hb
    · exact ⟨hb.2.2, Or.inl ha⟩
    · exact ⟨hb.2.2, Or.inr hb⟩
  unfold signalParseName at hsig
  rw [if_neg hne] at hsig
  simp only [Bool.or_eq_true, decide_eq_true_eq] at hsig
  split at hsig
  · exact named ‹_› hsig (by decide) (by decide +kernel)
  split at hsig
  · exact named ‹_› hsig (by decide) (by decide +kernel)
  split at hsig
  · exact named ‹_› hsig (by decide) (by decide +kernel)
  split at hsig
  · exact named ‹_› hsig (by decide) (by decide +kernel)
  split at hsig
  · exact named ‹_› hsig (by decide) (by decide +kernel)
  split at hsig
  · rename_i ht
    subst hsig ht
    exact ⟨by decide, Or.inr (by decide +kernel)⟩
  split at hsig
  · rename_i hok
    simp only [Bool.and_eq_true, decide_eq_true_eq] at hok
    obtain ⟨⟨⟨hrange, hend⟩, hlow⟩, hhigh⟩ := hok
    have hd := strtol_endptr_nil hne hrange hend
    rw [hsig] at hd hlow hhigh
    exact ⟨hhigh, Or.inr ⟨hd, hlow, hhigh⟩⟩
  · omega

/-! ## Numbers that do not fit -/

/-- A number with a nonzero first digit. -/
theorem le_ofDigits {c : UInt8} (hc : 49 ≤ c) (ds : List UInt8) :
    10 ^ ds.length ≤ ofDigits (c :: ds) := by
  have hfold : ∀ (ds : List UInt8) (acc : Nat), acc * 10 ^ ds.length ≤
      ds.foldl (fun n d => 10 * n + (d.toNat - 48)) acc := by
    intro ds
    induction ds with
    | nil => simp
    | cons d ds ih =>
      intro acc
      refine le_trans ?_ (ih _)
      rw [List.length_cons, Nat.pow_succ', ← Nat.mul_assoc]
      refine Nat.mul_le_mul_right _ ?_
      show acc * 10 ≤ 10 * acc + (d.toNat - 48)
      omega
  have h1 : 49 ≤ c.toNat := UInt8.le_iff_toNat_le.mp hc
  refine le_trans ?_ (hfold ds _)
  refine Nat.le_mul_of_pos_left _ ?_
  show 0 < 10 * 0 + (c.toNat - 48)
  omega

/-- What follows the integer part of a number does not begin with a digit. -/
theorem rest_not_digit {n : Number} {c : UInt8} {t : List UInt8} (h : n.rest = c :: t) :
    isDigit c = false := by
  unfold Number.rest at h
  cases hf : n.frac with
  | some f =>
    rw [hf] at h
    obtain ⟨rfl, -⟩ := List.cons.inj h
    rfl
  | none =>
    rw [hf] at h
    cases he : n.exp with
    | none =>
      rw [he] at h
      cases h
    | some e =>
      rw [he] at h
      obtain ⟨hc, -⟩ := List.cons.inj h
      rw [← hc]
      cases e.upper <;> rfl

/-- A cut through the digits of a number leaves a large number. -/
theorem ofDigits_cut {n : Number} {k : Nat} (hk : 2 ≤ k)
    (hlen : k ≤ (n.whole.text ++ n.rest).length)
    (hd : ∀ c ∈ (n.whole.text ++ n.rest).take k, isDigit c = true) :
    10 ^ (k - 1) ≤ ofDigits ((n.whole.text ++ n.rest).take k) := by
  obtain ⟨j, rfl⟩ : ∃ j, k = j + 2 := ⟨k - 2, by omega⟩
  cases hw : n.whole with
  | zero =>
    -- `0` is followed by a point or an exponent
    exfalso
    rw [hw] at hlen hd
    cases hr : n.rest with
    | nil => simp [Whole.text, hr] at hlen
    | cons c t =>
      have := hd c (by simp [Whole.text, hr])
      rw [rest_not_digit hr] at this
      cases this
  | pos d hne ds =>
    rw [hw] at hlen
    have hcons : ((Whole.pos d hne ds).text ++ n.rest).take (j + 2) =
        digitByte d :: ((digits ds ++ n.rest).take (j + 1)) := rfl
    have hfirst : ∀ d : Fin 10, d ≠ 0 → 49 ≤ digitByte d := by decide
    have hlen' : ((digits ds ++ n.rest).take (j + 1)).length = j + 1 := by
      rw [List.length_take, Nat.min_eq_left]
      simpa [Whole.text, digits] using hlen
    rw [hcons]
    refine le_trans ?_ (le_ofDigits (hfirst d hne) _)
    rw [hlen']
    exact le_refl _

theorem whole_cons (w : Whole) : ∃ c t, w.text = c :: t ∧ isDigit c = true := by
  cases w with
  | zero => exact ⟨48, [], rfl, rfl⟩
  | pos d _ ds => exact ⟨digitByte d, _, rfl, isDigit_digitByte d⟩

/-- A text that begins with a digit or a minus is digits, after the minus. -/
theorem Denotes.digits_eq {neg : Bool} {c : UInt8} {t : List UInt8} {m : Int} (hc : isDigit c = true)
    (h : Denotes ((if neg then [45] else []) ++ c :: t) m) :
    (∀ b ∈ c :: t, isDigit b = true) ∧ m.natAbs = ofDigits (c :: t) := by
  have hspace : isSpace c = false ∧ c ≠ 43 ∧ c ≠ 45 := by
    obtain ⟨h1, h2, h3, -⟩ := isDigit_plain hc
    exact ⟨h1, h3, h2⟩
  obtain ⟨sp, sg, ds, heq, hsp, hsg, hds, -, habs⟩ := h.parts
  obtain rfl : sp = [] := by
    cases sp with
    | nil => rfl
    | cons b sp =>
      have hb := hsp b (by simp)
      cases neg with
      | true =>
        obtain ⟨rfl, -⟩ := List.cons.inj heq
        cases hb
      | false =>
        obtain ⟨rfl, -⟩ := List.cons.inj heq
        rw [hspace.1] at hb
        cases hb
  have hds' : c :: t = ds := by
    cases neg with
    | true =>
      rcases hsg with rfl | rfl | rfl
      · have := hds 45 (by rw [← show _ = ds from heq]; simp)
        cases this
      · cases heq
      · exact (List.cons.inj heq).2
    | false =>
      rcases hsg with rfl | rfl | rfl
      · exact heq
      · exact absurd (List.cons.inj heq).1 hspace.2.1
      · exact absurd (List.cons.inj heq).1 hspace.2.2
  rw [hds']
  exact ⟨hds, habs⟩

/-- A number that denotes a small one when it is cut was not cut. -/
theorem number_fits {n : Number} {m : Int} {k : Nat} (hk : 9 ≤ k) (h : Denotes (n.text.take k) m)
    (hm : m.natAbs ≤ 4194304) : n.text.length ≤ k := by
  by_contra hlen
  obtain ⟨c, t, hw, hc⟩ := whole_cons n.whole
  -- the digits that are left
  obtain ⟨j, hj, hjlen, hcut⟩ : ∃ j, 8 ≤ j ∧ j ≤ (n.whole.text ++ n.rest).length ∧
      n.text.take k = (if n.neg then [45] else []) ++ (n.whole.text ++ n.rest).take j := by
    unfold Number.text at hlen ⊢
    cases hneg : n.neg with
    | true =>
      rw [hneg] at hlen
      refine ⟨k - 1, by omega, ?_, ?_⟩
      · simp at hlen ⊢
        omega
      · obtain ⟨j, rfl⟩ : ∃ j, k = j + 1 := ⟨k - 1, by omega⟩
        rfl
    | false =>
      rw [hneg] at hlen
      refine ⟨k, by omega, ?_, rfl⟩
      simp at hlen ⊢
      omega
  obtain ⟨i, rfl⟩ : ∃ i, j = i + 1 := ⟨j - 1, by omega⟩
  have hcons : (n.whole.text ++ n.rest).take (i + 1) = c :: (t ++ n.rest).take i := by
    rw [hw]
    rfl
  rw [hcut, hcons] at h
  obtain ⟨hd, habs⟩ := h.digits_eq hc
  rw [← hcons] at hd habs
  have hbig := ofDigits_cut (by omega) hjlen hd
  have hpow : 10 ^ 7 ≤ 10 ^ (i + 1 - 1) := Nat.pow_le_pow_right (by omega) (by omega)
  omega

/-! ## What is meant and what is copied -/

theorem ascii?_cons (c : StrChar) (cs : List StrChar) :
    ascii? (c :: cs) = (c.ascii?).bind fun b => (ascii? cs).map fun t => b :: t := by
  unfold ascii?
  rw [List.mapM_cons]
  cases c.ascii? with
  | none => rfl
  | some b =>
    cases cs.mapM StrChar.ascii? with
    | none => rfl
    | some t => rfl

theorem isUnescaped_letter (e : Escape) : isUnescaped e.letter = false := by
  cases e <;> rfl

/-- A string without escapes is copied as it is meant. -/
theorem ascii?_of_unescaped {cs : List StrChar}
    (h : ∀ c ∈ copiedString cs, isUnescaped c = true) : ascii? cs = some (copiedString cs) := by
  induction cs with
  | nil => rfl
  | cons c cs ih =>
    have ih := ih fun b hb => h b (List.mem_append_right _ hb)
    cases c with
    | plain b hb =>
      have hlt : b < 128 := by
        have := h b (List.mem_append_left _ (List.mem_singleton_self b))
        simp only [isUnescaped, Bool.and_eq_true, decide_eq_true_eq] at this
        exact this.1
      rw [ascii?_cons, ih]
      show (if b < 128 then some b else none).bind _ = _
      rw [if_pos hlt]
      rfl
    | escape e =>
      have := h e.letter (List.mem_append_left _ (List.mem_singleton_self _))
      rw [isUnescaped_letter] at this
      cases this
    | unicode h₁ h₂ h₃ h₄ =>
      cases h 117 (List.mem_append_left _ (List.mem_cons_self ..))

/-- A key that is spelled like a word is that word. -/
theorem ascii?_of_inner {cs : List StrChar} (h : ∀ b ∈ inner cs, isWord b = true) :
    ascii? cs = some (inner cs) := by
  induction cs with
  | nil => rfl
  | cons c cs ih =>
    have ih := ih fun b hb => h b (List.mem_append_right _ hb)
    cases c with
    | plain b hb =>
      have hlt : b < 128 := by
        have hw := h b (List.mem_append_left _ (List.mem_singleton_self b))
        exact forall_byte (P := fun c => isWord c = true → c < 128) (by decide +kernel) b hw
      rw [ascii?_cons, ih]
      show (if b < 128 then some b else none).bind _ = _
      rw [if_pos hlt]
      rfl
    | escape e => cases h 92 (List.mem_append_left _ (List.mem_cons_self ..))
    | unicode h₁ h₂ h₃ h₄ => cases h 92 (List.mem_append_left _ (List.mem_cons_self ..))

/-- What is copied of a value is what it says, when no byte of it can come from an
escape or a literal. -/
theorem content?_of_copied {v : Syn .value} {t : List UInt8} (hv : copied? v = some t)
    (ht : ∀ c ∈ t, isUnescaped c = true) : v.content? = some t := by
  cases v with
  | string cs =>
    obtain rfl := Option.some.inj hv
    exact ascii?_of_unescaped ht
  | number n => exact hv
  | literal l =>
    obtain rfl := Option.some.inj hv
    exfalso
    cases l with
    | true => cases ht 116 (by decide)
    | false => cases ht 102 (by decide)
    | null => cases ht 110 (by decide)
  | _ => cases hv

/-! ## What the body says -/

/-- The object itself has a member of this name, however it is spelled, and its value is
a number or a string with the content `t`. -/
def Says (doc : ObjectText) (name t : List UInt8) : Prop :=
  ∃ m ∈ doc.members, m.depth = 1 ∧ ascii? m.key = some name ∧ m.value.content? = some t

/-- The object itself has no member of this name, however it is spelled. -/
def Silent (doc : ObjectText) (name : List UInt8) : Prop :=
  ∀ m ∈ doc.members, m.depth = 1 → ascii? m.key ≠ some name

/-- The body says to send the signal `sig` to the process `n`. -/
structure Tells (doc : ObjectText) (n sig : Int) : Prop where
  pid : ∃ t, Says doc (bytes "pid") t ∧ Denotes t n
  signal : (Silent doc (bytes "signal") ∨ Says doc (bytes "signal") []) ∧ sig = sigterm ∨
    ∃ t, Says doc (bytes "signal") t ∧ NamesSignal t sig

/-- The body of a request. -/
def bodyOf (buffer : List UInt8) : Option (List UInt8) :=
  (strstr (bytes "\r\n\r\n") buffer).map fun r => r.2.drop 4

/-- The first member that is spelled like the key is the object's own, and if its value is
a string, it fits into 31 bytes. -/
def ReadsWell (doc : ObjectText) (key : List UInt8) : Prop :=
  ∀ m, doc.members.find? (fun m => m.keyText = key) = some m →
    m.depth = 1 ∧ ∀ cs, m.value = .string cs → (copiedString cs).length ≤ 31

/-- The body means what the code reads in it: this holds of `pid` and of `signal`, and
where no member is spelled `signal`, the object has none of that name. -/
structure PlainFields (doc : ObjectText) : Prop where
  pid : ReadsWell doc (bytes "pid")
  signal : ReadsWell doc (bytes "signal")
  spelled : doc.members.find? (fun m => m.keyText = bytes "signal") = none →
    Silent doc (bytes "signal")

/-! ## What is read -/

section
variable {doc : ObjectText} {key t : List UInt8} {m : Member}

theorem askable_pid : Askable (bytes "pid") 32 :=
  ⟨⟨by decide, by decide +kernel⟩, by decide, by decide⟩

theorem askable_signal : Askable (bytes "signal") 32 :=
  ⟨⟨by decide, by decide +kernel⟩, by decide, by decide⟩

/-- The member that is found has the name that is looked for. -/
theorem named_of_find? (hk : WordKey key)
    (hfind : doc.members.find? (fun m => m.keyText = key) = some m) : ascii? m.key = some key := by
  have hkey : inner m.key = key := of_decide_eq_true (List.find?_some hfind :)
  rw [ascii?_of_inner, hkey]
  rw [hkey]
  exact hk.word

/-- **What is read is what the body says**, when the member that is found is the object's
own, its text is not cut and no byte of it comes from an escape. -/
theorem ReadsWell.says (h : ReadsWell doc key) (hk : Askable key 32)
    (ht : parseJsonField doc.text key 32 = t) (hne : t ≠ [])
    (hun : ∀ c ∈ t, isUnescaped c = true)
    (hfit : ∀ n : Number, t = n.text.take 31 → n.text.length ≤ 31) : Says doc key t := by
  cases hfind : doc.members.find? fun m => m.keyText = key with
  | none => exact absurd (ht.symm.trans (hk.of_none hfind)) hne
  | some m =>
    obtain ⟨hdepth, hstring⟩ := h m hfind
    refine ⟨m, List.mem_of_find?_eq_some hfind, hdepth, named_of_find? hk.toWordKey hfind, ?_⟩
    cases hcopied : copied? m.value with
    | none =>
      obtain ⟨u, hu⟩ := hk.of_bracket (by decide) hfind hcopied
      rw [ht] at hu
      rcases hu with rfl | rfl
      · cases hun 91 (by simp)
      · cases hun 123 (by simp)
    | some u =>
      have hcut : t = u.take 31 := ht.symm.trans (hk.of_some hfind hcopied)
      have hlen : u.length ≤ 31 := by
        cases hv : m.value with
        | string cs =>
          rw [hv] at hcopied
          rw [← Option.some.inj hcopied]
          exact hstring cs hv
        | number n =>
          rw [hv] at hcopied
          obtain rfl := Option.some.inj hcopied
          exact hfit n hcut
        | literal l =>
          rw [hv] at hcopied
          rw [← Option.some.inj hcopied]
          cases l <;> decide
        | _ =>
          rw [hv] at hcopied
          cases hcopied
      rw [List.take_of_length_le hlen] at hcut
      rw [hcut] at hun ⊢
      exact content?_of_copied hcopied hun

/-- Nothing is read where there is no member, or an empty string. -/
theorem ReadsWell.says_nil (h : ReadsWell doc key) (hk : Askable key 32)
    (ht : parseJsonField doc.text key 32 = []) :
    doc.members.find? (fun m => m.keyText = key) = none ∨ Says doc key [] := by
  cases hfind : doc.members.find? fun m => m.keyText = key with
  | none => exact Or.inl rfl
  | some m =>
    refine Or.inr ⟨m, List.mem_of_find?_eq_some hfind, (h m hfind).1,
      named_of_find? hk.toWordKey hfind, ?_⟩
    cases hcopied : copied? m.value with
    | none =>
      obtain ⟨u, hu⟩ := hk.of_bracket (by decide) hfind hcopied
      rw [ht] at hu
      rcases hu with hu | hu <;> cases hu
    | some u =>
      have hcut : u.take 31 = [] := (hk.of_some hfind hcopied).symm.trans ht
      obtain rfl : u = [] := by
        rcases List.take_eq_nil_iff.mp hcut with h31 | hu
        · cases h31
        · exact hu
      exact content?_of_copied hcopied (by simp)

end

/-- The arguments of the call, and where they come from. -/
theorem signalRequest_ok {s : GuiServer} {buffer : List UInt8} {n sig : Int}
    (h : signalRequest s buffer = .ok (n, sig)) :
    checkAuth s buffer = true ∧ ∃ body, bodyOf buffer = some body ∧
      parseJsonField body (bytes "pid") 32 ≠ [] ∧
      parsePid (parseJsonField body (bytes "pid") 32) = some n ∧
      signalParseName (signalName (parseJsonField body (bytes "signal") 32)) = sig ∧ 0 ≤ sig := by
  unfold signalRequest at h
  split at h
  · cases h
  · rename_i hauth
    cases hstr : strstr (bytes "\r\n\r\n") buffer with
    | none =>
      rw [hstr] at h
      cases h
    | some r =>
      rw [hstr] at h
      simp only at h
      split at h
      · cases h
      · rename_i hne
        split at h
        · cases h
        · rename_i pid hpid
          split at h
          · cases h
          · rename_i hsig
            obtain ⟨rfl, rfl⟩ := Prod.mk.inj (Except.ok.inj h)
            exact ⟨by simpa using hauth, _, by simp [bodyOf, hstr], hne, hpid, rfl, by omega⟩

/-- No number is the name of a signal. -/
theorem not_name_of_number {n : Number} {k : Nat} {sig : Int} :
    (n.text.take k, sig) ∉ signalNames := by
  intro hmem
  have hnames : ∀ p ∈ signalNames, ∃ c ∈ p.1, isNumeric c = false := by decide
  obtain ⟨c, hc, hnum⟩ := hnames _ hmem
  rw [isNumeric_of_mem_number (List.mem_of_mem_take hc)] at hnum
  cases hnum

/-- **A signal goes where the request says.**  Whenever `handle_process_signal` calls
`signal_send_to_process`, a header line presents exactly the token and the arguments are
in range; and when the body is a JSON object whose fields are plain, the object's own
members `pid` and `signal` denote the arguments. -/
theorem signal_goes_where_told {s : GuiServer} {h : Host} {buffer : List UInt8} {n sig : Int}
    (ht : s.authToken ≠ []) (hcall : (handleProcessSignal s h buffer).signal = some (n, sig)) :
    (∃ line ∈ headerLines buffer, PresentsToken s.authToken line) ∧ (1 < n ∧ n ≤ 4194304) ∧
      (0 ≤ sig ∧ sig ≤ 31) ∧
      ∀ doc : ObjectText, bodyOf buffer = some doc.text → PlainFields doc → Tells doc n sig := by
  have hreq : signalRequest s buffer = .ok (n, sig) := by
    unfold handleProcessSignal at hcall
    split at hcall
    · cases hcall
    · rename_i pid sig' hreq
      rw [hreq]
      split at hcall <;> rw [Option.some.inj hcall]
  obtain ⟨hauth, body, hbody, hne, hpid, hsig, hpos⟩ := signalRequest_ok hreq
  obtain ⟨hdenotes, hlow, hhigh⟩ := parsePid_some hne hpid
  have hname : signalName (parseJsonField body (bytes "signal") 32) ≠ [] := by
    unfold signalName
    split
    · decide
    · assumption
  obtain ⟨h31, hnames⟩ := signalParseName_nonneg hname hsig hpos
  refine ⟨(checkAuth_iff ht buffer).mp hauth, ⟨hlow, hhigh⟩, ⟨hpos, h31⟩, fun doc hdoc P => ?_⟩
  obtain rfl : body = doc.text := Option.some.inj (hbody.symm.trans hdoc)
  refine ⟨⟨_, P.pid.says askable_pid rfl hne hdenotes.unescaped ?_, hdenotes⟩, ?_⟩
  · intro num hcut
    rw [hcut] at hdenotes
    exact number_fits (by decide) hdenotes (by omega)
  · by_cases hempty : parseJsonField doc.text (bytes "signal") 32 = []
    · have hterm : sig = sigterm := by
        rw [← hsig, signalName, if_pos hempty]
        decide
      refine Or.inl ⟨?_, hterm⟩
      rcases P.signal.says_nil askable_signal hempty with hnone | hsays
      · exact Or.inl (P.spelled hnone)
      · exact Or.inr hsays
    · rw [signalName, if_neg hempty] at hnames
      refine Or.inr ⟨_, P.signal.says askable_signal rfl hempty hnames.unescaped ?_, hnames⟩
      intro num hcut
      rw [hcut] at hnames
      rcases hnames with hmem | ⟨hd, -⟩
      · exact absurd hmem not_name_of_number
      · exact number_fits (by decide) hd (by omega)

/-! ## Two bodies -/

/-- A character that needs no escape. -/
def plainChar (c : Char) : StrChar :=
  if h : 32 ≤ c.toNat.toUInt8 ∧ c.toNat.toUInt8 ≠ 34 ∧ c.toNat.toUInt8 ≠ 92 then
    .plain c.toNat.toUInt8 h
  else .escape .quote

def plainString (s : String) : List StrChar := s.toList.map plainChar

/-- The number 42. -/
def fortyTwo : Syn .value := .number ⟨false, .pos 4 (by decide) [2], none, none⟩

/-- The body of the request that kills process 42, as a JSON object. -/
def killObject : ObjectText :=
  ⟨[], .object (.members [] (plainString "pid") [] [] fortyTwo []
    (.member [] (plainString "signal") [] [] (.string (plainString "SIGKILL")) [])), trivial, []⟩

theorem killObject_plain : PlainFields killObject := by
  refine ⟨?_, ?_, ?_⟩
  · intro m hm
    have hm : some (⟨1, plainString "pid", fortyTwo⟩ : Member) = some m := hm
    obtain rfl := Option.some.inj hm
    exact ⟨rfl, fun cs hcs => by cases hcs⟩
  · intro m hm
    have hm : some (⟨1, plainString "signal", .string (plainString "SIGKILL")⟩ : Member) = some m :=
      hm
    obtain rfl := Option.some.inj hm
    refine ⟨rfl, fun cs hcs => ?_⟩
    cases hcs
    decide
  · intro hnone
    cases hnone

theorem signal_goes_where_told_kill :
    (handleProcessSignal demoServer demoHost (killHead ++ killBody)).signal = some (42, 9) ∧
      Tells killObject 42 9 := by
  have hcall : (handleProcessSignal demoServer demoHost (killHead ++ killBody)).signal =
      some (42, 9) := by decide +kernel
  obtain ⟨-, -, -, htells⟩ := signal_goes_where_told (by decide) hcall
  exact ⟨hcall, htells killObject (by decide +kernel) killObject_plain⟩

/-- An object whose only `pid` is in an object inside it. -/
def nestedObject : ObjectText :=
  ⟨[], .object (.member [] (plainString "a") [] []
    (.object (.member [] (plainString "pid") [] [] fortyTwo [])) []), trivial, []⟩

def nestedBody : List UInt8 := bytes "\x7b\"a\":\x7b\"pid\":42\x7d\x7d"

/-- **A `pid` inside another object is obeyed.**  The body's object has no member `pid`,
and process 42 is signalled. -/
theorem nested_pid_is_obeyed :
    (handleProcessSignal demoServer demoHost (signalHead "16" ++ nestedBody)).signal = some (42, 15) ∧
      bodyOf (signalHead "16" ++ nestedBody) = some nestedObject.text ∧ ¬ Tells nestedObject 42 15 := by
  refine ⟨by decide +kernel, by decide +kernel, fun htells => ?_⟩
  obtain ⟨t, ⟨m, hm, hdepth, hname, -⟩, -⟩ := htells.pid
  rcases List.mem_cons.mp (show m ∈ [_, _] from hm) with rfl | hm
  · exact absurd hname (by decide)
  · rw [List.mem_singleton.mp hm] at hdepth
    exact absurd hdepth (by decide)

end MemoryMonitor
