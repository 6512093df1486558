import MemoryMonitor.GuiServer
import Mathlib.Data.List.Basic
import Mathlib.Data.List.Infix

/-! # Authentication

`check_auth` goes through the request line by line up to the first blank line.  A line is
accepted when it is one of two header names, in any case, followed by exactly the token
(`checkAuth_iff`).
-/
namespace MemoryMonitor

open CString

/-! ## Lines -/

/-- The text is in one line. -/
def NoBreak (a : List UInt8) : Prop := ¬ bytes "\r\n" <:+: a

/-- The lines of a text, split at every CRLF. -/
def splitLines : List UInt8 → List (List UInt8)
  | [] => [[]]
  | 13 :: 10 :: s => [] :: splitLines s
  | c :: s =>
    match splitLines s with
    | l :: ls => (c :: l) :: ls
    | [] => [[c]]

/-- The request before its first blank line, or all of it. -/
def headOf (buffer : List UInt8) : List UInt8 :=
  match strstr (bytes "\r\n\r\n") buffer with
  | some (header, _) => header
  | none => buffer

/-- The lines before the first blank line. -/
def headerLines (buffer : List UInt8) : List (List UInt8) := splitLines (headOf buffer)

/-- The header names before a token. -/
def tokenHeaders : List (List UInt8) := [bytes "X-Auth-Token: ", bytes "Authorization: Bearer "]

/-- A line that is a header name, in any case, and exactly the token. -/
def PresentsToken (token line : List UInt8) : Prop :=
  ∃ name, line = name ++ token ∧ ∃ h ∈ tokenHeaders, name.map toLower = h.map toLower

theorem noBreak_nil : NoBreak [] := fun h => absurd (List.eq_nil_of_infix_nil h) (by decide)

theorem noBreak_tail {c : UInt8} {s : List UInt8} (h : NoBreak (c :: s)) : NoBreak s :=
  fun hs => h (hs.trans (List.suffix_cons ..).isInfix)

theorem noBreak_head {c : UInt8} {s : List UInt8} (h : NoBreak (c :: s)) :
    ∀ t, c :: s ≠ 13 :: 10 :: t :=
  fun t heq => h (heq ▸ (List.prefix_append [13, 10] t).isInfix)

theorem splitLines_cons {c : UInt8} {s : List UInt8} (h : ∀ t, c :: s ≠ 13 :: 10 :: t) :
    splitLines (c :: s) = match splitLines s with
      | l :: ls => (c :: l) :: ls
      | [] => [[c]] := by
  rw [splitLines]
  intro t hc hs
  exact h t (by rw [hc, hs])

theorem splitLines_noBreak {a : List UInt8} (h : NoBreak a) : splitLines a = [a] := by
  induction a with
  | nil => rfl
  | cons c a ih => rw [splitLines_cons (noBreak_head h), ih (noBreak_tail h)]

theorem splitLines_break {a : List UInt8} (h : NoBreak a) (t : List UInt8) :
    splitLines (a ++ 13 :: 10 :: t) = a :: splitLines t := by
  induction a with
  | nil => rfl
  | cons c a ih =>
    have hne : ∀ t', c :: (a ++ 13 :: 10 :: t) ≠ 13 :: 10 :: t' := by
      intro t' heq
      cases a with
      | nil => cases heq
      | cons d a =>
        obtain ⟨hc, hda⟩ := List.cons.inj heq
        obtain ⟨hd, -⟩ := List.cons.inj hda
        exact noBreak_head h a (by rw [hc, hd])
    rw [List.cons_append, splitLines_cons hne, ih (noBreak_tail h)]

/-! ## `strstr` -/

theorem strstr_some {n s a b : List UInt8} (h : strstr n s = some (a, b)) :
    s = a ++ b ∧ n <+: b := by
  induction s generalizing a with
  | nil =>
    rw [strstr] at h
    split at h
    · rename_i hn
      cases h
      exact ⟨rfl, by rw [hn]⟩
    · cases h
  | cons c s ih =>
    rw [strstr] at h
    split at h
    · rename_i hp
      cases h
      exact ⟨rfl, List.isPrefixOf_iff_prefix.mp hp⟩
    · obtain ⟨⟨a', b'⟩, hr, heq⟩ := Option.map_eq_some_iff.mp h
      cases heq
      obtain ⟨rfl, hb⟩ := ih hr
      exact ⟨rfl, hb⟩

/-- There is no line end before the first one. -/
theorem strstr_crlf_some {s a b : List UInt8} (h : strstr (bytes "\r\n") s = some (a, b)) :
    NoBreak a := by
  induction s generalizing a with
  | nil => cases h
  | cons c s ih =>
    rw [strstr] at h
    split at h
    · cases h
      exact noBreak_nil
    · rename_i hp
      obtain ⟨⟨a', b'⟩, hr, heq⟩ := Option.map_eq_some_iff.mp h
      cases heq
      obtain ⟨hs, -⟩ := strstr_some hr
      intro hin
      rcases List.infix_cons_iff.mp hin with hpre | hin
      · exact hp (List.isPrefixOf_iff_prefix.mpr
          (hpre.trans (by rw [hs]; exact List.prefix_append (c :: a') b')))
      · exact ih hr hin

theorem strstr_crlf_none {s : List UInt8} (h : strstr (bytes "\r\n") s = none) : NoBreak s := by
  induction s with
  | nil => exact noBreak_nil
  | cons c s ih =>
    rw [strstr] at h
    split at h
    · cases h
    · rename_i hp
      intro hin
      rcases List.infix_cons_iff.mp hin with hpre | hin
      · exact hp (List.isPrefixOf_iff_prefix.mpr hpre)
      · exact ih (Option.map_eq_none_iff.mp h) hin

/-! ## One line -/

theorem foldl_or_eq_zero {l : List UInt8} {acc : UInt8} :
    l.foldl (· ||| ·) acc = 0 ↔ acc = 0 ∧ ∀ x ∈ l, x = 0 := by
  induction l generalizing acc with
  | nil => simp
  | cons x l ih => simp [ih, and_assoc]

theorem zipWith_xor_eq_zero {a b : List UInt8} (h : a.length = b.length) :
    (∀ x ∈ a.zipWith (· ^^^ ·) b, x = 0) ↔ a = b := by
  induction a generalizing b with
  | nil =>
    cases b with
    | nil => simp
    | cons y b => cases h
  | cons x a ih =>
    cases b with
    | nil => cases h
    | cons y b => simp [ih (Nat.succ.inj h)]

theorem constantTimeStreq_iff {a b : List UInt8} (h : a.length = b.length) :
    constantTimeStreq a b b.length = true ↔ a = b := by
  unfold constantTimeStreq
  rw [decide_eq_true_eq, foldl_or_eq_zero, List.take_length, ← h, List.take_length,
    zipWith_xor_eq_zero h]
  simp

theorem presents_iff {n : Nat} {token line : List UInt8} :
    presents n token line = true ↔ line.drop n = token := by
  unfold presents
  simp only [Bool.and_eq_true, decide_eq_true_eq]
  constructor
  · rintro ⟨hlen, heq⟩
    exact (constantTimeStreq_iff hlen).mp heq
  · intro heq
    exact ⟨by rw [heq], (constantTimeStreq_iff (by rw [heq])).mpr heq⟩

/-- The first `k` bytes at `pos` are the header name `h`, in any case, and the token. -/
theorem named_iff {token pos h : List UInt8} {k : Nat} (ht : token ≠ []) (hk : k ≤ pos.length) :
    (∃ name, pos.take k = name ++ token ∧ name.map toLower = h.map toLower) ↔
      h.length < k ∧ startsWithIgnoringCase pos h = true ∧ (pos.take k).drop h.length = token := by
  unfold startsWithIgnoringCase
  rw [List.isPrefixOf_iff_prefix]
  constructor
  · rintro ⟨name, heq, hname⟩
    have hlen : name.length = h.length := by simpa using congrArg List.length hname
    have hsum : k = name.length + token.length := by
      rw [← List.length_append, ← heq, List.length_take, Nat.min_eq_left hk]
    have hpos : 0 < token.length := List.length_pos_iff.mpr ht
    refine ⟨by omega, ?_, ?_⟩
    · rw [← hname]
      exact (List.IsPrefix.trans ⟨token, heq.symm⟩ (List.take_prefix k pos)).map toLower
    · rw [heq, ← hlen, List.drop_left]
  · rintro ⟨hlt, hpre, hdrop⟩
    refine ⟨pos.take h.length, ?_, ?_⟩
    · rw [← hdrop, ← List.take_append_drop h.length (pos.take k), List.take_take,
        Nat.min_eq_left (Nat.le_of_lt hlt), List.drop_left']
      simp
      omega
    · rw [List.prefix_iff_eq_take, List.length_map, ← List.map_take] at hpre
      exact hpre.symm

/-- The test of a line. -/
theorem accepted_iff {token pos : List UInt8} {k : Nat} (ht : token ≠ []) (hk : k ≤ pos.length) :
    (if 14 < k && startsWithIgnoringCase pos (bytes "X-Auth-Token: ") then
        presents 14 token (pos.take k)
      else if 22 < k && startsWithIgnoringCase pos (bytes "Authorization: Bearer ") then
        presents 22 token (pos.take k)
      else false) = true ↔ PresentsToken token (pos.take k) := by
  have hspec : PresentsToken token (pos.take k) ↔
      (14 < k ∧ startsWithIgnoringCase pos (bytes "X-Auth-Token: ") = true ∧
        (pos.take k).drop 14 = token) ∨
      (22 < k ∧ startsWithIgnoringCase pos (bytes "Authorization: Bearer ") = true ∧
        (pos.take k).drop 22 = token) := by
    have h1 := named_iff (h := bytes "X-Auth-Token: ") ht hk
    have h2 := named_iff (h := bytes "Authorization: Bearer ") ht hk
    rw [show (bytes "X-Auth-Token: ").length = 14 from rfl] at h1
    rw [show (bytes "Authorization: Bearer ").length = 22 from rfl] at h2
    rw [← h1, ← h2]
    simp only [PresentsToken, tokenHeaders, List.mem_cons, List.not_mem_nil, or_false, exists_eq_or_imp,
      exists_eq_left, and_or_left, exists_or]
  -- the two names begin differently
  have hexcl : ¬ (startsWithIgnoringCase pos (bytes "X-Auth-Token: ") = true ∧
      startsWithIgnoringCase pos (bytes "Authorization: Bearer ") = true) := by
    rintro ⟨h1, h2⟩
    cases pos with
    | nil => cases h1
    | cons c s =>
      have h1 := (List.cons_prefix_cons.mp (List.isPrefixOf_iff_prefix.mp h1)).1
      have h2 := (List.cons_prefix_cons.mp (List.isPrefixOf_iff_prefix.mp h2)).1
      exact absurd (h1.trans h2.symm) (by decide)
  rw [hspec]
  split
  · rename_i h
    rw [Bool.and_eq_true, decide_eq_true_eq] at h
    rw [presents_iff]
    exact ⟨fun hd => Or.inl ⟨h.1, h.2, hd⟩, fun hd => hd.elim (·.2.2)
      fun hb => absurd ⟨h.2, hb.2.1⟩ hexcl⟩
  · rename_i h
    rw [Bool.and_eq_true, decide_eq_true_eq] at h
    split
    · rename_i hb
      rw [Bool.and_eq_true, decide_eq_true_eq] at hb
      rw [presents_iff]
      exact ⟨fun hd => Or.inr ⟨hb.1, hb.2, hd⟩, fun hd => hd.elim (fun ha => absurd ⟨ha.1, ha.2.1⟩ h)
        (·.2.2)⟩
    · rename_i hb
      rw [Bool.and_eq_true, decide_eq_true_eq] at hb
      refine ⟨fun hf => absurd hf (by decide), fun hd => ?_⟩
      rcases hd with hd | hd
      · exact absurd ⟨hd.1, hd.2.1⟩ h
      · exact absurd ⟨hd.1, hd.2.1⟩ hb

/-! ## The loop -/

/-- Where the header ends, the text ends or a line ends. -/
def HeaderEnds (pos : List UInt8) (left : Nat) : Prop :=
  left = pos.length ∨ ∃ t, pos.drop left = 13 :: 10 :: t

/-- A line that ends before the header does ends with its whole CRLF before it. -/
theorem HeaderEnds.next {line t : List UInt8} {left : Nat}
    (h : HeaderEnds (line ++ 13 :: 10 :: t) left) (hlt : line.length < left) :
    line.length + 2 ≤ left ∧ HeaderEnds t (left - (line.length + 2)) ∧
      (line ++ 13 :: 10 :: t).take left = line ++ 13 :: 10 :: t.take (left - (line.length + 2)) := by
  have hle : line.length + 2 ≤ left := by
    rcases h with h | ⟨t', h⟩
    · simp at h
      omega
    · by_contra hlt'
      obtain rfl : left = line.length + 1 := by omega
      rw [← List.drop_drop, List.drop_left] at h
      cases h
  obtain ⟨k, rfl⟩ := Nat.exists_eq_add_of_le hle
  have hk : line.length + 2 + k - (line.length + 2) = k := by omega
  rw [hk]
  refine ⟨hle, ?_, ?_⟩
  · rcases h with h | ⟨t', h⟩
    · left
      simp at h
      omega
    · right
      rw [Nat.add_assoc, ← List.drop_drop, List.drop_left] at h
      refine ⟨t', ?_⟩
      rw [← h, Nat.add_comm 2 k]
      rfl
  · rw [Nat.add_assoc, List.take_length_add_append, Nat.add_comm 2 k]
    rfl

/-- A line that does not end before the header is its last one. -/
theorem HeaderEnds.last {line t : List UInt8} {left : Nat}
    (h : HeaderEnds (line ++ 13 :: 10 :: t) left) (hline : NoBreak line)
    (hle : left ≤ line.length) : left = line.length := by
  rcases h with h | ⟨t', h⟩
  · simp at h
    omega
  · by_contra hne
    obtain ⟨c, rest, hc⟩ : ∃ c rest, line.drop left = c :: rest := by
      refine List.exists_cons_of_ne_nil fun hnil => ?_
      have := List.drop_eq_nil_iff.mp hnil
      omega
    rw [List.drop_append_of_le_length hle, hc] at h
    obtain ⟨rfl, hrest⟩ := List.cons.inj h
    cases rest with
    | nil => cases hrest
    | cons d rest =>
      obtain ⟨rfl, -⟩ := List.cons.inj hrest
      refine hline (List.IsInfix.trans ?_ (List.drop_suffix left line).isInfix)
      rw [hc]
      exact (List.prefix_append [13, 10] rest).isInfix

theorem not_presentsToken_nil {token : List UInt8} (ht : token ≠ []) : ¬ PresentsToken token [] := by
  rintro ⟨name, heq, -⟩
  exact ht (List.append_eq_nil_iff.mp heq.symm).2

/-- **The loop finds a line that presents the token, if there is one.** -/
theorem checkAuthLoop_iff {token : List UInt8} (ht : token ≠ []) {fuel : Nat} {pos : List UInt8}
    {left : Nat} (hfuel : left ≤ fuel) (hleft : left ≤ pos.length) (hend : HeaderEnds pos left) :
    checkAuthLoop token fuel pos left = true ↔
      ∃ line ∈ splitLines (pos.take left), PresentsToken token line := by
  induction fuel generalizing pos left with
  | zero =>
    obtain rfl : left = 0 := by omega
    simp [checkAuthLoop, splitLines, not_presentsToken_nil ht]
  | succ fuel ih =>
    rw [checkAuthLoop]
    by_cases h0 : left = 0
    · subst h0
      simp [splitLines, not_presentsToken_nil ht]
    rw [if_neg h0]
    cases hstr : strstr (bytes "\r\n") pos with
    | none =>
      have hno := strstr_crlf_none hstr
      have hall : left = pos.length := by
        refine hend.resolve_right ?_
        rintro ⟨t, h⟩
        refine hno (List.IsInfix.trans ?_ (List.drop_suffix left pos).isInfix)
        rw [h]
        exact (List.prefix_append [13, 10] t).isInfix
      have hacc := accepted_iff ht hleft
      simp only [Option.map_none, Option.getD_none]
      rw [hall, List.take_length] at hacc ⊢
      rw [splitLines_noBreak hno]
      simp only [List.mem_singleton, exists_eq_left, ← hacc]
      simp
    | some r =>
      obtain ⟨line, p⟩ := r
      have hno := strstr_crlf_some hstr
      obtain ⟨rfl, t, rfl⟩ := strstr_some hstr
      change HeaderEnds (line ++ 13 :: 10 :: t) left at hend
      have hle : line.length ≤ (line ++ (bytes "\r\n" ++ t)).length := by simp
      have hacc := accepted_iff ht hle
      rw [List.take_left] at hacc
      have hrest : ∀ b : Bool, (if b = true then true else
            if left ≤ line.length then false
            else checkAuthLoop token fuel ((bytes "\r\n" ++ t).drop 2) (left - (line.length + 2))) =
          true ↔ b = true ∨ line.length < left ∧
            checkAuthLoop token fuel t (left - (line.length + 2)) = true := by
        intro b
        rw [show (bytes "\r\n" ++ t).drop 2 = t from rfl]
        by_cases hlt : left ≤ line.length
        · simp [hlt, Nat.not_lt.mpr hlt]
        · simp [hlt, Nat.lt_of_not_le hlt]
      simp only [Option.map_some, Option.getD_some, List.take_left]
      rw [hrest, hacc]
      by_cases hlt : line.length < left
      · obtain ⟨hle2, hend', htake⟩ := hend.next hlt
        have hleft' : left - (line.length + 2) ≤ t.length := by
          have : left ≤ (line ++ 13 :: 10 :: t).length := hleft
          simp at this
          omega
        rw [ih (by omega) hleft' hend', show line ++ (bytes "\r\n" ++ t) = line ++ 13 :: 10 :: t from rfl,
          htake, splitLines_break hno]
        simp [hlt]
      · obtain rfl := hend.last hno (Nat.le_of_not_lt hlt)
        rw [List.take_left, splitLines_noBreak hno]
        simp

/-- **Authentication.**  With a token configured, a request is let through exactly when a
line before its first blank line presents the token. -/
theorem checkAuth_iff {s : GuiServer} (ht : s.authToken ≠ []) (buffer : List UInt8) :
    checkAuth s buffer = true ↔ ∃ line ∈ headerLines buffer, PresentsToken s.authToken line := by
  have hlen : s.authToken.length ≠ 0 := fun h => ht (List.eq_nil_of_length_eq_zero h)
  unfold checkAuth headerLines headOf
  rw [if_neg hlen]
  cases hstr : strstr (bytes "\r\n\r\n") buffer with
  | none =>
    have h := checkAuthLoop_iff ht (le_refl buffer.length) (le_refl _) (Or.inl rfl)
    rw [List.take_length] at h
    exact h
  | some r =>
    obtain ⟨header, p⟩ := r
    obtain ⟨rfl, t, rfl⟩ := strstr_some hstr
    have h := checkAuthLoop_iff ht (le_refl header.length)
      (by simp : header.length ≤ (header ++ (bytes "\r\n\r\n" ++ t)).length)
      (Or.inr ⟨13 :: 10 :: t, by rw [List.drop_left]; rfl⟩)
    rw [List.take_left] at h
    exact h

/-! ## What cannot authenticate -/

/-- The first occurrence stays the first one, whatever comes after it. -/
theorem strstr_replace {n s a b : List UInt8} (hn : n ≠ []) (h : strstr n s = some (a, b))
    (t : List UInt8) : strstr n (a ++ (n ++ t)) = some (a, n ++ t) := by
  induction s generalizing a with
  | nil =>
    rw [strstr, if_neg hn] at h
    cases h
  | cons c s ih =>
    obtain ⟨k, n', rfl⟩ := List.exists_cons_of_ne_nil hn
    rw [strstr] at h
    split at h
    · cases h
      rw [List.nil_append, List.cons_append, strstr, if_pos]
      exact List.isPrefixOf_iff_prefix.mpr (List.prefix_append (k :: n') t)
    · rename_i hp
      obtain ⟨⟨a', b'⟩, hr, heq⟩ := Option.map_eq_some_iff.mp h
      cases heq
      obtain ⟨hs, hb⟩ := strstr_some hr
      rw [List.cons_append, strstr, if_neg, ih hr]
      · rfl
      · -- an earlier occurrence would lie before `t`, and so in `c :: s` too
        intro hpre
        have hin : k :: n' <+: c :: (a' ++ k :: n') :=
          List.prefix_of_prefix_length_le (List.isPrefixOf_iff_prefix.mp hpre)
            ⟨t, by simp⟩ (by simp; omega)
        refine hp (List.isPrefixOf_iff_prefix.mpr (hin.trans ?_))
        rw [hs]
        exact (List.prefix_append_right_inj (c :: a')).mpr hb

/-- A line presents one token: nothing shorter and nothing longer. -/
theorem PresentsToken.unique {t t' line : List UInt8} (h : PresentsToken t line)
    (h' : PresentsToken t' line) : t = t' := by
  obtain ⟨name, rfl, hdr, hmem, hname⟩ := h
  obtain ⟨name', heq, hdr', hmem', hname'⟩ := h'
  have hlen : name.length = hdr.length := by simpa using congrArg List.length hname
  have hlen' : name'.length = hdr'.length := by simpa using congrArg List.length hname'
  by_cases hsame : hdr = hdr'
  · exact (List.append_inj heq (by rw [hlen, hlen', hsame])).2
  · -- the two header names begin with different letters
    have hfirst : hdr.map toLower <+: (name ++ t).map toLower := by
      rw [List.map_append, hname]
      exact List.prefix_append _ _
    have hfirst' : hdr'.map toLower <+: (name ++ t).map toLower := by
      rw [heq, List.map_append, hname']
      exact List.prefix_append _ _
    have hcmp := List.prefix_or_prefix_of_prefix hfirst hfirst'
    simp only [tokenHeaders, List.mem_cons, List.not_mem_nil, or_false] at hmem hmem'
    rcases hmem with rfl | rfl <;> rcases hmem' with rfl | rfl
    · exact absurd rfl hsame
    · exact absurd hcmp (by decide)
    · exact absurd hcmp (by decide)
    · exact absurd rfl hsame

/-- **Authentication accepts exactly the token.**  A request is let through if and only if
one of its header lines is a token header followed by the token; what comes after the
first blank line does not matter, and no line that presents the token presents another
one. -/
theorem auth_exactly_the_token {s : GuiServer} (ht : s.authToken ≠ []) (buffer : List UInt8) :
    (checkAuth s buffer = true ↔
      ∃ line ∈ headerLines buffer, PresentsToken s.authToken line) ∧
    (∀ header rest, strstr (bytes "\r\n\r\n") buffer = some (header, rest) →
      ∀ body, checkAuth s (header ++ (bytes "\r\n\r\n" ++ body)) = checkAuth s buffer) ∧
    ∀ line token, PresentsToken s.authToken line → PresentsToken token line →
      token = s.authToken := by
  refine ⟨checkAuth_iff ht buffer, fun header rest hstr body => ?_,
    fun line token h h' => h'.unique h⟩
  have hlines : headerLines (header ++ (bytes "\r\n\r\n" ++ body)) = headerLines buffer := by
    unfold headerLines headOf
    rw [hstr, strstr_replace (by decide) hstr body]
  rw [Bool.eq_iff_iff, checkAuth_iff ht, checkAuth_iff ht, hlines]

/-- A server with a token, and a request that presents it among other lines. -/
theorem auth_exactly_the_token_secret :
    checkAuth ⟨bytes "s3cret", none⟩
      (bytes "GET / HTTP/1.1\r\nx-auth-token: s3cret\r\n\r\nX-Auth-Token: none") = true := by
  refine ((auth_exactly_the_token (s := ⟨bytes "s3cret", none⟩) (by decide) _).1).mpr
    ⟨bytes "x-auth-token: s3cret", by decide +kernel, bytes "x-auth-token: ", by decide +kernel,
      bytes "X-Auth-Token: ", by decide +kernel, by decide +kernel⟩

end MemoryMonitor
