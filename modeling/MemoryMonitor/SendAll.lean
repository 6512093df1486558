import MemoryMonitor.GuiServer
import Mathlib.Order.Monotone.Basic

/-! # Sending (`send_all` of `gui_server.c`)

Every answer goes to the peer through `send_all`, which calls `send` until the kernel has
taken the whole buffer.  What `send` answers is a stream chosen by the peer and the
kernel; only what a call cannot do is excluded: it does not take more than it was given.

Whether the loop ends is a question about the stream.  A count makes progress and an
error ends the loop, but `EINTR`, `EAGAIN` and `EWOULDBLOCK` do neither.
-/
namespace MemoryMonitor

/-- What a call of `send` leaves. -/
structure SendResult where
  sent : Int
  errno : Int
deriving DecidableEq, Repr

def eintr : Int := 4
def eagain : Int := 11
def ewouldblock : Int := 11

/-- The errors after which the loop goes on. -/
def SendResult.Retried (r : SendResult) : Prop :=
  r.sent < 0 ∧ (r.errno = eintr ∨ r.errno = eagain ∨ r.errno = ewouldblock)

instance (r : SendResult) : Decidable r.Retried := inferInstanceAs (Decidable (_ ∧ _))

/-- `total_sent`, and the bytes the kernel has taken, in order. -/
structure Sending where
  totalSent : Nat
  accepted : List UInt8
deriving DecidableEq, Repr

/-- `send_all` is about to call `send`, or has returned. -/
inductive SendState where
  | running (s : Sending)
  | returned (ret : Int) (s : Sending)
deriving DecidableEq, Repr

/-- The condition of the loop. -/
def Sending.test (s : Sending) (len : Nat) : SendState :=
  if s.totalSent < len then .running s else .returned 0 s

/-- The body of the loop, after `send` has answered `r`. -/
def Sending.body (s : Sending) (buf : List UInt8) (r : SendResult) : SendState :=
  if r.sent ≤ 0 then
    if r.Retried then s.test buf.length else .returned (-1) s
  else
    let sent := r.sent.toNat
    Sending.test ⟨s.totalSent + sent, s.accepted ++ (buf.drop s.totalSent).take sent⟩ buf.length

/-- `send_all`: where it is after `n` calls of `send`. -/
def sendAll (buf : List UInt8) (answer : Nat → SendResult) : Nat → SendState
  | 0 => Sending.test ⟨0, []⟩ buf.length
  | n + 1 =>
    match sendAll buf answer n with
    | .running s => s.body buf (answer n)
    | .returned ret s => .returned ret s

/-- An endless stream of answers, each as `send` can give it to the call it answers: -1, or
a count of the bytes that call had left. -/
structure Answers (buf : List UInt8) where
  answer : Nat → SendResult
  lawful : ∀ n s, sendAll buf answer n = .running s →
    (answer n).sent = -1 ∨ 0 ≤ (answer n).sent ∧ (answer n).sent ≤ buf.length - s.totalSent

/-- **What is asked of `send_all`**: it returns after finitely many calls, with 0 or -1, and
with 0 only when the kernel has taken the whole buffer. -/
structure Completes (buf : List UInt8) (answer : Nat → SendResult) : Prop where
  returns : ∃ n ret s, sendAll buf answer n = .returned ret s
  values : ∀ n ret s, sendAll buf answer n = .returned ret s → ret = 0 ∨ ret = -1
  whole : ∀ n s, sendAll buf answer n = .returned 0 s →
    s.accepted = buf ∧ s.totalSent = buf.length

/-- The bytes that the first `n` answers count. -/
def counted (answer : Nat → SendResult) : Nat → Nat
  | 0 => 0
  | n + 1 => counted answer n + (answer n).sent.toNat

/-- The stream stalls: no answer ends the loop, the counts stay below the length, and from
some point on there is nothing but errors after which the loop goes on. -/
def Stalls (len : Nat) (answer : Nat → SendResult) : Prop :=
  ∃ n, (∀ i < n, 0 < (answer i).sent ∨ (answer i).Retried) ∧ counted answer n < len ∧
    ∀ i ≥ n, (answer i).Retried

section Loop
variable {buf : List UInt8} {answer : Nat → SendResult} {s s' : Sending} {ret : Int} {n len : Nat}

theorem test_running : s.test len = .running s' ↔ s.totalSent < len ∧ s' = s := by
  unfold Sending.test
  split
  · simp_all [eq_comm]
  · simp_all

theorem test_returned :
    s.test len = .returned ret s' ↔ len ≤ s.totalSent ∧ ret = 0 ∧ s' = s := by
  unfold Sending.test
  split
  · simp_all
  · simp_all [eq_comm]

/-- A turn of the loop: it tries again, or the kernel has taken some bytes, or it is over. -/
theorem body_cases (s : Sending) (buf : List UInt8) (r : SendResult) :
    (r.Retried ∧ s.body buf r = s.test buf.length) ∨
    (0 < r.sent ∧ s.body buf r = Sending.test ⟨s.totalSent + r.sent.toNat,
      s.accepted ++ (buf.drop s.totalSent).take r.sent.toNat⟩ buf.length) ∨
    (¬ 0 < r.sent ∧ ¬ r.Retried ∧ s.body buf r = .returned (-1) s) := by
  unfold Sending.body
  by_cases hsent : r.sent ≤ 0
  · rw [if_pos hsent]
    by_cases hr : r.Retried
    · exact Or.inl ⟨hr, if_pos hr⟩
    · exact Or.inr (Or.inr ⟨by omega, hr, if_neg hr⟩)
  · rw [if_neg hsent]
    exact Or.inr (Or.inl ⟨by omega, rfl⟩)

theorem sendAll_succ (h : sendAll buf answer n = .running s) :
    sendAll buf answer (n + 1) = s.body buf (answer n) := by
  rw [sendAll, h]

theorem counted_retried (h : (answer n).Retried) : counted answer (n + 1) = counted answer n := by
  have := h.1
  rw [counted]
  omega

/-- **While the loop runs**, what the kernel has taken is the first `total_sent` bytes, these
are the bytes that were counted, and no answer has ended the loop. -/
theorem running_spec (h : sendAll buf answer n = .running s) :
    s.totalSent < buf.length ∧ s.accepted = buf.take s.totalSent ∧
      s.totalSent = counted answer n ∧ ∀ i < n, 0 < (answer i).sent ∨ (answer i).Retried := by
  induction n generalizing s with
  | zero =>
    obtain ⟨hlt, rfl⟩ := test_running.mp h
    exact ⟨hlt, by simp, rfl, fun i hi => by omega⟩
  | succ n ih =>
    cases hn : sendAll buf answer n with
    | returned ret t =>
      rw [sendAll, hn] at h
      cases h
    | running t =>
      obtain ⟨hlt, hacc, hcount, hgo⟩ := ih hn
      rw [sendAll_succ hn] at h
      have hlast : ∀ P : Nat → Prop, (∀ i < n, P i) → P n → ∀ i < n + 1, P i := by
        intro P hP hPn i hi
        rcases Nat.lt_succ_iff_lt_or_eq.mp hi with hi | rfl
        · exact hP i hi
        · exact hPn
      rcases body_cases t buf (answer n) with ⟨hr, hb⟩ | ⟨hs, hb⟩ | ⟨-, -, hb⟩
      · obtain ⟨hlt', rfl⟩ := test_running.mp (hb ▸ h)
        exact ⟨hlt', hacc, by rw [counted_retried hr, hcount], hlast _ hgo (Or.inr hr)⟩
      · obtain ⟨hlt', rfl⟩ := test_running.mp (hb ▸ h)
        refine ⟨hlt', ?_, by rw [counted, hcount], hlast _ hgo (Or.inl hs)⟩
        rw [hacc, List.take_add]
      · rw [hb] at h
        cases h

/-- **When it has returned**, 0 means that the kernel has taken the whole buffer. -/
theorem returned_spec (a : Answers buf) (h : sendAll buf a.answer n = .returned ret s) :
    ret = 0 ∧ s.accepted = buf ∧ s.totalSent = buf.length ∨ ret = -1 := by
  induction n generalizing s with
  | zero =>
    obtain ⟨hle, rfl, rfl⟩ := test_returned.mp h
    have hnil : buf = [] := List.length_eq_zero_iff.mp (by simpa using hle)
    exact Or.inl ⟨rfl, by simp [hnil], by simp [hnil]⟩
  | succ n ih =>
    cases hn : sendAll buf a.answer n with
    | returned ret' t =>
      rw [sendAll, hn] at h
      cases h
      exact ih hn
    | running t =>
      obtain ⟨hlt, hacc, -, -⟩ := running_spec hn
      rw [sendAll_succ hn] at h
      rcases body_cases t buf (a.answer n) with ⟨-, hb⟩ | ⟨hs, hb⟩ | ⟨-, -, hb⟩
      · obtain ⟨hle, -, -⟩ := test_returned.mp (hb ▸ h)
        omega
      · obtain ⟨hle, rfl, rfl⟩ := test_returned.mp (hb ▸ h)
        -- the last call has taken all that was left
        have hlaw := a.lawful n t hn
        have htotal : t.totalSent + (a.answer n).sent.toNat = buf.length := by
          simp only at hle
          omega
        refine Or.inl ⟨rfl, ?_, htotal⟩
        rw [hacc, ← List.take_add, htotal, List.take_length]
      · rw [hb] at h
        cases h
        exact Or.inr rfl

theorem counted_mono (answer : Nat → SendResult) : Monotone (counted answer) :=
  monotone_nat_of_le_succ fun _ => Nat.le_add_right ..

/-- On a stream that stalls the loop runs for ever. -/
theorem Stalls.running (h : Stalls buf.length answer) (k : Nat) :
    ∃ s, sendAll buf answer k = .running s := by
  obtain ⟨n, hgo, hcount, hretry⟩ := h
  have hstep : ∀ i, 0 < (answer i).sent ∧ i < n ∨ (answer i).Retried := by
    intro i
    rcases Nat.lt_or_ge i n with hi | hi
    · exact (hgo i hi).imp_left fun hs => ⟨hs, hi⟩
    · exact Or.inr (hretry i hi)
  induction k with
  | zero =>
    have := counted_mono answer (Nat.zero_le n)
    exact ⟨_, test_running.mpr ⟨by simp only [counted] at *; omega, rfl⟩⟩
  | succ k ih =>
    obtain ⟨s, hs⟩ := ih
    obtain ⟨hlt, -, htotal, -⟩ := running_spec hs
    rw [sendAll_succ hs]
    rcases body_cases s buf (answer k) with ⟨-, hb⟩ | ⟨hsent, hb⟩ | ⟨hsent, hr, -⟩
    · exact ⟨s, hb.trans (test_running.mpr ⟨hlt, rfl⟩)⟩
    · have hk : k < n := by
        rcases hstep k with ⟨-, hk⟩ | hr
        · exact hk
        · have := hr.1
          omega
      have hle := counted_mono answer (Nat.succ_le_of_lt hk)
      rw [Nat.succ_eq_add_one, counted] at hle
      exact ⟨_, hb.trans (test_running.mpr ⟨by simp only; omega, rfl⟩)⟩
    · rcases hstep k with ⟨hpos, -⟩ | hr'
      · exact absurd hpos hsent
      · exact absurd hr' hr

/-- A loop that runs for ever makes progress only finitely often. -/
theorem stalls_of_running (h : ∀ n, ∃ s, sendAll buf answer n = .running s) :
    Stalls buf.length answer := by
  have hlt : ∀ n, counted answer n < buf.length := by
    intro n
    obtain ⟨s, hs⟩ := h n
    obtain ⟨hlt, -, htotal, -⟩ := running_spec hs
    omega
  have hgo : ∀ n, 0 < (answer n).sent ∨ (answer n).Retried := by
    intro n
    obtain ⟨s, hs⟩ := h (n + 1)
    obtain ⟨-, -, -, hgo⟩ := running_spec hs
    exact hgo n (Nat.lt_succ_self n)
  obtain ⟨b, n, hconst⟩ := converges_of_monotone_of_bounded (counted_mono answer) fun n => (hlt n).le
  refine ⟨n, fun i _ => hgo i, hlt n, fun i hi => ?_⟩
  refine (hgo i).resolve_left fun hpos => ?_
  have h1 := hconst i hi
  have h2 := hconst (i + 1) (by omega)
  rw [counted] at h2
  omega

theorem Stalls.not_completes (h : Stalls buf.length answer) : ¬ Completes buf answer := by
  intro hc
  obtain ⟨n, ret, s, hret⟩ := hc.returns
  obtain ⟨t, hrun⟩ := h.running n
  rw [hret] at hrun
  cases hrun

end Loop

/-- **`send_all` ends unless the stream stalls.**  For every buffer and every stream of
answers it returns 0 or -1 after finitely many calls, and 0 only when the kernel has taken
the whole buffer, if and only if the answers do not end in nothing but errors that are
tried again. -/
theorem send_all_completes_iff (buf : List UInt8) (a : Answers buf) :
    Completes buf a.answer ↔ ¬ Stalls buf.length a.answer := by
  constructor
  · exact fun hc hstall => hstall.not_completes hc
  · intro hno
    refine ⟨?_, fun n ret s h => ?_, fun n s h => ?_⟩
    · by_contra hnever
      refine hno (stalls_of_running fun n => ?_)
      cases hn : sendAll buf a.answer n with
      | running s => exact ⟨s, rfl⟩
      | returned ret s => exact absurd ⟨n, ret, s, hn⟩ hnever
    · exact (returned_spec a h).imp_left And.left
    · exact ((returned_spec a h).resolve_right (by decide)).2

/-- A short count, an interruption, and the rest. -/
example : sendAll [72, 84, 84, 80] (fun n => if n = 1 then ⟨-1, eintr⟩ else ⟨2, 0⟩) 3 =
    .returned 0 ⟨4, [72, 84, 84, 80]⟩ := by decide

/-- A peer that does not read: each call fails with `EAGAIN` after its 5 seconds. -/
def stoppedPeer (buf : List UInt8) : Answers buf where
  answer _ := ⟨-1, eagain⟩
  lawful _ _ _ := Or.inl rfl

theorem stoppedPeer_stalls {buf : List UInt8} (h : buf ≠ []) :
    Stalls buf.length (stoppedPeer buf).answer := by
  refine ⟨0, fun i hi => by omega, List.length_pos_iff.mpr h, fun i _ => ?_⟩
  have hneg : (-1 : Int) < 0 := by decide
  exact ⟨hneg, Or.inr (Or.inl rfl)⟩

/-- One byte to a peer that does not read: `send` is called for ever. -/
theorem send_all_never_returns : ¬ Completes [72] (stoppedPeer [72]).answer :=
  (stoppedPeer_stalls (by decide)).not_completes

end MemoryMonitor
