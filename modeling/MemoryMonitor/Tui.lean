import MemoryMonitor.GuiServer

/-! # The terminal interface (`tui.c`)

`main` renders a snapshot and then handles at most one key, again and again.  `K` asks
for a confirmation: the pid is kept in `pending_kill_pid`, and `status_message_expiry`,
which otherwise says how long a message is shown, is when the question lapses.  Every key
resolves the question.  One that comes too late is then handled as if nothing had been
asked, so it may be a `K` that asks again.

A run is a sequence of frames: renderings and calls of `tui_handle_input`, in any order,
on any snapshots.  That `SIGKILL` was confirmed is a statement about the frames before.
-/
namespace MemoryMonitor

/-- `sort_mode_t`. -/
inductive SortMode where
  | sortByCpu
  | sortByMem
  | sortByPid
  | sortByName
deriving DecidableEq, Repr

/-- `tui_state_t`, as `main` starts with it. -/
structure TuiState where
  isRunning : Bool := true
  selectedIndex : Int := 0
  scrollOffset : Int := 0
  sortMode : SortMode := .sortByCpu
  statusMessage : String := ""
  statusMessageExpiry : Int := 0
  confirmPending : Bool := false
  pendingKillPid : Int := -1
deriving DecidableEq, Repr

/-- What `getch` returns for a character. -/
def key (c : Char) : Int := c.toNat

/-- What `getch` returns when there is no key. -/
def ERR : Int := -1
def keyDown : Int := 258
def keyUp : Int := 259

/-- What a call of `tui_handle_input` has done: the state, the value it returns and the
arguments of its call of `signal_send_to_process`. -/
structure InputResult where
  state : TuiState
  running : Bool := true
  signal : Option (Int × Int) := none

/-- `snapshot->procs[i].pid`; `none` outside the array. -/
def SystemSnapshot.pidAt (snapshot : SystemSnapshot) (i : Int) : Option Int :=
  if 0 ≤ i then (snapshot.procs[i.toNat]?).map ProcessInfo.pid else none

namespace TuiState

/-- A message for three seconds. -/
def say (s : TuiState) (msg : String) (now : Int) : TuiState :=
  { s with statusMessage := msg, statusMessageExpiry := now + 3 }

/-- The question is resolved. -/
def resolve (s : TuiState) (msg : String) (now : Int) : TuiState :=
  { s.say msg now with confirmPending := false, pendingKillPid := -1 }

/-- `snapshot->count > 0 && state->selected_index < snapshot->count`, and the pid there. -/
def selected (s : TuiState) (snapshot : SystemSnapshot) : Option Int :=
  if 0 < snapshot.procs.length ∧ s.selectedIndex < snapshot.procs.length then
    snapshot.pidAt s.selectedIndex
  else none

/-- A key that comes in time to answer the question. -/
def answer (s : TuiState) (snapshot : SystemSnapshot) (h : Host) (now ch : Int) : InputResult :=
  if ch = key 'y' ∨ ch = key 'Y' then
    let target := s.pendingKillPid
    if snapshot.procs.any fun p => p.pid = target then
      let msg :=
        if signalSendToProcess h target sigkill then
          "Successfully sent SIGKILL to PID " ++ toString target
        else "Failed to send SIGKILL to PID " ++ toString target
      { state := s.resolve msg now, signal := some (target, sigkill) }
    else { state := s.resolve ("PID " ++ toString target ++ " no longer present in snapshot") now }
  else { state := s.resolve "SIGKILL cancelled" now }

/-- The keys that send a signal at once. -/
def signalSelected (s : TuiState) (snapshot : SystemSnapshot) (h : Host) (now sig : Int)
    (name : String) : InputResult :=
  match s.selected snapshot with
  | none => { state := s }
  | some pid =>
    let msg :=
      if signalSendToProcess h pid sig then "Sent " ++ name ++ " to PID " ++ toString pid
      else "Failed to send " ++ name ++ " to PID " ++ toString pid
    { state := s.say msg now, signal := some (pid, sig) }

/-- `K`. -/
def askKill (s : TuiState) (snapshot : SystemSnapshot) (now : Int) : TuiState :=
  match s.selected snapshot with
  | none => s
  | some pid => { s with
      pendingKillPid := pid
      statusMessage := "Confirm SIGKILL for PID " ++ toString pid ++ "? (y/n)"
      statusMessageExpiry := now + 10
      confirmPending := true }

/-- The `switch` over the key. -/
def command (s : TuiState) (snapshot : SystemSnapshot) (h : Host) (now ch : Int) : InputResult :=
  if ch = key 'q' ∨ ch = key 'Q' then { state := { s with isRunning := false }, running := false }
  else if ch = keyDown ∨ ch = key 'j' then
    { state :=
        if s.selectedIndex < snapshot.procs.length - 1 then
          { s with selectedIndex := s.selectedIndex + 1 }
        else s }
  else if ch = keyUp ∨ ch = key 'k' then
    { state :=
        if 0 < s.selectedIndex then { s with selectedIndex := s.selectedIndex - 1 } else s }
  else if ch = key 'p' ∨ ch = key 'P' then
    { state := { s with sortMode := .sortByCpu }.say "Sorting by CPU %" now }
  else if ch = key 'm' ∨ ch = key 'M' then
    { state := { s with sortMode := .sortByMem }.say "Sorting by Memory (RSS)" now }
  else if ch = key 's' ∨ ch = key 'S' then s.signalSelected snapshot h now sigstop "SIGSTOP"
  else if ch = key 'c' ∨ ch = key 'C' then s.signalSelected snapshot h now sigcont "SIGCONT"
  else if ch = key 'K' then { state := s.askKill snapshot now }
  else { state := s }

/-- `tui_handle_input`. -/
def handleInput (s : TuiState) (snapshot : SystemSnapshot) (h : Host) (now ch : Int) :
    InputResult :=
  if ch = ERR then { state := s }
  else if s.confirmPending then
    if s.statusMessageExpiry ≤ now then
      (s.resolve "SIGKILL confirmation expired" now).command snapshot h now ch
    else s.answer snapshot h now ch
  else s.command snapshot h now ch

/-- `tui_render`: what it does to the state.  It also sorts the snapshot. -/
def render (s : TuiState) (snapshot : SystemSnapshot) (rows : Int) : TuiState :=
  let count : Int := snapshot.procs.length
  let s :=
    if count ≤ 0 then { s with selectedIndex := 0, scrollOffset := 0 }
    else
      let s := if count ≤ s.selectedIndex then { s with selectedIndex := count - 1 } else s
      if s.selectedIndex < 0 then { s with selectedIndex := 0 } else s
  let maxRows := if rows - 5 - 3 < 1 then 1 else rows - 5 - 3
  let s :=
    if s.selectedIndex < s.scrollOffset then { s with scrollOffset := s.selectedIndex }
    else if s.scrollOffset + maxRows ≤ s.selectedIndex then
      { s with scrollOffset := s.selectedIndex - maxRows + 1 }
    else s
  if s.scrollOffset < 0 then { s with scrollOffset := 0 } else s

end TuiState

/-! ## Runs -/

/-- A step of `main`'s loop on a snapshot; `time` is what `time(NULL)` says throughout a
call of `tui_handle_input`. -/
inductive Frame where
  | render (snapshot : SystemSnapshot) (rows : Int)
  | input (snapshot : SystemSnapshot) (h : Host) (time ch : Int)

namespace Frame

/-- What the frame does. -/
def run (f : Frame) (s : TuiState) : InputResult :=
  match f with
  | .render snapshot rows => { state := s.render snapshot rows }
  | .input snapshot h time ch => s.handleInput snapshot h time ch

/-- The key received, if one was. -/
def pressed : Frame → Option Int
  | .render _ _ => none
  | .input _ _ _ ch => if ch = ERR then none else some ch

def snapshot : Frame → SystemSnapshot
  | .render snapshot _ => snapshot
  | .input snapshot _ _ _ => snapshot

def time : Frame → Int
  | .render _ _ => 0
  | .input _ _ time _ => time

end Frame

/-- The state before frame `n`. -/
def tuiState (frames : Nat → Frame) : Nat → TuiState
  | 0 => {}
  | n + 1 => ((frames n).run (tuiState frames n)).state

/-- Frame `n` calls `signal_send_to_process(p, SIGKILL)`. -/
def KillsAt (frames : Nat → Frame) (n : Nat) (p : Int) : Prop :=
  ((frames n).run (tuiState frames n)).signal = some (p, sigkill)

/-- Frame `n` answers the question of frame `m` whether `p` is to be killed. -/
structure Confirms (frames : Nat → Frame) (m n : Nat) (p : Int) : Prop where
  before : m < n
  yes : (frames n).pressed = some (key 'y') ∨ (frames n).pressed = some (key 'Y')
  asked : (frames m).pressed = some (key 'K')
  selected : (frames m).snapshot.pidAt (tuiState frames m).selectedIndex = some p
  quiet : ∀ k, m < k → k < n → (frames k).pressed = none
  inTime : (frames n).time < (frames m).time + 10
  present : ∃ q ∈ (frames n).snapshot.procs, q.pid = p

/-! ## One key -/

namespace TuiState
variable (s : TuiState) (snapshot : SystemSnapshot) (h : Host) (now ch : Int)

/-- The keys that send a signal at once leave the question alone. -/
theorem signalSelected_spec (sig : Int) (name : String) :
    (s.signalSelected snapshot h now sig name).state.confirmPending = s.confirmPending ∧
      ∀ p sig', (s.signalSelected snapshot h now sig name).signal = some (p, sig') → sig' = sig := by
  unfold signalSelected
  cases s.selected snapshot with
  | none => simp
  | some pid =>
    refine ⟨rfl, fun p sig' hp => ?_⟩
    exact (Prod.mk.inj (Option.some.inj hp)).2.symm

variable {s}

/-- The `switch` asks the question for `K` only, and sends no `SIGKILL`. -/
theorem command_spec (hs : s.confirmPending = false) :
    ((s.command snapshot h now ch).state.confirmPending = true →
      ch = key 'K' ∧ s.selected snapshot = some (s.command snapshot h now ch).state.pendingKillPid ∧
        (s.command snapshot h now ch).state.statusMessageExpiry = now + 10) ∧
      ∀ p, (s.command snapshot h now ch).signal ≠ some (p, sigkill) := by
  have hsignal : ∀ sig name, sig ≠ sigkill →
      ((s.signalSelected snapshot h now sig name).state.confirmPending = false ∧
        ∀ p, (s.signalSelected snapshot h now sig name).signal ≠ some (p, sigkill)) := by
    intro sig name hne
    obtain ⟨hpending, hsig⟩ := s.signalSelected_spec snapshot h now sig name
    exact ⟨hpending.trans hs, fun p hp => hne (hsig p _ hp).symm⟩
  unfold command
  split
  · simp [hs]
  split
  · split <;> simp [hs]
  split
  · split <;> simp [hs]
  split
  · simp [say, hs]
  split
  · simp [say, hs]
  split
  · obtain ⟨hpending, hsig⟩ := hsignal sigstop "SIGSTOP" (by decide)
    exact ⟨fun hp => absurd hp (by simp [hpending]), hsig⟩
  split
  · obtain ⟨hpending, hsig⟩ := hsignal sigcont "SIGCONT" (by decide)
    exact ⟨fun hp => absurd hp (by simp [hpending]), hsig⟩
  split
  · rename_i hK
    refine ⟨?_, nofun⟩
    unfold askKill
    cases s.selected snapshot with
    | none => simp [hs]
    | some pid => simp [hK]
  · simp [hs]

/-- **What a key does to the question**: `K` asks it, every key resolves it, and `SIGKILL`
is sent for a `y` in time. -/
theorem handleInput_spec (hch : ch ≠ ERR) :
    ((s.handleInput snapshot h now ch).state.confirmPending = true →
      ch = key 'K' ∧
        s.selected snapshot = some (s.handleInput snapshot h now ch).state.pendingKillPid ∧
        (s.handleInput snapshot h now ch).state.statusMessageExpiry = now + 10) ∧
      ∀ p, (s.handleInput snapshot h now ch).signal = some (p, sigkill) →
        s.confirmPending = true ∧ now < s.statusMessageExpiry ∧ (ch = key 'y' ∨ ch = key 'Y') ∧
          p = s.pendingKillPid ∧ ∃ q ∈ snapshot.procs, q.pid = p := by
  unfold handleInput
  rw [if_neg hch]
  split
  · rename_i hpending
    split
    · -- the question has lapsed, and the key is handled as any other
      obtain ⟨hask, hkill⟩ := command_spec snapshot h now ch
        (show (s.resolve "SIGKILL confirmation expired" now).confirmPending = false from rfl)
      exact ⟨hask, fun p hp => absurd hp (hkill p)⟩
    · rename_i hintime
      unfold answer
      split
      · rename_i hyes
        dsimp only
        split
        · rename_i hfound
          refine ⟨nofun, fun p hp => ?_⟩
          obtain ⟨rfl, -⟩ := Prod.mk.inj (Option.some.inj hp)
          obtain ⟨q, hq, hpid⟩ := List.any_eq_true.mp hfound
          exact ⟨hpending, by omega, hyes, rfl, q, hq, by simpa using hpid⟩
        · exact ⟨nofun, nofun⟩
      · exact ⟨nofun, nofun⟩
  · rename_i hpending
    obtain ⟨hask, hkill⟩ := command_spec snapshot h now ch (Bool.eq_false_iff.mpr hpending)
    exact ⟨hask, fun p hp => absurd hp (hkill p)⟩

/-- A rendering leaves the question alone. -/
theorem render_question (rows : Int) :
    (s.render snapshot rows).confirmPending = s.confirmPending ∧
      (s.render snapshot rows).pendingKillPid = s.pendingKillPid ∧
      (s.render snapshot rows).statusMessageExpiry = s.statusMessageExpiry := by
  unfold render
  split <;> grind

/-- The pid that a key is about is the one on the selected line. -/
theorem pidAt_of_selected {p : Int} (hsel : s.selected snapshot = some p) :
    snapshot.pidAt s.selectedIndex = some p := by
  unfold selected at hsel
  split at hsel
  · exact hsel
  · cases hsel

/-! ## The selected line -/

theorem command_selectedIndex (hs : 0 ≤ s.selectedIndex) :
    0 ≤ (s.command snapshot h now ch).state.selectedIndex := by
  have hsignal : ∀ sig name,
      (s.signalSelected snapshot h now sig name).state.selectedIndex = s.selectedIndex := by
    intro sig name
    unfold signalSelected
    cases s.selected snapshot <;> rfl
  have hask : (s.askKill snapshot now).selectedIndex = s.selectedIndex := by
    unfold askKill
    cases s.selected snapshot <;> rfl
  unfold command
  grind [say]

theorem handleInput_selectedIndex (hs : 0 ≤ s.selectedIndex) :
    0 ≤ (s.handleInput snapshot h now ch).state.selectedIndex := by
  unfold handleInput
  split
  · exact hs
  split
  · split
    · exact command_selectedIndex snapshot h now ch (show 0 ≤ (s.resolve _ now).selectedIndex from hs)
    · unfold answer
      split
      · dsimp only
        split <;> exact hs
      · exact hs
  · exact command_selectedIndex snapshot h now ch hs

theorem render_selectedIndex (rows : Int) : 0 ≤ (s.render snapshot rows).selectedIndex := by
  unfold render
  grind

end TuiState

/-! ## Whole runs -/

section Frames
variable (frames : Nat → Frame)

/-- The array of processes is never read before its start. -/
theorem tuiState_selectedIndex (n : Nat) : 0 ≤ (tuiState frames n).selectedIndex := by
  induction n with
  | zero => exact Int.le_refl 0
  | succ n ih =>
    show 0 ≤ ((frames n).run (tuiState frames n)).state.selectedIndex
    cases frames n with
    | render snapshot rows => exact TuiState.render_selectedIndex snapshot rows
    | input snapshot h time ch => exact TuiState.handleInput_selectedIndex snapshot h time ch ih

/-- Whenever a line is selected, there is a process on it. -/
theorem selected_isSome {n : Nat} {snapshot : SystemSnapshot}
    (hlen : (tuiState frames n).selectedIndex < snapshot.procs.length) :
    ((tuiState frames n).selected snapshot).isSome := by
  have hnonneg := tuiState_selectedIndex frames n
  unfold TuiState.selected SystemSnapshot.pidAt
  rw [if_pos ⟨by omega, hlen⟩, if_pos hnonneg, List.getElem?_eq_getElem (by omega)]
  rfl

/-- Frame `m` asked the question that stands before frame `n`. -/
structure Asks (m n : Nat) : Prop where
  before : m < n
  asked : (frames m).pressed = some (key 'K')
  selected : (frames m).snapshot.pidAt (tuiState frames m).selectedIndex =
    some (tuiState frames n).pendingKillPid
  expiry : (tuiState frames n).statusMessageExpiry = (frames m).time + 10
  quiet : ∀ k, m < k → k < n → (frames k).pressed = none

variable {frames}

/-- A frame without a key lets the question stand. -/
theorem Asks.wait {m n : Nat} (h : Asks frames m n) (hquiet : (frames n).pressed = none)
    (hpid : (tuiState frames (n + 1)).pendingKillPid = (tuiState frames n).pendingKillPid)
    (hexpiry : (tuiState frames (n + 1)).statusMessageExpiry =
      (tuiState frames n).statusMessageExpiry) : Asks frames m (n + 1) where
  before := Nat.lt_succ_of_lt h.before
  asked := h.asked
  selected := by rw [hpid, h.selected]
  expiry := by rw [hexpiry, h.expiry]
  quiet k hmk hkn := by
    rcases Nat.lt_succ_iff_lt_or_eq.mp hkn with hkn | rfl
    · exact h.quiet k hmk hkn
    · exact hquiet

/-- **The invariant.**  A question that stands was asked by a `K`, and no key came since. -/
theorem exists_asks (n : Nat) (hpending : (tuiState frames n).confirmPending = true) :
    ∃ m, Asks frames m n := by
  induction n with
  | zero => cases hpending
  | succ n ih =>
    have hnext : tuiState frames (n + 1) = ((frames n).run (tuiState frames n)).state := rfl
    cases hf : frames n with
    | render snapshot rows =>
      rw [hf] at hnext
      obtain ⟨hconf, hpid, hexpiry⟩ := (tuiState frames n).render_question snapshot rows
      obtain ⟨m, hm⟩ := ih (by rw [← hconf]; rwa [hnext] at hpending)
      exact ⟨m, hm.wait (by rw [hf]; rfl) (by rw [hnext]; exact hpid) (by rw [hnext]; exact hexpiry)⟩
    | input snapshot h time ch =>
      rw [hf] at hnext
      change tuiState frames (n + 1) = ((tuiState frames n).handleInput snapshot h time ch).state
        at hnext
      by_cases hch : ch = ERR
      · have hstay : tuiState frames (n + 1) = tuiState frames n := by
          rw [hnext, TuiState.handleInput, if_pos hch]
        obtain ⟨m, hm⟩ := ih (by rwa [hstay] at hpending)
        exact ⟨m, hm.wait (by rw [hf]; exact if_pos hch) (by rw [hstay]) (by rw [hstay])⟩
      · rw [hnext] at hpending
        obtain ⟨hK, hsel, hexpiry⟩ := (TuiState.handleInput_spec snapshot h time ch hch).1 hpending
        refine ⟨n, Nat.lt_succ_self n, ?_, ?_, ?_, fun k hnk hkn => ?_⟩
        · rw [hf, hK]
          rfl
        · rw [hf, hnext]
          exact TuiState.pidAt_of_selected snapshot hsel
        · rw [hf, hnext]
          exact hexpiry
        · omega

/-- A `SIGKILL` answers the question that stands. -/
theorem KillsAt.confirms {n : Nat} {p : Int} (hkill : KillsAt frames n p) :
    ∃ m, Confirms frames m n p := by
  unfold KillsAt at hkill
  cases hf : frames n with
  | render snapshot rows =>
    rw [hf] at hkill
    cases hkill
  | input snapshot h time ch =>
    rw [hf] at hkill
    have hch : ch ≠ ERR := by
      rintro rfl
      cases hkill
    have hpressed : (frames n).pressed = some ch := by
      rw [hf]
      exact if_neg hch
    obtain ⟨hpending, hintime, hyes, rfl, hpresent⟩ :=
      (TuiState.handleInput_spec snapshot h time ch hch).2 p hkill
    obtain ⟨m, hm⟩ := exists_asks n hpending
    refine ⟨m, hm.before, ?_, hm.asked, hm.selected, hm.quiet, ?_, ?_⟩
    · rw [hpressed]
      exact hyes.imp (congrArg some) (congrArg some)
    · rw [hf, ← hm.expiry]
      exact hintime
    · rw [hf]
      exact hpresent

/-- A question has one answer. -/
theorem Confirms.unique {m n n' : Nat} {p p' : Int} (h : Confirms frames m n p)
    (h' : Confirms frames m n' p') : n = n' := by
  have hkey : ∀ {n p}, Confirms frames m n p → (frames n).pressed ≠ none := by
    intro n p hc hnone
    rcases hc.yes with hy | hy <;> rw [hnone] at hy <;> cases hy
  rcases Nat.lt_trichotomy n n' with hlt | heq | hlt
  · exact absurd (h'.quiet n h.before hlt) (hkey h)
  · exact heq
  · exact absurd (h.quiet n' h'.before hlt) (hkey h')

end Frames

/-- **`SIGKILL` is confirmed.**  In every run, a `SIGKILL` answers with `y` a question that
`K` asked about the selected process, in time and with no key in between, and the process
is in the snapshot; and no question leads to two of them. -/
theorem sigkill_confirmed (frames : Nat → Frame) :
    (∀ n p, KillsAt frames n p → ∃ m, Confirms frames m n p) ∧
      ∀ m n n' p p', KillsAt frames n p → KillsAt frames n' p' → Confirms frames m n p →
        Confirms frames m n' p' → n = n' :=
  ⟨fun _ _ hkill => hkill.confirms, fun _ _ _ _ _ _ _ h h' => h.unique h'⟩

/-- A snapshot of one process. -/
def oneProcess (pid : Int) : SystemSnapshot := ⟨[{ pid := pid }], false, {}, {}, 0⟩

/-- `K`, a frame without a key, a rendering, and `y` nine seconds after the `K`. -/
def killFrames (h : Host) : Nat → Frame
  | 0 => .input (oneProcess 42) h 100 (key 'K')
  | 1 => .input (oneProcess 42) h 104 ERR
  | 2 => .render (oneProcess 42) 24
  | _ => .input (oneProcess 42) h 109 (key 'y')

theorem sigkill_confirmed_in_time :
    ∃ frames, KillsAt frames 3 42 ∧ ∃ m, Confirms frames m 3 42 := by
  have hkill : KillsAt (killFrames ⟨fun _ => .missing, fun _ _ => true, fun _ => true, fun _ => []⟩)
      3 42 := by
    unfold KillsAt
    decide +kernel
  exact ⟨_, hkill, (sigkill_confirmed _).1 3 42 hkill⟩

end MemoryMonitor
