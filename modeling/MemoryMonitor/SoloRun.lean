import MemoryMonitor.Threads

/-! # Runs of a single thread

With one thread only, what the environment may do next can be computed: the other
threads are idle, so a pointer is usable when it is live and the thread is idle too.
-/
namespace MemoryMonitor

/-- Nobody but thread `0` has entered a call. -/
def Sys.Solo (s : Sys) : Prop := ∀ t, t ≠ 0 → s.pc t = .idle

/-- The thread that takes a step. -/
def Label.thread : Label → Option Nat
  | .call t _ _ => some t
  | .resume t _ => some t
  | _ => none

section
variable {s : Sys} {t : Nat} {r : Sys × Return}

theorem Sys.callFree_pc {c : Call} {ptr ret : Nat} (h : s.callFree t c ptr ret = .ok r) {t' : Nat}
    (ht : t' ≠ t) : r.1.pc t' = s.pc t' := by
  obtain ⟨⟨out, st⟩, -, h⟩ := bind_ok h
  cases out <;> cases h <;> exact Function.update_of_ne ht ..

theorem Sys.call_pc {c : Call} {o : Oracle} (h : s.call t c o = .ok r) {t' : Nat} (ht : t' ≠ t) :
    r.1.pc t' = s.pc t' := by
  cases c with
  | malloc size =>
    obtain ⟨⟨p, st⟩, -, h⟩ := bind_ok h
    cases h
    exact Function.update_of_ne ht ..
  | calloc nmemb size =>
    simp only [Sys.call, Sys.callCalloc] at h
    split at h
    · cases h
      exact Function.update_of_ne ht ..
    · split at h
      · cases h
        exact Function.update_of_ne ht ..
      · obtain ⟨⟨p, st⟩, -, h⟩ := bind_ok h
        simp only at h
        split at h <;> cases h <;> exact Function.update_of_ne ht ..
  | free ptr => exact Sys.callFree_pc h ht
  | realloc ptr size =>
    simp only [Sys.call, Sys.callRealloc] at h
    split at h
    · obtain ⟨⟨p, st⟩, -, h⟩ := bind_ok h
      cases h
      exact Function.update_of_ne ht ..
    · split at h
      · exact Sys.callFree_pc h ht
      · split at h
        · cases h
          exact Function.update_of_ne ht ..
        · obtain ⟨⟨out, st⟩, -, h⟩ := bind_ok h
          cases out <;> cases h <;> exact Function.update_of_ne ht ..

theorem Sys.resume_pc {o : Oracle} (h : s.resume t o = .ok r) {t' : Nat} (ht : t' ≠ t) :
    r.1.pc t' = s.pc t' := by
  unfold Sys.resume at h
  cases hpc : s.pc t <;> simp only [hpc] at h
  case idle =>
    cases h
    rfl
  case clear =>
    obtain ⟨_, -, h⟩ := bind_ok h
    cases h
    exact Function.update_of_ne ht ..
  case relocate =>
    obtain ⟨⟨p, st⟩, -, h⟩ := bind_ok h
    simp only at h
    split at h <;> cases h <;> exact Function.update_of_ne ht ..
  case copy =>
    obtain ⟨_, -, h⟩ := bind_ok h
    obtain ⟨_, -, h⟩ := bind_ok h
    cases h
    exact Function.update_of_ne ht ..
  case release => exact Sys.callFree_pc h ht
  case unmap =>
    cases h
    exact Function.update_of_ne ht ..

end

/-- **A step moves one thread only.** -/
theorem Sys.step_pc {s : Sys} {l : Label} {r : Sys × Return} (h : s.step l = .ok r) {t : Nat}
    (ht : l.thread ≠ some t) : r.1.pc t = s.pc t := by
  cases l with
  | call t' c o => exact Sys.call_pc h fun he => ht (by rw [he]; rfl)
  | resume t' o => exact Sys.resume_pc h fun he => ht (by rw [he]; rfl)
  | store ptr off b => cases h; rfl
  | init o => cases h; rfl
  | destroy o => cases h; rfl
  | hostSbrk n o =>
    simp only [Sys.step] at h
    split at h <;> cases h <;> rfl
  | hostStore x b => cases h; rfl

/-! ## Checks -/

/-- A step of thread `0` that a client may take. -/
def Sys.clientCheck (s : Sys) : Label → Bool
  | .call t c _ => t = 0 && s.pc 0 = .idle && (c.operand = 0 || s.live.any fun e => e.ptr = c.operand)
  | .resume t _ => t = 0 && s.pc 0 ≠ .idle
  | .store ptr off _ => s.live.any fun e => e.ptr = ptr && off < e.size
  | _ => false

/-- The allocator may be initialised and destroyed. -/
def Sys.controlCheck (s : Sys) : Label → Bool
  | .init _ => s.pc 0 = .idle
  | .destroy _ => s.pc 0 = .idle
  | _ => false

/-- The rest of the process grows the break. -/
def Sys.hostCheck : Label → Bool
  | .hostSbrk n _ => 0 < n
  | _ => false

namespace Sys.Solo
variable {s : Sys} {l : Label}

theorem idle (hs : s.Solo) (h0 : s.pc 0 = .idle) (t : Nat) : s.pc t = .idle := by
  by_cases ht : t = 0
  · rw [ht]
    exact h0
  · exact hs t ht

theorem clientMay (hs : s.Solo) (h : s.clientCheck l = true) : s.ClientMay l := by
  cases l with
  | call t c o =>
    simp only [Sys.clientCheck, Bool.and_eq_true, Bool.or_eq_true, decide_eq_true_eq,
      List.any_eq_true] at h
    obtain ⟨⟨rfl, h0⟩, hc⟩ := h
    refine ⟨h0, hc.imp_right fun hlive => ⟨hlive, fun t e he => ?_⟩⟩
    rw [hs.idle h0 t] at he
    cases he
  | resume t o =>
    simp only [Sys.clientCheck, Bool.and_eq_true, decide_eq_true_eq] at h
    obtain ⟨rfl, h0⟩ := h
    exact h0
  | store ptr off b =>
    simp only [Sys.clientCheck, List.any_eq_true, Bool.and_eq_true, decide_eq_true_eq] at h
    exact h
  | init o => cases h
  | destroy o => cases h
  | hostSbrk n o => cases h
  | hostStore x b => cases h

theorem controlMay (hs : s.Solo) (h : s.controlCheck l = true) : s.ControlMay l := by
  cases l with
  | init o => exact hs.idle (by simpa [Sys.controlCheck] using h)
  | destroy o => exact hs.idle (by simpa [Sys.controlCheck] using h)
  | call t c o => cases h
  | resume t o => cases h
  | store ptr off b => cases h
  | hostSbrk n o => cases h
  | hostStore x b => cases h

theorem hostMay_of_check (h : Sys.hostCheck l = true) : s.HostMay l := by
  cases l with
  | hostSbrk n o => simpa [Sys.hostCheck, Sys.HostMay] using h
  | call t c o => cases h
  | resume t o => cases h
  | store ptr off b => cases h
  | init o => cases h
  | destroy o => cases h
  | hostStore x b => cases h

/-- A checked step leaves the other threads idle. -/
theorem step {s' : Sys} {out : Return} (hs : s.Solo) (h : s.step l = .ok (s', out))
    (hc : (s.clientCheck l || s.controlCheck l || Sys.hostCheck l) = true) : s'.Solo := by
  intro t ht
  rw [← hs t ht]
  refine Sys.step_pc h fun he => ht ?_
  cases l with
  | call t' c o =>
    obtain rfl := Option.some.inj he
    simp only [Sys.clientCheck, Sys.controlCheck, Sys.hostCheck, Bool.or_false, Bool.and_eq_true,
      decide_eq_true_eq] at hc
    exact hc.1.1
  | resume t' o =>
    obtain rfl := Option.some.inj he
    simp only [Sys.clientCheck, Sys.controlCheck, Sys.hostCheck, Bool.or_false, Bool.and_eq_true,
      decide_eq_true_eq] at hc
    exact hc.1
  | store ptr off b => cases he
  | init o => cases he
  | destroy o => cases he
  | hostSbrk n o => cases he
  | hostStore x b => cases he

end Sys.Solo

end MemoryMonitor
