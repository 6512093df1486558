import MemoryMonitor.ClientContract
import MemoryMonitor.SoloRun

/-! # Initialising and destroying the allocator again

`allocator_init` and `allocator_destroy` may come in any order and number between the
calls of the clients, which forget their pointers there.  Both drop the free lists, but
not always the heap: `allocator_init` keeps the blocks it finds when `initial_break` is
set, and so does `allocator_destroy` when the kernel refuses its `brk` call.  A free
block that is left behind without being on a list is what coalescing later trips over.

As long as no free block is dropped that way, every call goes through.
-/
namespace MemoryMonitor

open ByteMemory Tiling LinkedChain

/-- No thread has entered a call, and nothing of the allocator has run. -/
def Sys.Unstarted (s : Sys) : Prop := s.Idle ∧ Boot s.st

/-- Initialisation finds a heap, or destruction cannot give it back, only when no free
block is in it. -/
def Sys.DropsNoFreeBlock (s : Sys) : Label → Prop
  | .init _ => s.st.initialBreak ≠ 0 → ∀ i, s.st.heads i = 0
  | .destroy o => s.st.initialBreak ≠ 0 → s.st.brk = s.st.lastAllocatorBreak → o.brkOk = false →
      ∀ i, s.st.heads i = 0
  | _ => True

/-- What holds in every state of these runs. -/
structure ControlInv (s : Sys) : Prop where
  sys : SysInv False s
  host : ∀ x, s.st.hostOwned x = false

theorem ControlInv.unstarted {s : Sys} (h : s.Unstarted) : ControlInv s := by
  obtain ⟨⟨hlive, hpc⟩, B⟩ := h
  refine ⟨.of_idle ?_ fun t => by rw [hpc], fun x => by rw [B.host]⟩
  rw [hlive]
  exact B.inv

theorem Grown.no_host {s s' : State} (h : Grown s s') (hhost : ∀ x, s.hostOwned x = false) (x : Nat) :
    s'.hostOwned x = false := by
  rw [h.host x]
  split
  · rfl
  · exact hhost x

/-- `allocator_init` takes no byte of the host's. -/
theorem allocatorInit_grown (s : State) (o : Oracle) : ∀ x, (allocatorInit s o).hostOwned x =
    if s.brk ≤ x ∧ x < (allocatorInit s o).brk then false else s.hostOwned x := by
  unfold allocatorInit
  simp only
  cases he : ensureBreakAligned (freeListReset { s with stats := {} }) o with
  | mk ok s₁ =>
    have hg := (ensureBreakAligned_grown he).1.host
    cases ok with
    | false => exact hg
    | true =>
      simp only
      split <;> exact hg

/-- `allocator_destroy` does not change whose the bytes are. -/
theorem allocatorDestroy_host (s : State) (o : Oracle) :
    (allocatorDestroy s o).hostOwned = s.hostOwned := by
  by_cases h0 : s.initialBreak = 0
  · rw [allocatorDestroy_null h0]
  by_cases hb : s.brk = s.lastAllocatorBreak
  · cases hok : o.brkOk with
    | false => rw [allocatorDestroy_refused h0 hb hok]
    | true => rw [allocatorDestroy_released h0 hb hok]
  · rw [allocatorDestroy_left h0 hb]

/-- **A step that drops no free block keeps the invariant.** -/
theorem ControlInv.step {s s' : Sys} {l : Label} {out : Return} (C : ControlInv s)
    (hl : s.ClientMay l ∨ s.ControlMay l) (hd : s.DropsNoFreeBlock l)
    (h : s.step l = .ok (s', out)) : ControlInv s' := by
  rcases hl with hl | hl
  · obtain ⟨r, hr, R⟩ := C.sys.client_step hl
    rw [hr] at h
    obtain rfl := Except.ok.inj h
    exact ⟨R.inv, (client_quiet hl hr).grown.no_host C.host⟩
  · cases l with
    | init o =>
      cases h
      refine ⟨.of_idle (C.sys.inv.init o hd) hl, fun x => ?_⟩
      rw [show ({ s with st := allocatorInit s.st o, live := [] } : Sys).st.hostOwned x =
        (allocatorInit s.st o).hostOwned x from rfl, allocatorInit_grown]
      split
      · rfl
      · exact C.host x
    | destroy o =>
      cases h
      refine ⟨.of_idle (C.sys.inv.destroy o C.host hd) hl, fun x => ?_⟩
      exact (congrFun (allocatorDestroy_host s.st o) x).trans (C.host x)
    | call t c o => exact absurd hl id
    | resume t o => exact absurd hl id
    | store ptr off b => exact absurd hl id
    | hostSbrk n o => exact absurd hl id
    | hostStore x b => exact absurd hl id

theorem ControlInv.of_reach {s : Sys}
    (h : (clientsAndControl.restrict Sys.DropsNoFreeBlock).Reach Sys.Unstarted s) : ControlInv s :=
  h.invariant (fun _ => .unstarted) fun _ _ _ _ C ha hs => C.step ha.1 ha.2 hs

/-- The process of `freshProcess` before its allocator is initialised. -/
def unstartedSys : Sys := ⟨freshProcess, [], fun _ => .idle⟩

theorem unstartedSys_unstarted : unstartedSys.Unstarted := ⟨⟨rfl, rfl⟩, freshProcess_boot⟩

/-- **Re-initialisation is safe as long as it drops no free block.**  In every state of
every run of clients, initialisations and destructions that all meet
`DropsNoFreeBlock`, no step of a client faults, and when there is a heap, every free
block in it is on the list of its size class. -/
theorem reinit_safe {s : Sys}
    (h : (clientsAndControl.restrict Sys.DropsNoFreeBlock).Reach Sys.Unstarted s) :
    (∀ l, s.ClientMay l → ∃ s' out, s.step l = .ok (s', out)) ∧
      (s.st.heapStart ≠ 0 → ∃ blocks lists, WellFormed s.st blocks lists) := by
  have C := ControlInv.of_reach h
  refine ⟨fun l hl => ?_, fun hst => ?_⟩
  · obtain ⟨⟨s', out⟩, hr, -⟩ := C.sys.client_step hl
    exact ⟨s', out, hr⟩
  · obtain ⟨lo, segs, lists, I⟩ := C.sys.inv
    exact ⟨_, lists, I.wellFormed hst⟩

/-! ## Computed runs -/

theorem Sys.Solo.mayControl {s : Sys} {l : Label} (hs : s.Solo)
    (hc : (s.clientCheck l || s.controlCheck l) = true) : clientsAndControl.allowed s l := by
  rcases Bool.or_eq_true_iff.mp hc with hc | hc
  · exact Or.inl (hs.clientMay hc)
  · exact Or.inr (hs.controlMay hc)

/-- Every checked run of one thread is a run with control. -/
theorem control_reach {is : List Label} {s : Sys}
    (he : clientsAndControl.exec (fun s l => s.clientCheck l || s.controlCheck l) unstartedSys is =
      some s) : clientsAndControl.Reach Sys.Unstarted s ∧ s.Solo := by
  refine Runs.Machine.Reach.exec (P := Sys.Solo) ?_ (.start unstartedSys_unstarted)
    (fun _ _ => rfl) he
  intro s i s' out hs hc hstep
  exact ⟨hs.mayControl hc, hs.step hstep (by rw [hc]; rfl)⟩

/-- All eight lists are empty. -/
def Sys.listsEmpty (s : Sys) : Bool := (List.finRange 8).all fun i => s.st.heads i = 0

/-- A step that a client may take, or a control step while the lists are empty. -/
def Sys.keepCheck (s : Sys) (l : Label) : Bool :=
  s.clientCheck l || s.controlCheck l && s.listsEmpty

/-- A computed run that drops no free block. -/
theorem kept_reach {is : List Label} {s : Sys}
    (he : (clientsAndControl.restrict Sys.DropsNoFreeBlock).exec Sys.keepCheck unstartedSys is =
      some s) : (clientsAndControl.restrict Sys.DropsNoFreeBlock).Reach Sys.Unstarted s ∧ s.Solo := by
  refine Runs.Machine.Reach.exec (P := Sys.Solo) ?_ (.start unstartedSys_unstarted) (fun _ _ => rfl) he
  intro s l s' out hs hc hstep
  have hmay : (s.clientCheck l || s.controlCheck l) = true := by
    unfold Sys.keepCheck at hc
    rw [Bool.or_eq_true_iff, Bool.and_eq_true] at hc
    exact Bool.or_eq_true_iff.mpr (hc.imp_right And.left)
  refine ⟨⟨hs.mayControl hmay, ?_⟩, hs.step hstep (by rw [hmay]; rfl)⟩
  have hempty : s.clientCheck l = false → ∀ i, s.st.heads i = 0 := by
    intro hclient i
    unfold Sys.keepCheck at hc
    rw [hclient, Bool.false_or, Bool.and_eq_true] at hc
    simpa using List.all_eq_true.mp hc.2 i (List.mem_finRange i)
  cases l with
  | init o => exact fun _ => hempty rfl
  | destroy o => exact fun _ _ _ => hempty rfl
  | _ => trivial

/-- The heap is kept with a block in use, and goes on to grow; the new block is freed. -/
def keepAndGrow : List Label :=
  [.init {}, .call 0 (.malloc 100) {}, .init {}, .call 0 (.malloc 100) {}, .call 0 (.free 4320) {}]

theorem reinit_safe_twice :
    ∃ s lists, (clientsAndControl.restrict Sys.DropsNoFreeBlock).exec Sys.keepCheck unstartedSys
        keepAndGrow = some s ∧
      WellFormed s.st [4096, 4272] lists ∧ isFree s.st.mem 4096 = 0 ∧ (∃ i, 4272 ∈ lists i) ∧
      ∃ s' out, s.step (.call 0 (.malloc 100) {}) = .ok (s', out) := by
  have hrun : ((clientsAndControl.restrict Sys.DropsNoFreeBlock).exec Sys.keepCheck unstartedSys
      keepAndGrow).map (fun s => (s.clientCheck (.call 0 (.malloc 100) {}),
        [s.st.heapStart, s.st.brk, isFree s.st.mem 4096, isFree s.st.mem 4272,
          blockSize s.st.mem 4096, blockSize s.st.mem 4272])) =
      some (true, [4096, 4448, 0, 1, 176, 176]) := by
    decide +kernel
  obtain ⟨s, hs, hout⟩ := Option.map_eq_some_iff.mp hrun
  simp only [Prod.mk.injEq, List.cons.injEq, and_true] at hout
  obtain ⟨hcheck, hstart, hbrk, hused, hfree, h₁, h₂⟩ := hout
  obtain ⟨hreach, hsolo⟩ := kept_reach hs
  obtain ⟨hstep, hheap⟩ := reinit_safe hreach
  obtain ⟨blocks, lists, W⟩ := hheap (by rw [hstart]; decide)
  have hwalk : Walk s.st.mem s.st.heapStart [4096, 4272] s.st.brk := by
    simp [Walk, hstart, hbrk, h₁, h₂]
  obtain rfl := W.walk.unique hwalk
  exact ⟨s, lists, hs, W, hused, ⟨_, (W.listed _ 4272).mpr ⟨by simp, hfree, rfl⟩⟩,
    hstep _ (hsolo.clientMay hcheck)⟩

/-! ## A run that drops a free block -/

/-- **Initialising twice with a free block in the heap ends in an abort**: `init`,
`p = malloc(100)`, `free(p)`, `init`, `q = malloc(100)`, `free(q)`. -/
theorem reinit_aborts : ∃ s, clientsAndControl.Reach Sys.Unstarted s ∧
    s.ClientMay (.call 0 (.free 4320) {}) ∧ s.step (.call 0 (.free 4320) {}) =
      .error (.abort "[FATAL] Free-list head linkage corruption detected\n") := by
  have h : (clientsAndControl.exec (fun s l => s.clientCheck l || s.controlCheck l) unstartedSys
      [.init {}, .call 0 (.malloc 100) {}, .call 0 (.free 4144) {}, .init {},
        .call 0 (.malloc 100) {}]).any (fun s => s.clientCheck (.call 0 (.free 4320) {}) &&
      Runs.faultOf (s.step (.call 0 (.free 4320) {})) =
        some (.abort "[FATAL] Free-list head linkage corruption detected\n")) = true := by
    decide +kernel
  obtain ⟨s, he, hs⟩ := (Option.any_eq_true ..).mp h
  obtain ⟨hr, hsolo⟩ := control_reach he
  rw [Bool.and_eq_true, decide_eq_true_eq] at hs
  exact ⟨s, hr, hsolo.clientMay hs.1, Runs.faultOf_eq_some hs.2⟩

end MemoryMonitor
