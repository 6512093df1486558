import MemoryMonitor.ThreadsInv

/-! # `allocator_init` and `allocator_destroy`

Both forget the free lists.  That is harmless as long as no free block is left
behind in the heap: the used blocks of an earlier life of the allocator stay where
they are and nobody asks for them again.  Initialisation keeps the blocks it finds
whenever `initial_break` is already set, and so does a destruction whose `brk` call
fails; the invariant survives them when the lists were empty.
-/
namespace MemoryMonitor

open ByteMemory Tiling LinkedChain

variable {shared : Prop} {s : State} {live : List Alloc} {lo : Nat} {segs : List Seg}
variable {lists : Fin 8 → List Nat}

/-- An empty heap that begins at the break whenever it will. -/
theorem Layout.empty (K : KernelOk s) (hheads : s.heads = fun _ => 0) (hst : s.heapStart = 0)
    (hinit : s.initialBreak = 0) (hfresh : s.brk % 16 ≠ 0 → s.brkPeak = s.brk)
    (hhost : ∀ x, s.hostOwned x = true → s.brkFloor ≤ x ∧ x < s.brk) (hclean : HostClean s) :
    Layout shared s s.brk [] (fun _ => []) := by
  have h1 := K.floor_pos
  have h2 := K.floor_le
  refine ⟨⟨rfl, by omega, h2, K.limit, Or.inr ⟨hst, rfl⟩, by simp, by simp, ?_, by simp, by simp⟩,
    by rw [hst, hinit], ⟨by simp, by simp, hclean⟩, K, hhost, hfresh, by simp,
    fun h => absurd hst h, by rw [hst]⟩
  intro i
  rw [hheads]
  rfl

/-- Nothing of the allocator has run. -/
theorem Boot.inv (B : Boot s) : Inv shared s [] := by
  refine ⟨s.brk, [], fun _ => [], Layout.empty B.kernel B.heads B.heapStart B.initialBreak
    (fun _ => B.peak) ?_ ?_, by simp, by simp, by simp, ?_⟩
  · intro x hx
    rw [B.host] at hx
    cases hx
  · intro a ha
    have := ha 0 (by omega)
    rw [B.host] at this
    cases this
  · rw [B.stats]
    rfl

/-- Resetting empty lists and the statistics, once no allocation is live any more. -/
theorem Heap.reset (I : Heap shared s live lo segs lists) (hempty : ∀ i, s.heads i = 0) :
    Heap shared (freeListReset { s with stats := {} }) [] lo segs lists := by
  have hheads : (fun _ => 0) = s.heads := by
    funext i
    exact (hempty i).symm
  refine ⟨I.toLayout.of_fields rfl hheads rfl rfl rfl rfl rfl rfl rfl, I.settled, by simp, by simp,
    ?_⟩
  simp only [freeListReset]
  rfl

/-- Before the heap has begun the lists are empty. -/
theorem Heap.heads_eq_zero (I : Heap shared s live lo segs lists) (h0 : s.initialBreak = 0)
    (i : Fin 8) : s.heads i = 0 := by
  have hst : s.heapStart = 0 := by
    rw [← I.init]
    exact h0
  have hseg : segs = [] := by
    rcases I.rep.start with h | ⟨-, h⟩
    · have := I.rep.lo_pos
      omega
    · exact h
  rw [(I.rep.chain i).head_eq_null_iff]
  refine List.eq_nil_iff_forall_not_mem.mpr fun a ha => ?_
  obtain ⟨g, hg, -⟩ := (I.rep.listed i a).mp ha
  rw [hseg] at hg
  cases hg

/-- **`allocator_init` keeps the invariant when it drops no free block.** -/
theorem Inv.init (I : Inv shared s live) (o : Oracle)
    (hempty : s.initialBreak ≠ 0 → ∀ i, s.heads i = 0) : Inv shared (allocatorInit s o) [] := by
  obtain ⟨lo, segs, lists, I⟩ := I
  have hheads : ∀ i, s.heads i = 0 := by
    by_cases h0 : s.initialBreak = 0
    · exact I.heads_eq_zero h0
    · exact hempty h0
  have I₁ := I.reset hheads
  unfold allocatorInit
  simp only
  cases he : ensureBreakAligned (freeListReset { s with stats := {} }) o with
  | mk ok s₂ =>
    obtain ⟨lo₂, segs₂, I₂, -, -, hal, -⟩ := I₁.ensureBreakAligned o he
    cases ok with
    | false => exact ⟨lo₂, segs₂, lists, I₂⟩
    | true =>
      simp only [if_pos I₂.rep.brk_ne_ptrFailed]
      have hinit := I₂.init
      by_cases h0 : s₂.initialBreak = 0
      · obtain ⟨I₃, -⟩ := I₂.start (by omega) (hal rfl)
        refine ⟨lo₂, segs₂, lists, I₃.toLayout.of_fields rfl rfl ?_ ?_ rfl rfl rfl rfl rfl,
          I₃.settled, by simp, by simp, I₃.balance⟩
        · simp only [if_pos h0]
        · simp only [if_pos h0]
      · refine ⟨lo₂, segs₂, lists, I₂.toLayout.of_fields rfl rfl ?_ ?_ rfl rfl rfl rfl rfl,
          I₂.settled, by simp, by simp, I₂.balance⟩
        · simp only [if_neg h0]
          exact hinit
        · simp only [if_neg h0]

/-- The heap after its space was given back, or left behind. -/
theorem Inv.of_empty (K : KernelOk s) (hheads : s.heads = fun _ => 0) (hst : s.heapStart = 0)
    (hinit : s.initialBreak = 0) (hfresh : s.brk % 16 ≠ 0 → s.brkPeak = s.brk)
    (hhost : ∀ x, s.hostOwned x = false) (hstats : s.stats = {}) : Inv shared s [] := by
  refine ⟨s.brk, [], fun _ => [], Layout.empty K hheads hst hinit hfresh ?_ ?_, by simp, by simp,
    by simp, ?_⟩
  · intro x hx
    rw [hhost] at hx
    cases hx
  · intro a ha
    have := ha 0 (by omega)
    rw [hhost] at this
    cases this
  · rw [hstats]
    rfl

section Destroy
variable {o : Oracle}

/-- Nothing to give back. -/
theorem allocatorDestroy_null (h0 : s.initialBreak = 0) :
    allocatorDestroy s o = { s with
      heads := fun _ => 0, stats := {}, heapStart := 0, lastAllocatorBreak := 0 } := by
  simp [allocatorDestroy, freeListReset, h0]

/-- Someone else has moved the break: the space is left behind. -/
theorem allocatorDestroy_left (h0 : s.initialBreak ≠ 0) (hb : s.brk ≠ s.lastAllocatorBreak) :
    allocatorDestroy s o = { s with
      heads := fun _ => 0, stats := {}, heapStart := 0, initialBreak := 0,
      lastAllocatorBreak := 0 } := by
  simp [allocatorDestroy, freeListReset, h0, hb]

/-- The space is given back. -/
theorem allocatorDestroy_released (h0 : s.initialBreak ≠ 0) (hb : s.brk = s.lastAllocatorBreak)
    (hok : o.brkOk = true) :
    allocatorDestroy s o = { s with
      heads := fun _ => 0, stats := {}, heapStart := 0, initialBreak := 0,
      lastAllocatorBreak := 0, brk := s.initialBreak } := by
  simp [allocatorDestroy, freeListReset, State.brkTo, h0, hb, hok]

/-- The kernel refuses to take the space back. -/
theorem allocatorDestroy_refused (h0 : s.initialBreak ≠ 0) (hb : s.brk = s.lastAllocatorBreak)
    (hok : o.brkOk = false) :
    allocatorDestroy s o = { s with
      heads := fun _ => 0, stats := {}, heapStart := s.initialBreak } := by
  simp [allocatorDestroy, freeListReset, State.brkTo, h0, hb, hok]

end Destroy

/-- **`allocator_destroy` keeps the invariant**, unless its `brk` call fails and it
drops a free block. -/
theorem Inv.destroy (I : Inv shared s live) (o : Oracle) (hhost : ∀ x, s.hostOwned x = false)
    (hempty : s.initialBreak ≠ 0 → s.brk = s.lastAllocatorBreak → o.brkOk = false →
      ∀ i, s.heads i = 0) : Inv shared (allocatorDestroy s o) [] := by
  obtain ⟨lo, segs, lists, I⟩ := I
  have hinit := I.init
  have hK := I.kernel
  by_cases h0 : s.initialBreak = 0
  · rw [allocatorDestroy_null h0]
    exact Inv.of_empty (hK.of_fields rfl rfl rfl rfl) rfl rfl h0 I.fresh hhost rfl
  by_cases hb : s.brk = s.lastAllocatorBreak
  · cases hok : o.brkOk with
    | false =>
      rw [allocatorDestroy_refused h0 hb hok]
      have I₁ := I.reset (hempty h0 hb hok)
      exact ⟨lo, segs, lists, I₁.toLayout.of_fields rfl rfl hinit rfl rfl rfl rfl rfl rfl,
        I₁.settled, by simp, by simp, I₁.balance⟩
    | true =>
      rw [allocatorDestroy_released h0 hb hok]
      -- the heap shrinks back to where it began
      have hlo : lo = s.initialBreak := by
        rcases I.rep.start with h | ⟨h, -⟩ <;> omega
      have hle := I.rep.tiles.le
      have hfl := I.rep.floor
      have h16 := I.start_aligned
      have hpeak := hK.peak
      have hlim := hK.limit
      refine Inv.of_empty ⟨hK.floor_pos, by simp only; omega, by simp only; omega,
        by simp only; omega, ?_, hK.apart⟩ rfl rfl rfl ?_ hhost rfl
      · intro mp hmp
        obtain ⟨h1, h2, h3, h4, h5⟩ := hK.placed mp hmp
        exact ⟨h1, h2, h3, h4, by simp only; omega⟩
      · intro h
        simp only at h
        omega
  · rw [allocatorDestroy_left h0 hb]
    exact Inv.of_empty (hK.of_fields rfl rfl rfl rfl) rfl rfl rfl I.fresh hhost rfl

/-- With no call under way, the invariant of the allocator is that of the machine. -/
theorem SysInv.of_idle {s : Sys} (I : Inv shared s.st s.live) (hidle : ∀ t, s.pc t = .idle) :
    SysInv shared s := by
  refine ⟨I, ?_, ?_, ?_, ?_, ?_, ?_⟩ <;> intro t <;> rw [hidle t]
  · simp [Pending.claims]
  · simp [Pending.claims]
  · simp [Pending.claims]
  · exact trivial
  · simp [Pending.retired]
  · simp [Pending.retired]

/-- The runs of the clients start in the invariant. -/
theorem SysInv.initialised {s : Sys} (h : s.Initialised) : SysInv shared s := by
  obtain ⟨⟨hlive, hpc⟩, st, o, B, hst, -⟩ := h
  refine .of_idle ?_ (fun t => by rw [hpc])
  rw [hlive, hst]
  exact B.inv.init o (fun h => absurd B.initialBreak h)

end MemoryMonitor
