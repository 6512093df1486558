import MemoryMonitor.ClientContract

/-! # What a step does to the allocator

A step of a client is at most one critical section of the allocator, a store into an
allocation, or an `munmap`.  `Effect` is that list, with what the live allocations are
afterwards, and `SysInv.effect` reads it off the step.

In the clients' runs the heap is moreover `Tidy`: no two free blocks are neighbours, and
every used block belongs to a live allocation.  Neither follows from the representation:
`my_free` has to find every free neighbour, and a split or a resize must not leave a free
block in front of another one.
-/
namespace MemoryMonitor

open ByteMemory Tiling Coalescing

/-- **What a step of a client may do** to the state and to the live allocations. -/
inductive Effect (s : State) (live : List Alloc) : State → List Alloc → Prop
  | same : Effect s live s live
  | malloc {o : Oracle} {size p : Nat} {s' : State} (h : myMalloc s o size = .ok (p, s')) :
      Effect s live s' (gain p size live)
  | free {e : Alloc} {out : Option Mapping} {s' : State} (he : e ∈ live)
      (h : myFreeLocked s e.ptr = .ok (out, s')) : Effect s live s' (forget e.ptr live)
  | resize {e : Alloc} {o : Oracle} {size p : Nat} {s' : State} (he : e ∈ live) (h0 : size ≠ 0)
      (hmax : size ≤ maxAllowed) (h : myReallocLocked s o e.ptr size = .ok (.done p, s')) :
      Effect s live s' (⟨p, size⟩ :: forget e.ptr live)
  | write {e : Alloc} {m : Mem} (he : e ∈ live) (hm : Set.EqOn m s.mem e.payloadᶜ) :
      Effect s live { s with mem := m } live
  | unmap {o : Oracle} {addr : Nat} (h : ∀ e ∈ live, e.ptr ≠ addr + 48) :
      Effect s live (s.munmap o addr) live

/-! ## Inversion of a step -/

namespace SysInv
variable {shared : Prop} {s : Sys} {t : Nat} {r : Sys × Return}

theorem forget_zero (I : SysInv shared s) : forget 0 s.live = s.live := by
  refine List.filter_eq_self.mpr fun e he => ?_
  rw [decide_eq_true_eq]
  exact I.inv.ptr_ne_zero he

theorem callFree_effect (I : SysInv shared s) {c : Call} {ptr ret : Nat}
    (hptr : ptr = 0 ∨ ∃ e ∈ s.live, e.ptr = ptr) (h : s.callFree t c ptr ret = .ok r) :
    Effect s.st s.live r.1.st r.1.live := by
  obtain ⟨⟨out, st⟩, hf, h⟩ := bind_ok h
  have hr : r.1.st = st ∧ r.1.live = forget ptr s.live := by
    cases out <;> cases h <;> exact ⟨rfl, rfl⟩
  rw [hr.1, hr.2]
  rcases hptr with rfl | ⟨e, he, rfl⟩
  · rw [I.forget_zero]
    obtain ⟨-, rfl⟩ := Prod.mk.inj (Except.ok.inj hf)
    exact .same
  · exact .free he hf

theorem callRealloc_effect (I : SysInv shared s) {ptr size : Nat} {o : Oracle}
    (hptr : ptr = 0 ∨ ∃ e ∈ s.live, e.ptr = ptr) (h : s.callRealloc t ptr size o = .ok r) :
    Effect s.st s.live r.1.st r.1.live := by
  unfold Sys.callRealloc at h
  by_cases hp : ptr = 0
  · rw [if_pos hp] at h
    obtain ⟨⟨p, st⟩, hm, h⟩ := bind_ok h
    cases h
    exact .malloc hm
  rw [if_neg hp] at h
  by_cases h0 : size = 0
  · rw [if_pos h0] at h
    exact I.callFree_effect hptr h
  rw [if_neg h0] at h
  by_cases hmax : maxAllowed < size
  · rw [if_pos hmax] at h
    cases h
    exact .same
  rw [if_neg hmax] at h
  obtain ⟨e, he, rfl⟩ := hptr.resolve_left hp
  obtain ⟨⟨out, st⟩, hl, h⟩ := bind_ok h
  cases out with
  | done p =>
    cases h
    exact .resize he h0 (by omega) hl
  | relocate old =>
    cases h
    rw [Sys.suspend, (I.inv.relocated he h0 (by omega) hl).2]
    exact .same

theorem callCalloc_effect {nmemb size : Nat} {o : Oracle} (h : s.callCalloc t nmemb size o = .ok r) :
    Effect s.st s.live r.1.st r.1.live := by
  unfold Sys.callCalloc at h
  split at h
  · cases h
    exact .same
  split at h
  · cases h
    exact .same
  obtain ⟨⟨p, st⟩, hm, h⟩ := bind_ok h
  have hg : Effect s.st s.live st _ := .malloc hm
  simp only at h
  split at h
  · rename_i hp
    cases h
    rw [gain_of_ne hp] at hg
    exact hg
  · rename_i hp
    cases h
    rw [not_not.mp hp, gain_zero] at hg
    exact hg

theorem resume_effect (I : SysInv shared s) {o : Oracle} (h : s.resume t o = .ok r) :
    Effect s.st s.live r.1.st r.1.live := by
  unfold Sys.resume at h
  cases hpc : s.pc t with
  | idle =>
    rw [hpc] at h
    cases h
    exact .same
  | clear nmemb size ptr =>
    simp only [hpc] at h
    obtain ⟨_, -, h⟩ := bind_ok h
    cases h
    have he : (⟨ptr, nmemb * size % 2 ^ 64⟩ : Alloc) ∈ s.live :=
      I.claims t _ (by rw [hpc]; exact List.mem_cons_self ..)
    exact .write he (overwrite_eqOn ..)
  | relocate ptr size old =>
    simp only [hpc] at h
    obtain ⟨⟨p, st⟩, hm, h⟩ := bind_ok h
    have hg : Effect s.st s.live st _ := .malloc hm
    simp only at h
    split at h
    · rename_i hp
      cases h
      rw [hp, gain_zero] at hg
      exact hg
    · rename_i hp
      cases h
      rw [gain_of_ne hp] at hg
      exact hg
  | copy ptr size old newPtr =>
    simp only [hpc] at h
    obtain ⟨_, -, h⟩ := bind_ok h
    obtain ⟨_, -, h⟩ := bind_ok h
    cases h
    have he : (⟨newPtr, size⟩ : Alloc) ∈ s.live :=
      I.claims t _ (by rw [hpc]; exact List.mem_cons_of_mem _ (List.mem_cons_self ..))
    refine .write he ((overwrite_eqOn ..).mono (Set.compl_subset_compl.mpr ?_))
    exact range_subset (le_refl _) (by simp only; omega)
  | release ptr size old newPtr =>
    simp only [hpc] at h
    have he : (⟨ptr, old⟩ : Alloc) ∈ s.live :=
      I.claims t _ (by rw [hpc]; exact List.mem_cons_self ..)
    exact I.callFree_effect (Or.inr ⟨_, he, rfl⟩) h
  | unmap mp c ret =>
    simp only [hpc] at h
    cases h
    exact .unmap (I.retired t mp (by rw [hpc]; rfl)).2

/-- **Every step of a client is one of the effects.** -/
theorem effect (I : SysInv shared s) {l : Label} (hl : s.ClientMay l) (h : s.step l = .ok r) :
    Effect s.st s.live r.1.st r.1.live := by
  cases l with
  | call t c o =>
    have hptr : c.operand = 0 ∨ ∃ e ∈ s.live, e.ptr = c.operand := hl.2.imp_right And.left
    cases c with
    | malloc size =>
      obtain ⟨⟨p, st⟩, hm, h⟩ := bind_ok h
      cases h
      exact .malloc hm
    | calloc nmemb size => exact callCalloc_effect h
    | free ptr => exact I.callFree_effect hptr h
    | realloc ptr size => exact I.callRealloc_effect hptr h
  | resume t o => exact I.resume_effect h
  | store ptr off b =>
    obtain ⟨e, he, rfl, hoff⟩ := hl
    cases h
    refine .write he fun x hx => Function.update_of_ne ?_ _ _
    rintro rfl
    exact hx (mem_range.mpr ⟨by omega, by omega⟩)
  | init o => exact absurd hl id
  | destroy o => exact absurd hl id
  | hostSbrk n o => exact absurd hl id
  | hostStore x b => exact absurd hl id

end SysInv

/-! ## Tidy heaps -/

/-- **No two free blocks are neighbours, and every used block is somebody's.** -/
structure Tidy (s : State) (live : List Alloc) (lo : Nat) (segs : List Seg)
    (lists : Fin 8 → List Nat) : Prop extends Heap False s live lo segs lists where
  spaced : Spaced (· = .free) segs
  owned : ∀ g ∈ segs, g.kind = .used → ∃ e ∈ live, e.ptr = g.addr + 48

namespace Tidy
variable {s s' : State} {live live' : List Alloc} {e : Alloc} {lo a n : Nat} {segs : List Seg}
variable {lists : Fin 8 → List Nat}

/-- What `my_malloc` returns is the only new block. -/
theorem myMalloc (T : Tidy s live lo segs lists) {o : Oracle} {size p : Nat}
    (h : myMalloc s o size = .ok (p, s')) :
    ∃ lo' segs' lists', Tidy s' (gain p size live) lo' segs' lists' := by
  obtain ⟨p', st, hr, R⟩ := T.toHeap.myMalloc_blocks o size
  rw [hr] at h
  obtain ⟨rfl, rfl⟩ := Prod.mk.inj (Except.ok.inj h)
  obtain ⟨lo', segs', lists', H, hsp⟩ := R.blocks
  refine ⟨lo', segs', lists', H, hsp.spaced T.spaced, fun g hg hk => ?_⟩
  rcases hsp.used g hg hk with hg | hp
  · obtain ⟨e, he, hptr⟩ := T.owned g hg hk
    refine ⟨e, ?_, hptr⟩
    unfold gain
    split
    · exact he
    · exact List.mem_cons_of_mem _ he
  · refine ⟨⟨p', size⟩, ?_, hp⟩
    rw [gain_of_ne (by omega)]
    exact List.mem_cons_self ..

/-- The owners of the used blocks, without the owner of the block at `a`. -/
theorem owned_rest (T : Tidy s live lo segs lists) (hptr : e.ptr = a + 48) {g : Seg}
    (hg : g ∈ segs) (hk : g.kind = .used) (hne : g.addr ≠ a) :
    ∃ e' ∈ forget e.ptr live, e'.ptr = g.addr + 48 := by
  obtain ⟨e', he', hptr'⟩ := T.owned g hg hk
  exact ⟨e', mem_forget.mpr ⟨he', by omega⟩, hptr'⟩

/-- **`my_free` of a block of the heap** joins the block with the free blocks around it. -/
theorem freeHeap {pre post : List Seg} (T : Tidy s live lo (pre ++ ⟨a, n, .used⟩ :: post) lists)
    (he : e ∈ live) (h : Held s (pre ++ ⟨a, n, .used⟩ :: post) e a n 0) :
    ∃ s' lists', myFreeLocked s e.ptr = .ok (none, s') ∧ s'.stats = s.stats.free e.size ∧
      Tidy s' (forget e.ptr live) lo (merge (· = .free) (pre ++ ⟨a, n, .free⟩ :: post)) lists' := by
  obtain ⟨s', segs', lists', hr, H, -, -, -, hst, hsegs⟩ :=
    (T.toHeap.perm (perm_forget T.nodup he)).freeHeap h
  obtain rfl := hsegs T.spaced
  refine ⟨s', lists', hr, hst, H, spaced_merge _, fun g hg hk => ?_⟩
  have hg := mem_of_mem_merge hg (by rw [hk]; simp)
  rcases T.rep.tiles.mem_set.mp hg with rfl | ⟨hg, hne⟩
  · cases hk
  · exact T.owned_rest h.ptr_eq hg hk hne

/-- `my_free` of a mapped block leaves the heap alone. -/
theorem freeMapped (T : Tidy s live lo segs lists) (he : e ∈ live) (h : Held s segs e a n 1) :
    myFreeLocked s e.ptr = .ok (some ⟨a, n⟩, { s with stats := s.stats.free e.size }) ∧
      Tidy { s with stats := s.stats.free e.size } (forget e.ptr live) lo segs lists := by
  obtain ⟨hr, H⟩ := (T.toHeap.perm (perm_forget T.nodup he)).freeMapped h
  refine ⟨hr, H, T.spaced, fun g hg hk => T.owned_rest h.ptr_eq hg hk fun ha => ?_⟩
  have hb := T.held_bounds h
  have hgb := T.rep.tiles.bounds hg
  have hfl := T.rep.floor
  omega

theorem myFreeLocked (T : Tidy s live lo segs lists) (he : e ∈ live) {out : Option Mapping}
    (h : myFreeLocked s e.ptr = .ok (out, s')) :
    ∃ segs' lists', Tidy s' (forget e.ptr live) lo segs' lists' := by
  obtain ⟨a, n, t, hh⟩ := T.held e he
  rcases hh.place with ⟨rfl, hg⟩ | ⟨rfl, -, -⟩
  · obtain ⟨pre, post, rfl⟩ := List.append_of_mem hg
    obtain ⟨st, lists', hr, -, T'⟩ := T.freeHeap he hh
    rw [hr] at h
    obtain ⟨-, rfl⟩ := Prod.mk.inj (Except.ok.inj h)
    exact ⟨_, lists', T'⟩
  · obtain ⟨hr, T'⟩ := T.freeMapped he hh
    rw [hr] at h
    obtain ⟨-, rfl⟩ := Prod.mk.inj (Except.ok.inj h)
    exact ⟨_, lists, T'⟩

/-- A block that is resized where it is, or a mapping that is moved. -/
theorem myReallocLocked (T : Tidy s live lo segs lists) (he : e ∈ live) {o : Oracle} {size p : Nat}
    (h0 : size ≠ 0) (hmax : size ≤ maxAllowed)
    (h : myReallocLocked s o e.ptr size = .ok (.done p, s')) :
    ∃ lo' segs' lists', Tidy s' (⟨p, size⟩ :: forget e.ptr live) lo' segs' lists' := by
  obtain ⟨out, st, hr, R⟩ :=
    (T.toHeap.perm (perm_forget T.nodup he)).myReallocLocked_blocks o h0 hmax
  rw [hr] at h
  obtain ⟨rfl, rfl⟩ := Prod.mk.inj (Except.ok.inj h)
  obtain ⟨lo', segs', lists', H, hsp, hold⟩ := R.blocks p rfl
  refine ⟨lo', segs', lists', H, hsp.spaced T.spaced, fun g hg hk => ?_⟩
  rcases hsp.used g hg hk with hg' | hp
  · obtain ⟨e', he', hptr⟩ := T.owned g hg' hk
    by_cases hee : e'.ptr = e.ptr
    · exact ⟨⟨p, size⟩, List.mem_cons_self .., by have := hold g hg hk; simp only; omega⟩
    · exact ⟨e', List.mem_cons_of_mem _ (mem_forget.mpr ⟨he', hee⟩), hptr⟩
  · exact ⟨⟨p, size⟩, List.mem_cons_self .., hp⟩

/-- **Every effect leaves the heap tidy.** -/
theorem effect (T : Tidy s live lo segs lists) (h : Effect s live s' live') :
    ∃ lo' segs' lists', Tidy s' live' lo' segs' lists' := by
  cases h with
  | same => exact ⟨lo, segs, lists, T⟩
  | malloc h => exact T.myMalloc h
  | free he h => exact ⟨lo, T.myFreeLocked he h⟩
  | resize he h0 hmax h => exact T.myReallocLocked he h0 hmax h
  | write he hm => exact ⟨lo, segs, lists, (T.toHeap.write_payload he hm).1, T.spaced, T.owned⟩
  | unmap h => exact ⟨lo, segs, lists, T.toHeap.munmap _ h, T.spaced, T.owned⟩

/-- A heap that begins at the break is empty. -/
theorem of_empty (I : Inv False s live) (hst : s.heapStart ≠ 0) (hbrk : s.heapStart = s.brk) :
    ∃ lo segs lists, Tidy s live lo segs lists := by
  obtain ⟨lo, segs, lists, H⟩ := I
  have hlen := H.rep.tiles.length
  have hnil : segs = [] := by
    rcases H.rep.start with h | ⟨h, -⟩
    · exact List.eq_nil_of_length_eq_zero (by omega)
    · exact absurd h hst
  subst hnil
  exact ⟨lo, [], lists, H, List.isChain_nil, fun g hg => absurd hg List.not_mem_nil⟩

theorem allocatorInit_stats (st : State) (o : Oracle) : (allocatorInit st o).stats = {} := by
  unfold allocatorInit
  simp only
  cases he : ensureBreakAligned (freeListReset { st with stats := {} }) o with
  | mk ok s₁ =>
    have hst := (ensureBreakAligned_frame he).2.2
    cases ok with
    | false => exact hst
    | true =>
      simp only
      split <;> exact hst

/-- **In every state of a run of the clients the heap is tidy.** -/
theorem of_reach {s : Sys} (h : clients.Reach Sys.Initialised s) :
    ∃ lo segs lists, Tidy s.st s.live lo segs lists := by
  refine (h.invariant (P := fun s => ClientInv s ∧ ∃ lo segs lists, Tidy s.st s.live lo segs lists)
    ?_ ?_).2
  · intro s h0
    have C := ClientInv.initialised h0
    refine ⟨C, of_empty C.sys.inv C.begun ?_⟩
    obtain ⟨-, st, o, B, hst, -⟩ := h0
    have hsz := C.sized
    have h0 : s.st.stats.currentHeapSize = 0 := by
      rw [hst, allocatorInit_stats]
    omega
  · intro s l s' out ⟨C, lo, segs, lists, T⟩ hl hs
    exact ⟨C.step hl hs, T.effect (C.sys.effect hl hs)⟩

end Tidy

end MemoryMonitor
