import MemoryMonitor.NestedCalls

/-! # `realloc` between the heap and the arena

A pointer of either kind may be passed to a call of either kind.  `realloc` tells them
apart by the address and by the magic values before it, and copies as many bytes as the
header it believes in says.  Below, what each branch does to the invariants and to the
bytes; and the one kind of pointer whose header is not where `realloc` looks for it.
-/
namespace MemoryMonitor

open ByteMemory

namespace Shim

/-! ## The branches -/

theorem callFree_leave (s : Shim) (o : Oracle) (ptr : Nat) :
    s.leave.callFree o ptr = (s.callFree o ptr).map leave := by
  unfold callFree
  show (MemoryMonitor.myFree s.st o ptr >>= _) = _
  cases MemoryMonitor.myFree s.st o ptr with
  | error e => rfl
  | ok st => rfl

/-- **`free` does not look at `in_allocator`.** -/
theorem free_leave (s : Shim) (o : Oracle) (ptr : Nat) :
    s.leave.free o ptr = (s.free o ptr).map leave := by
  unfold free
  by_cases h0 : ptr = 0
  · rw [if_pos h0, if_pos h0]
    rfl
  rw [if_neg h0, if_neg h0, show s.leave.isBootstrapPtr ptr = s.isBootstrapPtr ptr from rfl,
    show s.leave.isAlignedPtr ptr = s.isAlignedPtr ptr from rfl]
  cases s.isBootstrapPtr ptr with
  | true => rfl
  | false =>
    simp only [Bool.false_eq_true, if_false]
    cases s.isAlignedPtr ptr with
    | error e => rfl
    | ok r =>
      rw [ok_bind, ok_bind]
      cases r with
      | none => exact callFree_leave s o ptr
      | some r =>
        have hbase := fun t : Shim => show t.leave.isBootstrapPtr (r.1 + 48) =
          t.isBootstrapPtr (r.1 + 48) from rfl
        generalize ht : ({ s with st := { s.st with
          mem := writeLE s.st.mem (ptr - 48) 4 0 } } : Shim) = t
        have hl : ({ s.leave with st := { s.leave.st with
          mem := writeLE s.leave.st.mem (ptr - 48) 4 0 } } : Shim) = t.leave := by
          rw [← ht]
          rfl
        simp only [hl, hbase]
        cases t.isBootstrapPtr (r.1 + 48) with
        | true => rfl
        | false => exact callFree_leave t o (r.1 + 48)

/-- `copy_size` in the branch of `realloc` for the bootstrap buffer. -/
def bootstrapCopySize (s : Shim) (ptr size : Nat) : Nat :=
  if readLE s.st.mem (ptr - 16) 8 = bootstrapMagic then min (readLE s.st.mem (ptr - 16 + 8) 8) size
  else 0

theorem bootstrapCopySize_le (s : Shim) (ptr size : Nat) : s.bootstrapCopySize ptr size ≤ size := by
  unfold bootstrapCopySize
  split <;> omega

/-- **What the branch for the bootstrap buffer has done** when it returns. -/
theorem reallocBootstrap_ok {s s' : Shim} {o : Oracle} {ptr size q : Nat} (h0 : size ≠ 0)
    (h : s.reallocBootstrap o ptr size = .ok (q, s')) :
    ∃ s₁, s.malloc o size = .ok (q, s₁) ∧ (q = 0 ∧ s' = s₁ ∨ q ≠ 0 ∧ s' = { s₁ with
      st := { s₁.st with mem := memcpy s₁.st.mem q ptr (s.bootstrapCopySize ptr size) } }) := by
  unfold reallocBootstrap at h
  rw [if_neg h0] at h
  obtain ⟨_, -, h⟩ := bind_ok h
  obtain ⟨⟨p, s₁⟩, hm, h⟩ := bind_ok h
  simp only at h
  by_cases hp : p = 0
  · rw [if_pos hp] at h
    obtain ⟨rfl, rfl⟩ := Prod.mk.inj (Except.ok.inj h)
    rw [hp] at hm
    exact ⟨s₁, hm, Or.inl ⟨rfl, rfl⟩⟩
  · rw [if_neg hp] at h
    obtain ⟨s₂, hc, h⟩ := bind_ok h
    obtain ⟨rfl, rfl⟩ := Prod.mk.inj (Except.ok.inj h)
    exact ⟨s₁, hm, Or.inr ⟨hp, copyOver_ok hc⟩⟩

/-- **What the branch for aligned blocks has done** when it returns. -/
theorem reallocAligned_ok {s s' : Shim} {o : Oracle} {ptr size req q : Nat} (h0 : size ≠ 0)
    (h : s.reallocAligned o ptr size req = .ok (q, s')) :
    ∃ s₁, s.malloc o size = .ok (q, s₁) ∧ (q = 0 ∧ s' = s₁ ∨ q ≠ 0 ∧ ∃ s₂, s₂ = { s₁ with
      st := { s₁.st with mem := memcpy s₁.st.mem q ptr (min req size) } } ∧
      s₂.free o ptr = .ok s') := by
  unfold reallocAligned at h
  rw [if_neg h0] at h
  obtain ⟨⟨p, s₁⟩, hm, h⟩ := bind_ok h
  simp only at h
  by_cases hp : p = 0
  · rw [if_pos hp] at h
    obtain ⟨rfl, rfl⟩ := Prod.mk.inj (Except.ok.inj h)
    rw [hp] at hm
    exact ⟨s₁, hm, Or.inl ⟨rfl, rfl⟩⟩
  · rw [if_neg hp] at h
    obtain ⟨s₂, hc, h⟩ := bind_ok h
    obtain ⟨s₃, hf, h⟩ := bind_ok h
    obtain ⟨rfl, rfl⟩ := Prod.mk.inj (Except.ok.inj h)
    exact ⟨s₁, hm, Or.inr ⟨hp, s₂, copyOver_ok hc, hf⟩⟩

end Shim

namespace NestInv
variable {N : Nesting} {e : Client} {o : Oracle} {size q : Nat} {s' : Shim}

/-! ## A pointer into the arena -/

/-- **`realloc` of a pointer into the buffer keeps the invariants**: whatever it takes for
the header, it copies no more than was asked for. -/
theorem reallocBootstrap (I : NestInv N) (b : Bool)
    (h : b = true → N.shim.bootstrapOffset + bootstrapBufSize < 2 ^ 64) {ptr : Nat}
    (hr : (N.enter b).reallocBootstrap o ptr size = .ok (q, s')) :
    NestInv (N.give b size (q, s')) := by
  by_cases h0 : size = 0
  · rw [Shim.reallocBootstrap, if_pos h0] at hr
    obtain ⟨rfl, rfl⟩ := Prod.mk.inj (Except.ok.inj hr)
    exact I.give_null b size
  obtain ⟨s₁, hm, ⟨rfl, rfl⟩ | ⟨hq, rfl⟩⟩ := Shim.reallocBootstrap_ok h0 hr
  · obtain ⟨p, s₂, hm', hI⟩ := (I.serves b o h).malloc (le_refl size)
    rw [hm] at hm'
    obtain ⟨rfl, rfl⟩ := Prod.mk.inj (Except.ok.inj hm')
    exact hI
  have hc := (N.enter b).bootstrapCopySize_le ptr size
  cases b with
  | false =>
    rw [I.enter_false] at hm hc ⊢
    obtain ⟨p, s₂, hm', G, hlog⟩ := I.heap.malloc o (le_refl size)
    rw [hm] at hm'
    obtain ⟨rfl, rfl⟩ := Prod.mk.inj (Except.ok.inj hm')
    have I₁ := G.inv
    rw [if_neg hq] at I₁ hlog
    have hrec : record s₁.log q size = ⟨q, size, q, false⟩ := by rw [hlog]; rfl
    rw [hrec] at I₁
    obtain ⟨I₂, harena⟩ := I₁.copy ptr (List.mem_cons_self ..) hc
    rw [Nesting.give_false hq, hrec]
    exact I.of_heap I₂ (G.arena.trans harena)
  | true =>
    obtain ⟨rfl, C, hlog⟩ := (I.ready (h rfl)).malloc_ok hm hq
    refine I.give_arena (.plain (C.write s₁.log ?_) hlog (le_refl size))
    exact (overwrite_eqOn _ _ _ _).mono (Set.compl_subset_compl.mpr
      (range_subset (le_refl _) (by omega)))

/-- **A plain chunk is copied as a whole.** -/
theorem reallocBootstrap_contents (I : NestInv N) (b : Bool)
    (h : b = true → N.shim.bootstrapOffset + bootstrapBufSize < 2 ^ 64) (he : e ∈ N.arena)
    (ha : e.aligned = false)
    (hr : (N.enter b).reallocBootstrap o e.ptr size = .ok (q, s')) (hq : q ≠ 0) :
    ∀ i < min e.size size, s'.st.mem (q + i) = N.shim.st.mem (e.ptr + i) := by
  have hin := I.arena.inside e he
  have hptr := hin.plain ha
  have hroom := hin.room
  have hlow := hin.low
  have hhigh := hin.high
  have hbelow := hin.below
  by_cases h0 : size = 0
  · subst h0
    exact fun i hi => by omega
  obtain ⟨s₁, hm, ⟨h0, -⟩ | ⟨-, rfl⟩⟩ := Shim.reallocBootstrap_ok h0 hr
  · exact absurd h0 hq
  have hc : (N.enter b).bootstrapCopySize e.ptr size = min (N.shim.chunkSize e) size := by
    unfold Shim.bootstrapCopySize
    rw [hptr]
    exact if_pos hin.magic
  intro i hi
  have hsame : s₁.st.mem (e.ptr + i) = N.shim.st.mem (e.ptr + i) := by
    cases b with
    | false =>
      rw [I.enter_false] at hm
      obtain ⟨p, s₂, hm', G, -⟩ := I.heap.malloc o (le_refl size)
      rw [hm] at hm'
      obtain ⟨rfl, rfl⟩ := Prod.mk.inj (Except.ok.inj hm')
      exact G.arena.bytes (mem_range.mpr ⟨by omega, by omega⟩)
    | true =>
      obtain ⟨-, C, -⟩ := (I.ready (h rfl)).malloc_ok hm hq
      -- the new chunk lies behind the old one
      refine C.frame ?_
      rw [Set.mem_compl_iff, mem_range]
      show ¬ (N.shim.bootstrapBuf + N.shim.bootstrapOffset ≤ _ ∧ _)
      omega
  rw [hc]
  simp only
  rw [memcpy, overwrite_of_mem ⟨by omega, by omega⟩, Nat.add_sub_cancel_left, hsame]

/-! ## A pointer into the heap -/

/-- **Outside the allocator.** -/
theorem realloc_heap (I : NestInv N) (he : e ∈ N.heap)
    (hr : (N.enter false).realloc o e.ptr size = .ok (q, s')) :
    NestInv ((N.spare e.ptr size q).give false size (q, s')) ∧
      (q ≠ 0 → ∀ i < min e.size size, s'.st.mem (q + i) = N.shim.st.mem (e.ptr + i)) := by
  rw [I.enter_false] at hr
  obtain ⟨p, s₁, hr', T⟩ := I.heap.realloc o he size
  rw [hr] at hr'
  obtain ⟨rfl, rfl⟩ := Prod.mk.inj (Except.ok.inj hr')
  refine ⟨?_, T.contents⟩
  have hI := I.of_heap T.inv T.arena
  unfold resized at hI
  by_cases hq : q = 0
  · subst hq
    rw [if_neg (not_not.mpr rfl)] at hI
    by_cases h0 : size = 0
    · subst h0
      rw [if_pos rfl] at hI
      rw [Nesting.spare_freed, Nesting.give_zero]
      exact hI.forget (List.Sublist.refl _) List.filter_sublist.subset
    · rw [if_neg h0] at hI
      rw [Nesting.spare_failed h0, Nesting.give_zero]
      exact hI
  · rw [if_pos hq] at hI
    rw [Nesting.spare_moved hq, Nesting.give_false hq]
    exact hI.forget (List.Sublist.refl _) List.filter_sublist.subset

/-- The requested bytes of an allocation in the heap are not in the buffer. -/
theorem outside_arena (I : NestInv N) (he : e ∈ N.heap) {i : Nat} (hi : i < e.size) :
    e.ptr + i < N.shim.bootstrapBuf ∨ N.shim.bootstrapBuf + bootstrapBufSize ≤ e.ptr + i := by
  obtain ⟨k, hk, hp⟩ := I.heap.placed e he
  have h1 := hp.base_le
  have h2 := hp.room
  have hb := I.heap.not_bootstrap hk (x := e.ptr + i) (by simp only; omega) (by simp only; omega)
  by_contra hin
  unfold Shim.isBootstrapPtr at hb
  rw [Bool.and_eq_false_iff, decide_eq_false_iff_not, decide_eq_false_iff_not] at hb
  simp only at hb
  omega

/-- **`free` of a pointer into the heap**, nested or not. -/
theorem frees (I : NestInv N) (he : e ∈ N.heap) {s s₁ : Shim} (hs : s.leave = N.shim)
    (hf : s.free o e.ptr = .ok s₁) :
    ShimInv.Frees N.shim (without e.ptr N.heap) e.base s₁.leave := by
  obtain ⟨s₂, hf', F⟩ := I.heap.free o he
  rw [← hs, Shim.free_leave, hf] at hf'
  obtain rfl := Except.ok.inj hf'
  exact F

theorem free_heap (I : NestInv N) (he : e ∈ N.heap) {s s₁ : Shim} (hs : s.leave = N.shim)
    (hf : s.free o e.ptr = .ok s₁) : NestInv ⟨s₁.leave, without e.ptr N.heap, N.arena⟩ := by
  have F := I.frees he hs hf
  exact ⟨F.inv, I.arena.of_same F.arena⟩

/-- **Inside the allocator, an aligned block moves to the arena.** -/
theorem reallocAligned_nested (I : NestInv N) (he : e ∈ N.heap) (ha : e.aligned = true)
    (h : N.shim.bootstrapOffset + bootstrapBufSize < 2 ^ 64)
    (hr : (N.enter true).reallocAligned o e.ptr size
      (Shim.ahRequestedSize N.shim.st.mem (e.ptr - 48)) = .ok (q, s')) :
    NestInv ((N.spare e.ptr size q).give true size (q, s')) ∧
      (q ≠ 0 → ∀ i < min e.size size, s'.st.mem (q + i) = N.shim.st.mem (e.ptr + i)) := by
  by_cases h0 : size = 0
  · rw [Shim.reallocAligned, if_pos h0] at hr
    obtain ⟨s₁, hf, hr⟩ := bind_ok hr
    obtain ⟨rfl, rfl⟩ := Prod.mk.inj (Except.ok.inj hr)
    refine ⟨?_, fun hq => absurd rfl hq⟩
    have hI := I.free_heap he (I.enter_leave true) hf
    rw [h0, Nesting.spare_freed, Nesting.give_zero]
    exact hI.forget (List.Sublist.refl _) List.filter_sublist.subset
  obtain ⟨s₁, hm, ⟨rfl, rfl⟩ | ⟨hp, s₂, hs₂, hf⟩⟩ := Shim.reallocAligned_ok h0 hr
  · refine ⟨?_, fun hq => absurd rfl hq⟩
    obtain ⟨p, s₂, hm', hI⟩ := (I.serves true o fun _ => h).malloc (le_refl size)
    rw [hm] at hm'
    obtain ⟨rfl, rfl⟩ := Prod.mk.inj (Except.ok.inj hm')
    rw [Nesting.spare_failed h0]
    exact hI
  obtain ⟨rfl, C, hlog⟩ := (I.ready h).malloc_ok hm hp
  have C₂ : (N.enter true).Carved size s₂ := by
    rw [hs₂]
    exact C.write s₁.log ((overwrite_eqOn _ _ _ _).mono (Set.compl_subset_compl.mpr
      (range_subset (le_refl _) (by omega))))
  have hlog₂ : s₂.log = N.shim.log := by
    rw [hs₂]
    exact hlog
  -- the client has the chunk, and then gives the old block up
  have I₂ := I.give_arena (.plain C₂ hlog₂ (le_refl size))
  have hfresh₂ : Nesting.fresh N.shim s₂ = [] := fresh_append hlog₂
  rw [Nesting.give_true hp, hfresh₂] at I₂
  have F := I₂.frees he rfl hf
  have I₃ := I₂.free_heap he rfl hf
  have hfresh : Nesting.fresh N.shim s' = [.took e.base] := by
    refine fresh_append ?_
    rw [← hlog₂]
    exact F.log
  refine ⟨?_, fun _ i hi => ?_⟩
  · rw [Nesting.spare_moved hp, Nesting.give_true hp]
    show NestInv ⟨_, _, record (Nesting.fresh N.shim s') _ size :: _⟩
    rw [hfresh]
    exact I₃.forget (List.Sublist.refl _) (List.cons_subset_cons _ List.filter_sublist.subset)
  · obtain ⟨k, hk, hpl⟩ := I.heap.placed e he
    have hreq : e.size ≤ Shim.ahRequestedSize N.shim.st.mem (e.ptr - 48) := (hpl.requested ha).1
    have hfits : N.shim.bootstrapOffset + Shim.chunk size ≤ bootstrapBufSize := C.fits
    have hroom := C.room
    have hout := I.outside_arena he (i := i) (by omega)
    have hbase : (N.enter true).nextBase = N.shim.bootstrapBuf + N.shim.bootstrapOffset + 16 := rfl
    have hbuf : s₂.leave.bootstrapBuf = N.shim.bootstrapBuf := by
      rw [hs₂, C.same]
      rfl
    have h1 : s'.st.mem ((N.enter true).nextBase + i) = s₂.st.mem ((N.enter true).nextBase + i) :=
      F.arena.bytes (mem_range.mpr ⟨by rw [hbuf]; omega, by rw [hbuf]; omega⟩)
    have h2 : s₁.st.mem (e.ptr + i) = N.shim.st.mem (e.ptr + i) := by
      refine C.frame ?_
      rw [Set.mem_compl_iff, mem_range]
      show ¬ (N.shim.bootstrapBuf + N.shim.bootstrapOffset ≤ _ ∧
        _ < N.shim.bootstrapBuf + N.shim.bootstrapOffset + _)
      omega
    rw [h1, hs₂]
    simp only
    rw [memcpy, overwrite_of_mem ⟨by omega, by omega⟩, Nat.add_sub_cancel_left, h2]

/-- **Inside the allocator**: an aligned block moves to the arena, a plain one stays. -/
theorem realloc_nested (I : NestInv N) (he : e ∈ N.heap)
    (h : N.shim.bootstrapOffset + bootstrapBufSize < 2 ^ 64)
    (hr : (N.enter true).realloc o e.ptr size = .ok (q, s')) :
    NestInv ((N.spare e.ptr size q).give true size (q, s')) ∧
      (q ≠ 0 → ∀ i < min e.size size, s'.st.mem (q + i) = N.shim.st.mem (e.ptr + i)) := by
  obtain ⟨k, hk, hp⟩ := I.heap.placed e he
  have hboot : (N.enter true).isBootstrapPtr e.ptr = false :=
    I.heap.not_bootstrap hk hp.base_le hp.inside
  have hal : (N.enter true).isAlignedPtr e.ptr = _ := I.heap.isAlignedPtr he
  unfold Shim.realloc at hr
  rw [if_neg (I.heap.ptr_ne_zero he), hboot, hal] at hr
  simp only [Bool.false_eq_true, if_false, ok_bind] at hr
  cases ha : e.aligned with
  | true =>
    rw [ha] at hr
    exact I.reallocAligned_nested he ha h hr
  | false =>
    rw [ha] at hr
    obtain ⟨rfl, rfl⟩ := Prod.mk.inj (Except.ok.inj hr)
    have hI := (I.spare e.ptr size 0).give_null true size
    rw [spare_enter] at hI
    exact ⟨hI, fun hq => absurd rfl hq⟩

/-! ## Any pointer -/

/-- A pointer into the arena that is not the end of the buffer takes the first branch. -/
theorem realloc_arena (I : NestInv N) (he : e ∈ N.arena) (b : Bool)
    (hend : e.ptr ≠ N.shim.bootstrapBuf + bootstrapBufSize) :
    (N.enter b).realloc o e.ptr size = (N.enter b).reallocBootstrap o e.ptr size := by
  have hboot : (N.enter b).isBootstrapPtr e.ptr = true := I.arena.recognised he hend
  have hlow := (I.arena.inside e he).low
  have hptr := (I.arena.ptr_bounds he).1
  unfold Shim.realloc
  rw [if_neg (by omega), hboot, if_pos rfl]

/-- **`realloc` keeps the invariants.** -/
theorem realloc (I : NestInv N) (b : Bool)
    (h : b = true → N.shim.bootstrapOffset + bootstrapBufSize < 2 ^ 64) {ptr : Nat}
    (hptr : ptr = 0 ∨ ∃ e ∈ N.heap ++ N.arena, e.ptr = ptr)
    (hend : ptr ≠ N.shim.bootstrapBuf + bootstrapBufSize)
    (hr : (N.enter b).realloc o ptr size = .ok (q, s')) :
    NestInv ((N.spare ptr size q).give b size (q, s')) := by
  have J := I.spare ptr size q
  have hJ : b = true → (N.spare ptr size q).shim.bootstrapOffset + bootstrapBufSize < 2 ^ 64 := by
    rw [spare_shim]
    exact h
  rcases hptr with rfl | ⟨e, he, rfl⟩
  · obtain ⟨p, s₁, hm, hI⟩ := (J.serves b o hJ).malloc (le_refl size)
    rw [spare_enter] at hm
    rw [Shim.realloc, if_pos rfl, hm] at hr
    obtain ⟨rfl, rfl⟩ := Prod.mk.inj (Except.ok.inj hr)
    exact hI
  · rcases List.mem_append.mp he with he | he
    · cases b with
      | false => exact (I.realloc_heap he hr).1
      | true => exact (I.realloc_nested he (h rfl) hr).1
    · rw [I.realloc_arena he b hend, ← spare_enter N e.ptr size q b] at hr
      exact J.reallocBootstrap b hJ hr

/-- **`realloc` keeps the contents**, but of an aligned block in the arena. -/
theorem realloc_contents (I : NestInv N) (b : Bool)
    (h : b = true → N.shim.bootstrapOffset + bootstrapBufSize < 2 ^ 64)
    (he : e ∈ N.heap ++ N.arena) (hplain : e ∈ N.arena → e.aligned = true → e.size = 0)
    (hr : (N.enter b).realloc o e.ptr size = .ok (q, s')) (hq : q ≠ 0) :
    ∀ i < min e.size size, s'.st.mem (q + i) = N.shim.st.mem (e.ptr + i) := by
  rcases List.mem_append.mp he with he | he
  · cases b with
    | false => exact (I.realloc_heap he hr).2 hq
    | true => exact (I.realloc_nested he (h rfl) hr).2 hq
  by_cases h0 : e.size = 0
  · intro i hi
    omega
  have ha : e.aligned = false := by
    by_contra ha
    exact h0 (hplain he (by simpa using ha))
  -- a chunk that is not empty does not begin at the end of the buffer
  have hend : e.ptr ≠ N.shim.bootstrapBuf + bootstrapBufSize := by
    have h1 := (I.arena.inside e he).high
    have h2 := (I.arena.inside e he).room
    omega
  rw [I.realloc_arena he b hend] at hr
  exact I.reallocBootstrap_contents b h he ha hr hq

/-! ## Runs -/

/-- `free` as a step. -/
theorem step_free (I : NestInv N) (b : Bool) {ptr : Nat}
    (hptr : ptr = 0 ∨ ∃ e ∈ N.heap ++ N.arena, e.ptr = ptr)
    (hend : ptr ≠ N.shim.bootstrapBuf + bootstrapBufSize)
    (hf : (N.enter b).free o ptr = .ok s') :
    NestInv ⟨s'.leave, without ptr N.heap, without ptr N.arena⟩ := by
  have hsame : s' = N.enter b → NestInv ⟨s'.leave, without ptr N.heap, without ptr N.arena⟩ := by
    rintro rfl
    rw [I.enter_leave]
    exact I.drop ptr
  rcases hptr with rfl | ⟨e, he, rfl⟩
  · rw [Shim.free, if_pos rfl] at hf
    exact hsame (Except.ok.inj hf).symm
  · rcases List.mem_append.mp he with he | he
    · have hI := I.free_heap he (I.enter_leave b) hf
      exact hI.forget (List.Sublist.refl _) List.filter_sublist.subset
    · have hboot : (N.enter b).isBootstrapPtr e.ptr = true := I.arena.recognised he hend
      have hlow := (I.arena.inside e he).low
      have hptr := (I.arena.ptr_bounds he).1
      rw [Shim.free, if_neg (by omega), hboot, if_pos rfl] at hf
      exact hsame (Except.ok.inj hf).symm

/-- A store of the client's as a step. -/
theorem step_store (I : NestInv N) (he : e ∈ N.heap ++ N.arena) {off : Nat} (hoff : off < e.size)
    (v : UInt8) : NestInv ⟨{ N.shim with st := { N.shim.st with
      mem := Function.update N.shim.st.mem (e.ptr + off) v } }, N.heap, N.arena⟩ := by
  rcases List.mem_append.mp he with he | he
  · obtain ⟨H, harena⟩ := I.heap.store he (update_eqOn hoff v)
    exact ⟨H, I.arena.of_same harena⟩
  · have hin := I.arena.inside e he
    have h1 := hin.low
    have h2 := hin.high
    have h3 := hin.room
    have h4 := (I.arena.ptr_bounds he).1
    have hm := update_eqOn (m := N.shim.st.mem) (a := e.ptr) hoff v
    have H := I.heap.of_arena (hm.mono (Set.compl_subset_compl.mpr
      (range_subset (by omega) (by omega)))) N.shim.bootstrapOffset rfl I.heap.routed
    have hidle : N.shim.inAllocator = false := I.heap.idle
    refine ⟨?_, I.arena.write he (hm.mono (Set.compl_subset_compl.mpr
      (range_subset (by omega) (by omega))))⟩
    simp only [hidle] at H ⊢
    exact H

/-- **A step that trusts the arena keeps the invariants.** -/
theorem step (I : NestInv N) {c : ShimCall × Bool × Oracle} (hc : N.Allowed c.1) (ht : N.Trusted c)
    {N' : Nesting} {out : Nat} (hs : N.step c = .ok (N', out)) : NestInv N' := by
  obtain ⟨c, b, o⟩ := c
  obtain ⟨hend, hoff⟩ := ht
  have hres : ∀ {ptr size : Nat}, (ptr = 0 ∨ ∃ e ∈ N.heap ++ N.arena, e.ptr = ptr) →
      ptr ≠ N.shim.bootstrapBuf + bootstrapBufSize → N.resize b o ptr size = .ok (N', out) →
      NestInv N' := by
    intro ptr size hptr hend hs
    obtain ⟨⟨q, s'⟩, hr, hs⟩ := bind_ok hs
    obtain ⟨rfl, rfl⟩ := Prod.mk.inj (Except.ok.inj hs)
    exact I.realloc b hoff hptr hend hr
  have hgive : ∀ {n : Nat} {f : Except Fault (Nat × Shim)},
      (∃ p s', f = .ok (p, s') ∧ NestInv (N.give b n (p, s'))) →
      (do let r ← f; .ok (N.give b n r, r.1)) = Except.ok (N', out) → NestInv N' := by
    rintro n f ⟨p, s', rfl, hI⟩ hs
    obtain ⟨rfl, -⟩ := Prod.mk.inj (Except.ok.inj hs)
    exact hI
  have S := I.serves b o hoff
  cases c with
  | malloc size => exact hgive (S.malloc (le_refl size)) hs
  | calloc nmemb size => exact hgive (I.calloc b o hoff nmemb size) hs
  | posixMemalign alignment size => exact hgive (S.posixMemalign hc (le_refl size)) hs
  | alignedAlloc alignment size => exact hgive (S.alignedAlloc size hc) hs
  | memalign alignment size => exact hgive (S.memalign size hc) hs
  | valloc sysconf size => exact hgive (S.valloc size hc) hs
  | pvalloc sysconf size => exact hgive (S.pvalloc size hc) hs
  | realloc ptr size => exact hres hc hend hs
  | reallocarray ptr nmemb size =>
    rw [Nesting.step] at hs
    by_cases hover : nmemb ≠ 0 ∧ (2 ^ 64 - 1) / nmemb < size
    · have hr : (N.enter b).reallocarray o ptr nmemb size = .ok (0, N.enter b) := if_pos hover
      rw [if_pos hover, hr] at hs
      obtain ⟨rfl, -⟩ := Prod.mk.inj (Except.ok.inj hs)
      exact I.give_null b 0
    · rw [if_neg hover] at hs
      exact hres hc hend hs
  | free ptr =>
    obtain ⟨s', hf, hs⟩ := bind_ok hs
    obtain ⟨rfl, -⟩ := Prod.mk.inj (Except.ok.inj hs)
    exact I.step_free b hc hend hf
  | store ptr off v =>
    obtain ⟨e, he, rfl, hlt⟩ := hc
    obtain ⟨rfl, -⟩ := Prod.mk.inj (Except.ok.inj hs)
    exact I.step_store he hlt v

theorem of_reach (h : (nesting.restrict Nesting.Trusted).Reach Nesting.Started N) : NestInv N := by
  refine h.invariant (fun _ => .started) fun N c N' out I hc hs => ?_
  exact I.step hc.1 hc.2 hs

end NestInv

/-- **`realloc` keeps the contents of every kind of pointer but one.**  In every state of
every run of the entry points, nested and not, whose steps trust the arena, and for every
live pointer that is not an aligned block in the arena: when a `realloc` of it, nested or
not, returns a block, the bytes that both requests ask for are the same as they were. -/
theorem shim_realloc_contents {N N' : Nesting}
    (h : (nesting.restrict Nesting.Trusted).Reach Nesting.Started N) {e : Client}
    (he : e ∈ N.heap ++ N.arena) (hplain : e ∈ N.arena → e.aligned = true → e.size = 0)
    {n q : Nat} {b : Bool} {o : Oracle} (ht : N.Trusted (.realloc e.ptr n, b, o))
    (hs : nesting.step N (.realloc e.ptr n, b, o) = .ok (N', q)) (hq : q ≠ 0) :
    ∀ i < min e.size n, N'.shim.st.mem (q + i) = N.shim.st.mem (e.ptr + i) := by
  have I := NestInv.of_reach h
  obtain ⟨⟨q', s'⟩, hr, hs⟩ := bind_ok hs
  obtain ⟨rfl, rfl⟩ := Prod.mk.inj (Except.ok.inj hs)
  have hmem : ((N.spare e.ptr n q').give b n (q', s')).shim.st.mem = s'.st.mem := by
    unfold Nesting.give
    split
    · rfl
    · split <;> rfl
  rw [hmem]
  exact I.realloc_contents b ht.2 he hplain hr hq

/-- A process whose static data lies below its heap, with both kinds of calls. -/
def nestedProcess : Nesting := ⟨preloadedProcess.shim, [], []⟩

theorem nestedProcess_started : nestedProcess.Started :=
  ⟨preloadedProcess_started, rfl, rfl⟩

/-- A nested `malloc(100)` and a store into it; then `realloc` moves it to the heap. -/
theorem shim_realloc_contents_moved :
    ∃ N N', (nesting.restrict Nesting.Trusted).Reach Nesting.Started N ∧
      nesting.step N (.realloc 1048592 200, false, {}) = .ok (N', 2097200) ∧
      N.shim.st.mem 1048592 = 7 ∧ N'.shim.st.mem 2097200 = 7 := by
  have hrun : ((nesting.step nestedProcess (.malloc 100, true, {})).toOption.bind fun r₁ =>
      (nesting.step r₁.1 (.store 1048592 0 7, false, {})).toOption.bind fun r₂ =>
        (nesting.step r₂.1 (.realloc 1048592 200, false, {})).toOption.bind fun r₃ =>
          some (r₁.1.arena, r₁.1.shim.bootstrapBuf, r₂.1.arena, r₂.1.shim.bootstrapBuf,
            r₂.1.shim.st.mem 1048592, r₃.2)) =
      some ([⟨1048592, 100, 1048592, false⟩], 1048576, [⟨1048592, 100, 1048592, false⟩], 1048576,
        7, 2097200) := by
    decide +kernel
  obtain ⟨⟨N₁, p⟩, h₁, hrun⟩ := Runs.ok_of_bind hrun
  obtain ⟨⟨N₂, out⟩, h₂, hrun⟩ := Runs.ok_of_bind hrun
  obtain ⟨⟨N₃, q⟩, h₃, hrun⟩ := Runs.ok_of_bind hrun
  simp only [Option.some.injEq, Prod.mk.injEq] at hrun
  obtain ⟨harena₁, hbuf₁, harena₂, hbuf₂, hbyte, rfl⟩ := hrun
  have hmem₁ : (⟨1048592, 100, 1048592, false⟩ : Client) ∈ N₁.heap ++ N₁.arena := by
    rw [harena₁]
    simp
  have hmem₂ : (⟨1048592, 100, 1048592, false⟩ : Client) ∈ N₂.heap ++ N₂.arena := by
    rw [harena₂]
    simp
  have hreach : (nesting.restrict Nesting.Trusted).Reach Nesting.Started N₂ := by
    have hstart : (nesting.restrict Nesting.Trusted).allowed nestedProcess (.malloc 100, true, {}) :=
      ⟨trivial, by decide, fun _ => by decide⟩
    have hstore : (nesting.restrict Nesting.Trusted).allowed N₁ (.store 1048592 0 7, false, {}) := by
      refine ⟨⟨_, hmem₁, rfl, by decide⟩, ?_, fun h => absurd h (by decide)⟩
      rw [hbuf₁]
      decide
    exact .next (.next (.start nestedProcess_started) hstart h₁) hstore h₂
  refine ⟨N₂, N₃, hreach, h₃, hbyte, ?_⟩
  have hkept := shim_realloc_contents hreach hmem₂ (fun _ h => absurd h (by decide))
    ⟨by rw [hbuf₂]; decide, fun h => absurd h (by decide)⟩ h₃ (by decide) 0 (by decide)
  exact hkept.trans hbyte

/-- **An aligned block in the arena is lost**: after a nested `posix_memalign(64, 100)` and
a store into it, `realloc` looks for the bootstrap header right before the pointer, finds
none there and copies nothing. -/
theorem shim_realloc_contents_lost :
    ∃ N N', nesting.Reach Nesting.Started N ∧
      (⟨1048640, 100, 1048592, true⟩ : Client) ∈ N.heap ++ N.arena ∧
      nesting.step N (.realloc 1048640 100, false, {}) = .ok (N', 2097200) ∧
      ¬ ∀ i < min 100 100, N'.shim.st.mem (2097200 + i) = N.shim.st.mem (1048640 + i) := by
  have hrun : ((nesting.step nestedProcess (.posixMemalign 64 100, true, {})).toOption.bind fun r₁ =>
      (nesting.step r₁.1 (.store 1048640 0 7, false, {})).toOption.bind fun r₂ =>
        (nesting.step r₂.1 (.realloc 1048640 100, false, {})).toOption.bind fun r₃ =>
          some (r₁.1.arena, r₂.1.arena, r₂.1.shim.st.mem 1048640, r₃.1.shim.st.mem 2097200, r₃.2)) =
      some ([⟨1048640, 100, 1048592, true⟩], [⟨1048640, 100, 1048592, true⟩], 7, 0, 2097200) := by
    decide +kernel
  obtain ⟨⟨N₁, p⟩, h₁, hrun⟩ := Runs.ok_of_bind hrun
  obtain ⟨⟨N₂, out⟩, h₂, hrun⟩ := Runs.ok_of_bind hrun
  obtain ⟨⟨N₃, q⟩, h₃, hrun⟩ := Runs.ok_of_bind hrun
  simp only [Option.some.injEq, Prod.mk.injEq] at hrun
  obtain ⟨harena₁, harena₂, hbyte, hlost, rfl⟩ := hrun
  have hreach : nesting.Reach Nesting.Started N₂ := by
    refine .next (.next (.start nestedProcess_started) ?_ h₁) ?_ h₂
    · exact show 64 < 2 ^ 64 by decide
    · refine ⟨⟨1048640, 100, 1048592, true⟩, ?_, rfl, by decide⟩
      rw [harena₁]
      simp
  refine ⟨N₂, N₃, hreach, ?_, h₃, fun hall => ?_⟩
  · rw [harena₂]
    simp
  · have h0 := hall 0 (by decide)
    rw [Nat.add_zero, Nat.add_zero, hbyte, hlost] at h0
    exact absurd h0 (by decide)

end MemoryMonitor
