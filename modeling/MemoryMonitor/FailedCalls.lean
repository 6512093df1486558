import MemoryMonitor.BestFit

/-! # Requests that fail

A request fails when it is too large, when a product overflows, or when the kernel
refuses: before anything was stored, after the search of the free lists, after an
`mremap` that was refused, or inside the `my_malloc` of a relocation.  In the clients'
runs nothing has changed by then, because the heap has begun and the break is aligned,
so that `my_malloc` has nothing to prepare before it asks for space.

The sizes themselves are computed without wrap-around: a request that passes the entry
check leaves room for its header and footer, and what a split adds to it is compared
with the size of blocks that lie in the address space.
-/
namespace MemoryMonitor

open ByteMemory Tiling LinkedChain

namespace ClientInv
variable {s : Sys} {st : State} {o : Oracle}

theorem mmapAlloc_null {size total : Nat} (h : mmapAlloc s.st o size total = .ok (0, st)) :
    st = s.st := by
  unfold mmapAlloc at h
  split at h
  · cases h
    rfl
  · obtain ⟨_, -, h⟩ := bind_ok h
    have h0 := (Prod.mk.inj (Except.ok.inj h)).1
    omega

/-- **`my_malloc` that returns `NULL` has changed nothing.** -/
theorem myMalloc_null (C : ClientInv s) {size : Nat} (h : myMalloc s.st o size = .ok (0, st)) :
    st = s.st := by
  unfold myMalloc at h
  split at h
  · cases h
    rfl
  split at h
  · cases h
    rfl
  simp only at h
  split at h
  · exact mmapAlloc_null h
  obtain ⟨⟨block, s₁⟩, hf, h⟩ := bind_ok h
  obtain ⟨-, hsame⟩ := findFitFrom_quiet hf
  simp only at h
  split at h
  · -- nothing was found: the heap had to be extended
    obtain rfl := hsame ‹_›
    split at h
    · rename_i hb
      cases h
      exact C.extendHeap_null (Prod.ext hb rfl)
    · have h0 := (Prod.mk.inj (Except.ok.inj h)).1
      omega
  · obtain ⟨s₂, -, h⟩ := bind_ok h
    have h0 := (Prod.mk.inj (Except.ok.inj h)).1
    omega

theorem myCalloc_null (C : ClientInv s) {nmemb size : Nat}
    (h : myCalloc s.st o nmemb size = .ok (0, st)) : st = s.st := by
  unfold myCalloc at h
  split at h
  · cases h
    rfl
  split at h
  · cases h
    rfl
  obtain ⟨⟨p, s₁⟩, hm, h⟩ := bind_ok h
  simp only at h
  split at h
  · obtain ⟨_, -, h⟩ := bind_ok h
    exact absurd (Prod.mk.inj (Except.ok.inj h)).1 ‹_›
  · obtain ⟨rfl, rfl⟩ := Prod.mk.inj (Except.ok.inj h)
    exact C.myMalloc_null hm

/-- **`my_realloc` that returns `NULL` has changed nothing**, when a size was asked for. -/
theorem myRealloc_null (C : ClientInv s) {ptr size : Nat} (hptr : ptr = 0 ∨ ∃ e ∈ s.live, e.ptr = ptr)
    (hsize : size ≠ 0) (h : myRealloc s.st o ptr size = .ok (0, st)) : st = s.st := by
  unfold myRealloc at h
  by_cases h0 : ptr = 0
  · rw [if_pos h0] at h
    exact C.myMalloc_null h
  obtain ⟨e, he, rfl⟩ := hptr.resolve_left h0
  rw [if_neg h0, if_neg hsize] at h
  by_cases hmax : maxAllowed < size
  · rw [if_pos hmax] at h
    cases h
    rfl
  rw [if_neg hmax] at h
  obtain ⟨⟨out, s₁⟩, hr, h⟩ := bind_ok h
  cases out with
  | done p =>
    obtain ⟨lo, segs, lists, I⟩ := C.sys.inv.perm (perm_forget C.sys.inv.nodup he)
    obtain ⟨out, st', hr', R⟩ := I.myReallocLocked o hsize (by omega)
    rw [hr'] at hr
    obtain ⟨rfl, rfl⟩ := Prod.mk.inj (Except.ok.inj hr)
    exact absurd (Prod.mk.inj (Except.ok.inj h)).1 (R.done p rfl).1
  | relocate old =>
    obtain ⟨-, rfl⟩ := C.sys.inv.relocated he hsize (by omega) hr
    obtain ⟨⟨newPtr, s₂⟩, hm, h⟩ := bind_ok h
    simp only at h
    split at h
    · rename_i hnew
      cases h
      rw [hnew] at hm
      exact C.myMalloc_null hm
    · obtain ⟨_, -, h⟩ := bind_ok h
      obtain ⟨_, -, h⟩ := bind_ok h
      obtain ⟨_, -, h⟩ := bind_ok h
      exact absurd (Prod.mk.inj (Except.ok.inj h)).1 ‹_›

end ClientInv

/-! ## Sizes -/

/-- `ALIGN` of an admitted request, and the header and footer added to it. -/
theorem totalSize_no_wrap {size : Nat} (h : size ≤ maxAllowed) :
    align size = (size + 15) / 16 * 16 ∧ addSize 48 (align size) = 48 + align size ∧
      totalSize size = 48 + align size + 16 := by
  have hspec := totalSize_spec h
  unfold maxAllowed at h
  have hal : align size = (size + 15) / 16 * 16 := by
    unfold align
    rw [addSize_of_lt (by omega)]
  refine ⟨hal, addSize_of_lt (by omega), ?_⟩
  omega

/-- The blocks of a heap without gaps end below the last page of the address space. -/
theorem Heap.block_end {s : State} {live : List Alloc} {lo : Nat} {segs : List Seg}
    {lists : Fin 8 → List Nat} (I : Heap False s live lo segs lists) {b : Nat}
    (hb : b ∈ segs.map Span.addr) : b + blockSize s.mem b ≤ addrLimit := by
  obtain ⟨g, hg, rfl⟩ := List.mem_map.mp hb
  obtain ⟨f, hF, -, -⟩ := I.rep.span_cases hg (I.settled g hg) (fun hk => I.gapped g hg hk)
  have h1 := I.rep.tiles.bounds hg
  have h2 := I.rep.limit
  rw [hF.size_eq]
  omega

/-- **Failed requests are atomic.**  In every state of every run of the clients, and
whatever the kernel refuses, `my_malloc`, `my_calloc` and `my_realloc` that return `NULL`
for a request of at least one byte leave the whole state as it was: bytes, lists, break,
mappings and counters.  So does the part of `my_realloc` before a relocation, which may
be interrupted there.  And no size is computed with wrap-around: not the product in
`my_calloc`, not the block of an admitted request, not the room a split needs in a block,
or in a block and the one behind it. -/
theorem failed_request_atomic {s : Sys} (h : clients.Reach Sys.Initialised s) :
    (∀ o size st, 1 ≤ size → myMalloc s.st o size = .ok (0, st) → st = s.st) ∧
    (∀ o nmemb size st, 1 ≤ nmemb → 1 ≤ size → myCalloc s.st o nmemb size = .ok (0, st) →
      st = s.st) ∧
    (∀ o ptr size st, 1 ≤ size → (ptr = 0 ∨ ∃ e ∈ s.live, e.ptr = ptr) →
      myRealloc s.st o ptr size = .ok (0, st) → st = s.st) ∧
    (∀ o, ∀ e ∈ s.live, ∀ size old st, 1 ≤ size → size ≤ maxAllowed →
      myReallocLocked s.st o e.ptr size = .ok (.relocate old, st) → old = e.size ∧ st = s.st) ∧
    (∀ nmemb size, ¬ (2 ^ 64 - 1) / nmemb < size → nmemb * size % 2 ^ 64 = nmemb * size) ∧
    (∀ size, size ≤ maxAllowed → align size = (size + 15) / 16 * 16 ∧
      addSize 48 (align size) = 48 + align size ∧ totalSize size = 48 + align size + 16) ∧
    ∃ blocks, Walk s.st.mem s.st.heapStart blocks s.st.brk ∧ ∀ b ∈ blocks,
      (∀ total, total ≤ blockSize s.st.mem b → addSize total 80 = total + 80) ∧
      (b + blockSize s.st.mem b ∈ blocks →
        addSize (blockSize s.st.mem b) (blockSize s.st.mem (b + blockSize s.st.mem b)) =
          blockSize s.st.mem b + blockSize s.st.mem (b + blockSize s.st.mem b) ∧
        ∀ total, total ≤ blockSize s.st.mem b + blockSize s.st.mem (b + blockSize s.st.mem b) →
          addSize total 80 = total + 80) := by
  have C := ClientInv.of_reach h
  refine ⟨fun o size st _ hr => C.myMalloc_null hr, fun o nmemb size st _ _ hr => C.myCalloc_null hr,
    fun o ptr size st h1 hptr hr => C.myRealloc_null hptr (by omega) hr,
    fun o e he size old st h1 hmax hr => C.sys.inv.relocated he (by omega) hmax hr,
    fun nmemb size hguard => calloc_product hguard, fun size hmax => totalSize_no_wrap hmax, ?_⟩
  obtain ⟨lo, segs, lists, I⟩ := C.sys.inv
  refine ⟨segs.map Span.addr, (I.wellFormed C.begun).walk, fun b hb => ⟨fun total hle => ?_,
    fun hb' => ⟨?_, fun total hle => ?_⟩⟩⟩
  · have := I.block_end hb
    unfold addrLimit at this
    exact addSize_of_lt (by omega)
  · have := I.block_end hb'
    unfold addrLimit at this
    exact addSize_of_lt (by omega)
  · have := I.block_end hb'
    unfold addrLimit at this
    exact addSize_of_lt (by omega)

/-- The kernel refuses the relocation of a block that a byte was stored into, and a new
block beside it. -/
theorem failed_request_atomic_refused :
    ∃ s, clients.exec Sys.clientCheck freshSys fewCalls = some s ∧ s.st.mem 4327 = 9 ∧
      myRealloc s.st { sbrkOk := fun _ _ => false } 4320 300 = .ok (0, s.st) ∧
      myMalloc s.st { sbrkOk := fun _ _ => false } 300 = .ok (0, s.st) := by
  obtain ⟨s, hs, hrun⟩ := exists_fewCalls
  have hrefused : ((clients.exec Sys.clientCheck freshSys fewCalls).bind fun s =>
      (myRealloc s.st { sbrkOk := fun _ _ => false } 4320 300).toOption.bind fun r =>
        (myMalloc s.st { sbrkOk := fun _ _ => false } 300).toOption.bind fun r' =>
          some (r.1, r'.1)) = some (0, 0) := by
    decide +kernel
  rw [hs, Option.bind_some] at hrefused
  obtain ⟨⟨q, st⟩, hr, hrefused⟩ := Runs.ok_of_bind hrefused
  obtain ⟨⟨q', st'⟩, hr', hrefused⟩ := Runs.ok_of_bind hrefused
  obtain ⟨rfl, rfl⟩ := Prod.mk.inj (Option.some.inj hrefused)
  obtain ⟨hmalloc, -, hrealloc, -⟩ := failed_request_atomic (clients_exec hs)
  have hlive : ∃ e ∈ s.live, e.ptr = 4320 := by
    rw [hrun.live]
    simp
  obtain rfl := hrealloc _ _ _ _ (by decide) (Or.inr hlive) hr
  obtain rfl := hmalloc _ _ _ (by decide) hr'
  exact ⟨s, hs, hrun.stored, hr, hr'⟩

end MemoryMonitor
