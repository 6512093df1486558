import MemoryMonitor.ClientContract

/-! # The search is a best fit

`free_list_find_fit` looks at one size class after the other and stops early, in a class
as soon as a block fits exactly and among the classes as soon as one holds a block that
fits.  In the heaps of the clients' runs that is a search for a smallest block that fits
among all free blocks: a block is in the class of its size, and a later class holds
larger blocks only.
-/
namespace MemoryMonitor

open ByteMemory Tiling LinkedChain

/-- In a heap without gaps the free spans are the blocks with `is_free` set. -/
theorem Heap.free_block {s : State} {live : List Alloc} {lo : Nat} {segs : List Seg}
    {lists : Fin 8 → List Nat} (I : Heap False s live lo segs lists) {b : Nat} :
    (b ∈ segs.map Span.addr ∧ isFree s.mem b = 1) ↔
      (⟨b, blockSize s.mem b, .free⟩ : Seg) ∈ segs := by
  constructor
  · rintro ⟨hb, hfree⟩
    obtain ⟨g, hg, rfl⟩ := List.mem_map.mp hb
    obtain ⟨f, hF, -, hk⟩ := I.rep.span_cases hg (I.settled g hg) (fun hk => I.gapped g hg hk)
    rw [hF.free_eq] at hfree
    rw [hF.size_eq, ← hk.mp hfree]
    exact hg
  · intro hg
    exact ⟨List.mem_map.mpr ⟨_, hg, rfl⟩, (I.rep.free _ hg rfl).free_eq⟩

/-- A client's `my_malloc` that cannot extend the heap changes nothing on the way. -/
theorem ClientInv.extendHeap_null {s : Sys} (C : ClientInv s) {o : Oracle} {total : Nat} {st : State}
    (h : extendHeap s.st o total = (0, st)) : st = s.st := by
  obtain ⟨lo, segs, lists, I⟩ := C.sys.inv
  have hinit : s.st.initialBreak ≠ 0 := by
    rw [I.init]
    exact C.begun
  unfold extendHeap at h
  rw [prepareBreak_ready o hinit C.begun I.rep.brk_ne_ptrFailed C.aligned] at h
  simp only at h
  cases hs : s.st.sbrk o total false with
  | none =>
    rw [hs] at h
    exact (Prod.mk.inj h).2.symm
  | some r =>
    obtain ⟨b, s₁⟩ := r
    rw [hs] at h
    have hb : b = s.st.brk := (sbrk_some hs).1
    have hpos := I.rep.lo_pos
    have hle := I.rep.tiles.le
    have hzero := (Prod.mk.inj h).1
    omega

/-- **Best fit over the whole heap.**  In every state of every run of the clients and for
every size, `free_list_find_fit` returns `NULL` exactly when no free block is large
enough, and changes nothing then.  Otherwise it returns a free block that is large enough
and smallest among those that are, and takes exactly this block off the lists, the order
of the others unchanged.  So `my_malloc` moves the break only when no free block could
hold the request. -/
theorem find_fit_is_best_fit {s : Sys} (h : clients.Reach Sys.Initialised s) :
    ∃ blocks lists, WellFormed s.st blocks lists ∧
      (∀ total, ∃ a st, freeListFindFit s.st total = .ok (a, st) ∧
        (a = 0 ↔ ∀ b ∈ blocks, isFree s.st.mem b = 1 → blockSize s.st.mem b < total) ∧
        (a = 0 → st = s.st) ∧
        (a ≠ 0 → a ∈ blocks ∧ isFree s.st.mem a = 1 ∧ total ≤ blockSize s.st.mem a ∧
          (∀ b ∈ blocks, isFree s.st.mem b = 1 → total ≤ blockSize s.st.mem b →
            blockSize s.st.mem a ≤ blockSize s.st.mem b) ∧
          ∀ i, Chain 0 (next st.mem) (prev st.mem) 0 (st.heads i) ((lists i).erase a))) ∧
      ∀ o size p st, totalSize size < mmapThreshold → myMalloc s.st o size = .ok (p, st) →
        st.brk ≠ s.st.brk →
        ∀ b ∈ blocks, isFree s.st.mem b = 1 → blockSize s.st.mem b < totalSize size := by
  have C := ClientInv.of_reach h
  obtain ⟨lo, segs, lists, I⟩ := C.sys.inv
  have hsize : ∀ {b k}, (⟨b, k, .free⟩ : Seg) ∈ segs → blockSize s.st.mem b = k := fun hb =>
    (I.rep.free _ hb rfl).size_eq
  refine ⟨segs.map Span.addr, lists, I.wellFormed C.begun, fun total => ?_, ?_⟩
  · rcases I.rep.freeListFindFit_spec total with
      ⟨hr, hnone⟩ | ⟨a, n, st, hr, h0, hn, hle, hrem, hbest⟩
    · refine ⟨0, s.st, hr, ⟨fun _ b hb hfree => ?_, fun _ => rfl⟩, fun _ => rfl,
        fun h => absurd rfl h⟩
      exact hnone b _ (I.free_block.mp ⟨hb, hfree⟩)
    · have ha := hsize hn
      obtain ⟨hamem, hafree⟩ := I.free_block.mpr (by rw [ha]; exact hn)
      refine ⟨a, st, hr, ⟨fun h => absurd h h0, fun hall => ?_⟩, fun h => absurd h h0, fun _ =>
        ⟨hamem, hafree, by rw [ha]; exact hle, ?_, ?_⟩⟩
      · have := hall a hamem hafree
        omega
      · intro b hb hfree hfit
        rw [ha]
        exact hbest b _ (I.free_block.mp ⟨hb, hfree⟩) hfit
      · obtain ⟨pre, post, rfl⟩ := List.append_of_mem hn
        obtain ⟨m, heads, hrem', H, -, -⟩ := I.rep.remove
        obtain rfl := Except.ok.inj (hrem'.symm.trans hrem)
        intro i
        have hc := H.chain i
        by_cases hi : i = getSizeClassIndex n
        · rwa [hi, Function.update_self, ← hi] at hc
        · rw [Function.update_of_ne hi] at hc
          rwa [List.erase_of_not_mem]
          intro hin
          obtain ⟨k, hk, rfl⟩ := I.rep.node hin
          rw [← hsize hk, ha] at hi
          exact hi rfl
  · intro o size p st hsmall hr hbrk b hb hfree
    rcases myMalloc_cases hr with hq | ⟨s₁, he, rfl⟩ | ⟨block, s₁, hext, -, -, -⟩
    · exact absurd hq.brk hbrk
    · exact absurd (by rw [C.extendHeap_null he]) hbrk
    · rcases I.rep.freeListFindFit_spec (totalSize size) with
        ⟨-, hnone⟩ | ⟨a, n, st', hr', h0, -⟩
      · exact hnone b _ (I.free_block.mp ⟨hb, hfree⟩)
      · rw [hext.2.2.2.1] at hr'
        exact absurd (Prod.mk.inj (Except.ok.inj hr')).1.symm h0

/-- Three freed blocks, kept apart by blocks in use: one of 368 bytes, and in the class
below it one of 224 and one of 256, which is first in its list. -/
def threeFree : List Label :=
  [.call 0 (.malloc 300) {}, .call 0 (.malloc 16) {}, .call 0 (.malloc 180) {},
    .call 0 (.malloc 16) {}, .call 0 (.malloc 150) {}, .call 0 (.malloc 16) {},
    .call 0 (.free 4144) {}, .call 0 (.free 4928) {}, .call 0 (.free 4592) {}]

theorem find_fit_is_best_fit_threeFree :
    ∃ s blocks st, clients.exec Sys.clientCheck freshSys threeFree = some s ∧
      Walk s.st.mem s.st.heapStart blocks s.st.brk ∧
      [4096, 4544, 4880].map (fun b => (isFree s.st.mem b, blockSize s.st.mem b)) =
        [(1, 368), (1, 256), (1, 224)] ∧
      s.st.heads (getSizeClassIndex 224) = 4544 ∧
      freeListFindFit s.st 200 = .ok (4880, st) ∧
      ∀ b ∈ blocks, isFree s.st.mem b = 1 → 200 ≤ blockSize s.st.mem b →
        224 ≤ blockSize s.st.mem b := by
  have hrun : (clients.exec Sys.clientCheck freshSys threeFree).bind (fun s =>
      (freeListFindFit s.st 200).toOption.bind fun r => some (r.1,
        [4096, 4544, 4880].map (fun b => (isFree s.st.mem b, blockSize s.st.mem b)),
        s.st.heads (getSizeClassIndex 224))) =
      some (4880, [(1, 368), (1, 256), (1, 224)], 4544) := by
    decide +kernel
  obtain ⟨s, hs, hrun⟩ := Option.bind_eq_some_iff.mp hrun
  obtain ⟨⟨a, st⟩, hfit, hout⟩ := Runs.ok_of_bind hrun
  simp only [Option.some.injEq, Prod.mk.injEq] at hout
  obtain ⟨rfl, hfree, hhead⟩ := hout
  obtain ⟨blocks, lists, W, hbest, -⟩ := find_fit_is_best_fit (clients_exec hs)
  obtain ⟨a, st', hfit', -, -, hfound⟩ := hbest 200
  obtain ⟨rfl, rfl⟩ := Prod.mk.inj (Except.ok.inj (hfit.symm.trans hfit'))
  obtain ⟨-, -, -, hmin, -⟩ := hfound (by decide)
  have hfree' := hfree
  simp only [List.map_cons, List.cons.injEq, Prod.mk.injEq] at hfree'
  rw [hfree'.2.2.1.2] at hmin
  exact ⟨s, blocks, st, hs, W.walk, hfree, hhead, hfit, hmin⟩

end MemoryMonitor
