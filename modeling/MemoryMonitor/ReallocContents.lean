import MemoryMonitor.Effects

/-! # `my_realloc` keeps the contents

On every path of `my_realloc` the bytes that both requests ask for are the same after
the call as before it: a block that shrinks or grows where it is keeps them in place, a
moved mapping takes them along, and a relocation copies them before the old block is
freed.  The last one runs through three critical sections and an `munmap`, and the heap
is tidy after each of them.
-/
namespace MemoryMonitor

open ByteMemory Tiling Coalescing

namespace Tidy
variable {s s' : State} {live : List Alloc} {e : Alloc} {lo : Nat} {segs : List Seg}
variable {lists : Fin 8 → List Nat} {o : Oracle}

/-- `my_free` as a whole call. -/
theorem myFree (T : Tidy s live lo segs lists) (he : e ∈ live) (h : myFree s o e.ptr = .ok s') :
    ∃ segs' lists', Tidy s' (forget e.ptr live) lo segs' lists' := by
  obtain ⟨⟨out, s₁⟩, hf, h⟩ := bind_ok h
  obtain ⟨segs', lists', T'⟩ := T.myFreeLocked he hf
  cases out with
  | none =>
    obtain rfl := Except.ok.inj h
    exact ⟨segs', lists', T'⟩
  | some mp =>
    obtain rfl := Except.ok.inj h
    have hmp := T.toHeap.perm (perm_forget T.nodup he)
    obtain ⟨out, s₂, hf', -, -, -, -, hout⟩ := hmp.myFreeLocked
    rw [hf'] at hf
    obtain ⟨rfl, rfl⟩ := Prod.mk.inj (Except.ok.inj hf)
    have hne : ∀ e' ∈ forget e.ptr live, e'.ptr ≠ mp.addr + 48 := by
      intro e' he'
      rw [← (hout mp rfl).2]
      exact (mem_forget.mp he').2
    exact ⟨segs', lists', T'.toHeap.munmap o hne, T'.spaced, T'.owned⟩

/-- **`my_realloc` as a whole call** leaves the heap tidy. -/
theorem myRealloc (T : Tidy s live lo segs lists) (he : e ∈ live) {size q : Nat} (h0 : size ≠ 0)
    (h : myRealloc s o e.ptr size = .ok (q, s')) (hq : q ≠ 0) :
    ∃ lo' segs' lists', Tidy s' (⟨q, size⟩ :: forget e.ptr live) lo' segs' lists' := by
  have hptr : e.ptr ≠ 0 := Inv.ptr_ne_zero ⟨lo, segs, lists, T.toHeap⟩ he
  unfold MemoryMonitor.myRealloc at h
  rw [if_neg hptr, if_neg h0] at h
  by_cases hmax : maxAllowed < size
  · rw [if_pos hmax] at h
    exact absurd (Prod.mk.inj (Except.ok.inj h)).1.symm hq
  rw [if_neg hmax] at h
  obtain ⟨⟨out, s₁⟩, hl, hr⟩ := bind_ok h
  clear h
  cases out with
  | done p =>
    obtain ⟨rfl, rfl⟩ := Prod.mk.inj (Except.ok.inj hr)
    exact T.myReallocLocked he h0 (by omega) hl
  | relocate old =>
    obtain ⟨rfl, rfl⟩ := Inv.relocated ⟨lo, segs, lists, T.toHeap⟩ he h0 (by omega) hl
    obtain ⟨⟨p, s₂⟩, hm, h⟩ := bind_ok hr
    simp only at h
    by_cases hp : p = 0
    · rw [if_pos hp] at h
      exact absurd (Prod.mk.inj (Except.ok.inj h)).1.symm hq
    rw [if_neg hp] at h
    obtain ⟨_, -, h⟩ := bind_ok h
    obtain ⟨_, -, h⟩ := bind_ok h
    obtain ⟨s₃, hf, h⟩ := bind_ok h
    obtain ⟨rfl, rfl⟩ := Prod.mk.inj (Except.ok.inj h)
    obtain ⟨lo₂, segs₂, lists₂, T₂⟩ := T.myMalloc hm
    rw [gain_of_ne hp] at T₂
    have hnew : (⟨p, size⟩ : Alloc) ∈ ⟨p, size⟩ :: live := List.mem_cons_self ..
    -- the copy goes into the requested bytes of the new block
    have hcopy : Set.EqOn (memcpy s₂.mem p e.ptr (min e.size size)) s₂.mem
        (⟨p, size⟩ : Alloc).payloadᶜ :=
      (overwrite_eqOn _ _ _ _).mono (Set.compl_subset_compl.mpr
        (range_subset (le_refl _) (by simp only; omega)))
    obtain ⟨lo₃, segs₃, lists₃, T₃⟩ := T₂.effect (.write hnew hcopy)
    obtain ⟨segs₄, lists₄, T₄⟩ := T₃.myFree (List.mem_cons_of_mem _ he) hf
    have hne : p ≠ e.ptr := by
      have hnd := T₂.nodup
      rw [List.map_cons, List.nodup_cons] at hnd
      rintro rfl
      exact hnd.1 (List.mem_map.mpr ⟨e, he, rfl⟩)
    have hl : forget e.ptr (⟨p, size⟩ :: live) = ⟨p, size⟩ :: forget e.ptr live := by
      rw [forget, List.filter_cons_of_pos (by simpa using hne)]
      rfl
    rw [hl] at T₄
    exact ⟨lo₃, segs₄, lists₄, T₄⟩

/-- A block of the heap that no live allocation sits in is free. -/
theorem free_of_walk (T : Tidy s live lo segs lists) (hst : s.heapStart ≠ 0) {blocks : List Nat}
    (hw : Walk s.mem s.heapStart blocks s.brk) {b : Nat} (hb : b ∈ blocks)
    (hno : ∀ e ∈ live, e.ptr ≠ b + 48) : isFree s.mem b = 1 := by
  have W := T.toHeap.wellFormed hst
  rw [hw.unique W.walk] at hb
  obtain ⟨g, hg, rfl⟩ := List.mem_map.mp hb
  obtain ⟨f, hF, -, hf⟩ := T.rep.span_cases hg (T.settled g hg) (fun hk => T.gapped g hg hk)
  rw [hF.free_eq, hf]
  cases hk : g.kind with
  | free => rfl
  | used =>
    obtain ⟨e, he, hptr⟩ := T.owned g hg hk
    exact absurd hptr (hno e he)
  | work => exact absurd hk (T.settled g hg)
  | gap => exact absurd hk (T.gapped g hg)

end Tidy

/-- **`my_realloc` preserves contents on every path.**  In every state of every run of the
clients, and whatever the kernel answers, a call on a live pointer `p` for at least one
byte that returns a block `q` has kept the bytes that both requests ask for.  `q` is
aligned, its header records the request, and the request ends before the footer.  The
live allocations are `q` and those other than `p`, all of them unchanged; when `q` is not
`p`, no block in use begins at `p` any more. -/
theorem realloc_keeps_contents {s : Sys} (h : clients.Reach Sys.Initialised s) {e : Alloc}
    (he : e ∈ s.live) (o : Oracle) {n q : Nat} {st : State} (hn : 1 ≤ n)
    (hr : myRealloc s.st o e.ptr n = .ok (q, st)) (hq : q ≠ 0) :
    (∀ i < min e.size n, st.mem (q + i) = s.st.mem (e.ptr + i)) ∧
    (q % 16 = 0 ∧ requestedSize st.mem (q - 48) = n ∧
      q + n ≤ q - 48 + blockSize st.mem (q - 48) - 16 ∧
      magicFooter st.mem (q - 48 + blockSize st.mem (q - 48) - 16) = allocMagicFooter ∧
      footerBlockSize st.mem (q - 48 + blockSize st.mem (q - 48) - 16) =
        blockSize st.mem (q - 48)) ∧
    Inv False st (⟨q, n⟩ :: forget e.ptr s.live) ∧
    (∀ blocks, Walk st.mem st.heapStart blocks st.brk → e.ptr - 48 ∈ blocks →
      q = e.ptr ∨ isFree st.mem (e.ptr - 48) = 1) ∧
    ∀ e' ∈ s.live, e'.ptr ≠ e.ptr →
      e' ∈ ⟨q, n⟩ :: forget e.ptr s.live ∧ Set.EqOn st.mem s.st.mem e'.payload := by
  have C := ClientInv.of_reach h
  obtain ⟨lo, segs, lists, T⟩ := Tidy.of_reach h
  obtain ⟨q', st', hr', R, hcopy⟩ := (C.sys.inv.perm (perm_forget C.sys.inv.nodup he)).myRealloc o n
  rw [hr'] at hr
  obtain ⟨rfl, rfl⟩ := Prod.mk.inj (Except.ok.inj hr)
  obtain ⟨lo', segs', lists', T'⟩ := T.myRealloc he (by omega) hr' hq
  obtain ⟨a, k, t, hH⟩ := T'.held ⟨q', n⟩ (List.mem_cons_self ..)
  have hF := hH.formed
  have hptr := hH.ptr_eq
  have hroom := hH.room
  simp only at hptr hroom
  have ha : q' - 48 = a := by omega
  refine ⟨hcopy hq, ?_, ⟨lo', segs', lists', T'.toHeap⟩, fun blocks hw hb => ?_, fun e' he' hne => ?_⟩
  · rw [ha, hF.size_eq]
    have h16 := hF.addr_aligned
    exact ⟨by omega, hH.requested, by omega, hF.footer_magic, hF.footer_size⟩
  · by_cases hqe : q' = e.ptr
    · exact Or.inl hqe
    refine Or.inr (T'.free_of_walk ?_ hw hb fun e' he' => ?_)
    · rw [← T'.init, (myRealloc_grown hr').initial (by rw [T.init]; exact C.begun), T.init]
      exact C.begun
    · obtain ⟨a', k', t', hH'⟩ := T.held e he
      have hptr' := hH'.ptr_eq
      rcases List.mem_cons.mp he' with rfl | he'
      · simp only
        omega
      · have := (mem_forget.mp he').2
        omega
  · have hmem := mem_forget.mpr ⟨he', hne⟩
    exact ⟨List.mem_cons_of_mem _ hmem, R.payload e' hmem⟩

/-- The block that a byte was stored into is between others and does not fit 300 bytes: it
is relocated to the end of the heap, and the byte with it. -/
theorem realloc_keeps_contents_relocated :
    ∃ s st, clients.exec Sys.clientCheck freshSys fewCalls = some s ∧ s.st.mem 4327 = 9 ∧
      myRealloc s.st {} 4320 300 = .ok (4656, st) ∧ st.mem 4663 = 9 ∧
      ∀ i < 40, st.mem (4656 + i) = s.st.mem (4320 + i) := by
  obtain ⟨s, hs, hrun⟩ := exists_fewCalls
  have hresult : ((clients.exec Sys.clientCheck freshSys fewCalls).bind fun s =>
      (myRealloc s.st {} 4320 300).toOption.bind fun r => some r.1) = some 4656 := by
    decide +kernel
  rw [hs, Option.bind_some] at hresult
  obtain ⟨⟨q, st⟩, hr, hq⟩ := Runs.ok_of_bind hresult
  obtain rfl : q = 4656 := Option.some.inj hq
  have hlive : (⟨4320, 40⟩ : Alloc) ∈ s.live := by
    rw [hrun.live]
    simp
  have hkept := (realloc_keeps_contents (clients_exec hs) hlive {} (by decide) hr (by decide)).1
  refine ⟨s, st, hs, hrun.stored, hr, ?_, hkept⟩
  rw [show 4663 = 4656 + 7 from rfl, hkept 7 (by decide)]
  exact hrun.stored

end MemoryMonitor
