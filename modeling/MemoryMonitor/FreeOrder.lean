import MemoryMonitor.Effects

/-! # The order of frees does not matter

A tidy heap whose blocks are freed one after the other ends in a form that can be read
off the set of freed blocks: mark them free, and merge neighbours.  `my_free` does so
block by block, joining each with the free blocks around it, and the result is the same
(`Tidy.freeAll`, from the merge of the coalescing library).  So two orders of the same
frees leave the same blocks, and the counters are sums.
-/
namespace MemoryMonitor

open ByteMemory Tiling Coalescing

/-- `my_free` of several pointers in a row. -/
def freeAll (s : State) (o : Oracle) : List Nat → Except Fault State
  | [] => .ok s
  | p :: ptrs => do
    let s ← myFree s o p
    freeAll s o ptrs

/-- The counters after several requests were given back. -/
def Stats.freeAll (st : Stats) (es : List Alloc) : Stats :=
  es.foldl (fun st e => st.free e.size) st

/-- The counters are sums: the order of the requests does not matter. -/
theorem Stats.freeAll_perm {st : Stats} {es es' : List Alloc} (h : es.Perm es') :
    st.freeAll es = st.freeAll es' := by
  refine h.foldl_eq' (fun e _ e' _ st => ?_) st
  have hcomm : addSize (addSize st.totalFreed e.size) e'.size =
      addSize (addSize st.totalFreed e'.size) e.size := by
    unfold addSize
    omega
  simp only [Stats.free, hcomm]

/-- Turning one span of a tiling into a free one. -/
theorem mark_mid {lo hi a n : Nat} {pre post : List Seg}
    (ht : Tiles lo (pre ++ ⟨a, n, .used⟩ :: post) hi) :
    mark .free (· = a) (pre ++ ⟨a, n, .used⟩ :: post) = pre ++ ⟨a, n, .free⟩ :: post := by
  have hkeep : ∀ l : List Seg, (∀ g ∈ l, g.addr ≠ a) → mark .free (· = a) l = l := by
    intro l hl
    refine (List.map_congr_left fun g hg => ?_).trans (List.map_id l)
    rw [if_neg (hl g hg)]
    rfl
  have hpre : ∀ g ∈ pre, g.addr ≠ a := by
    intro g hg
    have h1 := ht.before hg
    have h2 := (ht.bounds (List.mem_append_left _ hg)).2.2
    simp only at h1
    omega
  have hpost : ∀ g ∈ post, g.addr ≠ a := by
    intro g hg
    have h1 := ht.after hg
    have h2 := (ht.bounds (g := ⟨a, n, .used⟩) (by simp)).2.2
    simp only at h1 h2
    omega
  have happ : mark .free (· = a) (pre ++ ⟨a, n, .used⟩ :: post) =
      mark .free (· = a) pre ++ ⟨a, n, .free⟩ :: mark .free (· = a) post := by
    simp [mark]
  rw [happ, hkeep pre hpre, hkeep post hpost]

namespace Tidy
variable {s : State} {live : List Alloc} {e : Alloc} {lo : Nat} {segs : List Seg}
variable {lists : Fin 8 → List Nat} {o : Oracle}

/-- A live allocation inside the heap sits in a used block. -/
theorem held_heap (T : Tidy s live lo segs lists) (he : e ∈ live) (h1 : lo ≤ e.ptr)
    (h2 : e.ptr < s.brk) : ∃ a n, Held s segs e a n 0 ∧ (⟨a, n, .used⟩ : Seg) ∈ segs := by
  obtain ⟨a, n, t, hh⟩ := T.held e he
  rcases hh.place with ⟨rfl, hg⟩ | ⟨rfl, hmp, hthr⟩
  · exact ⟨a, n, hh, hg⟩
  · have hb := T.held_bounds hh
    have hp := hh.ptr_eq
    have hfl := T.rep.floor
    have hroom := hh.room
    omega

/-- **Freeing blocks of the heap one by one**: the blocks are the merge of the heap in
which all of them are marked free. -/
theorem freeAll {es : List Alloc} (T : Tidy s live lo segs lists) (hnd : es.Nodup)
    (hes : ∀ e ∈ es, e ∈ live ∧ lo ≤ e.ptr ∧ e.ptr < s.brk) :
    ∃ s' live' lists', MemoryMonitor.freeAll s o (es.map Alloc.ptr) = .ok s' ∧ Quiet s s' ∧
      s'.stats = s.stats.freeAll es ∧
      Tidy s' live' lo
        (merge (· = .free) (mark .free (fun a => a + 48 ∈ es.map Alloc.ptr) segs)) lists' := by
  induction es generalizing s live segs lists with
  | nil =>
    refine ⟨s, live, lists, rfl, .refl _, rfl, ?_⟩
    have hid : mark .free (fun a => a + 48 ∈ ([] : List Alloc).map Alloc.ptr) segs = segs := by
      simp [mark]
    rw [hid, T.spaced.merge_eq]
    exact T
  | cons e es ih =>
    obtain ⟨he, hlo, hbrk⟩ := hes e (List.mem_cons_self ..)
    obtain ⟨hne, hnd⟩ := List.nodup_cons.mp hnd
    obtain ⟨a, n, hh, hg⟩ := T.held_heap he hlo hbrk
    obtain ⟨pre, post, rfl⟩ := List.append_of_mem hg
    obtain ⟨s₁, lists₁, hr, hst, T₁⟩ := T.freeHeap he hh
    have hq := myFreeLocked_quiet hr
    have hptr := hh.ptr_eq
    rw [← mark_mid T.rep.tiles] at T₁
    obtain ⟨s', live', lists', hall, hq', hst', T'⟩ := ih T₁ hnd (by
      intro e' he'
      obtain ⟨hl, h1, h2⟩ := hes e' (List.mem_cons_of_mem _ he')
      refine ⟨mem_forget.mpr ⟨hl, fun h => hne ?_⟩, h1, by rw [hq.brk]; exact h2⟩
      rw [← List.inj_on_of_nodup_map T.nodup hl he h]
      exact he')
    refine ⟨s', live', lists', ?_, hq.trans hq', ?_, ?_⟩
    · simp only [List.map_cons, MemoryMonitor.freeAll, MemoryMonitor.myFree, hr, ok_bind]
      exact hall
    · rw [hst', hst]
      rfl
    · -- the blocks still to be freed are not free yet, so merging in between does not show
      have hfree : ∀ g ∈ mark .free (· = a) (pre ++ ⟨a, n, .used⟩ :: post),
          g.addr + 48 ∈ es.map Alloc.ptr → ¬ g.kind = .free := by
        intro g hgm hin
        rw [mark_mid T.rep.tiles] at hgm
        obtain ⟨e', he', hp⟩ := List.mem_map.mp hin
        obtain ⟨hl, h1, h2⟩ := hes e' (List.mem_cons_of_mem _ he')
        obtain ⟨a', n', hh', hg'⟩ := T.held_heap hl h1 h2
        have hptr' := hh'.ptr_eq
        rcases T.rep.tiles.mem_set.mp hgm with rfl | ⟨hgm, -⟩
        · refine absurd ?_ hne
          rw [← List.inj_on_of_nodup_map T.nodup hl he (by simp only at hp; omega)]
          exact he'
        · rw [T.rep.tiles.eq_of_addr hgm hg' (by simp only; omega)]
          simp
      rw [merge_mark hfree, mark_mark] at T'
      have hset : mark .free (fun x => x + 48 ∈ (e :: es).map Alloc.ptr)
          (pre ++ ⟨a, n, .used⟩ :: post) =
          mark .free (fun x => x = a ∨ x + 48 ∈ es.map Alloc.ptr) (pre ++ ⟨a, n, .used⟩ :: post) := by
        refine mark_congr fun g _ => ?_
        rw [List.map_cons, List.mem_cons, hptr, Nat.add_right_cancel_iff]
      rw [hset]
      exact T'

/-- The sizes and the free flags of the blocks are those of the spans. -/
theorem block_fields (T : Tidy s live lo segs lists) {g : Seg} (hg : g ∈ segs) :
    blockSize s.mem g.addr = g.size ∧ (isFree s.mem g.addr = 0 ∨ isFree s.mem g.addr = 1) ∧
      (isFree s.mem g.addr = 1 ↔ g.kind = .free) := by
  obtain ⟨f, hF, hf, hk⟩ := T.rep.span_cases hg (T.settled g hg) (fun hk => T.gapped g hg hk)
  rw [hF.size_eq, hF.free_eq]
  exact ⟨rfl, hf, hk⟩

/-- Two heaps over the same spans are the same sequence of blocks. -/
theorem same_blocks {s' : State} {live' : List Alloc} {lists' : Fin 8 → List Nat}
    (T : Tidy s live lo segs lists) (T' : Tidy s' live' lo segs lists') (hst : s.heapStart ≠ 0)
    (hst' : s'.heapStart ≠ 0) :
    ∃ blocks, Walk s.mem s.heapStart blocks s.brk ∧ Walk s'.mem s'.heapStart blocks s'.brk ∧
      ∀ b ∈ blocks, blockSize s.mem b = blockSize s'.mem b ∧ isFree s.mem b = isFree s'.mem b := by
  refine ⟨segs.map Span.addr, (T.toHeap.wellFormed hst).walk, (T'.toHeap.wellFormed hst').walk, ?_⟩
  intro b hb
  obtain ⟨g, hg, rfl⟩ := List.mem_map.mp hb
  obtain ⟨h1, h2, h3⟩ := T.block_fields hg
  obtain ⟨h1', h2', h3'⟩ := T'.block_fields hg
  refine ⟨by rw [h1, h1'], ?_⟩
  have := h3.trans h3'.symm
  omega

/-- **No two neighbours of a tidy heap are free.** -/
theorem not_both_free (T : Tidy s live lo segs lists) (hst : s.heapStart ≠ 0) {blocks : List Nat}
    (hw : Walk s.mem s.heapStart blocks s.brk) {b : Nat} (hb : b ∈ blocks)
    (hnext : b + blockSize s.mem b ∈ blocks) :
    ¬ (isFree s.mem b ≠ 0 ∧ isFree s.mem (b + blockSize s.mem b) ≠ 0) := by
  rw [hw.unique (T.toHeap.wellFormed hst).walk] at hb hnext
  obtain ⟨g, hg, rfl⟩ := List.mem_map.mp hb
  obtain ⟨h, hh, ha⟩ := List.mem_map.mp hnext
  obtain ⟨h1, h2, h3⟩ := T.block_fields hg
  obtain ⟨-, h2', h3'⟩ := T.block_fields hh
  obtain ⟨pre, post, rfl⟩ := List.append_of_mem hg
  have hpos := (T.rep.tiles.bounds hg).2.2
  rw [← ha]
  rw [h1] at ha
  rintro ⟨hf, hf'⟩
  -- the span behind `g` is `h`
  cases post with
  | nil =>
    have hend := T.rep.tiles.last_end
    have := T.rep.tiles.bounds hh
    omega
  | cons k post =>
    have hk := T.rep.tiles.next_addr
    obtain rfl := T.rep.tiles.eq_of_addr (g := k) (h := h) (by simp) hh (by omega)
    exact T.spaced.neighbours ⟨h3.mp (by omega), h3'.mp (by omega)⟩

/-- **A tidy heap in which nothing is allocated** is empty or one free block. -/
theorem empty_or_free (T : Tidy s live lo segs lists) (hst : s.heapStart ≠ 0)
    (hno : ∀ e ∈ live, isMmap s.mem (e.ptr - 48) ≠ 0) :
    s.heapStart = s.brk ∨
      isFree s.mem s.heapStart = 1 ∧ s.heapStart + blockSize s.mem s.heapStart = s.brk := by
  have hlo : s.heapStart = lo := T.rep.start.resolve_right fun h => hst h.1
  have hfree : ∀ g ∈ segs, g.kind = .free := by
    intro g hg
    cases hk : g.kind with
    | free => rfl
    | used =>
      obtain ⟨e, he, hptr⟩ := T.owned g hg hk
      refine absurd ?_ (hno e he)
      rw [hptr, Nat.add_sub_cancel]
      exact (T.rep.used g hg hk).mmap_eq
    | work => exact absurd hk (T.settled g hg)
    | gap => exact absurd hk (T.gapped g hg)
  match segs, T, hfree with
  | [], T, _ => exact Or.inl (hlo.trans T.rep.tiles)
  | [g], T, hfree =>
    obtain ⟨h1, -, h3⟩ := T.block_fields (List.mem_singleton_self g)
    have hk := hfree g (List.mem_singleton_self g)
    obtain ⟨ha, -, hend⟩ := T.rep.tiles
    rw [tiles_nil] at hend
    rw [hlo, ← ha, h1]
    exact Or.inr ⟨h3.mpr hk, by omega⟩
  | g :: h :: post, T, hfree =>
    have hsp : Spaced (· = .free) ([] ++ g :: h :: post) := T.spaced
    exact absurd ⟨hfree g (by simp), hfree h (by simp)⟩ hsp.neighbours

end Tidy

/-- **Immediate coalescing, and frees in any order.**  In every state of every run of the
clients no two neighbouring blocks of the heap are both free.  Freeing any set of live
blocks of the heap in any two orders ends in the same sequence of blocks (addresses,
sizes, free flags) with the same counters.  And when no live allocation is in the heap,
the range from `heap_start` to the break is empty or a single free block. -/
theorem frees_commute {s : Sys} (h : clients.Reach Sys.Initialised s) :
    (∀ blocks, Walk s.st.mem s.st.heapStart blocks s.st.brk → ∀ b ∈ blocks,
      b + blockSize s.st.mem b ∈ blocks →
      ¬ (isFree s.st.mem b ≠ 0 ∧ isFree s.st.mem (b + blockSize s.st.mem b) ≠ 0)) ∧
    (∀ es es' : List Alloc, es.Nodup → es.Perm es' →
      (∀ e ∈ es, e ∈ s.live ∧ isMmap s.st.mem (e.ptr - 48) = 0) → ∀ o o',
      ∃ s₁ s₂, freeAll s.st o (es.map Alloc.ptr) = .ok s₁ ∧
        freeAll s.st o' (es'.map Alloc.ptr) = .ok s₂ ∧ s₁.stats = s₂.stats ∧
        ∃ blocks, Walk s₁.mem s₁.heapStart blocks s₁.brk ∧ Walk s₂.mem s₂.heapStart blocks s₂.brk ∧
          s₁.heapStart = s₂.heapStart ∧ s₁.brk = s₂.brk ∧
          ∀ b ∈ blocks, blockSize s₁.mem b = blockSize s₂.mem b ∧
            isFree s₁.mem b = isFree s₂.mem b) ∧
    ((∀ e ∈ s.live, isMmap s.st.mem (e.ptr - 48) ≠ 0) → s.st.heapStart = s.st.brk ∨
      isFree s.st.mem s.st.heapStart = 1 ∧
        s.st.heapStart + blockSize s.st.mem s.st.heapStart = s.st.brk) := by
  have C := ClientInv.of_reach h
  obtain ⟨lo, segs, lists, T⟩ := Tidy.of_reach h
  refine ⟨fun blocks hw b hb hnext => T.not_both_free C.begun hw hb hnext, ?_,
    fun hno => T.empty_or_free C.begun hno⟩
  intro es es' hnd hperm hes o o'
  have hin : ∀ e ∈ es, e ∈ s.live ∧ lo ≤ e.ptr ∧ e.ptr < s.st.brk := by
    intro e he
    obtain ⟨hl, hmap⟩ := hes e he
    obtain ⟨a, n, t, hh⟩ := T.held e hl
    have hptr := hh.ptr_eq
    have hb := T.held_bounds hh
    have hge := hh.formed.size_ge
    have ht := hh.formed.mmap_eq
    rw [hptr, Nat.add_sub_cancel, ht] at hmap
    exact ⟨hl, by omega, by omega⟩
  obtain ⟨s₁, live₁, lists₁, hr₁, hq₁, hst₁, T₁⟩ := T.freeAll (o := o) hnd hin
  obtain ⟨s₂, live₂, lists₂, hr₂, hq₂, hst₂, T₂⟩ := T.freeAll (o := o') (hperm.nodup_iff.mp hnd)
    fun e he => hin e (hperm.mem_iff.mpr he)
  have hsame : mark .free (fun a => a + 48 ∈ es'.map Alloc.ptr) segs =
      mark .free (fun a => a + 48 ∈ es.map Alloc.ptr) segs :=
    mark_congr fun g _ => (hperm.map Alloc.ptr).mem_iff.symm
  rw [hsame] at T₂
  have hb₁ : s₁.heapStart ≠ 0 := by rw [hq₁.heapStart]; exact C.begun
  have hb₂ : s₂.heapStart ≠ 0 := by rw [hq₂.heapStart]; exact C.begun
  obtain ⟨blocks, hw₁, hw₂, hfields⟩ := T₁.same_blocks T₂ hb₁ hb₂
  refine ⟨s₁, s₂, hr₁, hr₂, ?_, blocks, hw₁, hw₂, ?_, ?_, hfields⟩
  · rw [hst₁, hst₂, Stats.freeAll_perm hperm]
  · rw [hq₁.heapStart, hq₂.heapStart]
  · rw [hq₁.brk, hq₂.brk]

theorem frees_commute_two : ∃ s s₁ s₂,
    clients.exec Sys.clientCheck freshSys
      [.call 0 (.malloc 100) {}, .call 0 (.malloc 40) {}, .call 0 (.malloc 200) {}] = some s ∧
    freeAll s.st {} [4144, 4320] = .ok s₁ ∧ freeAll s.st {} [4320, 4144] = .ok s₂ ∧
    s₁.stats = s₂.stats ∧ ∃ blocks, Walk s₁.mem s₁.heapStart blocks s₁.brk ∧
      Walk s₂.mem s₂.heapStart blocks s₂.brk := by
  have hrun : (clients.exec Sys.clientCheck freshSys
      [.call 0 (.malloc 100) {}, .call 0 (.malloc 40) {}, .call 0 (.malloc 200) {}]).map
      (fun s => (s.live, isMmap s.st.mem 4096, isMmap s.st.mem 4272)) =
      some ([⟨4432, 200⟩, ⟨4320, 40⟩, ⟨4144, 100⟩], 0, 0) := by decide +kernel
  obtain ⟨s, hs, hlive⟩ := Option.map_eq_some_iff.mp hrun
  simp only [Prod.mk.injEq] at hlive
  obtain ⟨hlive, hm₁, hm₂⟩ := hlive
  obtain ⟨s₁, s₂, hr₁, hr₂, hst, blocks, hw₁, hw₂, -⟩ := (frees_commute (clients_exec hs)).2.1
    [⟨4144, 100⟩, ⟨4320, 40⟩] [⟨4320, 40⟩, ⟨4144, 100⟩] (by decide) (.swap ..)
    (by simp [hlive, hm₁, hm₂]) {} {}
  exact ⟨s, s₁, s₂, hs, hr₁, hr₂, hst, blocks, hw₁, hw₂⟩

end MemoryMonitor
