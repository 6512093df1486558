import MemoryMonitor.KernelSpec

/-! # `my_malloc`

Three ways to a block: a mapping of its own, a free block that fits, an extension
of the heap.  Each ends in the invariant with one more live allocation, and in the
invariant as it was when the kernel or the request itself says no.
-/
namespace MemoryMonitor

open ByteMemory Tiling LinkedChain Coalescing

variable {shared : Prop} {s s' : State} {live : List Alloc} {lo lo' : Nat}
variable {segs segs' : List Seg} {lists lists' : Fin 8 → List Nat}

namespace Heap

/-- The invariant moves on along `Keeps`, when the counters stay. -/
theorem of_layout (I : Heap shared s live lo segs lists) (L : Layout shared s' lo' segs' lists')
    (hset : ∀ g ∈ segs', g.kind ≠ .work) (K : Keeps s segs s' segs')
    (hA : s'.stats.totalAllocated = s.stats.totalAllocated)
    (hF : s'.stats.totalFreed = s.stats.totalFreed) : Heap shared s' live lo' segs' lists' := by
  refine ⟨L, hset, ?_, I.nodup, by rw [hA, hF]; exact I.balance⟩
  intro e he
  obtain ⟨a, n, t, h⟩ := I.held e he
  exact ⟨a, n, t, h.keeps K⟩

theorem untouched (I : Heap shared s live lo segs lists) (K : Keeps s segs s' segs') :
    Untouched s live s' := by
  refine ⟨fun e he => ?_, fun x hx => (K.host x hx).2⟩
  obtain ⟨a, n, t, h⟩ := I.held e he
  exact h.payload_eqOn K

/-- **One more live allocation**, in a block where there was none. -/
theorem add (I : Heap shared s live lo segs lists) (L : Layout shared s' lo' segs' lists')
    (hset : ∀ g ∈ segs', g.kind ≠ .work) (K : Keeps s segs s' segs') {e : Alloc} {a n t : Nat}
    (h : Held s' segs' e a n t) (hg : ∀ g ∈ segs, g.kind = .used → g.addr ≠ a)
    (hmp : ∀ mp ∈ s.maps, mp.addr ≠ a)
    (hA : s'.stats.totalAllocated = addSize s.stats.totalAllocated e.size)
    (hF : s'.stats.totalFreed = s.stats.totalFreed) :
    Heap shared s' (e :: live) lo' segs' lists' := by
  refine ⟨L, hset, ?_, ?_, ?_⟩
  · intro e' he'
    rcases List.mem_cons.mp he' with rfl | he'
    · exact ⟨a, n, t, h⟩
    · obtain ⟨a', n', t', h'⟩ := I.held e' he'
      exact ⟨a', n', t', h'.keeps K⟩
  · rw [List.map_cons, List.nodup_cons]
    refine ⟨?_, I.nodup⟩
    intro hin
    obtain ⟨e', he', hpe⟩ := List.mem_map.mp hin
    obtain ⟨a', n', t', h'⟩ := I.held e' he'
    have haa : a' = a := by
      have h1 := h.ptr_eq
      have h2 := h'.ptr_eq
      omega
    rcases h'.place with ⟨-, hm⟩ | ⟨-, hm, -⟩
    · exact hg _ hm rfl haa
    · exact hmp _ hm haa
  · have h1 : liveBytes (e :: live) = e.size + liveBytes live := by simp [liveBytes]
    rw [hA, hF, h1, ← Nat.add_assoc, Nat.add_right_comm]
    exact (addSize_modEq _ _).trans (I.balance.add_right _)

/-! ## Preparing the break -/

/-- `ensure_break_aligned` pads the break, or fails and changes nothing. -/
theorem ensureBreakAligned (I : Heap shared s live lo segs lists) (o : Oracle) {ok : Bool}
    (hr : ensureBreakAligned s o = (ok, s')) :
    ∃ lo' segs', Heap shared s' live lo' segs' lists ∧ Keeps s segs s' segs' ∧
      Respaced segs segs' 0 ∧ (ok = true → s'.brk % 16 = 0) ∧ s'.heapStart = s.heapStart := by
  unfold MemoryMonitor.ensureBreakAligned at hr
  rw [if_neg I.rep.brk_ne_ptrFailed] at hr
  by_cases hal : s.brk % 16 ≠ 0
  · rw [if_pos hal] at hr
    cases hs : s.sbrk o (16 - s.brk % 16) false with
    | none =>
      rw [hs] at hr
      obtain ⟨rfl, rfl⟩ := Prod.mk.inj hr
      exact ⟨lo, segs, I, Keeps.refl _ _, .refl _ _, by simp, rfl⟩
    | some r =>
      obtain ⟨b, s₁⟩ := r
      rw [hs] at hr
      obtain ⟨rfl, rfl⟩ := Prod.mk.inj hr
      have hfacts := sbrk_some hs
      have hbrk : s₁.brk = s.brk + (16 - s.brk % 16) := by rw [hfacts.2.2.2]
      have hst : s₁.stats = s.stats := by rw [hfacts.2.2.2]
      have hhs : s₁.heapStart = s.heapStart := by rw [hfacts.2.2.2]
      have h16 : (s.brk + (16 - s.brk % 16)) % 16 = 0 := by omega
      by_cases h0 : s.heapStart = 0
      · obtain ⟨rfl, L, K⟩ := I.sbrk_before hs h0 (by simp) (fun h => absurd h16 h)
        exact ⟨_, [], I.of_layout L (by simp) K (by rw [hst]) (by rw [hst]), K, .refl _ _,
          fun _ => by rw [hbrk]; exact h16, hhs⟩
      · obtain ⟨L, K⟩ := I.sbrk (k := .gap) hs (by omega) h0
          (Or.inl ⟨rfl, I.fresh hal, I.unaligned h0 hal⟩) (fun h => absurd h16 h)
          (fun h => absurd h16 h)
        refine ⟨lo, _, I.of_layout L ?_ K (by rw [hst]) (by rw [hst]), K, .gap,
          fun _ => by rw [hbrk]; exact h16, hhs⟩
        exact forall_mid.mpr ⟨by simp, by simpa using I.settled⟩
  · rw [if_neg hal] at hr
    obtain ⟨rfl, rfl⟩ := Prod.mk.inj hr
    exact ⟨lo, segs, I, Keeps.refl _ _, .refl _ _, fun _ => by omega, rfl⟩

/-- The heap begins at an aligned break. -/
theorem start (I : Heap shared s live lo segs lists) (h0 : s.heapStart = 0)
    (hal : s.brk % 16 = 0) :
    Heap shared { s with initialBreak := s.brk, heapStart := s.brk } live lo segs lists ∧
      Keeps s segs { s with initialBreak := s.brk, heapStart := s.brk } segs := by
  have hseg : segs = [] := by
    rcases I.rep.start with h | ⟨-, h⟩
    · have := I.rep.lo_pos
      omega
    · exact h
  subst hseg
  have hlo : lo = s.brk := I.rep.tiles
  have K : Keeps s [] { s with initialBreak := s.brk, heapStart := s.brk } [] :=
    (Keeps.refl s []).congr_right rfl rfl rfl
  refine ⟨I.of_layout ?_ I.settled K rfl rfl, K⟩
  refine ⟨?_, rfl, ⟨I.blank.gap, I.blank.own, I.blank.clean⟩, ?_, I.host_lt, I.fresh, I.gapped,
    fun _ h => absurd hal h, hal⟩
  · exact ⟨I.rep.tiles, I.rep.lo_pos, I.rep.floor, I.rep.limit, Or.inl hlo.symm, I.rep.used,
      I.rep.free, I.rep.chain, I.rep.nodup, I.rep.listed⟩
  · exact I.kernel.of_fields rfl rfl rfl rfl

/-- The first part of the heap extension keeps the invariant; when it succeeds the
heap has begun and the break is aligned. -/
theorem prepareBreak (I : Heap shared s live lo segs lists) (o : Oracle) {ok : Bool}
    (hr : prepareBreak s o = (ok, s')) :
    ∃ lo' segs', Heap shared s' live lo' segs' lists ∧ Keeps s segs s' segs' ∧
      Respaced segs segs' 0 ∧ (ok = true → s'.brk % 16 = 0 ∧ s'.heapStart ≠ 0) := by
  unfold MemoryMonitor.prepareBreak at hr
  have hinit := I.init
  by_cases h0 : s.initialBreak = 0
  · rw [if_pos h0] at hr
    cases he : MemoryMonitor.ensureBreakAligned s o with
    | mk ok₁ s₁ =>
      obtain ⟨lo₁, segs₁, I₁, K₁, hsp, hal, hhs⟩ := I.ensureBreakAligned o he
      rw [he] at hr
      cases ok₁ with
      | false =>
        obtain ⟨rfl, rfl⟩ := Prod.mk.inj hr
        exact ⟨lo₁, segs₁, I₁, K₁, hsp, by simp⟩
      | true =>
        have hs0 : s₁.heapStart = 0 := by omega
        have hb := I₁.rep.brk_ne_ptrFailed
        have hlo := I₁.rep.lo_pos
        have hle := I₁.rep.tiles.le
        obtain ⟨I₂, K₂⟩ := I₁.start hs0 (hal rfl)
        have hal₂ := hal rfl
        simp only [if_pos hb, if_pos hs0, MemoryMonitor.ensureBreakAligned, if_neg hb, hal₂, ne_eq,
          not_true_eq_false, if_false, Prod.mk.injEq] at hr
        obtain ⟨rfl, rfl⟩ := hr
        exact ⟨lo₁, segs₁, I₂, K₁.trans K₂, hsp, fun _ => ⟨hal₂, by simp only; omega⟩⟩
  · rw [if_neg h0] at hr
    have hne : s.heapStart ≠ 0 := by omega
    simp only [if_neg hne] at hr
    obtain ⟨lo₁, segs₁, I₁, K₁, hsp, hal, hhs⟩ := I.ensureBreakAligned o hr
    exact ⟨lo₁, segs₁, I₁, K₁, hsp, fun h => ⟨hal h, by omega⟩⟩

/-! ## The three ways to a block -/

/-- What a call that may return a block of `size` bytes ends with. -/
structure MallocResult (shared : Prop) (s : State) (live : List Alloc) (size p : Nat) (s' : State) :
    Prop where
  untouched : Untouched s live s'
  maps : ∀ mp ∈ s.maps, mp ∈ s'.maps
  mapped : MapsKept s 0 s'
  inv : p = 0 ∧ Inv shared s' live ∨ p ≠ 0 ∧ Inv shared s' (⟨p, size⟩ :: live)
  fresh : ∀ mp ∈ s.maps, p ≠ mp.addr + 48

/-- What it ends with in terms of the blocks: a new tiling, in which the free blocks are
apart and only the block of `p` is new. -/
structure MallocBlocks (shared : Prop) (s : State) (live : List Alloc) (segs : List Seg)
    (size p : Nat) (s' : State) : Prop extends MallocResult shared s live size p s' where
  blocks : ∃ lo' segs' lists', Heap shared s' (if p = 0 then live else ⟨p, size⟩ :: live) lo' segs'
    lists' ∧ Respaced segs segs' p

/-- A call that returns `NULL` and keeps the invariant. -/
theorem null_result (I : Heap shared s live lo segs lists) {size : Nat}
    (I' : Heap shared s' live lo' segs' lists') (K : Keeps s segs s' segs')
    (hsp : Respaced segs segs' 0) : MallocBlocks shared s live segs size 0 s' :=
  ⟨⟨I.untouched K, fun mp h => (K.maps mp h).1, K.mapsKept 0, Or.inl ⟨rfl, lo', segs', lists', I'⟩,
    fun _ _ => by omega⟩, lo', segs', lists', I', hsp⟩

/-- A call that returns a block. -/
theorem block_result (I : Heap shared s live lo segs lists) {size p : Nat}
    (I' : Heap shared s' (⟨p, size⟩ :: live) lo' segs' lists') (K : Keeps s segs s' segs')
    (hsp : Respaced segs segs' p) (hp : p ≠ 0) (hfresh : ∀ mp ∈ s.maps, p ≠ mp.addr + 48) :
    MallocBlocks shared s live segs size p s' := by
  refine ⟨⟨I.untouched K, fun mp h => (K.maps mp h).1, K.mapsKept 0,
    Or.inr ⟨hp, lo', segs', lists', I'⟩, hfresh⟩, lo', segs', lists', ?_, hsp⟩
  rw [if_neg hp]
  exact I'

/-- The block of `total` bytes an admitted request needs. -/
theorem totalSize_bounds {size : Nat} (h0 : size ≠ 0) (hmax : size ≤ maxAllowed) :
    80 ≤ totalSize size ∧ totalSize size % 16 = 0 ∧ size + 64 ≤ totalSize size ∧
      size < 2 ^ 64 := by
  have h := totalSize_spec hmax
  unfold maxAllowed at hmax
  omega

/-- **A new block at the end of the heap**: its span gets a header and is handed out. -/
theorem newBlock (size : Nat) {b total : Nat} {r : State}
    (L : Layout shared s lo (segs ++ [⟨b, total, .work⟩]) lists) (hb : b % 16 = 0)
    (h80 : 80 ≤ total) (h16 : total % 16 = 0) (hsize : size < 2 ^ 64)
    (hs : r = { s with
      mem := r.mem
      lastAllocatorBreak := r.lastAllocatorBreak
      stats := r.stats })
    (hm : r.mem = setPrev (setNext (setIsMmap (setBlockSize (setMagicHeader s.mem b
      allocMagicHeader) b total) b 0) b 0) b 0) :
    Layout shared (handOut r b size) lo (segs ++ [⟨b, total, .used⟩]) lists ∧
      Keeps s (segs ++ [⟨b, total, .work⟩]) (handOut r b size) (segs ++ [⟨b, total, .used⟩]) ∧
      Formed (handOut r b size).mem b total 0 0 ∧
      requestedSize (handOut r b size).mem b = size := by
  have hlt := L.rep.seg_lt (g := ⟨b, total, .work⟩) (by simp)
  simp only at hlt
  have hH := headed_new (m := s.mem) hb h80 (by omega) h16
  have heq : Set.EqOn r.mem s.mem (range b total)ᶜ := by
    intro x hx
    rw [Set.mem_compl_iff, mem_range] at hx
    rw [hm]
    simp only [setPrev, setNext, setIsMmap, setBlockSize, setMagicHeader]
    simp (disch := omega) only [writeLE_of_disjoint]
  rw [← hm] at hH
  have L' : Layout shared { r with mem := s.mem } lo (segs ++ [⟨b, total, .work⟩]) lists := by
    refine L.of_fields rfl ?_ ?_ ?_ ?_ ?_ ?_ ?_ ?_ <;> rw [hs]
  have K : Keeps s (segs ++ [⟨b, total, .work⟩]) { r with mem := s.mem } _ :=
    (Keeps.refl s _).congr_right rfl (by rw [hs]) (by rw [hs])
  have E : Edit { r with mem := s.mem } r lo _ (segs ++ [⟨b, total, .work⟩]) lists :=
    (Edit.refl L'.rep).write_span (a := b) (n := total) (by simp) heq
  obtain ⟨m, hout, E', hF, hreq⟩ := E.handOut hH hsize
  rw [hout]
  exact ⟨(L'.of_edit E').of_fields rfl rfl rfl rfl rfl rfl rfl rfl rfl,
    (K.trans (L'.keeps E')).congr_right rfl rfl rfl, hF, hreq⟩

/-- The heap extension of `my_malloc`. -/
theorem extendHeap (I : Heap shared s live lo segs lists) (o : Oracle) {size : Nat} (h0 : size ≠ 0)
    (hmax : size ≤ maxAllowed) {block : Nat} (hr : extendHeap s o (totalSize size) = (block, s')) :
    block = 0 ∧ MallocBlocks shared s live segs size 0 s' ∨
    block ≠ 0 ∧ MallocBlocks shared s live segs size (block + 48) (handOut s' block size) := by
  obtain ⟨h80, h16, hroom, hsize⟩ := totalSize_bounds h0 hmax
  generalize totalSize size = total at *
  unfold MemoryMonitor.extendHeap at hr
  cases hp : MemoryMonitor.prepareBreak s o with
  | mk ok s₁ =>
    obtain ⟨lo₁, segs₁, I₁, K₁, hsp₁, hready⟩ := I.prepareBreak o hp
    rw [hp] at hr
    cases ok with
    | false =>
      obtain ⟨rfl, rfl⟩ := Prod.mk.inj hr
      exact Or.inl ⟨rfl, I.null_result I₁ K₁ hsp₁⟩
    | true =>
      obtain ⟨hal, hst⟩ := hready rfl
      simp only at hr
      cases hs : s₁.sbrk o total false with
      | none =>
        rw [hs] at hr
        obtain ⟨rfl, rfl⟩ := Prod.mk.inj hr
        exact Or.inl ⟨rfl, I.null_result I₁ K₁ hsp₁⟩
      | some r =>
        obtain ⟨b, s₂⟩ := r
        rw [hs] at hr
        obtain ⟨L₂, K₂⟩ := I₁.sbrk (k := .work) hs (by omega) hst (Or.inr ⟨rfl, rfl⟩)
          (by omega) (by omega)
        obtain ⟨rfl, hlim, hap, hs₂⟩ := sbrk_some hs
        have hst₂ : s₂.stats = s₁.stats := by rw [hs₂]
        obtain ⟨rfl, rfl⟩ := Prod.mk.inj hr
        right
        have hpos : s₁.brk ≠ 0 := by
          have := I₁.rep.lo_pos
          have := I₁.rep.tiles.le
          omega
        refine ⟨hpos, ?_⟩
        obtain ⟨L₃, K₃, hF, hreq⟩ := newBlock size (r := { s₂ with
          mem := setPrev (setNext (setIsMmap (setBlockSize (setMagicHeader s₂.mem s₁.brk
            allocMagicHeader) s₁.brk total) s₁.brk 0) s₁.brk 0) s₁.brk 0
          lastAllocatorBreak := s₂.brk
          stats := { s₂.stats with
            currentHeapSize := addSize s₂.stats.currentHeapSize total
            sbrkAllocations := addSize s₂.stats.sbrkAllocations 1 } })
          L₂ hal h80 h16 hsize rfl rfl
        have hset : ∀ g ∈ segs₁ ++ [(⟨s₁.brk, total, .used⟩ : Seg)], g.kind ≠ .work :=
          forall_mid.mpr ⟨by simp, by simpa using I₁.settled⟩
        have hmaps : ∀ mp ∈ s₁.maps, mp.addr ≠ s₁.brk := by
          intro mp hmp he
          have h1 := hap mp hmp
          have h2 := (I₁.kernel.placed mp hmp).2.2.1
          unfold Apart at h1
          omega
        have hfin : Heap shared _ (⟨s₁.brk + 48, size⟩ :: live) lo₁ _ _ :=
          I₁.add L₃ hset (K₂.trans K₃) (a := s₁.brk) (n := total) (t := 0)
            ⟨rfl, hroom, hF, hreq, Or.inl ⟨rfl, by simp⟩⟩
            (fun g hg hk => by
              have := I₁.rep.tiles.bounds hg
              omega)
            hmaps (by simp only [handOut]; rw [hst₂]) (by simp only [handOut]; rw [hst₂])
        refine I.block_result hfin ((K₁.trans K₂).trans K₃) (hsp₁.trans .extend) (by omega) ?_
        intro mp hmp
        have := hmaps mp (K₁.maps mp hmp).1
        omega

/-- A free block that fits is cut to size and handed out. -/
theorem foundBlock (I : Heap shared s live lo segs lists) {size a n : Nat} {pre post : List Seg}
    (h0 : size ≠ 0) (hmax : size ≤ maxAllowed) (hseg : segs = pre ++ ⟨a, n, .free⟩ :: post)
    (hle : totalSize size ≤ n) {s₁ : State} (hr : freeListRemove s a = .ok s₁) :
    ∃ s₂, splitFound s₁ a (totalSize size) = .ok s₂ ∧
      MallocBlocks shared s live segs size (a + 48) (handOut s₂ a size) := by
  obtain ⟨h80, h16, hroom, hsize⟩ := totalSize_bounds h0 hmax
  generalize totalSize size = total at *
  subst hseg
  have hset := (forall_mid.mp I.settled).2
  have hgm : (⟨a, n, .free⟩ : Seg) ∈ pre ++ ⟨a, n, .free⟩ :: post := by simp
  obtain ⟨s₁', lists₁, hr', E₁, hF₁, -⟩ := (Edit.refl I.rep).remove
  obtain rfl : s₁' = s₁ := Except.ok.inj (hr'.symm.trans hr)
  obtain ⟨s₂, n₂, post₂, lists₂, hs, E₂, hH₂, hle₂, hset₂, hpost⟩ :=
    E₁.splitFound hF₁ h80 hle h16 hset
  obtain ⟨m₃, hout, E₃, hF₃, hreq⟩ := E₂.handOut hH₂ hsize
  have K := I.keeps E₃
  have hst : s₂.stats = s.stats := by rw [E₂.same]
  have hb := I.rep.tiles.bounds hgm
  have hfl := I.rep.floor
  simp only at hb
  have hmaps : ∀ mp ∈ s.maps, mp.addr ≠ a := by
    intro mp hmp he
    have h1 := (I.kernel.placed mp hmp).2.2.1
    exact I.map_bytes hmp (x := a) ⟨by omega, by omega⟩ ⟨by omega, by omega⟩
  refine ⟨s₂, hs, ?_⟩
  rw [hout]
  have hfin : Heap shared _ (⟨a + 48, size⟩ :: live) lo _ _ :=
    I.add ((I.of_edit E₃).of_fields (r := { s₂ with
        mem := m₃
        stats := { s₂.stats with totalAllocated := addSize s₂.stats.totalAllocated size } })
        rfl rfl rfl rfl rfl rfl rfl rfl rfl)
      (forall_mid.mpr ⟨by simp, hset₂⟩)
      (K.congr_right rfl rfl rfl) (a := a) (n := n₂) (t := 0)
      ⟨rfl, by simp only; omega, hF₃, hreq, Or.inl ⟨rfl, by simp⟩⟩
      (fun g hg hk ha => by
        have := I.rep.tiles.eq_of_addr hg hgm ha
        rw [this] at hk
        cases hk)
      hmaps (by rw [hst]) (by rw [hst])
  have hsp : Respaced (pre ++ ⟨a, n, .free⟩ :: post) (pre ++ ⟨a, n₂, .used⟩ :: post₂) (a + 48) := by
    refine .replace (fun hs => ?_) (fun g hg hk => ?_)
    · rcases hpost with ⟨rfl, -⟩ | ⟨rfl, -⟩
      · exact hs.tail
      · obtain ⟨h1, h2⟩ := List.isChain_cons.mp hs
        exact List.isChain_cons.mpr ⟨fun y hy hyf => h1 y hy ⟨rfl, hyf.2⟩, h2⟩
    · rcases hpost with ⟨rfl, -⟩ | ⟨rfl, -⟩
      · exact hg
      · rcases List.mem_cons.mp hg with rfl | hg
        · cases hk
        · exact hg
  refine I.block_result hfin (K.congr_right rfl rfl rfl) hsp (by omega) ?_
  intro mp hmp
  have := hmaps mp hmp
  omega

/-- **An allocation in a new mapping** joins the live ones. -/
theorem add_mapped (I : Heap shared s live lo segs lists) {a total size : Nat} {m : Mem}
    (st : Stats) (hp : s.Placeable s.maps a total) (hm : Set.EqOn m s.mem (range a total)ᶜ)
    (hroom : size + 64 ≤ total) (hF : Formed m a total 0 1) (hreq : requestedSize m a = size)
    (hbig : mmapThreshold ≤ total)
    (hA : st.totalAllocated = addSize s.stats.totalAllocated size)
    (hfr : st.totalFreed = s.stats.totalFreed) :
    Heap shared { s with mem := m, maps := ⟨a, total⟩ :: s.maps, stats := st }
        (⟨a + 48, size⟩ :: live) lo segs lists ∧
      Keeps s segs { s with mem := m, maps := ⟨a, total⟩ :: s.maps, stats := st } segs := by
  obtain ⟨L, K⟩ := I.map_new a total hp hm
  have L' : Layout shared { s with mem := m, maps := ⟨a, total⟩ :: s.maps, stats := st } lo segs
      lists := L.of_fields rfl rfl rfl rfl rfl rfl rfl rfl rfl
  have K' : Keeps s segs { s with mem := m, maps := ⟨a, total⟩ :: s.maps, stats := st } segs :=
    K.congr_right rfl rfl rfl
  refine ⟨I.add L' I.settled K' (a := a) (n := total) (t := 1)
    ⟨rfl, hroom, hF, hreq, Or.inr ⟨rfl, by simp, hbig⟩⟩ ?_
    (fun mp h => I.placeable_ne hp h) hA hfr, K'⟩
  -- the heap ends below the mapping, or begins above it
  intro g hg hk ha
  have hb := I.rep.tiles.bounds hg
  have hfl := I.rep.floor
  have h1 := hp.2.2.2.2.1
  have h2 := hp.2.2.1
  omega

/-- A large request gets a mapping of its own. -/
theorem mmapAlloc (I : Heap shared s live lo segs lists) (o : Oracle) {size : Nat} (h0 : size ≠ 0)
    (hmax : size ≤ maxAllowed) (hbig : mmapThreshold ≤ totalSize size) :
    ∃ p s', mmapAlloc s o size (totalSize size) = .ok (p, s') ∧
      MallocBlocks shared s live segs size p s' := by
  obtain ⟨h80, h16, hroom, hsize⟩ := totalSize_bounds h0 hmax
  generalize totalSize size = total at *
  unfold MemoryMonitor.mmapAlloc State.mmap
  cases ho : o.mmapAt with
  | none => exact ⟨0, s, rfl, I.null_result I (Keeps.refl _ _) (.refl _ _)⟩
  | some a =>
    simp only
    by_cases hp : s.Placeable s.maps a total
    · rw [if_pos hp]
      simp only
      rw [State.deref_pos (Or.inr ⟨⟨a, total⟩, by simp, le_refl _, le_refl _⟩), ok_bind]
      generalize hm : putFooter (setPrev (setNext (setIsMmap (setBlockSize (setRequestedSize
        (setIsFree (setMagicHeader (overwrite s.mem a total fun _ => 0) a allocMagicHeader) a 0) a
        size) a total) a 1) a 0) a 0) (a + total - 16) total = m
      have hlim := hp.2.2.2.1
      have ha16 := hp.1
      have hapos := hp.2.1
      unfold addrLimit at hlim
      obtain ⟨hF, hreq, hme⟩ := formed_mapped size (by omega) h80 (by omega) h16 hsize hm.symm
      obtain ⟨hfin, K⟩ := I.add_mapped { s.stats with
          totalAllocated := addSize s.stats.totalAllocated size
          mmapAllocations := addSize s.stats.mmapAllocations 1 }
        hp (hme.trans (overwrite_eqOn ..)) hroom hF hreq hbig rfl rfl
      refine ⟨_, _, rfl, I.block_result hfin K (.refl _ _) (by omega) ?_⟩
      intro mp hmp
      have := I.placeable_ne hp hmp
      omega
    · rw [if_neg hp]
      exact ⟨0, s, rfl, I.null_result I (Keeps.refl _ _) (.refl _ _)⟩

/-- **`my_malloc` never faults and keeps the invariant**, and the free blocks apart. -/
theorem myMalloc_blocks (I : Heap shared s live lo segs lists) (o : Oracle) (size : Nat) :
    ∃ p s', MemoryMonitor.myMalloc s o size = .ok (p, s') ∧
      MallocBlocks shared s live segs size p s' := by
  unfold MemoryMonitor.myMalloc
  by_cases h0 : size = 0
  · rw [if_pos h0]
    exact ⟨0, s, rfl, I.null_result I (Keeps.refl _ _) (.refl _ _)⟩
  by_cases hmax : maxAllowed < size
  · rw [if_neg h0, if_pos hmax]
    exact ⟨0, s, rfl, I.null_result I (Keeps.refl _ _) (.refl _ _)⟩
  rw [if_neg h0, if_neg hmax]
  simp only
  by_cases hbig : mmapThreshold ≤ totalSize size
  · rw [if_pos hbig]
    exact I.mmapAlloc o h0 (by omega) hbig
  rw [if_neg hbig]
  rcases I.rep.freeListFindFit_cases (totalSize size) with
    hf | ⟨a, n, pre, post, s₁, hseg, ha, hle, hf, hrem⟩
  · rw [hf, ok_bind]
    simp only [if_true]
    cases he : MemoryMonitor.extendHeap s o (totalSize size) with
    | mk block s₁ =>
      simp only
      rcases I.extendHeap o h0 (by omega) he with ⟨hb, hres⟩ | ⟨hb, hres⟩
      · rw [if_pos hb]
        exact ⟨0, s₁, rfl, hres⟩
      · rw [if_neg hb]
        exact ⟨_, _, rfl, hres⟩
  · rw [hf, ok_bind]
    simp only [if_neg ha]
    obtain ⟨s₂, hs, hres⟩ := I.foundBlock h0 (by omega) hseg hle hrem
    rw [hs, ok_bind]
    exact ⟨_, _, rfl, hres⟩

theorem myMalloc (I : Heap shared s live lo segs lists) (o : Oracle) (size : Nat) :
    ∃ p s', MemoryMonitor.myMalloc s o size = .ok (p, s') ∧ MallocResult shared s live size p s' := by
  obtain ⟨p, s', hr, R⟩ := I.myMalloc_blocks o size
  exact ⟨p, s', hr, R.toMallocResult⟩

end Heap

end MemoryMonitor
