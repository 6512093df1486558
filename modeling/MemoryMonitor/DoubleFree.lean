import MemoryMonitor.Effects
import MemoryMonitor.StaleHeaders

/-! # Double free and use after free

A pointer that was given back must not be freed or resized again, and `my_free` and
`my_realloc` notice when it is.  The block may be long gone by then: merged into a
neighbour, cut, handed out to somebody else, its header half overwritten.  As long as
nobody stores into the payloads, what is left of it never passes the checks.

The reason is that in such runs the heap is `Clean`: whatever in it looks like the header
of a block in use begins a block.  So the pointer leads to no block, and then a canary, the
size or the footer is wrong, or to a block that is free, and then the flag says so.
-/
namespace MemoryMonitor

open ByteMemory Tiling Coalescing

/-- The blocks that the walk from `heap_start` meets. -/
def State.blockStarts (s : State) : Set Nat :=
  {b | ∃ blocks, Walk s.mem s.heapStart blocks s.brk ∧ b ∈ blocks}

/-- **Only blocks look used**, in a heap of less than 2 GiB. -/
def State.Clean (s : State) : Prop := NoStale s.mem s.heapStart s.brk s.blockStarts

variable {s s' : State} {live rest : List Alloc} {e : Alloc} {lo a n : Nat} {segs : List Seg}
variable {lists : Fin 8 → List Nat}

/-- The blocks are the spans. -/
theorem HeapRep.clean_iff (H : HeapRep s lo segs lists) (hst : s.heapStart ≠ 0)
    (hwork : ∀ g ∈ segs, g.kind ≠ .work) (hgap : ∀ g ∈ segs, g.kind ≠ .gap) :
    s.Clean ↔ NoStale s.mem lo s.brk (starts segs) := by
  have hlo : s.heapStart = lo := H.start.resolve_right fun h => hst h.1
  have W := (H.wellFormed hlo hwork hgap).walk
  have hb : s.blockStarts = starts segs := by
    ext b
    constructor
    · rintro ⟨blocks, hw, hb⟩
      rw [hw.unique W] at hb
      exact hb
    · exact fun hb => ⟨_, W, hb⟩
  rw [State.Clean, hb, hlo]

theorem Heap.clean_iff (I : Heap False s live lo segs lists) (hst : s.heapStart ≠ 0) :
    s.Clean ↔ NoStale s.mem lo s.brk (starts segs) :=
  I.rep.clean_iff hst I.settled fun g hg hk => I.gapped g hg hk

/-- The end of an edit that leaves no work span. -/
theorem Edit.clean {segs₀ : List Seg} {s₀ : State} (E : Edit s₀ s lo segs₀ segs lists)
    (hst : s₀.heapStart ≠ 0) (hwork : ∀ g ∈ segs, g.kind ≠ .work)
    (hgap : ∀ g ∈ segs₀, g.kind ≠ .gap) (N : NoStale s.mem lo s₀.brk (starts segs)) : s.Clean := by
  have hst' : s.heapStart ≠ 0 := by
    rw [E.same]
    exact hst
  have hbrk : s.brk = s₀.brk := by rw [E.same]
  refine (E.rep.clean_iff hst' hwork fun g hg hk => hgap g (E.gaps g hg hk) hk).mpr ?_
  rw [hbrk]
  exact N

/-! ## `my_free` -/

/-- **Freeing a block of the heap** leaves it clean. -/
theorem Heap.freeHeap_clean {pre post : List Seg} {out : Option Mapping}
    (I : Heap False s (e :: rest) lo (pre ++ ⟨a, n, .used⟩ :: post) lists)
    (h : Held s (pre ++ ⟨a, n, .used⟩ :: post) e a n 0) (hst : s.heapStart ≠ 0) (hC : s.Clean)
    (hr : MemoryMonitor.myFreeLocked s e.ptr = .ok (out, s')) : s'.Clean := by
  have hF := h.formed
  have hset := (forall_mid.mp I.settled).2
  have N := (I.clean_iff hst).mp hC
  unfold MemoryMonitor.myFreeLocked at hr
  rw [if_neg (by rw [h.ptr_eq]; omega), h.ptr_eq] at hr
  simp only [Nat.add_sub_cancel] at hr
  rw [I.validateBlock h, ok_bind, hF.mmap_eq, h.requested, if_neg (by decide)] at hr
  have L₀ : Layout False { s with stats := s.stats.free e.size } lo (pre ++ ⟨a, n, .used⟩ :: post)
      lists := I.toLayout.of_fields rfl rfl rfl rfl rfl rfl rfl rfl rfl
  have L₁ := L₀.open_used
  have hfree : Set.EqOn (setIsFree s.mem a 1) s.mem (range a n)ᶜ :=
    (writeLE_eqOn ..).mono (Set.compl_subset_compl.mpr (range_subset (by omega)
      (by have := hF.size_ge; omega)))
  have E₁ := (Edit.refl L₁.rep).write_span (a := a) (n := n) (by simp) hfree
  have hF₁ : Formed (setIsFree s.mem a 1) a n 1 0 := hF.set_isFree (by decide)
  have N₁ : NoStale (setIsFree s.mem a 1) lo s.brk (starts (pre ++ ⟨a, n, .work⟩ :: post)) := by
    rw [starts_congr (k := n) (d := .used)]
    exact N.canary hF.addr_aligned mem_starts_mid (writeLE_granule _ (by omega) (by omega)) hF₁.magic
  obtain ⟨s₂, n₂, post₂, lists₂, hr₂, E₂, hF₂, hset₂, hnext⟩ := E₁.coalesceNext L₁.blank hF₁ hset
  have N₂ : NoStale s₂.mem lo s.brk (starts (pre ++ ⟨a, n₂, .work⟩ :: post₂)) := by
    rcases hnext with ⟨k, t, rfl, rfl, hrem, rfl⟩ | ⟨rfl, rfl, rfl, -⟩
    · exact N₁.coalesceNext E₁ hF₁ hrem
    · exact N₁
  obtain ⟨s₃, a₃, n₃, f₃, pre₃, lists₃, hr₃, E₃, hF₃, hset₃, hprev⟩ :=
    E₂.coalescePrev L₁.blank hF₂ hset₂
  have N₃ : NoStale s₃.mem lo s.brk (starts (pre₃ ++ ⟨a₃, n₃, .work⟩ :: post₂)) := by
    rcases hprev with ⟨k, t, rfl, rfl, hrem, rfl⟩ | ⟨rfl, rfl, rfl, rfl, -⟩
    · simp only [List.append_assoc, List.singleton_append] at N₂ E₂
      have ha := E₂.rep.tiles.next_addr
      simp only at ha
      subst ha
      exact N₂.coalescePrev E₂ hF₂ hrem
    · exact N₂
  obtain ⟨s₄, lists₄, hr₄, E₄, -⟩ := E₃.insert hF₃
  have N₄ := N₃.insert E₃.rep hF₃ hr₄
  simp only [Stats.free] at hr₂
  rw [hr₂, ok_bind, hr₃, ok_bind, hr₄, ok_bind] at hr
  obtain ⟨-, rfl⟩ := Prod.mk.inj (Except.ok.inj hr)
  exact E₄.clean hst (forall_mid.mpr ⟨by simp, hset₃⟩) (fun g hg hk => L₁.gapped g hg hk) N₄

/-- **`my_free` leaves the heap clean.** -/
theorem Heap.myFreeLocked_clean {out : Option Mapping} (I : Heap False s (e :: rest) lo segs lists)
    (hst : s.heapStart ≠ 0) (hC : s.Clean)
    (hr : MemoryMonitor.myFreeLocked s e.ptr = .ok (out, s')) : s'.Clean := by
  obtain ⟨a, n, t, h⟩ := I.held e (List.mem_cons_self ..)
  rcases h.place with ⟨rfl, hg⟩ | ⟨rfl, -, -⟩
  · obtain ⟨pre, post, rfl⟩ := List.append_of_mem hg
    exact I.freeHeap_clean h hst hC hr
  · rw [(I.freeMapped h).1] at hr
    obtain ⟨-, rfl⟩ := Prod.mk.inj (Except.ok.inj hr)
    exact hC

/-! ## `my_malloc` -/

/-- A free block that fits is cut to size and handed out. -/
theorem Heap.foundBlock_clean {pre post : List Seg} {size : Nat} {s₁ s₂ : State}
    (I : Heap False s live lo (pre ++ ⟨a, n, .free⟩ :: post) lists) (hst : s.heapStart ≠ 0)
    (hC : s.Clean) (h0 : size ≠ 0) (hmax : size ≤ maxAllowed) (hle : totalSize size ≤ n)
    (hr : freeListRemove s a = .ok s₁) (hs : splitFound s₁ a (totalSize size) = .ok s₂) :
    (handOut s₂ a size).Clean := by
  obtain ⟨h80, h16, -, hsize⟩ := totalSize_bounds h0 hmax
  generalize totalSize size = total at *
  have hset := (forall_mid.mp I.settled).2
  have N₁ := ((I.clean_iff hst).mp hC).remove I.rep hr
  obtain ⟨s₁', lists₁, hr', E₁, hF₁, -⟩ := (Edit.refl I.rep).remove
  obtain rfl := Except.ok.inj (hr'.symm.trans hr)
  obtain ⟨s₂', n₂, post₂, lists₂, hs', E₂, hH₂, -, hset₂, hpost⟩ :=
    E₁.splitFound hF₁ h80 hle h16 hset
  obtain rfl := Except.ok.inj (hs'.symm.trans hs)
  have N₂ : NoStale s₂'.mem lo s.brk (starts (pre ++ ⟨a, n₂, .work⟩ :: post₂)) := by
    rcases hpost with ⟨rfl, rfl, rfl⟩ | ⟨rfl, rfl, hroom⟩
    · exact N₁
    · exact N₁.splitFound E₁ hF₁ h80 hroom h16 hs
  have N₃ : NoStale (MemoryMonitor.handOut s₂' a size).mem lo s.brk _ :=
    N₂.handOut mem_starts_mid hH₂
  obtain ⟨m₃, hout, E₃, hF₃, -⟩ := E₂.handOut hH₂ hsize
  rw [starts_congr (k := n₂) (d := .used)] at N₃
  rw [hout] at N₃ ⊢
  exact E₃.clean hst (forall_mid.mpr ⟨by simp, hset₂⟩) (fun g hg hk => I.gapped g hg hk) N₃

/-- The heap grows by a block of zero bytes, which is handed out. -/
theorem Heap.extendHeap_clean {size block : Nat} {o : Oracle} (I : Heap False s live lo segs lists)
    (hst : s.heapStart ≠ 0) (hC : s.Clean) (hpeak : s.brkPeak = s.brk) (h0 : size ≠ 0)
    (hmax : size ≤ maxAllowed) (hr : MemoryMonitor.extendHeap s o (totalSize size) = (block, s'))
    (hsmall : s'.brk < s'.heapStart + 2 ^ 31) :
    block = 0 ∧ s' = s ∨ block ≠ 0 ∧ (handOut s' block size).Clean := by
  obtain ⟨h80, h16, -, hsize⟩ := totalSize_bounds h0 hmax
  generalize totalSize size = total at *
  have hal : s.brk % 16 = 0 := by
    by_contra h
    exact I.unaligned hst h
  have hlo : s.heapStart = lo := I.rep.start.resolve_right fun h => hst h.1
  have hle := I.rep.tiles.le
  unfold MemoryMonitor.extendHeap at hr
  rw [prepareBreak_ready o (by rw [I.init]; exact hst) hst I.rep.brk_ne_ptrFailed hal] at hr
  simp only at hr
  cases hs : s.sbrk o total false with
  | none =>
    rw [hs] at hr
    obtain ⟨rfl, rfl⟩ := Prod.mk.inj hr
    exact Or.inl ⟨rfl, rfl⟩
  | some r =>
    obtain ⟨b, s₂⟩ := r
    rw [hs] at hr
    obtain ⟨L₂, -⟩ := I.sbrk (k := .work) hs (by omega) hst (Or.inr ⟨rfl, rfl⟩) (by omega) (by omega)
    obtain ⟨rfl, hlim, -, hs₂⟩ := sbrk_some hs
    obtain ⟨rfl, hs'⟩ := Prod.mk.inj hr
    unfold addrLimit at hlim
    have hbrk : s'.brk = s.brk + total := by rw [← hs', hs₂]
    have hhs : s'.heapStart = lo := by rw [← hs', hs₂, ← hlo]
    refine Or.inr ⟨by omega, ?_⟩
    -- the new bytes are zero, and the new block is the only one to get a header
    have N₁ : NoStale s₂.mem lo s'.brk (starts segs) := by
      refine ((I.clean_iff hst).mp hC).extend hal (by omega) (by omega) (by omega) ?_ ?_
      · intro x _ hx
        rw [hs₂]
        exact overwrite_of_disjoint (by omega)
      · intro x hx hx'
        rw [hs₂]
        simp only
        rw [overwrite_of_mem (by omega), State.uncovered, if_neg (by omega)]
    have hT : s.brk ∈ starts (segs ++ [⟨s.brk, total, .used⟩]) := mem_starts_mid
    have hmore : starts segs ⊆ starts (segs ++ [⟨s.brk, total, .used⟩]) := by
      intro x hx
      simp only [mem_starts, List.mem_append] at hx ⊢
      grind
    have hH := headed_new (m := s₂.mem) hal h80 (by omega) h16
    have N₂ := ((N₁.mono hmore).newHeader hal hT h16).newLinks hal hT (by
      have : blockSize (setBlockSize (setMagicHeader s₂.mem s.brk allocMagicHeader) s.brk total)
          s.brk = total := readLE_writeLE_same (by omega)
      rw [this]
      exact h16)
    have hm : s'.mem = setPrev (setNext (setIsMmap (setBlockSize (setMagicHeader s₂.mem s.brk
        allocMagicHeader) s.brk total) s.brk 0) s.brk 0) s.brk 0 := by rw [← hs']
    rw [← hm] at hH N₂
    obtain ⟨L₃, -⟩ := Heap.newBlock size (r := s') L₂ hal h80 h16 hsize (by rw [← hs']) hm
    have hst' : s'.heapStart ≠ 0 := by
      rw [hhs, ← hlo]
      exact hst
    refine (L₃.rep.clean_iff hst' ?_ fun g hg hk => L₃.gapped g hg hk).mpr (N₂.handOut hT hH)
    exact forall_mid.mpr ⟨by simp, by simpa using I.settled⟩

/-- What happens outside the heap does not matter. -/
theorem Heap.clean_outside (I : Heap False s live lo segs lists) (hst : s.heapStart ≠ 0)
    (hC : s.Clean) (hm : ∀ x, s.brkFloor ≤ x → x < s.brk → s'.mem x = s.mem x)
    (hh : s'.heads = s.heads) (hs : s'.heapStart = s.heapStart) (hf : s'.brkFloor = s.brkFloor)
    (hb : s'.brk = s.brk) : s'.Clean := by
  have hfl := I.rep.floor
  have hal : s.brk % 16 = 0 := by
    by_contra h
    exact I.unaligned hst h
  have H : HeapRep s' lo (segs ++ []) lists :=
    I.rep.extend (fun x h1 h2 => hm x (by omega) h2) hh hs hf (by rw [hb]; rfl) (by simp)
      (by rw [hb]; exact I.rep.limit) (Or.inl rfl)
  rw [List.append_nil] at H
  have N := (I.clean_iff hst).mp hC
  refine (H.clean_iff (by rw [hs]; exact hst) I.settled fun g hg hk => I.gapped g hg hk).mpr ?_
  rw [hb]
  exact N.extend hal hal (le_refl _) N.small (fun x h1 h2 => hm x (by omega) h2)
    fun x h1 h2 => absurd h1 (by omega)

/-- A mapping lies outside the heap. -/
theorem Heap.mmapAlloc_clean {size p : Nat} {o : Oracle} (I : Heap False s live lo segs lists)
    (hst : s.heapStart ≠ 0) (hC : s.Clean) (h0 : size ≠ 0) (hmax : size ≤ maxAllowed)
    (hr : MemoryMonitor.mmapAlloc s o size (totalSize size) = .ok (p, s')) : s'.Clean := by
  obtain ⟨h80, h16, -, hsize⟩ := totalSize_bounds h0 hmax
  generalize totalSize size = total at *
  unfold MemoryMonitor.mmapAlloc State.mmap at hr
  cases ho : o.mmapAt with
  | none =>
    rw [ho] at hr
    cases hr
    exact hC
  | some a =>
    simp only [ho] at hr
    by_cases hp : s.Placeable s.maps a total
    · rw [if_pos hp] at hr
      obtain ⟨_, -, hr⟩ := bind_ok hr
      obtain ⟨-, hs'⟩ := Prod.mk.inj (Except.ok.inj hr)
      have ha := hp.1
      have hlim := hp.2.2.2.1
      have hout := hp.2.2.2.2.1
      unfold addrLimit at hlim
      obtain ⟨-, -, hm⟩ := formed_mapped (m := overwrite s.mem a total fun _ => 0) (a := a) size
        (by omega) h80 (by omega) h16 hsize (congrArg State.mem hs').symm
      refine I.clean_outside hst hC (fun x h1 h2 => ?_) ?_ ?_ ?_ ?_
      · refine hm.trans (overwrite_eqOn ..) ?_
        rw [Set.mem_compl_iff, mem_range]
        omega
      all_goals rw [← hs']
    · rw [if_neg hp] at hr
      cases hr
      exact hC

/-- **`my_malloc` leaves the heap clean**, as long as it is small and what `sbrk` returns is
zero. -/
theorem Heap.myMalloc_clean {size p : Nat} {o : Oracle} (I : Heap False s live lo segs lists)
    (hst : s.heapStart ≠ 0) (hC : s.Clean) (hpeak : s.brkPeak = s.brk)
    (hr : MemoryMonitor.myMalloc s o size = .ok (p, s')) (hsmall : s'.brk < s'.heapStart + 2 ^ 31) :
    s'.Clean := by
  unfold MemoryMonitor.myMalloc at hr
  by_cases h0 : size = 0
  · rw [if_pos h0] at hr
    cases hr
    exact hC
  by_cases hmax : maxAllowed < size
  · rw [if_neg h0, if_pos hmax] at hr
    cases hr
    exact hC
  rw [if_neg h0, if_neg hmax] at hr
  simp only at hr
  by_cases hbig : mmapThreshold ≤ totalSize size
  · rw [if_pos hbig] at hr
    exact I.mmapAlloc_clean hst hC h0 (by omega) hr
  rw [if_neg hbig] at hr
  rcases I.rep.freeListFindFit_cases (totalSize size) with
    hfit | ⟨a, n, pre, post, s₁, rfl, ha, hle, hfit, hrem⟩
  · rw [hfit, ok_bind] at hr
    simp only [if_true] at hr
    cases he : MemoryMonitor.extendHeap s o (totalSize size) with
    | mk block s₁ =>
      rw [he] at hr
      simp only at hr
      by_cases hb : block = 0
      · rw [if_pos hb] at hr
        obtain ⟨-, rfl⟩ := Prod.mk.inj (Except.ok.inj hr)
        rcases I.extendHeap_clean hst hC hpeak h0 (by omega) he hsmall with ⟨-, rfl⟩ | ⟨hne, -⟩
        · exact hC
        · exact absurd hb hne
      · rw [if_neg hb] at hr
        obtain ⟨-, rfl⟩ := Prod.mk.inj (Except.ok.inj hr)
        rcases I.extendHeap_clean hst hC hpeak h0 (by omega) he hsmall with ⟨hz, -⟩ | ⟨-, hC'⟩
        · exact absurd hz hb
        · exact hC'
  · rw [hfit, ok_bind] at hr
    simp only [if_neg ha] at hr
    obtain ⟨s₂, hs, hr⟩ := bind_ok hr
    obtain ⟨-, rfl⟩ := Prod.mk.inj (Except.ok.inj hr)
    exact I.foundBlock_clean hst hC h0 (by omega) hle hrem hs

/-! ## The checks -/

/-- The state in which every read outside the heap is a crash. -/
def State.heapOnly (s : State) : State := { s with brkFloor := s.heapStart, maps := [] }

/-- A call that was stopped: by `fatal_abort` or by a crash. -/
def Fault.Stops : Fault → Prop
  | .abort _ => True
  | .segv _ => True
  | .diverge => False

theorem check_stops {c : Prop} [Decidable c] {msg : String} {f : Fault}
    (h : check c msg = .error f) : f.Stops := by
  unfold check at h
  split at h
  · cases h
  · obtain rfl := Except.error.inj h
    trivial

theorem deref_stops {f : Fault} (h : s.deref a n = .error f) : f.Stops := by
  unfold State.deref at h
  split at h
  · cases h
  · obtain rfl := Except.error.inj h
    trivial

/-- The checks of a block end. -/
theorem validateBlock_stops {header : Nat} {caller : String} {f : Fault}
    (h : validateBlock s header caller = .error f) : f.Stops := by
  unfold validateBlock at h
  rcases bind_error h with h | ⟨_, -, h⟩
  · exact deref_stops h
  rcases bind_error h with h | ⟨_, -, h⟩
  · exact check_stops h
  rcases bind_error h with h | ⟨_, -, h⟩
  · exact check_stops h
  rcases bind_error h with h | ⟨_, -, h⟩
  · unfold checkBounds at h
    split at h <;> exact check_stops h
  rcases bind_error h with h | ⟨_, -, h⟩
  · exact deref_stops h
  rcases bind_error h with h | ⟨_, -, h⟩
  · exact check_stops h
  · exact check_stops h

/-- What passes the checks without a read outside the heap looks used. -/
theorem looksUsed_of_validateBlock {header : Nat} {caller : String}
    (h : validateBlock s.heapOnly header caller = .ok ()) :
    s.heapStart ≤ header ∧ LooksUsed s.mem s.brk header := by
  have hin : ∀ {b k : Nat}, s.heapOnly.Accessible b k → s.heapStart ≤ b ∧ b + k ≤ s.brk := by
    rintro b k (hb | ⟨mp, hmp, -⟩)
    · exact hb
    · cases hmp
  unfold validateBlock at h
  obtain ⟨_, hread, h⟩ := bind_ok h
  obtain ⟨_, hmagic, h⟩ := bind_ok h
  obtain ⟨_, hsize, h⟩ := bind_ok h
  obtain ⟨_, -, h⟩ := bind_ok h
  obtain ⟨_, hfooter, h⟩ := bind_ok h
  obtain ⟨_, hfoot, h⟩ := bind_ok h
  have hsize : 64 ≤ blockSize s.mem header := check_ok hsize
  have hfooter : _ ∧ header + blockSize s.mem header - 16 + 16 ≤ s.brk := hin (State.deref_ok hfooter)
  have hfoot := check_ok hfoot
  exact ⟨(hin (State.deref_ok hread)).1,
    check_ok hmagic, check_ok h, hsize, by omega, hfoot.1, hfoot.2⟩

/-- **In a clean heap only live pointers pass the checks.** -/
theorem Tidy.validateBlock_error (T : Tidy s live lo segs lists) (hst : s.heapStart ≠ 0)
    (hC : s.Clean) {p : Nat} (h16 : p % 16 = 0) (hdead : ∀ e ∈ live, e.ptr ≠ p) (caller : String) :
    ∃ f : Fault, f.Stops ∧ validateBlock s.heapOnly (p - 48) caller = .error f := by
  cases hv : validateBlock s.heapOnly (p - 48) caller with
  | error f => exact ⟨f, validateBlock_stops hv, rfl⟩
  | ok u =>
    exfalso
    obtain ⟨hle, L⟩ := looksUsed_of_validateBlock hv
    have N := (T.toHeap.clean_iff hst).mp hC
    have hlo : s.heapStart = lo := T.rep.start.resolve_right fun h => hst h.1
    obtain ⟨g, hg, ha⟩ := mem_starts.mp (N.heads (p - 48) (by omega) (by omega) L)
    cases hk : g.kind with
    | gap => exact T.gapped g hg hk
    | work => exact T.settled g hg hk
    | used =>
      obtain ⟨e, he, hptr⟩ := T.owned g hg hk
      exact hdead e he (by omega)
    | free =>
      have hfree := (T.rep.free g hg hk).free_eq
      rw [ha, L.used] at hfree
      cases hfree

/-! ## Runs of `my_malloc` and `my_free` -/

/-- A call of `my_malloc` or `my_free`; a `my_free` of a mapping goes on with `munmap`. -/
def Sys.MallocOrFree (s : Sys) : Label → Prop
  | .call _ (.malloc _) _ => True
  | .call _ (.free _) _ => True
  | .resume t _ => ∃ mp c ret, s.pc t = .unmap mp c ret
  | _ => False

/-- Clients that call `my_malloc` and `my_free`, and store nothing. -/
def mallocAndFree : Runs.Machine Sys Label Return Fault := clients.restrict Sys.MallocOrFree

/-- What holds in every state of their runs. -/
structure CleanInv (s : Sys) : Prop where
  client : ClientInv s
  tidy : ∃ lo segs lists, Tidy s.st s.live lo segs lists
  peak : s.st.brkPeak = s.st.brk
  clean : s.st.brk < s.st.heapStart + 2 ^ 31 → s.st.Clean

/-- An empty heap is clean. -/
theorem State.clean_of_empty (h : s.heapStart = s.brk) : s.Clean := by
  refine ⟨by omega, fun g _ h1 h2 => absurd h1 (by omega), fun x _ hx L => ?_⟩
  have := L.size_ge
  have := L.fits
  omega

theorem allocatorInit_peak {st : State} {o : Oracle} (h : st.brkPeak = st.brk) :
    (allocatorInit st o).brkPeak = (allocatorInit st o).brk := by
  unfold allocatorInit
  simp only
  cases he : ensureBreakAligned (freeListReset { st with stats := {} }) o with
  | mk ok s₁ =>
    have hpeak := (ensureBreakAligned_grown he).1.peak h
    cases ok with
    | false => exact hpeak
    | true =>
      simp only
      split <;> exact hpeak

namespace CleanInv
variable {s : Sys}

theorem initialised (h : s.Initialised) : CleanInv s := by
  have C := ClientInv.initialised h
  have hreach : clients.Reach Sys.Initialised s := .start h
  obtain ⟨-, st, o, B, hst, -⟩ := h
  have hempty : s.st.heapStart = s.st.brk := by
    have hsz := C.sized
    have h0 : s.st.stats.currentHeapSize = 0 := by
      rw [hst, Tidy.allocatorInit_stats]
    omega
  refine ⟨C, Tidy.of_reach hreach, ?_, fun _ => State.clean_of_empty hempty⟩
  rw [hst]
  exact allocatorInit_peak B.peak

/-- **A step keeps the heap clean.** -/
theorem step {l : Label} {r : Sys × Return} (I : CleanInv s) (ha : mallocAndFree.allowed s l)
    (h : s.step l = .ok r) : CleanInv r.1 := by
  obtain ⟨hl, hq⟩ := ha
  obtain ⟨lo, segs, lists, T⟩ := I.tidy
  have hgrown := (client_quiet hl h).grown
  refine ⟨I.client.step hl h, T.effect (I.client.sys.effect hl h), hgrown.peak I.peak,
    fun hsmall => ?_⟩
  have hstart := (I.client.extent hl h).1
  have hC := I.clean (by have := hgrown.brk; omega)
  cases l with
  | call t c o =>
    cases c with
    | malloc size =>
      obtain ⟨⟨p, st⟩, hm, h⟩ := bind_ok h
      cases h
      exact T.toHeap.myMalloc_clean I.client.begun hC I.peak hm hsmall
    | free ptr =>
      obtain ⟨⟨out, st⟩, hf, h⟩ := bind_ok h
      have hst : r.1.st = st := by
        cases out <;> cases h <;> rfl
      rw [hst]
      rcases hl.2 with h0 | ⟨⟨e, he, hptr⟩, -⟩
      · have h0 : ptr = 0 := h0
        rw [h0] at hf
        cases hf
        exact hC
      · have hptr : e.ptr = ptr := hptr
        rw [← hptr] at hf
        exact (T.toHeap.perm (perm_forget T.nodup he)).myFreeLocked_clean I.client.begun hC hf
    | calloc nmemb size => exact absurd hq id
    | realloc ptr size => exact absurd hq id
  | resume t o =>
    obtain ⟨mp, c, ret, hpc⟩ := hq
    simp only [Sys.step, Sys.resume, hpc] at h
    cases h
    simp only [Sys.finish, State.munmap]
    split <;> exact hC
  | store ptr off b => exact absurd hq id
  | init o => exact absurd hq id
  | destroy o => exact absurd hq id
  | hostSbrk n o => exact absurd hq id
  | hostStore x b => exact absurd hq id

/-- **Every state of a run satisfies the invariant.** -/
theorem of_reach (h : mallocAndFree.Reach Sys.Initialised s) : CleanInv s :=
  h.invariant (P := CleanInv) (fun _ => initialised) fun _ _ _ _ I ha hs => I.step ha hs

end CleanInv

/-- **Double free and use after free are detected.**  Take any run of `my_malloc` and
`my_free` on a heap that stays below 2 GiB, and any pointer `p` that `my_malloc` returned
in it and that is not live any more, whatever became of its block.  Then `my_free(p)` and
`my_realloc(p, n)` do not complete: when a read outside the heap counts as a crash, each
ends in `fatal_abort` or in a crash, and does so in the checks that precede every store to
the lists and to the counters. -/
theorem stale_pointer_detected {s₁ s₂ s : Sys} {t size p : Nat} {o : Oracle}
    (h₁ : mallocAndFree.Reach Sys.Initialised s₁)
    (hcall : mallocAndFree.allowed s₁ (.call t (.malloc size) o))
    (hret : mallocAndFree.step s₁ (.call t (.malloc size) o) = .ok (s₂, some (.malloc size, p)))
    (hp : p ≠ 0) (h : mallocAndFree.Reach (· = s₂) s)
    (hsmall : s.st.brk < s.st.heapStart + 2 ^ 31) (hdead : ∀ e ∈ s.live, e.ptr ≠ p) (o' : Oracle) :
    (∃ f : Fault, f.Stops ∧ validateBlock s.st.heapOnly (p - 48) "my_free" = .error f ∧
      myFree s.st.heapOnly o' p = .error f) ∧
    ∀ n, 1 ≤ n → n ≤ maxAllowed → ∃ f : Fault, f.Stops ∧
      validateBlock s.st.heapOnly (p - 48) "my_realloc" = .error f ∧
      myRealloc s.st.heapOnly o' p n = .error f := by
  have I : CleanInv s := h.invariant (P := CleanInv)
    (fun _ hs => by rw [hs]; exact (CleanInv.of_reach h₁).step hcall hret)
    fun _ _ _ _ I ha hs => I.step ha hs
  obtain ⟨lo, segs, lists, T⟩ := I.tidy
  have h16 : p % 16 = 0 := by
    have C := ClientInv.of_reach h₁.of_restrict
    have hmay : s₁.ClientMay (.call t (.malloc size) o) := hcall.1
    obtain ⟨r, hstep, R⟩ := C.sys.client_step hmay
    obtain rfl := Except.ok.inj (hstep.symm.trans hret)
    exact (C.step hmay hret).sys.inv.ptr_aligned (R.returned _ p rfl hp)
  have hcheck := T.validateBlock_error I.client.begun (I.clean hsmall) h16 hdead
  constructor
  · obtain ⟨f, hf, hv⟩ := hcheck "my_free"
    refine ⟨f, hf, hv, ?_⟩
    unfold myFree myFreeLocked
    rw [if_neg hp]
    simp only [hv]
    rfl
  · intro n h0 hmax
    obtain ⟨f, hf, hv⟩ := hcheck "my_realloc"
    refine ⟨f, hf, hv, ?_⟩
    unfold myRealloc myReallocLocked
    rw [if_neg hp, if_neg (by omega), if_neg (by omega)]
    simp only [hv]
    rfl

/-- A call of `my_malloc` or `my_free`. -/
def Label.isMallocOrFree : Label → Bool
  | .call _ (.malloc _) _ => true
  | .call _ (.free _) _ => true
  | _ => false

theorem Label.mallocOrFree {l : Label} (h : l.isMallocOrFree = true) (s : Sys) :
    s.MallocOrFree l := by
  unfold Label.isMallocOrFree at h
  split at h
  · trivial
  · trivial
  · cases h

/-- The calls of the first thread, one after the other. -/
def soloExec (s : Sys) (is : List Label) : Option Sys :=
  mallocAndFree.exec (fun s l => s.clientCheck l && l.isMallocOrFree) s is

/-- A computed run of the first thread. -/
theorem mallocAndFree_exec {init : Sys → Prop} {is : List Label} {s s' : Sys}
    (h : mallocAndFree.Reach init s) (hs : s.Solo)
    (he : soloExec s is = some s') :
    mallocAndFree.Reach init s' ∧ s'.Solo := by
  refine Runs.Machine.Reach.exec (P := Sys.Solo) ?_ h hs he
  intro s l s' out hs hc hstep
  obtain ⟨hc, hl⟩ := (Bool.and_eq_true _ _).mp hc
  exact ⟨⟨hs.clientMay hc, Label.mallocOrFree hl s⟩, Sys.Solo.step hs hstep (by rw [hc]; rfl)⟩

/-- The block of the pointer was freed, and then taken in by the block in front of it,
which left its header with `is_free` cleared. -/
theorem stale_pointer_detected_absorbed : ∃ s : Sys,
    mallocAndFree.Reach Sys.Initialised s ∧ isFree s.st.mem 4272 = 0 ∧
    magicHeader s.st.mem 4272 = allocMagicHeader ∧
    (∃ f : Fault, f.Stops ∧ myFree s.st.heapOnly {} 4320 = .error f) ∧
    ∃ f : Fault, f.Stops ∧ myRealloc s.st.heapOnly {} 4320 10 = .error f := by
  have hrun : (soloExec freshSys [.call 0 (.malloc 100) {}]).bind (fun s₁ =>
      (mallocAndFree.step s₁ (.call 0 (.malloc 40) {})).toOption.bind fun r =>
        (soloExec r.1 [.call 0 (.free 4320) {}, .call 0 (.free 4144) {}]).map fun s =>
          (r.2, s₁.clientCheck (.call 0 (.malloc 40) {}), s.live,
            [s.st.brk, s.st.heapStart, isFree s.st.mem 4272, magicHeader s.st.mem 4272])) =
      some (some (.malloc 40, 4320), true, [], [4384, 4096, 0, allocMagicHeader]) := by
    decide +kernel
  obtain ⟨s₁, h₁, hrun⟩ := Option.bind_eq_some_iff.mp hrun
  obtain ⟨⟨s₂, out⟩, hstep, hrun⟩ := Runs.ok_of_bind hrun
  obtain ⟨s, h, hrun⟩ := Option.map_eq_some_iff.mp hrun
  simp only [Prod.mk.injEq, List.cons.injEq] at hrun
  obtain ⟨rfl, hcheck, hlive, hbrk, hstart, hfree, hmagic, -⟩ := hrun
  obtain ⟨hreach₁, hsolo₁⟩ := mallocAndFree_exec (.start freshSys_initialised) (fun _ _ => rfl) h₁
  have hcall : mallocAndFree.allowed s₁ (.call 0 (.malloc 40) {}) :=
    ⟨hsolo₁.clientMay hcheck, trivial⟩
  have hsolo₂ : s₂.Solo := hsolo₁.step (l := .call 0 (.malloc 40) {}) hstep (by rw [hcheck]; rfl)
  have hstart₂ : mallocAndFree.Reach (· = s₂) s₂ := .start rfl
  obtain ⟨hreach, -⟩ := mallocAndFree_exec hstart₂ hsolo₂ h
  obtain ⟨⟨f, hf, -, hmyFree⟩, hrealloc⟩ := stale_pointer_detected hreach₁ hcall hstep (by decide)
    hreach (by omega) (by rw [hlive]; simp) {}
  obtain ⟨f', hf', -, hmyRealloc⟩ := hrealloc 10 (by decide) (by decide)
  exact ⟨s, (mallocAndFree_exec (hreach₁.next hcall hstep) hsolo₂ h).1, hfree, hmagic,
    ⟨f, hf, hmyFree⟩, f', hf', hmyRealloc⟩

end MemoryMonitor
