import MemoryMonitor.HeapWalk
import MemoryMonitor.SoloRun

/-! # The contract with the clients

The runs of the clients alone: the allocator was initialised once, and from then on
any number of threads call it and store into what they got.  In every state of such
a run the heap is well formed and the books balance, and no next step can fault or
touch what belongs to another allocation.
-/
namespace MemoryMonitor

open ByteMemory Tiling LinkedChain

/-! ## The invariant of the runs -/

/-- What holds in every state of the runs of the clients. -/
structure ClientInv (s : Sys) : Prop where
  sys : SysInv False s
  begun : s.st.heapStart ≠ 0
  sized : s.st.heapStart + s.st.stats.currentHeapSize = s.st.brk

/-- Aligning the break leaves the allocator's globals alone. -/
theorem ensureBreakAligned_frame {s s' : State} {o : Oracle} {ok : Bool}
    (h : ensureBreakAligned s o = (ok, s')) :
    s'.heapStart = s.heapStart ∧ s'.initialBreak = s.initialBreak ∧ s'.stats = s.stats := by
  unfold ensureBreakAligned at h
  split at h
  · obtain ⟨-, rfl⟩ := Prod.mk.inj h
    exact ⟨rfl, rfl, rfl⟩
  · split at h
    · split at h
      · obtain ⟨-, rfl⟩ := Prod.mk.inj h
        exact ⟨rfl, rfl, rfl⟩
      · rename_i b s₁ hs
        obtain ⟨-, rfl⟩ := Prod.mk.inj h
        obtain ⟨-, -, -, rfl⟩ := sbrk_some hs
        exact ⟨rfl, rfl, rfl⟩
    · obtain ⟨-, rfl⟩ := Prod.mk.inj h
      exact ⟨rfl, rfl, rfl⟩

/-- A successful initialisation puts the empty heap at the break. -/
theorem allocatorInit_begun {st : State} {o : Oracle} (B : Boot st)
    (h : (allocatorInit st o).heapStart ≠ 0) :
    (allocatorInit st o).heapStart + (allocatorInit st o).stats.currentHeapSize =
      (allocatorInit st o).brk := by
  unfold allocatorInit at h ⊢
  simp only at h ⊢
  cases he : ensureBreakAligned (freeListReset { st with stats := {} }) o with
  | mk ok s₁ =>
    obtain ⟨h1, h2, h3⟩ := ensureBreakAligned_frame he
    rw [he] at h
    have hst : s₁.heapStart = 0 := h1.trans B.heapStart
    have hinit : s₁.initialBreak = 0 := h2.trans B.initialBreak
    cases ok with
    | false => exact absurd hst h
    | true =>
      simp only [hinit] at h ⊢
      split
      · simp only [h3, if_true]
        rfl
      · rename_i hbrk
        rw [if_neg hbrk] at h
        exact absurd hst h

theorem ClientInv.initialised {s : Sys} (h : s.Initialised) : ClientInv s := by
  have I : SysInv False s := .initialised h
  obtain ⟨-, st, o, B, hst, hbegun⟩ := h
  refine ⟨I, hbegun, ?_⟩
  rw [hst] at hbegun ⊢
  exact allocatorInit_begun B hbegun

/-- The break of an unshared heap that has begun is aligned. -/
theorem ClientInv.aligned {s : Sys} (C : ClientInv s) : s.st.brk % 16 = 0 := by
  obtain ⟨lo, segs, lists, I⟩ := C.sys.inv
  by_contra h
  exact I.unaligned C.begun h

/-- A step leaves the start of the heap where it is, and the extent follows the break. -/
theorem ClientInv.extent {s : Sys} {l : Label} {r : Sys × Return} (C : ClientInv s)
    (hl : s.ClientMay l) (h : s.step l = .ok r) :
    r.1.st.heapStart = s.st.heapStart ∧
      r.1.st.heapStart + r.1.st.stats.currentHeapSize = r.1.st.brk := by
  rcases client_quiet hl h with ⟨-, hq⟩ | ⟨size, o, p, -, hm⟩
  · refine ⟨hq.heapStart, ?_⟩
    rw [hq.heapStart, hq.currentHeapSize, hq.brk]
    exact C.sized
  · obtain ⟨lo, segs, lists, I⟩ := C.sys.inv
    have hinit : s.st.initialBreak ≠ 0 := by
      rw [I.init]
      exact C.begun
    exact myMalloc_sized hm hinit C.begun I.rep.limit C.aligned C.sized

/-- **A step of a client keeps the invariant.** -/
theorem ClientInv.step {s : Sys} {l : Label} {r : Sys × Return} (C : ClientInv s)
    (hl : s.ClientMay l) (h : s.step l = .ok r) : ClientInv r.1 := by
  obtain ⟨hst, hsized⟩ := C.extent hl h
  obtain ⟨r', hr', R⟩ := C.sys.client_step hl
  rw [hr'] at h
  obtain rfl := Except.ok.inj h
  exact ⟨R.inv, by rw [hst]; exact C.begun, hsized⟩

/-- **Every state of a run of the clients satisfies the invariant.** -/
theorem ClientInv.of_reach {s : Sys} (h : clients.Reach Sys.Initialised s) : ClientInv s :=
  h.invariant (fun _ => .initialised) fun _ _ _ _ C hl hs => C.step hl hs

/-- An unshared heap that has begun is well formed. -/
theorem Heap.wellFormed {s : State} {live : List Alloc} {lo : Nat} {segs : List Seg}
    {lists : Fin 8 → List Nat} (I : Heap False s live lo segs lists) (hst : s.heapStart ≠ 0) :
    WellFormed s (segs.map Span.addr) lists := by
  refine I.rep.wellFormed ?_ I.settled fun g hg hk => I.gapped g hg hk
  rcases I.rep.start with h | ⟨h, -⟩
  · exact h
  · exact absurd h hst

/-! ## A run -/

/-- A process with one page of break area. -/
def freshProcess : State where
  mem := fun _ => 0
  heads := fun _ => 0
  heapStart := 0
  initialBreak := 0
  lastAllocatorBreak := 0
  stats := {}
  brkFloor := 4096
  brk := 4096
  brkPeak := 4096
  maps := []
  hostOwned := fun _ => false

theorem freshProcess_boot : Boot freshProcess := by
  refine ⟨rfl, rfl, rfl, rfl, rfl, ⟨by decide, by decide, by decide, by decide, ?_, ?_⟩, rfl, rfl⟩
  · intro mp hmp
    cases hmp
  · exact List.Pairwise.nil

/-- Its allocator, initialised and not yet called. -/
def freshSys : Sys := ⟨allocatorInit freshProcess {}, [], fun _ => .idle⟩

theorem freshSys_initialised : freshSys.Initialised :=
  ⟨⟨rfl, rfl⟩, freshProcess, {}, freshProcess_boot, rfl, by decide⟩

/-- A computed run of the first thread. -/
theorem clients_exec {is : List Label} {s : Sys}
    (he : clients.exec Sys.clientCheck freshSys is = some s) :
    clients.Reach Sys.Initialised s := by
  refine (Runs.Machine.Reach.exec (P := Sys.Solo) ?_ (.start freshSys_initialised)
    (fun _ _ => rfl) he).1
  intro s l s' out hs hc hstep
  exact ⟨hs.clientMay hc, hs.step hstep (by rw [hc]; rfl)⟩

/-- Three allocations, the last one cleared, a byte stored into the second, and the first
freed. -/
def fewCalls : List Label :=
  [.call 0 (.malloc 100) {}, .call 0 (.malloc 40) {}, .call 0 (.calloc 3 50) {}, .resume 0 {},
    .store 4320 7 9, .call 0 (.free 4144) {}]

/-- What the run leaves behind. -/
structure FewCalls (s : Sys) : Prop where
  idle : s.pc 0 = .idle
  live : s.live = [⟨4432, 150⟩, ⟨4320, 40⟩]
  stored : s.st.mem 4327 = 9
  freed : isFree s.st.mem 4096 = 1
  extent : s.st.heapStart = 4096 ∧ s.st.brk = 4608
  sizes : blockSize s.st.mem 4096 = 176 ∧ blockSize s.st.mem 4272 = 112 ∧ blockSize s.st.mem 4384 = 224
  stats : s.st.stats.totalAllocated = 290 ∧ s.st.stats.totalFreed = 100

theorem exists_fewCalls :
    ∃ s, clients.exec Sys.clientCheck freshSys fewCalls = some s ∧ FewCalls s := by
  have hrun : (clients.exec Sys.clientCheck freshSys fewCalls).map (fun s =>
      (s.pc 0, s.live, s.st.mem 4327, [isFree s.st.mem 4096, s.st.heapStart, s.st.brk,
        blockSize s.st.mem 4096, blockSize s.st.mem 4272, blockSize s.st.mem 4384,
        s.st.stats.totalAllocated, s.st.stats.totalFreed])) =
      some (.idle, [⟨4432, 150⟩, ⟨4320, 40⟩], 9, [1, 4096, 4608, 176, 112, 224, 290, 100]) := by
    decide +kernel
  obtain ⟨s, hs, hout⟩ := Option.map_eq_some_iff.mp hrun
  simp only [Prod.mk.injEq, List.cons.injEq, and_true] at hout
  obtain ⟨hidle, hlive, hstored, hfreed, hstart, hbrk, h₁, h₂, h₃, hstats⟩ := hout
  exact ⟨s, hs, hidle, hlive, hstored, hfreed, ⟨hstart, hbrk⟩, ⟨h₁, h₂, h₃⟩, hstats⟩

/-! ## The heap -/

/-- **The representation invariant.**  In every state of every run of the clients, the
walk from `heap_start` by `block_size` lands exactly on `sbrk(0)` and meets only blocks
in order, and the eight lists are finite, doubly linked and hold exactly the free
blocks of their size class. -/
theorem heap_wellFormed {s : Sys} (h : clients.Reach Sys.Initialised s) :
    ∃ blocks lists, WellFormed s.st blocks lists := by
  have C := ClientInv.of_reach h
  obtain ⟨lo, segs, lists, I⟩ := C.sys.inv
  exact ⟨_, lists, I.wellFormed C.begun⟩

theorem heap_wellFormed_fewCalls :
    ∃ s lists, clients.exec Sys.clientCheck freshSys fewCalls = some s ∧
      WellFormed s.st [4096, 4272, 4384] lists ∧ ∃ i, 4096 ∈ lists i := by
  obtain ⟨s, hs, hrun⟩ := exists_fewCalls
  obtain ⟨blocks, lists, W⟩ := heap_wellFormed (clients_exec hs)
  have hwalk : Walk s.st.mem s.st.heapStart [4096, 4272, 4384] s.st.brk := by
    simp [Walk, hrun.extent, hrun.sizes]
  obtain rfl := W.walk.unique hwalk
  exact ⟨s, lists, hs, W, _, (W.listed _ 4096).mpr ⟨by simp, hrun.freed, rfl⟩⟩

/-! ## The books -/

/-- **Accounting.**  Between critical sections, `total_allocated` is `total_freed` plus
what the headers of the live allocations say was requested, modulo `2 ^ 64`, and
`current_heap_size` is the extent of the heap and the sum of its blocks. -/
theorem accounting_balanced {s : Sys} (h : clients.Reach Sys.Initialised s) :
    s.st.stats.totalAllocated ≡ s.st.stats.totalFreed +
        (s.live.map fun e => requestedSize s.st.mem (e.ptr - 48)).sum [MOD 2 ^ 64] ∧
      s.st.heapStart ≤ s.st.brk ∧ s.st.stats.currentHeapSize = s.st.brk - s.st.heapStart ∧
      ∃ blocks, Walk s.st.mem s.st.heapStart blocks s.st.brk ∧
        s.st.stats.currentHeapSize = (blocks.map (blockSize s.st.mem)).sum := by
  have C := ClientInv.of_reach h
  obtain ⟨lo, segs, lists, I⟩ := C.sys.inv
  have hsized := C.sized
  have W := I.wellFormed C.begun
  have hlo : s.st.heapStart = lo := by
    rcases I.rep.start with h | ⟨h, -⟩
    · exact h
    · exact absurd h C.begun
  refine ⟨?_, by omega, by omega, segs.map Span.addr, W.walk, ?_⟩
  · have hreq : s.live.map (fun e => requestedSize s.st.mem (e.ptr - 48)) = s.live.map Alloc.size := by
      refine List.map_congr_left fun e he => ?_
      obtain ⟨a, n, t, hh⟩ := I.held e he
      rw [hh.ptr_eq, Nat.add_sub_cancel, hh.requested]
    rw [hreq]
    exact I.balance
  · have hsum : (segs.map Span.addr).map (blockSize s.st.mem) = segs.map Span.size := by
      rw [List.map_map]
      refine List.map_congr_left fun g hg => ?_
      obtain ⟨f, hF, -, -⟩ := I.rep.span_cases hg (I.settled g hg) (fun hk => I.gapped g hg hk)
      exact hF.size_eq
    rw [hsum]
    have := I.rep.tiles.sum
    omega

theorem accounting_balanced_fewCalls :
    ∃ s, clients.exec Sys.clientCheck freshSys fewCalls = some s ∧ s.live.length = 2 ∧
      290 ≡ 100 + (s.live.map fun e => requestedSize s.st.mem (e.ptr - 48)).sum [MOD 2 ^ 64] ∧
      s.st.stats.currentHeapSize = 512 := by
  obtain ⟨s, hs, hrun⟩ := exists_fewCalls
  obtain ⟨hbalance, -, hsize, -⟩ := accounting_balanced (clients_exec hs)
  rw [hrun.stats.1, hrun.stats.2] at hbalance
  rw [hrun.extent.1, hrun.extent.2] at hsize
  exact ⟨s, hs, by rw [hrun.live]; rfl, hbalance, hsize⟩

/-! ## The clients' bytes -/

/-- A block of `n` bytes at `b`: one that the walk of the heap meets, or a mapping.  The
allocator maps nothing smaller than `MMAP_THRESHOLD`. -/
def State.Block (s : State) (b n : Nat) : Prop :=
  (∃ blocks, Walk s.mem s.heapStart blocks s.brk ∧ b ∈ blocks ∧ n = blockSize s.mem b) ∨
    (⟨b, n⟩ : Mapping) ∈ s.maps ∧ mmapThreshold ≤ n

/-- The bytes of the header and of the footer of a block. -/
def metadata (b n : Nat) : Set Nat := range b 48 ∪ range (b + n - 16) 16

/-- **Requested bytes are disjoint from every header and footer.** -/
theorem Heap.payload_metadata {s : State} {live : List Alloc} {lo : Nat} {segs : List Seg}
    {lists : Fin 8 → List Nat} (I : Heap False s live lo segs lists) (hst : s.heapStart ≠ 0)
    {e : Alloc} (he : e ∈ live) {b n : Nat} (hb : s.Block b n) :
    Disjoint e.payload (metadata b n) := by
  obtain ⟨a, k, t, h⟩ := I.held e he
  rw [Set.disjoint_left]
  intro x hx hm
  have hp := mem_range.mp (h.payload_subset hx)
  have hm : b ≤ x ∧ x < b + 48 ∨ b + n - 16 ≤ x ∧ x < b + n - 16 + 16 := hm
  rcases hb with ⟨blocks, hw, hbm, hn⟩ | ⟨hmp, hthr⟩
  · rw [hw.unique (I.wellFormed hst).walk] at hbm
    obtain ⟨g, hg, rfl⟩ := List.mem_map.mp hbm
    obtain ⟨f, hF, -, -⟩ := I.rep.span_cases hg (I.settled g hg) (fun hk => I.gapped g hg hk)
    have hge := hF.size_ge
    rw [hF.size_eq] at hn
    obtain ⟨rfl, h1, h2⟩ := I.payload_span h hx hg (by rw [Span.mem_bytes]; omega)
    simp only at hn hm
    omega
  · unfold mmapThreshold at hthr
    have hxb : x ∈ range b n := by rw [mem_range]; omega
    rcases h.place with ⟨rfl, hg⟩ | ⟨rfl, hmp', -⟩
    · have hfl := I.rep.floor
      have hgb := I.rep.tiles.bounds hg
      simp only at hgb
      exact I.map_bytes hmp hxb ⟨by omega, by omega⟩
    · by_cases hne : (⟨a, k⟩ : Mapping) = ⟨b, n⟩
      · obtain ⟨rfl, rfl⟩ := Mapping.mk.inj hne
        omega
      · have hap := I.kernel.maps_apart hmp' hmp hne
        rw [mem_range] at hxb
        unfold Apart at hap
        simp only at hap
        omega

/-- **The contract.**  In every state of every run of the clients, whatever they have
stored into their bytes, the next step does not fault.  A block it returns is aligned,
its requested bytes meet no other allocation and no header or footer, and it is all
zero when `my_calloc` returned it.  Allocations the step is not about keep their bytes. -/
theorem client_contract {s : Sys} (h : clients.Reach Sys.Initialised s) {l : Label}
    (hl : clients.allowed s l) :
    ∃ s' out, clients.step s l = .ok (s', out) ∧
      (∀ c p, out = some (c, p) → p ≠ 0 →
        p % 16 = 0 ∧ (⟨p, c.request⟩ : Alloc) ∈ s'.live ∧
        (∀ e ∈ s'.live, e.ptr ≠ p → Disjoint (range p c.request) e.payload) ∧
        ∀ b n, s'.st.Block b n → Disjoint (range p c.request) (metadata b n)) ∧
      (∀ e ∈ s.live, e.ptr ∉ s.touched l → e ∈ s'.live ∧ Set.EqOn s'.st.mem s.st.mem e.payload) ∧
      ∀ nmemb size p, out = some (.calloc nmemb size, p) → p ≠ 0 →
        ∀ x ∈ range p (nmemb * size), s'.st.mem x = 0 := by
  have C := ClientInv.of_reach h
  obtain ⟨⟨s', out⟩, hstep, R⟩ := C.sys.client_step hl
  have C' : ClientInv s' := C.step hl hstep
  refine ⟨s', out, hstep, ?_, R.others, R.cleared⟩
  intro c p hout hp
  have he := R.returned c p hout hp
  simp only at he
  obtain ⟨lo, segs, lists, I⟩ := C'.sys.inv
  refine ⟨C'.sys.inv.ptr_aligned he, he, ?_, fun b n hb => I.payload_metadata C'.begun he hb⟩
  intro e' he' hne
  refine I.payload_disjoint he he' ?_
  rintro rfl
  exact hne rfl

/-- The freed block is handed out again, beside the stored byte. -/
theorem client_contract_fewCalls :
    ∃ s s', clients.exec Sys.clientCheck freshSys fewCalls = some s ∧
      clients.step s (.call 0 (.malloc 20) {}) = .ok (s', some (.malloc 20, 4144)) ∧
      Disjoint (range 4144 20) (range 4320 40) ∧ s'.st.mem 4327 = 9 ∧
      ∀ b n, s'.st.Block b n → Disjoint (range 4144 20) (metadata b n) := by
  obtain ⟨s, hs, hrun⟩ := exists_fewCalls
  have hreturn : ((clients.exec Sys.clientCheck freshSys fewCalls).bind fun s =>
      (clients.step s (.call 0 (.malloc 20) {})).toOption.map Prod.snd) =
      some (some (.malloc 20, 4144)) := by
    decide +kernel
  rw [hs, Option.bind_some] at hreturn
  have hallowed : clients.allowed s (.call 0 (.malloc 20) {}) := ⟨hrun.idle, Or.inl rfl⟩
  obtain ⟨s', out, hstep, hret, hothers, -⟩ := client_contract (clients_exec hs) hallowed
  rw [hstep] at hreturn
  obtain rfl : out = some (.malloc 20, 4144) := Option.some.inj hreturn
  obtain ⟨-, -, hlive, hblocks⟩ := hret _ _ rfl (by decide)
  have he : (⟨4320, 40⟩ : Alloc) ∈ s.live := by
    rw [hrun.live]
    simp
  obtain ⟨he', hkept⟩ := hothers _ he (by simp [Sys.touched, Call.operand])
  refine ⟨s, s', hs, hstep, hlive _ he' (by decide), ?_, hblocks⟩
  rw [hkept (mem_range.mpr (by decide)), hrun.stored]

end MemoryMonitor
