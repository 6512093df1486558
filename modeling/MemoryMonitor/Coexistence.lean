import MemoryMonitor.Reinit

/-! # A host that also grows the break

Between the calls of the clients the rest of the process takes break space of its own,
of any size, and keeps data without magic values there.  Its regions, and the padding
the allocator inserts to align the break after them, are gaps in the heap.

The allocator steps around them: no call faults, no block holds a byte of the host's
and none is written.  Only `allocator_verify_integrity` does not: its walk takes the
first gap for a block and reports corruption.
-/
namespace MemoryMonitor

open ByteMemory Tiling LinkedChain

/-- Some byte above `heap_start` is the host's. -/
def Foreign (s : State) : Prop := ∃ x, s.heapStart ≤ x ∧ s.hostOwned x = true

/-! ## Weakening what is known about gaps -/

section Mono
variable {shared shared' : Prop} {s : State} {live : List Alloc} {lo : Nat} {segs : List Seg}
variable {lists : Fin 8 → List Nat}

theorem Layout.mono (L : Layout shared s lo segs lists) (h : shared → shared') :
    Layout shared' s lo segs lists :=
  { L with
    gapped := fun g hg hk => h (L.gapped g hg hk)
    unaligned := fun h1 h2 => h (L.unaligned h1 h2) }

theorem Inv.mono (I : Inv shared s live) (h : shared → shared') : Inv shared' s live := by
  obtain ⟨lo, segs, lists, I⟩ := I
  exact ⟨lo, segs, lists, I.toLayout.mono h, I.settled, I.held, I.nodup, I.balance⟩

theorem SysInv.mono {s : Sys} (I : SysInv shared s) (h : shared → shared') : SysInv shared' s :=
  { I with inv := I.inv.mono h }

/-- A change that no thread takes part in. -/
theorem SysInv.of_state {s : Sys} (I : SysInv shared s) {st' : State}
    (hinv : Inv shared' st' s.live) (hmaps : st'.maps = s.st.maps) :
    SysInv shared' { s with st := st' } := by
  refine ⟨hinv, I.claims, I.distinct, I.apart, I.ok, ?_, I.retired_ne⟩
  simp only [hmaps]
  exact I.retired

end Mono

/-! ## The host's steps -/

section Host
variable {shared : Prop} {s s' : State} {live : List Alloc} {lo : Nat} {segs : List Seg}
variable {lists : Fin 8 → List Nat}

/-- **The host grows the break of a heap that has begun.** -/
theorem Heap.hostSbrk (I : Heap shared s live lo segs lists) {o : Oracle} {n b : Nat} (hn : 0 < n)
    (h : s.sbrk o n true = some (b, s')) (hst : s.heapStart ≠ 0) (hpeak : s.brkPeak = s.brk)
    (hshared : shared) : Inv shared s' live := by
  obtain ⟨L, K⟩ := I.toLayout.sbrk (k := .gap) h hn hst (Or.inl ⟨rfl, hpeak, hshared⟩)
    (fun _ => hpeak) (fun _ => hshared)
  have hstats : s'.stats = s.stats := by
    rw [(sbrk_some h).2.2.2]
  refine ⟨lo, _, lists, L, ?_, ?_, I.nodup, ?_⟩
  · intro g hg
    rcases List.mem_append.mp hg with hg | hg
    · exact I.settled g hg
    · rw [List.mem_singleton] at hg
      rw [hg]
      simp
  · intro e he
    obtain ⟨a, k, t, hh⟩ := I.held e he
    exact ⟨a, k, t, hh.keeps K⟩
  · rw [hstats]
    exact I.balance

/-- The host's bytes lie in no block, neither of the heap nor mapped. -/
theorem Layout.host_outside (L : Layout shared s lo segs lists) {x : Nat}
    (hx : s.hostOwned x = true) :
    (∀ g ∈ segs, g.kind ≠ .gap → x ∉ g.bytes) ∧ ∀ mp ∈ s.maps, x ∉ range mp.addr mp.len := by
  refine ⟨fun g hg hk hxg => ?_, fun mp hmp hxm => L.map_bytes hmp hxm (L.host_lt x hx)⟩
  rw [L.blank.own g hg hk x hxg] at hx
  cases hx

/-- **The host stores into its bytes.** -/
theorem Heap.hostStore (I : Heap shared s live lo segs lists) {x : Nat} {b : UInt8}
    (hx : s.hostOwned x = true) (hclean : HostClean { s with mem := Function.update s.mem x b }) :
    Heap shared { s with mem := Function.update s.mem x b } live lo segs lists := by
  obtain ⟨hblock, hmap⟩ := I.toLayout.host_outside hx
  have hseg : ∀ g ∈ segs, g.kind ≠ .gap →
      Set.EqOn (Function.update s.mem x b) s.mem g.bytes := by
    intro g hg hk y hy
    refine Function.update_of_ne ?_ _ _
    rintro rfl
    exact hblock g hg hk hy
  have hrep : HeapRep { s with mem := Function.update s.mem x b } lo segs lists := by
    refine { I.rep with used := ?_, free := ?_, chain := ?_ }
    · intro g hg hk
      have hF := I.rep.used g hg hk
      exact hF.congr ((hseg g hg (by rw [hk]; decide)).mono (core_subset hF.size_ge))
    · intro g hg hk
      have hF := I.rep.free g hg hk
      exact hF.congr ((hseg g hg (by rw [hk]; decide)).mono (core_subset hF.size_ge))
    · intro i
      refine (I.rep.chain i).congr fun a ha => ?_
      obtain ⟨n, hn, -⟩ := I.rep.node ha
      have h80 := (I.rep.free _ hn rfl).size_ge
      have heq := hseg _ hn (by simp)
      simp only at h80
      exact ⟨readLE_of_eqOn heq (range_subset (by simp) (by simp only; omega)),
        readLE_of_eqOn heq (range_subset (by simp) (by simp only; omega))⟩
  refine ⟨⟨hrep, I.init, ⟨?_, I.blank.own, hclean⟩, I.kernel.of_fields rfl rfl rfl rfl, I.host_lt,
    I.fresh, I.gapped, I.unaligned, I.start_aligned⟩, I.settled, ?_, I.nodup, I.balance⟩
  · intro g hg hk y hy
    by_cases hxy : y = x
    · rw [hxy]
      exact Or.inl hx
    · simp only [Function.update_of_ne hxy]
      exact I.blank.gap g hg hk y hy
  · intro e he
    obtain ⟨a, n, t, h⟩ := I.held e he
    have heq : Set.EqOn (Function.update s.mem x b) s.mem (range a n) := by
      rcases h.place with ⟨-, hg⟩ | ⟨-, hmp, -⟩
      · exact hseg _ hg (by simp)
      · intro y hy
        refine Function.update_of_ne ?_ _ _
        rintro rfl
        exact hmap _ hmp hy
    have hge := h.formed.size_ge
    exact ⟨a, n, t, h.ptr_eq, h.room, h.formed.congr (heq.mono (core_subset hge)),
      (readLE_of_eqOn heq (range_subset (by omega) (by omega))).trans h.requested, h.place⟩

end Host

/-! ## The runs -/

/-- What holds in every state of the runs with a host. -/
structure HostInv (s : Sys) : Prop where
  sys : SysInv (Foreign s.st) s
  begun : s.st.heapStart ≠ 0
  peak : s.st.brkPeak = s.st.brk

theorem HostInv.initialised {s : Sys} (h : s.Initialised) : HostInv s := by
  have I : SysInv (Foreign s.st) s := .initialised h
  obtain ⟨-, st, o, B, hst, hbegun⟩ := h
  refine ⟨I, hbegun, ?_⟩
  rw [hst]
  unfold allocatorInit
  simp only
  cases he : ensureBreakAligned (freeListReset { st with stats := {} }) o with
  | mk ok s₁ =>
    have hp : s₁.brkPeak = s₁.brk := (ensureBreakAligned_grown he).1.peak B.peak
    cases ok with
    | false => exact hp
    | true =>
      simp only
      split <;> exact hp

/-- The allocator's own growth neither adds nor removes foreign bytes. -/
theorem Grown.foreign {s s' : State} (h : Grown s s') (hst : s'.heapStart = s.heapStart)
    (hlt : ∀ x, s.hostOwned x = true → x < s.brk) (hf : Foreign s) : Foreign s' := by
  obtain ⟨x, h1, h2⟩ := hf
  have hx := hlt x h2
  refine ⟨x, by rw [hst]; exact h1, ?_⟩
  rw [h.host x, if_neg (by omega)]
  exact h2

theorem HostInv.client {s : Sys} {l : Label} (C : HostInv s) (hl : s.ClientMay l) :
    ∃ r, s.step l = .ok r ∧ HostInv r.1 ∧
      ∀ x, s.st.hostOwned x = true → r.1.st.mem x = s.st.mem x := by
  obtain ⟨r, hr, R⟩ := C.sys.client_step hl
  have hg := (client_quiet hl hr).grown
  obtain ⟨lo, segs, lists, I⟩ := C.sys.inv
  obtain ⟨lo', segs', lists', I'⟩ := R.inv.inv
  have hst : r.1.st.heapStart = s.st.heapStart := by
    rw [← I.init, ← I'.init]
    refine hg.initial ?_
    rw [I.init]
    exact C.begun
  refine ⟨r, hr, ⟨R.inv.mono ?_, by rw [hst]; exact C.begun, hg.peak C.peak⟩, R.host⟩
  exact hg.foreign hst fun x hx => (I.host_lt x hx).2

/-- **A step of the host keeps the invariant.** -/
theorem HostInv.host {s s' : Sys} {l : Label} {out : Return} (C : HostInv s) (hl : s.HostMay l)
    (h : s.step l = .ok (s', out)) : HostInv s' := by
  obtain ⟨lo, segs, lists, I⟩ := C.sys.inv
  cases l with
  | hostSbrk n o =>
    simp only [Sys.step] at h
    split at h
    · cases h
      exact C
    · rename_i b st hs
      cases h
      have hle : s.st.heapStart ≤ s.st.brk := by
        have := I.rep.tiles.le
        rcases I.rep.start with h1 | ⟨h1, -⟩ <;> omega
      obtain ⟨-, -, -, hst⟩ := sbrk_some hs
      have hforeign : Foreign st := by
        rw [hst]
        refine ⟨s.st.brk, hle, ?_⟩
        have hn : 0 < n := hl
        simp only
        rw [if_pos (by omega)]
      have hpeak := C.peak
      refine ⟨C.sys.of_state ?_ (by rw [hst]), by rw [hst]; exact C.begun, ?_⟩
      · obtain ⟨lo, segs, lists, I⟩ := C.sys.inv.mono fun _ => hforeign
        exact I.hostSbrk hl hs C.begun hpeak hforeign
      · rw [hst]
        simp only
        omega
  | hostStore x b =>
    cases h
    exact ⟨C.sys.of_state ⟨lo, segs, lists, I.hostStore hl.1 hl.2⟩ rfl, C.begun, C.peak⟩
  | call t c o => exact absurd hl id
  | resume t o => exact absurd hl id
  | store ptr off b => exact absurd hl id
  | init o => exact absurd hl id
  | destroy o => exact absurd hl id

theorem HostInv.of_reach {s : Sys} (h : clientsAndHost.Reach Sys.Initialised s) : HostInv s := by
  refine h.invariant (fun _ => .initialised) fun s l s' out C hl hs => ?_
  rcases hl with hl | hl
  · obtain ⟨r, hr, C', -⟩ := C.client hl
    rw [show s.step l = .ok (s', out) from hs] at hr
    obtain rfl := Except.ok.inj hr
    exact C'
  · exact C.host hl hs

/-! ## The allocator's own blocks -/

/-- **The allocator's own blocks and lists are well formed**: between the gaps lie
blocks in order, none of which holds a byte of the host's, the lists hold exactly the
free ones, and every live allocation sits in a used one or in a mapping. -/
structure OwnWellFormed (s : State) (live : List Alloc) (segs : List Seg)
    (lists : Fin 8 → List Nat) : Prop where
  tiles : Tiles s.heapStart segs s.brk
  block : ∀ g ∈ segs, g.kind ≠ .gap → BlockOk s.mem g.addr ∧ blockSize s.mem g.addr = g.size
  own : ∀ g ∈ segs, g.kind ≠ .gap → ∀ x ∈ g.bytes, s.hostOwned x = false
  chain : ∀ i, Chain 0 (next s.mem) (prev s.mem) 0 (s.heads i) (lists i)
  nodup : ∀ i, (lists i).Nodup
  listed : ∀ i b, b ∈ lists i ↔ ∃ g ∈ segs, g.kind ≠ .gap ∧ g.addr = b ∧ isFree s.mem b = 1 ∧
    getSizeClassIndex g.size = i
  live : ∀ e ∈ live, (∃ g ∈ segs, g.kind ≠ .gap ∧ e.ptr = g.addr + 48 ∧ isFree s.mem g.addr = 0) ∨
    ∃ mp ∈ s.maps, e.ptr = mp.addr + 48 ∧ ∀ x ∈ range mp.addr mp.len, s.hostOwned x = false

theorem Heap.ownWellFormed {shared : Prop} {s : State} {live : List Alloc} {lo : Nat}
    {segs : List Seg} {lists : Fin 8 → List Nat} (I : Heap shared s live lo segs lists)
    (hst : s.heapStart ≠ 0) : OwnWellFormed s live segs lists := by
  have hlo : s.heapStart = lo := by
    rcases I.rep.start with h | ⟨h, -⟩
    · exact h
    · exact absurd h hst
  refine ⟨by rw [hlo]; exact I.rep.tiles, ?_, I.blank.own, I.rep.chain, I.rep.nodup, ?_, ?_⟩
  · intro g hg hk
    obtain ⟨f, hF, hf, -⟩ := I.rep.span_cases hg (I.settled g hg) hk
    exact ⟨hF.blockOk hf, hF.size_eq⟩
  · intro i b
    rw [I.rep.listed i b]
    constructor
    · rintro ⟨g, hg, hk, rfl, hi⟩
      exact ⟨g, hg, by rw [hk]; decide, rfl, (I.rep.free g hg hk).free_eq, hi⟩
    · rintro ⟨g, hg, hk, rfl, hf, hi⟩
      obtain ⟨f, hF, -, hfree⟩ := I.rep.span_cases hg (I.settled g hg) hk
      rw [hF.free_eq] at hf
      exact ⟨g, hg, hfree.mp hf, rfl, hi⟩
  · intro e he
    obtain ⟨a, n, t, h⟩ := I.held e he
    rcases h.place with ⟨rfl, hg⟩ | ⟨rfl, hmp, -⟩
    · exact Or.inl ⟨_, hg, by simp, h.ptr_eq, h.formed.free_eq⟩
    · refine Or.inr ⟨_, hmp, h.ptr_eq, fun x hx => ?_⟩
      by_contra hhost
      exact (I.toLayout.host_outside (Bool.not_eq_false _ ▸ hhost)).2 _ hmp hx

/-- A heap has a gap exactly when some byte above `heap_start` is the host's. -/
theorem Heap.gap_iff_foreign {s : State} {live : List Alloc} {lo : Nat} {segs : List Seg}
    {lists : Fin 8 → List Nat} (I : Heap (Foreign s) s live lo segs lists) (hst : s.heapStart ≠ 0) :
    (∃ g ∈ segs, g.kind = .gap) ↔ Foreign s := by
  refine ⟨fun ⟨g, hg, hk⟩ => I.gapped g hg hk, fun ⟨x, h1, h2⟩ => ?_⟩
  obtain ⟨g, hg, hx⟩ := (I.ownWellFormed hst).tiles.cover h1 (I.host_lt x h2).2
  refine ⟨g, hg, by_contra fun hk => ?_⟩
  rw [I.blank.own g hg hk x hx] at h2
  cases h2

/-- **Coexistence.**  In every state of every run of clients and a host that grows the
break, no step of a client faults or writes a byte of the host's, the allocator's own
blocks are well formed and hold no byte of the host's, and `allocator_verify_integrity`
returns 0 exactly when the host owns no byte above `heap_start`. -/
theorem coexistence {s : Sys} (h : clientsAndHost.Reach Sys.Initialised s) :
    (∀ l, s.ClientMay l → ∃ s' out, s.step l = .ok (s', out) ∧
      ∀ x, s.st.hostOwned x = true → s'.st.mem x = s.st.mem x) ∧
    (∃ segs lists, OwnWellFormed s.st s.live segs lists) ∧
    (∃ ok, allocatorVerifyIntegrity s.st = .ok ok ∧ (ok = true ↔ ¬ Foreign s.st)) := by
  have C := HostInv.of_reach h
  obtain ⟨lo, segs, lists, I⟩ := C.sys.inv
  refine ⟨fun l hl => ?_, ⟨segs, lists, I.ownWellFormed C.begun⟩, _, I.allocatorVerifyIntegrity, ?_⟩
  · obtain ⟨⟨s', out⟩, hr, -, hhost⟩ := C.client hl
    exact ⟨s', out, hr, hhost⟩
  · rw [← I.gap_iff_foreign C.begun, List.all_eq_true]
    simp

/-! ## A shared break -/

/-- A step of a client, or of a host that takes the 24 bytes from 4272 on. -/
def Sys.sharedCheck (s : Sys) : Label → Bool
  | .hostSbrk n _ => n = 24 && s.st.brk = 4272
  | .hostStore x b => s.st.hostOwned x && (List.range 24).all fun i =>
      let value := readLE (Function.update s.st.mem x b) (4272 + i) 4
      value ≠ allocMagicHeader && value ≠ allocMagicFooter
  | l => s.clientCheck l

/-- No other thread has entered a call, and the host has no other bytes. -/
structure SharedRun (s : Sys) : Prop where
  solo : s.Solo
  host : ∀ x, s.st.hostOwned x = true → 4272 ≤ x ∧ x < 4296

theorem SharedRun.client {s s' : Sys} {l : Label} {out : Return} (R : SharedRun s)
    (hc : s.clientCheck l = true) (hs : s.step l = .ok (s', out)) :
    clientsAndHost.allowed s l ∧ SharedRun s' := by
  have hmay := R.solo.clientMay hc
  refine ⟨Or.inl hmay, R.solo.step hs (by rw [hc]; rfl), fun x hx => R.host x ?_⟩
  rw [(client_quiet hmay hs).grown.host x] at hx
  split at hx
  · cases hx
  · exact hx

theorem SharedRun.step {s s' : Sys} {l : Label} {out : Return} (R : SharedRun s)
    (hc : s.sharedCheck l = true) (hs : s.step l = .ok (s', out)) :
    clientsAndHost.allowed s l ∧ SharedRun s' := by
  cases l with
  | hostSbrk n o =>
    obtain ⟨hn, hbrk⟩ := (Bool.and_eq_true _ _).mp hc
    rw [decide_eq_true_eq] at hn hbrk
    refine ⟨Or.inr (show 0 < n by omega), ?_⟩
    simp only [Sys.step] at hs
    split at hs
    · cases hs
      exact R
    · rename_i b st hsbrk
      cases hs
      obtain ⟨-, -, -, hst⟩ := sbrk_some hsbrk
      refine ⟨R.solo, fun x hx => ?_⟩
      rw [hst] at hx
      simp only at hx
      split at hx
      · omega
      · exact R.host x hx
  | hostStore x b =>
    obtain ⟨hown, hclean⟩ := (Bool.and_eq_true _ _).mp hc
    refine ⟨Or.inr ⟨hown, fun a ha => ?_⟩, ?_⟩
    · have h0 := R.host _ (ha 0 (by decide))
      have hread := List.all_eq_true.mp hclean (a - 4272) (List.mem_range.mpr (by omega))
      rw [show 4272 + (a - 4272) = a by omega] at hread
      simpa using hread
    · cases hs
      exact ⟨R.solo, R.host⟩
  | call t c o => exact R.client hc hs
  | resume t o => exact R.client hc hs
  | store ptr off b => exact R.client hc hs
  | init o => exact R.client hc hs
  | destroy o => exact R.client hc hs

/-- The host takes 24 bytes between two allocations and stores a byte into them; the
allocator pads the break and goes on above. -/
theorem coexistence_shared :
    ∃ s, clientsAndHost.exec Sys.sharedCheck freshSys [.call 0 (.malloc 100) {}, .hostSbrk 24 {},
        .hostStore 4272 7, .call 0 (.malloc 200) {}] = some s ∧
      s.live = [⟨4352, 200⟩, ⟨4144, 100⟩] ∧ s.st.hostOwned 4272 = true ∧
      (∃ segs lists, OwnWellFormed s.st s.live segs lists) ∧
      allocatorVerifyIntegrity s.st = .ok false ∧
      ∃ s' out, s.step (.call 0 (.free 4144) {}) = .ok (s', out) ∧ s'.st.mem 4272 = 7 := by
  have hrun : (clientsAndHost.exec Sys.sharedCheck freshSys [.call 0 (.malloc 100) {},
      .hostSbrk 24 {}, .hostStore 4272 7, .call 0 (.malloc 200) {}]).map (fun s =>
        (s.live, s.st.hostOwned 4272, s.st.mem 4272, s.st.heapStart,
          s.clientCheck (.call 0 (.free 4144) {}))) =
      some ([⟨4352, 200⟩, ⟨4144, 100⟩], true, 7, 4096, true) := by
    decide +kernel
  obtain ⟨s, hs, hout⟩ := Option.map_eq_some_iff.mp hrun
  simp only [Prod.mk.injEq] at hout
  obtain ⟨hlive, hhost, hbyte, hstart, hcheck⟩ := hout
  obtain ⟨hreach, R⟩ := Runs.Machine.Reach.exec (P := SharedRun)
    (fun _ _ _ _ R hc hs => R.step hc hs) (.start freshSys_initialised)
    ⟨fun _ _ => rfl, fun x hx => by cases hx⟩ hs
  obtain ⟨hsteps, hown, ok, hverify, hok⟩ := coexistence hreach
  have hforeign : Foreign s.st := ⟨4272, by rw [hstart]; decide, hhost⟩
  obtain rfl : ok = false := by
    cases ok with
    | false => rfl
    | true => exact absurd hforeign (hok.mp rfl)
  obtain ⟨s', out, hstep, hkept⟩ := hsteps _ (R.solo.clientMay hcheck)
  exact ⟨s, hs, hlive, hhost, hown, hverify, s', out, hstep, by rw [hkept 4272 hhost, hbyte]⟩

/-- **A foreign region is reported as corruption**: after `init` the host takes 16
bytes; everything of the allocator's own is well formed, and
`allocator_verify_integrity` returns -1. -/
theorem verify_rejects_foreign : ∃ s, clientsAndHost.Reach Sys.Initialised s ∧
    (∃ segs lists, OwnWellFormed s.st s.live segs lists) ∧
    allocatorVerifyIntegrity s.st = .ok false := by
  have hstep : ∃ s', freshSys.step (.hostSbrk 16 {}) = .ok (s', none) ∧ Foreign s'.st := by
    refine ⟨_, rfl, 4096, ?_, ?_⟩ <;> decide
  obtain ⟨s', hs, hforeign⟩ := hstep
  have hr : clientsAndHost.Reach Sys.Initialised s' :=
    .next (i := .hostSbrk 16 {}) (.start freshSys_initialised) (Or.inr (Nat.succ_pos 15)) hs
  have C := HostInv.of_reach hr
  obtain ⟨lo, segs, lists, I⟩ := C.sys.inv
  refine ⟨s', hr, ⟨segs, lists, I.ownWellFormed C.begun⟩, ?_⟩
  obtain ⟨g, hg, hk⟩ := (I.gap_iff_foreign C.begun).mpr hforeign
  rw [I.allocatorVerifyIntegrity]
  refine congrArg _ (List.all_eq_false.mpr ⟨g, hg, ?_⟩)
  simp [hk]

end MemoryMonitor
