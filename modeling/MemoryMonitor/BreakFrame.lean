import MemoryMonitor.Threads

/-! # Who moves the break

Of all the functions of the allocator only the heap extension of `my_malloc`,
`allocator_init` and `allocator_destroy` touch the break and the three addresses
remembered for it.  `Quiet` is proved here of all the others, on any state and any
pointer whatever: what they are called on does not matter.
-/
namespace MemoryMonitor

open ByteMemory

/-- The extent of the heap, the break and who owns its bytes are unchanged. -/
structure Quiet (s s' : State) : Prop where
  heapStart : s'.heapStart = s.heapStart
  initialBreak : s'.initialBreak = s.initialBreak
  lastAllocatorBreak : s'.lastAllocatorBreak = s.lastAllocatorBreak
  brk : s'.brk = s.brk
  brkPeak : s'.brkPeak = s.brkPeak
  hostOwned : s'.hostOwned = s.hostOwned
  currentHeapSize : s'.stats.currentHeapSize = s.stats.currentHeapSize

namespace Quiet
variable {s s₁ s₂ : State}

theorem refl (s : State) : Quiet s s := ⟨rfl, rfl, rfl, rfl, rfl, rfl, rfl⟩

theorem trans (h : Quiet s s₁) (h' : Quiet s₁ s₂) : Quiet s s₂ :=
  ⟨h'.heapStart.trans h.heapStart, h'.initialBreak.trans h.initialBreak,
    h'.lastAllocatorBreak.trans h.lastAllocatorBreak, h'.brk.trans h.brk, h'.brkPeak.trans h.brkPeak,
    h'.hostOwned.trans h.hostOwned, h'.currentHeapSize.trans h.currentHeapSize⟩

/-- New bytes, list heads and mappings, and other counters. -/
theorem update (s : State) (m : Mem) (heads : Fin 8 → Nat) (maps : List Mapping) (st : Stats)
    (h : st.currentHeapSize = s.stats.currentHeapSize) :
    Quiet s { s with mem := m, heads := heads, maps := maps, stats := st } :=
  ⟨rfl, rfl, rfl, rfl, rfl, rfl, h⟩

end Quiet

variable {s s' : State} {a : Nat}

/-! ## The free lists -/

theorem freeListInsert_quiet (h : freeListInsert s a = .ok s') : Quiet s s' := by
  unfold freeListInsert at h
  split at h
  · cases h
    exact .refl _
  · obtain ⟨_, -, h⟩ := bind_ok h
    obtain ⟨_, -, h⟩ := bind_ok h
    cases h
    exact .update _ _ _ _ _ rfl

theorem freeListRemove_quiet (h : freeListRemove s a = .ok s') : Quiet s s' := by
  rcases freeListRemove_ok_iff.mp h with ⟨-, rfl⟩ | ⟨-, rfl⟩
  · exact .refl _
  · exact .update _ _ _ _ _ rfl

/-- The search leaves the state alone when it finds nothing. -/
theorem findFitFrom_quiet {total : Nat} : ∀ {is : List (Fin 8)},
    findFitFrom s total is = .ok (a, s') → Quiet s s' ∧ (a = 0 → s' = s)
  | [], h => by
      cases h
      exact ⟨.refl _, fun _ => rfl⟩
  | i :: is, h => by
      rw [findFitFrom] at h
      obtain ⟨best, -, h⟩ := bind_ok h
      split at h
      · rename_i hb
        obtain ⟨s₁, h₁, h⟩ := bind_ok h
        cases h
        exact ⟨freeListRemove_quiet h₁, fun h0 => absurd h0 hb⟩
      · exact findFitFrom_quiet h

/-! ## Coalescing, splitting and resizing -/

theorem growBlock_quiet (s : State) (a n : Nat) : Quiet s (growBlock s a n) :=
  .update _ _ _ _ _ rfl

theorem coalesceNext_quiet (h : coalesceNext s a = .ok s') : Quiet s s' := by
  unfold coalesceNext at h
  obtain ⟨adj, -, h⟩ := bind_ok h
  split at h
  · obtain ⟨s₁, h₁, h⟩ := bind_ok h
    cases h
    exact (freeListRemove_quiet h₁).trans (growBlock_quiet ..)
  · cases h
    exact .refl _

theorem coalescePrev_quiet {b : Nat} (h : coalescePrev s a = .ok (b, s')) : Quiet s s' := by
  unfold coalescePrev at h
  split at h
  · obtain ⟨_, -, h⟩ := bind_ok h
    simp only at h
    split at h
    · split at h
      · obtain ⟨_, -, h⟩ := bind_ok h
        split at h
        · obtain ⟨s₁, h₁, h⟩ := bind_ok h
          cases h
          exact (freeListRemove_quiet h₁).trans (growBlock_quiet ..)
        · cases h
          exact .refl _
      · cases h
        exact .refl _
    · cases h
      exact .refl _
  · cases h
    exact .refl _

theorem myFreeLocked_quiet {out : Option Mapping} (h : myFreeLocked s a = .ok (out, s')) :
    Quiet s s' := by
  unfold myFreeLocked at h
  split at h
  · cases h
    exact .refl _
  · obtain ⟨_, -, h⟩ := bind_ok h
    split at h
    · cases h
      exact .update _ _ _ _ _ rfl
    · obtain ⟨s₁, h₁, h⟩ := bind_ok h
      obtain ⟨⟨b, s₂⟩, h₂, h⟩ := bind_ok h
      obtain ⟨s₃, h₃, h⟩ := bind_ok h
      cases h
      refine Quiet.trans ?_ ((coalesceNext_quiet h₁).trans
        ((coalescePrev_quiet h₂).trans (freeListInsert_quiet h₃)))
      exact .update _ _ _ _ _ rfl

theorem splitFound_quiet {total : Nat} (h : splitFound s a total = .ok s') : Quiet s s' := by
  unfold splitFound at h
  split at h
  · refine Quiet.trans ?_ (freeListInsert_quiet h)
    exact .update _ _ _ _ _ rfl
  · cases h
    exact .refl _

theorem handOut_quiet (s : State) (a size : Nat) : Quiet s (handOut s a size) :=
  .update _ _ _ _ _ rfl

theorem absorbNext_quiet {k k' : Nat} (h : absorbNext s a k = .ok (k', s')) : Quiet s s' := by
  unfold absorbNext at h
  obtain ⟨adj, -, h⟩ := bind_ok h
  split at h
  · obtain ⟨s₁, h₁, h⟩ := bind_ok h
    cases h
    refine (freeListRemove_quiet h₁).trans ?_
    exact .update _ _ _ _ _ rfl
  · cases h
    exact .refl _

theorem shrinkBlock_quiet {total : Nat} (h : shrinkBlock s a total = .ok s') : Quiet s s' := by
  unfold shrinkBlock at h
  split at h
  · obtain ⟨⟨k, s₁⟩, h₁, h⟩ := bind_ok h
    refine Quiet.trans ?_ ((absorbNext_quiet h₁).trans (Quiet.trans ?_ (freeListInsert_quiet h)))
    · exact .update _ _ _ _ _ rfl
    · exact .update _ _ _ _ _ rfl
  · cases h
    exact .refl _

theorem growIntoNext_quiet {b total : Nat} (h : growIntoNext s a b total = .ok s') :
    Quiet s s' := by
  unfold growIntoNext at h
  simp only at h
  split at h
  · refine Quiet.trans ?_ (freeListInsert_quiet h)
    exact .update _ _ _ _ _ rfl
  · cases h
    exact .update _ _ _ _ _ rfl

theorem accountInPlace_currentHeapSize (st : Stats) (old size : Nat) :
    (accountInPlace st old size).currentHeapSize = st.currentHeapSize := by
  unfold accountInPlace
  split
  · rfl
  · split <;> rfl

theorem resizeDone_quiet (s : State) (a old size : Nat) : Quiet s (resizeDone s a old size) :=
  .update _ _ _ _ _ (accountInPlace_currentHeapSize ..)

theorem reallocHeap_quiet {size : Nat} {out : ReallocOutcome}
    (h : reallocHeap s a size = .ok (out, s')) : Quiet s s' := by
  unfold reallocHeap at h
  simp only at h
  split at h
  · obtain ⟨s₁, h₁, h⟩ := bind_ok h
    cases h
    exact (shrinkBlock_quiet h₁).trans (resizeDone_quiet ..)
  · split at h
    · obtain ⟨adj, -, h⟩ := bind_ok h
      split at h
      · obtain ⟨s₁, h₁, h⟩ := bind_ok h
        obtain ⟨s₂, h₂, h⟩ := bind_ok h
        cases h
        exact (freeListRemove_quiet h₁).trans
          ((growIntoNext_quiet h₂).trans (resizeDone_quiet ..))
      · cases h
        exact .refl _
    · cases h
      exact .refl _

theorem reallocMapped_quiet (s : State) (o : Oracle) (a size : Nat) :
    Quiet s (reallocMapped s o a size).2 := by
  unfold reallocMapped
  simp only
  split
  · cases hre : s.mremap o a (blockSize s.mem a) (totalSize size) with
    | none => exact .refl _
    | some r =>
      obtain ⟨b, s₁⟩ := r
      have hs₁ := (Heap.mremap_some hre).2.2.2
      simp only
      refine ⟨?_, ?_, ?_, ?_, ?_, ?_, ?_⟩ <;> simp only <;> rw [hs₁]
  · exact .refl _

theorem myReallocLocked_quiet {o : Oracle} {size : Nat} {out : ReallocOutcome}
    (h : myReallocLocked s o a size = .ok (out, s')) : Quiet s s' := by
  unfold myReallocLocked at h
  obtain ⟨_, -, h⟩ := bind_ok h
  split at h
  · have h' := congrArg Prod.snd (Except.ok.inj h)
    have hq := reallocMapped_quiet s o (a - 48) size
    rw [h'] at hq
    exact hq
  · exact reallocHeap_quiet h

theorem mmapAlloc_quiet {o : Oracle} {size total : Nat}
    (h : mmapAlloc s o size total = .ok (a, s')) : Quiet s s' := by
  unfold mmapAlloc at h
  split at h
  · cases h
    exact .refl _
  · rename_i b s₁ hm
    obtain ⟨_, -, h⟩ := bind_ok h
    cases h
    unfold State.mmap at hm
    split at hm
    · cases hm
    · split at hm
      · obtain ⟨rfl, rfl⟩ := Prod.mk.inj (Option.some.inj hm)
        exact .update _ _ _ _ _ rfl
      · cases hm

theorem munmap_quiet (s : State) (o : Oracle) (a : Nat) : Quiet s (s.munmap o a) := by
  unfold State.munmap
  split
  · exact .update _ _ _ _ _ rfl
  · exact .refl _

/-! ## `my_malloc` -/

/-- The call extends the heap: no free block fits, and the kernel grants the space. -/
def extendsHeap (s : State) (o : Oracle) (size : Nat) : Prop :=
  size ≠ 0 ∧ size ≤ maxAllowed ∧ totalSize size < mmapThreshold ∧
    freeListFindFit s (totalSize size) = .ok (0, s) ∧ (extendHeap s o (totalSize size)).1 ≠ 0

/-- **`my_malloc` leaves the break alone, or goes through the heap extension.** -/
theorem myMalloc_cases {o : Oracle} {size p : Nat} (h : myMalloc s o size = .ok (p, s')) :
    Quiet s s' ∨
    (∃ s₁, extendHeap s o (totalSize size) = (0, s₁) ∧ s' = s₁) ∨
    ∃ block s₁, extendsHeap s o size ∧ extendHeap s o (totalSize size) = (block, s₁) ∧
      block ≠ 0 ∧ Quiet s₁ s' := by
  unfold myMalloc at h
  by_cases h0 : size = 0
  · rw [if_pos h0] at h
    cases h
    exact Or.inl (.refl _)
  by_cases hmax : maxAllowed < size
  · rw [if_neg h0, if_pos hmax] at h
    cases h
    exact Or.inl (.refl _)
  rw [if_neg h0, if_neg hmax] at h
  simp only at h
  by_cases hbig : mmapThreshold ≤ totalSize size
  · rw [if_pos hbig] at h
    exact Or.inl (mmapAlloc_quiet h)
  rw [if_neg hbig] at h
  obtain ⟨⟨block, s₁⟩, hf, hr⟩ := bind_ok h
  clear h
  obtain ⟨hq, hsame⟩ := findFitFrom_quiet hf
  simp only at hr
  by_cases hb : block = 0
  · rw [if_pos hb] at hr
    obtain rfl := hsame hb
    right
    cases he : extendHeap s₁ o (totalSize size) with
    | mk b s₂ =>
      rw [he] at hr
      simp only at hr
      by_cases hb2 : b = 0
      · rw [if_pos hb2] at hr
        cases hr
        exact Or.inl ⟨s', by rw [hb2], rfl⟩
      · rw [if_neg hb2] at hr
        cases hr
        refine Or.inr ⟨b, s₂, ⟨h0, by omega, by omega, ?_, ?_⟩, rfl, hb2, handOut_quiet ..⟩
        · rw [hb] at hf
          exact hf
        · rw [he]
          exact hb2
  · rw [if_neg hb] at hr
    obtain ⟨s₂, h₂, hr⟩ := bind_ok hr
    cases hr
    exact Or.inl (hq.trans ((splitFound_quiet h₂).trans (handOut_quiet ..)))

/-! ## Steps of the machine -/

/-- The call of `my_malloc` that a step makes, if any. -/
def Sys.mallocOf (s : Sys) : Label → Option (Nat × Oracle)
  | .call _ (.malloc size) o => some (size, o)
  | .call _ (.calloc nmemb size) o =>
    if nmemb = 0 ∨ size = 0 ∨ (2 ^ 64 - 1) / nmemb < size then none
    else some (nmemb * size % 2 ^ 64, o)
  | .call _ (.realloc ptr size) o => if ptr = 0 then some (size, o) else none
  | .resume t o =>
    match s.pc t with
    | .relocate _ size _ => some (size, o)
    | _ => none
  | _ => none

/-- A step of a call or of the client, whatever it is called on, makes one call of
`my_malloc` or leaves the break alone. -/
def Sys.QuietStep (s : Sys) (l : Label) (st' : State) : Prop :=
  s.mallocOf l = none ∧ Quiet s.st st' ∨
    ∃ size o p, s.mallocOf l = some (size, o) ∧ myMalloc s.st o size = .ok (p, st')

section Steps
variable {s : Sys} {t : Nat} {r : Sys × Return}

theorem callFree_quiet {c : Call} {ptr ret : Nat} (h : s.callFree t c ptr ret = .ok r) :
    Quiet s.st r.1.st := by
  unfold Sys.callFree at h
  obtain ⟨⟨out, st⟩, h₁, h⟩ := bind_ok h
  have hq := myFreeLocked_quiet h₁
  cases out <;> cases h <;> exact hq

theorem call_quiet {c : Call} {o : Oracle} (h : s.call t c o = .ok r) :
    s.QuietStep (.call t c o) r.1.st := by
  cases c with
  | malloc size =>
    obtain ⟨⟨p, st⟩, h₁, h⟩ := bind_ok h
    cases h
    exact Or.inr ⟨size, o, p, rfl, h₁⟩
  | calloc nmemb size =>
    simp only [Sys.call, Sys.callCalloc] at h
    split at h
    · rename_i h0
      cases h
      exact Or.inl ⟨if_pos (by tauto), .refl _⟩
    · rename_i h0
      split at h
      · rename_i hover
        cases h
        exact Or.inl ⟨if_pos (by tauto), .refl _⟩
      · rename_i hover
        obtain ⟨⟨p, st⟩, h₁, h⟩ := bind_ok h
        have hm : s.mallocOf (.call t (.calloc nmemb size) o) =
            some (nmemb * size % 2 ^ 64, o) := if_neg (by tauto)
        simp only at h
        split at h <;> cases h <;> exact Or.inr ⟨_, o, p, hm, h₁⟩
  | free ptr => exact Or.inl ⟨rfl, callFree_quiet h⟩
  | realloc ptr size =>
    simp only [Sys.call, Sys.callRealloc] at h
    split at h
    · rename_i h0
      obtain ⟨⟨p, st⟩, h₁, h⟩ := bind_ok h
      cases h
      exact Or.inr ⟨size, o, p, if_pos h0, h₁⟩
    · rename_i h0
      have hm : s.mallocOf (.call t (.realloc ptr size) o) = none := if_neg h0
      split at h
      · exact Or.inl ⟨hm, callFree_quiet h⟩
      · split at h
        · cases h
          exact Or.inl ⟨hm, .refl _⟩
        · obtain ⟨⟨out, st⟩, h₁, h⟩ := bind_ok h
          have hq := myReallocLocked_quiet h₁
          cases out <;> cases h <;> exact Or.inl ⟨hm, hq⟩

theorem resume_quiet {o : Oracle} (h : s.resume t o = .ok r) :
    s.QuietStep (.resume t o) r.1.st := by
  unfold Sys.resume at h
  unfold Sys.QuietStep Sys.mallocOf
  cases hpc : s.pc t <;> simp only [hpc] at h ⊢
  case idle =>
    cases h
    exact Or.inl ⟨trivial, .refl _⟩
  case clear =>
    obtain ⟨_, -, h⟩ := bind_ok h
    cases h
    exact Or.inl ⟨trivial, .update _ _ _ _ _ rfl⟩
  case relocate ptr size old =>
    obtain ⟨⟨p, st⟩, h₁, h⟩ := bind_ok h
    simp only at h
    split at h <;> cases h <;> exact Or.inr ⟨size, o, p, rfl, h₁⟩
  case copy =>
    obtain ⟨_, -, h⟩ := bind_ok h
    obtain ⟨_, -, h⟩ := bind_ok h
    cases h
    exact Or.inl ⟨trivial, .update _ _ _ _ _ rfl⟩
  case release => exact Or.inl ⟨trivial, callFree_quiet h⟩
  case unmap =>
    cases h
    exact Or.inl ⟨trivial, munmap_quiet ..⟩

/-- **Every step of a client is quiet, or calls `my_malloc`.** -/
theorem client_quiet {l : Label} (hl : s.ClientMay l) (h : s.step l = .ok r) :
    s.QuietStep l r.1.st := by
  cases l with
  | call t c o => exact call_quiet h
  | resume t o => exact resume_quiet h
  | store ptr off b =>
    cases h
    exact Or.inl ⟨rfl, .update _ _ _ _ _ rfl⟩
  | init o => exact absurd hl id
  | destroy o => exact absurd hl id
  | hostSbrk n o => exact absurd hl id
  | hostStore x b => exact absurd hl id

end Steps

/-! ## An aligned heap that has begun -/

/-- Nothing is left to prepare. -/
theorem prepareBreak_ready (o : Oracle) (hinit : s.initialBreak ≠ 0) (hst : s.heapStart ≠ 0)
    (hbrk : s.brk ≠ ptrFailed) (h16 : s.brk % 16 = 0) : prepareBreak s o = (true, s) := by
  unfold prepareBreak
  rw [if_neg hinit]
  simp only [if_neg hst, ensureBreakAligned, if_neg hbrk, h16, ne_eq, not_true_eq_false, if_false]

/-- **`current_heap_size` follows the break**: an aligned heap grows by whole blocks. -/
theorem myMalloc_sized {o : Oracle} {size p : Nat} (h : myMalloc s o size = .ok (p, s'))
    (hinit : s.initialBreak ≠ 0) (hst : s.heapStart ≠ 0) (hlim : s.brk ≤ addrLimit)
    (h16 : s.brk % 16 = 0) (hsz : s.heapStart + s.stats.currentHeapSize = s.brk) :
    s'.heapStart = s.heapStart ∧ s'.heapStart + s'.stats.currentHeapSize = s'.brk := by
  have hbrk : s.brk ≠ ptrFailed := by
    unfold addrLimit at hlim
    unfold ptrFailed
    omega
  have hext : ∀ {b s₁}, extendHeap s o (totalSize size) = (b, s₁) →
      s₁.heapStart = s.heapStart ∧ s₁.heapStart + s₁.stats.currentHeapSize = s₁.brk := by
    intro b s₁ he
    unfold extendHeap at he
    rw [prepareBreak_ready o hinit hst hbrk h16] at he
    simp only at he
    cases hs : s.sbrk o (totalSize size) false with
    | none =>
      rw [hs] at he
      obtain ⟨-, rfl⟩ := Prod.mk.inj he
      exact ⟨rfl, hsz⟩
    | some r =>
      obtain ⟨b', s₂⟩ := r
      rw [hs] at he
      obtain ⟨-, hle, -, rfl⟩ := sbrk_some hs
      obtain ⟨-, rfl⟩ := Prod.mk.inj he
      refine ⟨rfl, ?_⟩
      unfold addrLimit at hle
      simp only
      rw [addSize_of_lt (by omega)]
      omega
  rcases myMalloc_cases h with hq | ⟨s₁, he, rfl⟩ | ⟨b, s₁, -, he, -, hq⟩
  · exact ⟨hq.heapStart, by rw [hq.heapStart, hq.currentHeapSize, hq.brk]; exact hsz⟩
  · exact hext he
  · obtain ⟨h1, h2⟩ := hext he
    exact ⟨hq.heapStart.trans h1, by rw [hq.heapStart, hq.currentHeapSize, hq.brk]; exact h2⟩

/-! ## Growth on any state -/

/-- The allocator has grown the break over bytes of its own, and may have set
`initial_break` to a break of that time. -/
structure Grown (s s' : State) : Prop where
  brk : s.brk ≤ s'.brk
  host : ∀ x, s'.hostOwned x = if s.brk ≤ x ∧ x < s'.brk then false else s.hostOwned x
  initial : s.initialBreak ≠ 0 → s'.initialBreak = s.initialBreak
  begun : s.initialBreak = 0 →
    s'.initialBreak = 0 ∨ s.brk ≤ s'.initialBreak ∧ s'.initialBreak ≤ s'.brk
  peak : s.brkPeak = s.brk → s'.brkPeak = s'.brk

theorem Quiet.grown (h : Quiet s s') : Grown s s' := by
  refine ⟨by rw [h.brk], fun x => ?_, fun _ => h.initialBreak, fun h0 => Or.inl ?_, fun hp => ?_⟩
  · rw [h.hostOwned, h.brk, if_neg (by omega)]
  · rw [h.initialBreak]
    exact h0
  · rw [h.brkPeak, h.brk]
    exact hp

theorem Grown.trans {s₁ s₂ : State} (h : Grown s s₁) (h' : Grown s₁ s₂) : Grown s s₂ := by
  have h1 := h.brk
  have h2 := h'.brk
  refine ⟨by omega, fun x => ?_, fun h0 => ?_, fun h0 => ?_, fun hp => h'.peak (h.peak hp)⟩
  · rw [h'.host x, h.host x]
    by_cases hx : s.brk ≤ x ∧ x < s₂.brk
    · rw [if_pos hx]
      split
      · rfl
      · rw [if_pos (by omega)]
    · rw [if_neg hx, if_neg (by omega), if_neg (by omega)]
  · have h3 := h.initial h0
    rw [h'.initial (by rw [h3]; exact h0), h3]
  · rcases h.begun h0 with h3 | h3
    · rcases h'.begun h3 with h4 | h4
      · exact Or.inl h4
      · exact Or.inr (by omega)
    · by_cases h4 : s₁.initialBreak = 0
      · rcases h'.begun h4 with h5 | h5
        · exact Or.inl h5
        · exact Or.inr (by omega)
      · rw [h'.initial h4]
        exact Or.inr (by omega)

theorem sbrk_grown {o : Oracle} {n b : Nat} (h : s.sbrk o n false = some (b, s')) :
    Grown s s' ∧ s'.lastAllocatorBreak = s.lastAllocatorBreak := by
  obtain ⟨-, -, -, rfl⟩ := sbrk_some h
  exact ⟨⟨by simp only; omega, fun _ => rfl, fun _ => rfl, fun h0 => Or.inl h0,
    fun hp => by simp only; omega⟩, rfl⟩

theorem ensureBreakAligned_grown {o : Oracle} {ok : Bool}
    (h : ensureBreakAligned s o = (ok, s')) :
    Grown s s' ∧ s'.lastAllocatorBreak = s.lastAllocatorBreak ∧ s'.initialBreak = s.initialBreak := by
  unfold ensureBreakAligned at h
  split at h
  · obtain ⟨-, rfl⟩ := Prod.mk.inj h
    exact ⟨(Quiet.refl _).grown, rfl, rfl⟩
  · split at h
    · split at h
      · obtain ⟨-, rfl⟩ := Prod.mk.inj h
        exact ⟨(Quiet.refl _).grown, rfl, rfl⟩
      · rename_i b s₁ hs
        obtain ⟨-, rfl⟩ := Prod.mk.inj h
        refine ⟨(sbrk_grown hs).1, (sbrk_grown hs).2, ?_⟩
        rw [(sbrk_some hs).2.2.2]
    · obtain ⟨-, rfl⟩ := Prod.mk.inj h
      exact ⟨(Quiet.refl _).grown, rfl, rfl⟩

/-- `initial_break` is recorded at the current break. -/
theorem grown_initial (s : State) (hs : Nat) (h0 : s.initialBreak = 0) :
    Grown s { s with initialBreak := s.brk, heapStart := hs } :=
  ⟨le_refl _, fun x => by simp only; rw [if_neg (by omega)], fun h => absurd h0 h,
    fun _ => Or.inr ⟨le_refl _, le_refl _⟩, fun hp => hp⟩

theorem prepareBreak_grown {o : Oracle} {ok : Bool} (h : prepareBreak s o = (ok, s')) :
    Grown s s' ∧ s'.lastAllocatorBreak = s.lastAllocatorBreak := by
  have hstart : ∀ s₁ : State, Grown s₁
      (if s₁.heapStart = 0 then { s₁ with heapStart := s₁.initialBreak } else s₁) ∧
      (if s₁.heapStart = 0 then { s₁ with heapStart := s₁.initialBreak } else
        s₁).lastAllocatorBreak = s₁.lastAllocatorBreak := by
    intro s₁
    split
    · exact ⟨⟨le_refl _, fun x => by simp only; rw [if_neg (by omega)], fun _ => rfl,
        fun h => Or.inl h, fun hp => hp⟩, rfl⟩
    · exact ⟨(Quiet.refl _).grown, rfl⟩
  unfold prepareBreak at h
  by_cases h0 : s.initialBreak = 0
  · rw [if_pos h0] at h
    cases he : ensureBreakAligned s o with
    | mk ok₁ s₁ =>
      obtain ⟨hg, hl, hi⟩ := ensureBreakAligned_grown he
      rw [he] at h
      cases ok₁ with
      | false =>
        obtain ⟨-, rfl⟩ := Prod.mk.inj h
        exact ⟨hg, hl⟩
      | true =>
        simp only at h
        have hset : Grown s₁ (if s₁.brk ≠ ptrFailed then { s₁ with initialBreak := s₁.brk } else s₁) ∧
            (if s₁.brk ≠ ptrFailed then { s₁ with initialBreak := s₁.brk } else
              s₁).lastAllocatorBreak = s₁.lastAllocatorBreak := by
          split
          · exact ⟨grown_initial s₁ s₁.heapStart (hi.trans h0), rfl⟩
          · exact ⟨(Quiet.refl _).grown, rfl⟩
        obtain ⟨hg₂, hl₂⟩ := hstart (if s₁.brk ≠ ptrFailed then { s₁ with initialBreak := s₁.brk } else s₁)
        obtain ⟨hg₃, hl₃, -⟩ := ensureBreakAligned_grown h
        exact ⟨hg.trans (hset.1.trans (hg₂.trans hg₃)),
          hl₃.trans (hl₂.trans (hset.2.trans hl))⟩
  · rw [if_neg h0] at h
    simp only at h
    obtain ⟨hg₂, hl₂⟩ := hstart s
    obtain ⟨hg₃, hl₃, -⟩ := ensureBreakAligned_grown h
    exact ⟨hg₂.trans hg₃, hl₃.trans hl₂⟩

/-- The heap extension grows the break, and records it when it hands out a block. -/
theorem extendHeap_grown {o : Oracle} {total b : Nat} (h : extendHeap s o total = (b, s')) :
    Grown s s' ∧ (s'.lastAllocatorBreak = s.lastAllocatorBreak ∧ b = 0 ∨
      s'.lastAllocatorBreak = s'.brk ∧ s.brk ≤ b) := by
  unfold extendHeap at h
  cases hp : prepareBreak s o with
  | mk ok s₁ =>
    obtain ⟨hg, hl⟩ := prepareBreak_grown hp
    rw [hp] at h
    cases ok with
    | false =>
      obtain ⟨rfl, rfl⟩ := Prod.mk.inj h
      exact ⟨hg, Or.inl ⟨hl, rfl⟩⟩
    | true =>
      simp only at h
      cases hs : s₁.sbrk o total false with
      | none =>
        rw [hs] at h
        obtain ⟨rfl, rfl⟩ := Prod.mk.inj h
        exact ⟨hg, Or.inl ⟨hl, rfl⟩⟩
      | some r =>
        obtain ⟨b', s₂⟩ := r
        rw [hs] at h
        obtain ⟨rfl, rfl⟩ := Prod.mk.inj h
        have hg₂ := (sbrk_grown hs).1
        refine ⟨hg.trans ⟨hg₂.brk, hg₂.host, hg₂.initial, hg₂.begun, hg₂.peak⟩, Or.inr ⟨rfl, ?_⟩⟩
        rw [(sbrk_some hs).1]
        exact hg.brk

/-- An extension of the heap, as part of `my_malloc`. -/
theorem myMalloc_extends {o : Oracle} {size p : Nat} (h : myMalloc s o size = .ok (p, s'))
    (he : extendsHeap s o size) :
    ∃ b s₁, extendHeap s o (totalSize size) = (b, s₁) ∧ b ≠ 0 ∧ Quiet s₁ s' := by
  obtain ⟨h0, hmax, hthr, hfit, hb⟩ := he
  unfold myMalloc at h
  simp only [if_neg h0, if_neg (Nat.not_lt.mpr hmax), if_neg (Nat.not_le.mpr hthr), hfit, ok_bind,
    if_true, if_neg hb] at h
  obtain ⟨-, rfl⟩ := Prod.mk.inj (Except.ok.inj h)
  exact ⟨_, _, rfl, hb, handOut_quiet ..⟩

/-- **`my_malloc` takes no byte of the host's and gives it none.** -/
theorem myMalloc_grown {o : Oracle} {size p : Nat} (h : myMalloc s o size = .ok (p, s')) :
    Grown s s' := by
  rcases myMalloc_cases h with hq | ⟨s₁, he, rfl⟩ | ⟨b, s₁, -, he, -, hq⟩
  · exact hq.grown
  · exact (extendHeap_grown he).1
  · exact (extendHeap_grown he).1.trans hq.grown

theorem myFree_quiet {o : Oracle} (h : myFree s o a = .ok s') : Quiet s s' := by
  obtain ⟨⟨out, s₁⟩, hf, h⟩ := bind_ok h
  have hq := myFreeLocked_quiet hf
  cases out with
  | none =>
    obtain rfl := Except.ok.inj h
    exact hq
  | some mp =>
    obtain rfl := Except.ok.inj h
    exact hq.trans (munmap_quiet ..)

/-- `my_realloc` as a whole call. -/
theorem myRealloc_grown {o : Oracle} {size q : Nat} (h : myRealloc s o a size = .ok (q, s')) :
    Grown s s' := by
  unfold myRealloc at h
  split at h
  · exact myMalloc_grown h
  split at h
  · obtain ⟨s₁, hf, h⟩ := bind_ok h
    obtain ⟨-, rfl⟩ := Prod.mk.inj (Except.ok.inj h)
    exact (myFree_quiet hf).grown
  split at h
  · obtain ⟨-, rfl⟩ := Prod.mk.inj (Except.ok.inj h)
    exact (Quiet.refl _).grown
  obtain ⟨⟨out, s₁⟩, hl, h⟩ := bind_ok h
  have hq := (myReallocLocked_quiet hl).grown
  cases out with
  | done p =>
    obtain ⟨-, rfl⟩ := Prod.mk.inj (Except.ok.inj h)
    exact hq
  | relocate old =>
    obtain ⟨⟨p, s₂⟩, hm, h⟩ := bind_ok h
    have hq₂ := hq.trans (myMalloc_grown hm)
    simp only at h
    split at h
    · obtain ⟨-, rfl⟩ := Prod.mk.inj (Except.ok.inj h)
      exact hq₂
    · obtain ⟨_, -, h⟩ := bind_ok h
      obtain ⟨_, -, h⟩ := bind_ok h
      obtain ⟨s₃, hf, h⟩ := bind_ok h
      obtain ⟨-, rfl⟩ := Prod.mk.inj (Except.ok.inj h)
      refine hq₂.trans (Quiet.grown (Quiet.trans ?_ (myFree_quiet hf)))
      exact .update _ _ _ _ _ rfl

/-- Every step of a client only grows the break. -/
theorem Sys.QuietStep.grown {s : Sys} {l : Label} {st' : State} (h : s.QuietStep l st') :
    Grown s.st st' := by
  rcases h with ⟨-, hq⟩ | ⟨size, o, p, -, hm⟩
  · exact hq.grown
  · exact myMalloc_grown hm

end MemoryMonitor
