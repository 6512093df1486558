import MemoryMonitor.Reinit

/-! # Whose memory `allocator_destroy` gives back

`allocator_destroy` lowers the break to `initial_break` when the break is where the
allocator last left it.  That guard looks at the last extension only: when the rest of
the process has grown the break before, and the allocator has extended the heap after
it, the bytes in between are released although they are the host's.

Here anybody may call anything, with any pointers: what happens to the break does not
depend on it.  The guard is sound as long as the allocator records the break only when
no byte above `initial_break` is the host's.
-/
namespace MemoryMonitor

open ByteMemory

/-- Calls with any pointers, initialisation, destruction, and a host that grows the
break and writes anywhere. -/
def anyCalls : Runs.Machine Sys Label Return Fault where
  allowed s l := match l with
    | .call t _ _ => s.pc t = .idle
    | .hostSbrk n _ => 0 < n
    | _ => True
  step := Sys.step

/-- No byte from `initial_break` to the break is the host's. -/
def OwnsBreak (s : State) : Prop :=
  ∀ x, s.initialBreak ≤ x → x < s.brk → s.hostOwned x = false

/-- Where `allocator_destroy` executes `brk(initial_break)`, it releases nothing of the
host's. -/
def DestroySafe (s : State) : Prop :=
  s.initialBreak ≠ 0 → s.brk = s.lastAllocatorBreak → OwnsBreak s

/-- The step records the break in `last_allocator_break`: an initialisation that gets
the break aligned, or an extension of the heap. -/
def Sys.RecordsBreak (s : Sys) : Label → Prop
  | .init o => (ensureBreakAligned s.st o).1 = true
  | l => ∃ size o, s.mallocOf l = some (size, o) ∧ extendsHeap s.st o size

/-- When the break is recorded for a heap that has begun, no foreign byte lies in it. -/
def Sys.RecordsOwnBreak (s : Sys) (l : Label) : Prop :=
  s.RecordsBreak l → s.st.initialBreak ≠ 0 → OwnsBreak s.st

/-- How the recorded addresses lie. -/
structure BreakOrder (s : State) : Prop where
  pos : 0 < s.brk
  last_le : s.lastAllocatorBreak ≤ s.brk
  initial_le : s.initialBreak ≤ s.brk
  unset : s.initialBreak = 0 → s.lastAllocatorBreak = 0

/-- What holds of the break in every state of these runs. -/
structure BreakInv (s : State) : Prop extends BreakOrder s where
  safe : DestroySafe s

theorem BreakInv.boot {s : State} (B : Boot s) : BreakInv s := by
  have h1 := B.kernel.floor_pos
  have h2 := B.kernel.floor_le
  refine ⟨⟨by omega, ?_, ?_, fun _ => B.lastAllocatorBreak⟩, fun h => absurd B.initialBreak h⟩
  · rw [B.lastAllocatorBreak]; omega
  · rw [B.initialBreak]; omega

/-! ## Growing the break -/

section Grown
variable {s s' : State}

theorem Grown.initial_le (h : Grown s s') (hle : s.initialBreak ≤ s.brk) :
    s'.initialBreak ≤ s'.brk := by
  have hb := h.brk
  by_cases h0 : s.initialBreak = 0
  · rcases h.begun h0 with h1 | h1 <;> omega
  · rw [h.initial h0]
    omega

/-- Bytes below the old break keep their owner. -/
theorem Grown.host_below (h : Grown s s') {x : Nat} (hx : x < s.brk) :
    s'.hostOwned x = s.hostOwned x := by
  rw [h.host x, if_neg (by omega)]

/-- **The grown heap is the allocator's own exactly when the old one was.** -/
theorem Grown.ownsBreak_iff (h : Grown s s') (hbegun : s'.initialBreak ≠ 0) :
    OwnsBreak s' ↔ (s.initialBreak ≠ 0 → OwnsBreak s) := by
  have hb := h.brk
  constructor
  · intro ho h0 x h1 h2
    rw [← h.host_below h2]
    exact ho x (by rw [h.initial h0]; exact h1) (by omega)
  · intro ho x h1 h2
    rw [h.host x]
    split
    · rfl
    · rename_i hx
      by_cases h0 : s.initialBreak = 0
      · rcases h.begun h0 with h3 | h3
        · exact absurd h3 hbegun
        · omega
      · rw [h.initial h0] at h1
        exact ho h0 x h1 (by omega)

/-- Growing the break without recording it keeps the invariant. -/
theorem BreakInv.unrecorded (B : BreakInv s) (h : Grown s s')
    (hl : s'.lastAllocatorBreak = s.lastAllocatorBreak) : BreakInv s' := by
  have h1 := B.pos
  have h2 := B.last_le
  have h3 := h.brk
  refine ⟨⟨by omega, by omega, h.initial_le B.initial_le, fun h0 => hl.trans (B.unset ?_)⟩, ?_⟩
  · by_contra h0'
    exact h0' ((h.initial h0').symm.trans h0)
  · intro h0 hlast
    refine (h.ownsBreak_iff h0).mpr fun h0' => B.safe h0' ?_
    omega

/-- Recording the grown break is safe exactly when no byte of the heap was the host's. -/
theorem BreakInv.recorded (B : BreakInv s) (h : Grown s s') (hl : s'.lastAllocatorBreak = s'.brk)
    (h0 : s'.initialBreak ≠ 0) :
    BreakOrder s' ∧ (DestroySafe s' ↔ (s.initialBreak ≠ 0 → OwnsBreak s)) := by
  have h1 := B.pos
  have h3 := h.brk
  refine ⟨⟨by omega, by omega, h.initial_le B.initial_le, fun h => absurd h h0⟩, ?_⟩
  rw [← h.ownsBreak_iff h0]
  exact ⟨fun hs => hs h0 hl.symm, fun ho _ _ => ho⟩

end Grown

/-! ## The steps -/

section Steps
variable {s s' : State}

/-- An aligned break is a real one. -/
theorem ensureBreakAligned_brk {o : Oracle} (h : ensureBreakAligned s o = (true, s')) :
    s'.brk ≠ ptrFailed := by
  unfold ensureBreakAligned at h
  split at h
  · cases h
  · rename_i hb
    split at h
    · split at h
      · cases h
      · rename_i b s₁ hs
        obtain ⟨-, rfl⟩ := Prod.mk.inj h
        obtain ⟨-, hle, -, rfl⟩ := sbrk_some hs
        unfold addrLimit at hle
        unfold ptrFailed
        simp only
        omega
    · obtain ⟨-, rfl⟩ := Prod.mk.inj h
      exact hb

/-- The heap has begun once the break is prepared. -/
theorem prepareBreak_begun {o : Oracle} (h : prepareBreak s o = (true, s')) (hpos : 0 < s.brk) :
    s'.initialBreak ≠ 0 := by
  unfold prepareBreak at h
  by_cases h0 : s.initialBreak = 0
  · rw [if_pos h0] at h
    cases he : ensureBreakAligned s o with
    | mk ok s₁ =>
      rw [he] at h
      cases ok with
      | false => cases h
      | true =>
        simp only [if_pos (ensureBreakAligned_brk he)] at h
        have hbrk := (ensureBreakAligned_grown he).1.brk
        rw [(ensureBreakAligned_frame h).2.1]
        split <;> simp only <;> omega
  · rw [if_neg h0] at h
    simp only at h
    rw [(ensureBreakAligned_frame h).2.1]
    split <;> exact h0

theorem extendHeap_begun {o : Oracle} {total b : Nat} (h : extendHeap s o total = (b, s'))
    (hb : b ≠ 0) (hpos : 0 < s.brk) : s'.initialBreak ≠ 0 := by
  unfold extendHeap at h
  cases hp : prepareBreak s o with
  | mk ok s₁ =>
    rw [hp] at h
    cases ok with
    | false =>
      obtain ⟨rfl, -⟩ := Prod.mk.inj h
      exact absurd rfl hb
    | true =>
      have h1 := prepareBreak_begun hp hpos
      simp only at h
      cases hs : s₁.sbrk o total false with
      | none =>
        rw [hs] at h
        obtain ⟨rfl, -⟩ := Prod.mk.inj h
        exact absurd rfl hb
      | some r =>
        obtain ⟨b', s₂⟩ := r
        rw [hs] at h
        obtain ⟨-, -, -, rfl⟩ := sbrk_some hs
        obtain ⟨-, rfl⟩ := Prod.mk.inj h
        exact h1

/-- `my_malloc` is safe exactly when it does not extend a heap with foreign bytes in it. -/
theorem BreakInv.myMalloc (B : BreakInv s) {o : Oracle} {size p : Nat}
    (h : myMalloc s o size = .ok (p, s')) :
    BreakOrder s' ∧
      (DestroySafe s' ↔ (extendsHeap s o size → s.initialBreak ≠ 0 → OwnsBreak s)) := by
  by_cases hext : extendsHeap s o size
  · obtain ⟨b, s₁, he, hb, hq⟩ := myMalloc_extends h hext
    obtain ⟨hg, hl⟩ := extendHeap_grown he
    have hlast : s₁.lastAllocatorBreak = s₁.brk := by
      rcases hl with ⟨-, hl⟩ | ⟨hl, -⟩
      · exact absurd hl hb
      · exact hl
    have h0 := extendHeap_begun he hb B.pos
    obtain ⟨ho, hiff⟩ := B.recorded (hg.trans hq.grown)
      (by rw [hq.lastAllocatorBreak, hq.brk]; exact hlast) (by rw [hq.initialBreak]; exact h0)
    exact ⟨ho, hiff.trans ⟨fun h _ => h, fun h => h hext⟩⟩
  · have B' : BreakInv s' := by
      rcases myMalloc_cases h with hq | ⟨s₁, he, rfl⟩ | ⟨b, s₁, he, -⟩
      · exact B.unrecorded hq.grown hq.lastAllocatorBreak
      · obtain ⟨hg, ⟨hl, -⟩ | ⟨-, hb⟩⟩ := extendHeap_grown he
        · exact B.unrecorded hg hl
        · have := B.pos
          omega
      · exact absurd he hext
    exact ⟨B'.toBreakOrder, fun _ h => absurd h hext, fun _ => B'.safe⟩

/-- When the break gets aligned. -/
theorem ensureBreakAligned_iff (s : State) (o : Oracle) :
    (ensureBreakAligned s o).1 = true ↔ s.brk ≠ ptrFailed ∧ (s.brk % 16 = 0 ∨
      o.sbrkOk s.brk (16 - s.brk % 16) = true ∧ s.brk + (16 - s.brk % 16) ≤ addrLimit ∧
        ∀ mp ∈ s.maps, Apart mp.addr mp.len s.brk (16 - s.brk % 16)) := by
  unfold ensureBreakAligned
  split
  · rename_i hbrk
    simp [hbrk]
  · rename_i hbrk
    split
    · rename_i h16
      unfold State.sbrk
      split
      · rename_i hs
        split at hs
        · cases hs
        · rename_i hno
          exact ⟨fun h => (Bool.false_ne_true h).elim, fun h => (h.2.resolve_left h16 |> hno).elim⟩
      · rename_i hs
        split at hs
        · rename_i hok
          exact ⟨fun _ => ⟨hbrk, Or.inr hok⟩, fun _ => rfl⟩
        · cases hs
    · rename_i h16
      exact ⟨fun _ => ⟨hbrk, Or.inl (not_not.mp h16)⟩, fun _ => rfl⟩

/-- `allocator_init` is safe exactly when it does not adopt a heap with foreign bytes in
it. -/
theorem BreakInv.allocatorInit (B : BreakInv s) (o : Oracle) :
    BreakOrder (allocatorInit s o) ∧ (DestroySafe (allocatorInit s o) ↔
      ((ensureBreakAligned s o).1 = true → s.initialBreak ≠ 0 → OwnsBreak s)) := by
  rw [show (ensureBreakAligned s o).1 = true ↔
      (ensureBreakAligned (freeListReset { s with stats := {} }) o).1 = true by
    rw [ensureBreakAligned_iff, ensureBreakAligned_iff]
    rfl]
  unfold MemoryMonitor.allocatorInit
  simp only
  have B₀ : BreakInv (freeListReset { s with stats := {} }) :=
    ⟨⟨B.pos, B.last_le, B.initial_le, B.unset⟩, B.safe⟩
  cases he : ensureBreakAligned (freeListReset { s with stats := {} }) o with
  | mk ok s₁ =>
    obtain ⟨hg, hl, hi⟩ := ensureBreakAligned_grown he
    cases ok with
    | false =>
      have B' := B₀.unrecorded hg hl
      exact ⟨B'.toBreakOrder, fun _ h => absurd h (by simp), fun _ => B'.safe⟩
    | true =>
      simp only [if_pos (ensureBreakAligned_brk he)]
      have hpos := B.pos
      have hbrk : s.brk ≤ s₁.brk := hg.brk
      -- the break of this moment becomes `initial_break`, unless there is one already
      have hset : Grown s₁ { s₁ with
          initialBreak := if s₁.initialBreak = 0 then s₁.brk else s₁.initialBreak
          heapStart := if s₁.initialBreak = 0 then s₁.brk else s₁.initialBreak
          lastAllocatorBreak := s₁.brk } := by
        refine ⟨le_refl _, fun x => ?_, fun h => if_neg h, fun h => Or.inr ?_, fun hp => hp⟩
        · simp only
          rw [if_neg (by omega)]
        · simp only [if_pos h]
          exact ⟨le_refl _, le_refl _⟩
      obtain ⟨ho, hiff⟩ := B₀.recorded (hg.trans hset) rfl (by simp only; split <;> omega)
      exact ⟨ho, hiff.trans ⟨fun h _ => h, fun h => h trivial⟩⟩

/-- `allocator_destroy` leaves nothing behind that a later one could get wrong. -/
theorem BreakInv.allocatorDestroy (B : BreakInv s) (o : Oracle) :
    BreakInv (allocatorDestroy s o) := by
  have hpos := B.pos
  have hle := B.initial_le
  by_cases h0 : s.initialBreak = 0
  · rw [allocatorDestroy_null h0]
    exact ⟨⟨hpos, Nat.zero_le _, hle, fun _ => rfl⟩, fun h => absurd h0 h⟩
  by_cases hb : s.brk = s.lastAllocatorBreak
  · cases hok : o.brkOk with
    | false =>
      rw [allocatorDestroy_refused h0 hb hok]
      exact ⟨⟨hpos, B.last_le, hle, B.unset⟩, B.safe⟩
    | true =>
      rw [allocatorDestroy_released h0 hb hok]
      exact ⟨⟨by simp only; omega, Nat.zero_le _, Nat.zero_le _, fun _ => rfl⟩,
        fun h => absurd rfl h⟩
  · rw [allocatorDestroy_left h0 hb]
    exact ⟨⟨hpos, Nat.zero_le _, Nat.zero_le _, fun _ => rfl⟩, fun h => absurd rfl h⟩

/-- The host grows the break past what the allocator has recorded. -/
theorem BreakInv.hostSbrk (B : BreakInv s) {o : Oracle} {n b : Nat} (hn : 0 < n)
    (h : s.sbrk o n true = some (b, s')) : BreakInv s' := by
  have h1 := B.pos
  have h2 := B.last_le
  have h3 := B.initial_le
  obtain ⟨-, -, -, rfl⟩ := sbrk_some h
  refine ⟨⟨by simp only; omega, by simp only; omega, by simp only; omega, B.unset⟩, ?_⟩
  intro _ hlast
  simp only at hlast
  omega

end Steps

/-- **What a step does to the break**: the guard of `allocator_destroy` stays sound
exactly when the step does not record a break above foreign bytes. -/
theorem BreakInv.step {s s' : Sys} {l : Label} {out : Return} (B : BreakInv s.st)
    (ha : anyCalls.allowed s l) (h : s.step l = .ok (s', out)) :
    BreakOrder s'.st ∧ (DestroySafe s'.st ↔ s.RecordsOwnBreak l) := by
  have hrec : (∀ o, l ≠ .init o) →
      (s.RecordsBreak l ↔ ∃ size o, s.mallocOf l = some (size, o) ∧ extendsHeap s.st o size) := by
    intro hl
    cases l with
    | init o => exact absurd rfl (hl o)
    | _ => exact Iff.rfl
  have hkeep : BreakInv s'.st → s.mallocOf l = none → (∀ o, l ≠ .init o) →
      BreakOrder s'.st ∧ (DestroySafe s'.st ↔ s.RecordsOwnBreak l) := by
    intro B' hnone hl
    refine ⟨B'.toBreakOrder, fun _ hr => ?_, fun _ => B'.safe⟩
    obtain ⟨size, o, hm, -⟩ := (hrec hl).mp hr
    rw [hnone] at hm
    cases hm
  have hquiet : s.QuietStep l s'.st → (∀ o, l ≠ .init o) →
      BreakOrder s'.st ∧ (DestroySafe s'.st ↔ s.RecordsOwnBreak l) := by
    intro hq hl
    rcases hq with ⟨hnone, hq⟩ | ⟨size, o, p, hsome, hm⟩
    · exact hkeep (B.unrecorded hq.grown hq.lastAllocatorBreak) hnone hl
    · obtain ⟨ho, hiff⟩ := B.myMalloc hm
      refine ⟨ho, hiff.trans ⟨fun h hr => ?_, fun h he => h ((hrec hl).mpr ⟨size, o, hsome, he⟩)⟩⟩
      obtain ⟨size', o', hm', he⟩ := (hrec hl).mp hr
      rw [hsome] at hm'
      obtain ⟨rfl, rfl⟩ := Prod.mk.inj (Option.some.inj hm')
      exact h he
  cases l with
  | call t c o => exact hquiet (call_quiet h) (by simp)
  | resume t o => exact hquiet (resume_quiet h) (by simp)
  | store ptr off b =>
    cases h
    exact hquiet (Or.inl ⟨rfl, .update _ _ _ _ _ rfl⟩) (by simp)
  | init o =>
    cases h
    exact B.allocatorInit o
  | destroy o =>
    cases h
    exact hkeep (B.allocatorDestroy o) rfl (by simp)
  | hostSbrk n o =>
    refine hkeep ?_ rfl (by simp)
    simp only [Sys.step] at h
    split at h
    · cases h
      exact B
    · rename_i b st hs
      cases h
      exact B.hostSbrk ha hs
  | hostStore x b =>
    cases h
    exact hquiet (Or.inl ⟨rfl, .update _ _ _ _ _ rfl⟩) (by simp)

/-! ## The runs -/

theorem BreakInv.of_reach {s : Sys}
    (h : (anyCalls.restrict Sys.RecordsOwnBreak).Reach Sys.Unstarted s) : BreakInv s.st := by
  refine h.invariant (P := fun s => BreakInv s.st) (fun _ hs => .boot hs.2)
    fun s l s' out B ha hs => ?_
  obtain ⟨ho, hiff⟩ := B.step ha.1 hs
  exact ⟨ho, hiff.mpr ha.2⟩

/-- **`allocator_destroy` releases only memory of its own as long as the allocator
records only breaks of its own.**  In every state of every run whose steps all meet
`RecordsOwnBreak`, a destruction that executes `brk(initial_break)` releases no byte of
the host's; and the first step that does not meet it makes the next destruction release
one. -/
theorem destroy_releases_own {s : Sys}
    (h : (anyCalls.restrict Sys.RecordsOwnBreak).Reach Sys.Unstarted s) :
    DestroySafe s.st ∧ ∀ l s' out, anyCalls.allowed s l → anyCalls.step s l = .ok (s', out) →
      (DestroySafe s'.st ↔ s.RecordsOwnBreak l) := by
  have B := BreakInv.of_reach h
  exact ⟨B.safe, fun l s' out ha hs => (B.step ha hs).2⟩

/-! ## Computed runs -/

theorem Sys.mayCall {s : Sys} {l : Label}
    (hc : (s.clientCheck l || s.controlCheck l || Sys.hostCheck l) = true) :
    anyCalls.allowed s l := by
  cases l with
  | call t c o =>
    simp only [Sys.clientCheck, Sys.controlCheck, Sys.hostCheck, Bool.or_false, Bool.and_eq_true,
      decide_eq_true_eq] at hc
    obtain ⟨⟨rfl, h0⟩, -⟩ := hc
    exact h0
  | hostSbrk n o =>
    exact Sys.Solo.hostMay_of_check (s := s) (by simpa [Sys.clientCheck, Sys.controlCheck] using hc)
  | resume t o => exact trivial
  | store ptr off b => exact trivial
  | init o => exact trivial
  | destroy o => exact trivial
  | hostStore x b => exact trivial

/-- Every checked run of one thread is a run of calls. -/
theorem anyCalls_reach {is : List Label} {s : Sys}
    (he : anyCalls.exec (fun s l => s.clientCheck l || s.controlCheck l || Sys.hostCheck l)
      unstartedSys is = some s) : anyCalls.Reach Sys.Unstarted s := by
  refine (Runs.Machine.Reach.exec (P := Sys.Solo) ?_ (.start unstartedSys_unstarted)
    (fun _ _ => rfl) he).1
  intro s l s' out hs hc hstep
  exact ⟨Sys.mayCall hc, hs.step hstep hc⟩

/-- A step that any caller may take; the heap has not grown yet, or the host's break does. -/
def Sys.ownCheck (s : Sys) (l : Label) : Bool :=
  (s.clientCheck l || s.controlCheck l || Sys.hostCheck l) &&
    (Sys.hostCheck l || s.st.brk ≤ s.st.initialBreak || s.st.initialBreak = 0)

/-- A computed run that records only breaks of the allocator's own. -/
theorem own_reach {is : List Label} {s : Sys}
    (he : (anyCalls.restrict Sys.RecordsOwnBreak).exec Sys.ownCheck unstartedSys is = some s) :
    (anyCalls.restrict Sys.RecordsOwnBreak).Reach Sys.Unstarted s := by
  refine (Runs.Machine.Reach.exec (P := Sys.Solo) ?_ (.start unstartedSys_unstarted)
    (fun _ _ => rfl) he).1
  intro s l s' out hs hc hstep
  obtain ⟨hmay, hgrown⟩ := (Bool.and_eq_true _ _).mp hc
  simp only [Bool.or_eq_true, decide_eq_true_eq] at hgrown
  refine ⟨⟨Sys.mayCall hmay, fun hrec h0 => ?_⟩, hs.step hstep hmay⟩
  rcases hgrown with (hhost | hempty) | hunset
  · cases l with
    | hostSbrk n o =>
      obtain ⟨size, o', hm, -⟩ := hrec
      cases hm
    | _ => cases hhost
  · intro x h1 h2
    omega
  · exact absurd hunset h0

/-- The heap is one block when the host takes 16 bytes above it.  Before that a destruction
gives the block back and nothing else, and after it the guard does not pass.  The next
extension does not meet the condition. -/
theorem destroy_releases_own_host :
    ∃ s s', (anyCalls.restrict Sys.RecordsOwnBreak).exec Sys.ownCheck unstartedSys
        [.init {}, .call 0 (.malloc 100) {}] = some s ∧
      s.st.initialBreak = 4096 ∧ s.st.brk = 4272 ∧ s.st.lastAllocatorBreak = 4272 ∧
      OwnsBreak s.st ∧ s.step (.hostSbrk 16 {}) = .ok (s', none) ∧
      s'.st.hostOwned 4272 = true ∧ s'.st.brk ≠ s'.st.lastAllocatorBreak ∧ DestroySafe s'.st ∧
      ¬ s'.RecordsOwnBreak (.call 0 (.malloc 200) {}) := by
  have hrun : ((anyCalls.restrict Sys.RecordsOwnBreak).exec Sys.ownCheck unstartedSys
      [.init {}, .call 0 (.malloc 100) {}]).bind (fun s =>
        (s.step (.hostSbrk 16 {})).toOption.bind fun r =>
        (r.1.step (.call 0 (.malloc 200) {})).toOption.bind fun r' => some
          (r.2, r.1.pc 0, r.1.st.hostOwned 4272, r'.1.st.hostOwned 4272,
            [s.st.initialBreak, s.st.brk, s.st.lastAllocatorBreak, r.1.st.brk,
              r.1.st.lastAllocatorBreak, r'.1.st.initialBreak, r'.1.st.brk,
              r'.1.st.lastAllocatorBreak])) =
      some (none, .idle, true, true, [4096, 4272, 4272, 4288, 4272, 4096, 4560, 4560]) := by
    decide +kernel
  obtain ⟨s, hs, hrun⟩ := Option.bind_eq_some_iff.mp hrun
  obtain ⟨⟨s', out⟩, hstep, hrun⟩ := Runs.ok_of_bind hrun
  obtain ⟨⟨s'', out'⟩, hgrow, hout⟩ := Runs.ok_of_bind hrun
  simp only [Option.some.injEq, Prod.mk.injEq, List.cons.injEq, and_true] at hout
  obtain ⟨rfl, hidle, hhost, hhost', hinit, hbrk, hlast, hbrk', hlast', hinit', hbrk'', hlast''⟩ := hout
  have hreach := own_reach hs
  obtain ⟨hsafe, hnext⟩ := destroy_releases_own hreach
  have howns : OwnsBreak s.st := hsafe (by rw [hinit]; decide) (by rw [hbrk, hlast])
  have hmeets : s.RecordsOwnBreak (.hostSbrk 16 {}) := by
    rintro ⟨size, o, hm, -⟩
    cases hm
  have hreach' : (anyCalls.restrict Sys.RecordsOwnBreak).Reach Sys.Unstarted s' :=
    hreach.next (i := .hostSbrk 16 {}) ⟨Nat.succ_pos 15, hmeets⟩ hstep
  obtain ⟨hsafe', hnext'⟩ := destroy_releases_own hreach'
  refine ⟨s, s', hs, hinit, hbrk, hlast, howns, hstep, hhost, by rw [hbrk', hlast']; decide, hsafe',
    fun hown => ?_⟩
  have hsafe'' := (hnext' (.call 0 (.malloc 200) {}) s'' out' hidle hgrow).mpr hown
  have hfalse := hsafe'' (by rw [hinit']; decide) (by rw [hbrk'', hlast'']) 4272
    (by rw [hinit']; decide) (by rw [hbrk'']; decide)
  rw [hhost'] at hfalse
  cases hfalse

/-- **The guard lets foreign bytes through**: `init`, `malloc(100)`, the host takes 16
bytes, `malloc(200)`; a destruction now executes `brk(initial_break)`, and the host's
bytes lie in between. -/
theorem destroy_releases_foreign : ∃ s, anyCalls.Reach Sys.Unstarted s ∧ s.st.initialBreak ≠ 0 ∧
    s.st.brk = s.st.lastAllocatorBreak ∧ s.st.initialBreak ≤ 4272 ∧ 4272 < s.st.brk ∧
    s.st.hostOwned 4272 = true := by
  have h : (anyCalls.exec (fun s l => s.clientCheck l || s.controlCheck l || Sys.hostCheck l)
      unstartedSys [.init {}, .call 0 (.malloc 100) {}, .hostSbrk 16 {},
        .call 0 (.malloc 200) {}]).any (fun s => s.st.initialBreak ≠ 0 ∧
      s.st.brk = s.st.lastAllocatorBreak ∧ s.st.initialBreak ≤ 4272 ∧ 4272 < s.st.brk ∧
      s.st.hostOwned 4272 = true) = true := by
    decide +kernel
  obtain ⟨s, he, hs⟩ := (Option.any_eq_true ..).mp h
  exact ⟨s, anyCalls_reach he, of_decide_eq_true hs⟩

end MemoryMonitor
