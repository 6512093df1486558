import MemoryMonitor.Threads

/-! # The invariant of the threads

Between two steps of a thread the allocations it works on are live and its own, and
a mapping it is about to unmap is still there and nobody else's.  Together with the
allocator's invariant that is preserved by every step a client may take, and no
such step faults.
-/
namespace MemoryMonitor

open ByteMemory

/-- What a thread knows of its own call: the guard of `my_calloc` held, and `my_calloc`
frees nothing. -/
def Pending.Ok : Pending → Prop
  | .clear nmemb size _ => nmemb * size < 2 ^ 64
  | .unmap _ c _ => ∀ nmemb size, c ≠ .calloc nmemb size
  | _ => True

/-- **The invariant of the machine.** -/
structure SysInv (shared : Prop) (s : Sys) : Prop where
  inv : Inv shared s.st s.live
  claims : ∀ t, ∀ e ∈ (s.pc t).claims, e ∈ s.live
  distinct : ∀ t, ((s.pc t).claims.map Alloc.ptr).Nodup
  apart : ∀ t t', t ≠ t' → ∀ e ∈ (s.pc t).claims, ∀ e' ∈ (s.pc t').claims, e.ptr ≠ e'.ptr
  ok : ∀ t, (s.pc t).Ok
  retired : ∀ t mp, (s.pc t).retired = some mp →
    mp ∈ s.st.maps ∧ ∀ e ∈ s.live, e.ptr ≠ mp.addr + 48
  retired_ne : ∀ t t', t ≠ t' → ∀ mp, (s.pc t).retired = some mp → (s.pc t').retired ≠ some mp

/-- The pointers a step works on. -/
def Sys.touched (s : Sys) : Label → List Nat
  | .call _ c _ => [c.operand]
  | .resume t _ => (s.pc t).claims.map Alloc.ptr
  | .store ptr _ _ => [ptr]
  | _ => []

/-- What a step of a client ends with: the invariant, every other allocation and the
host's bytes as they were, a returned block live, and cleared when it was asked for
cleared. -/
structure StepResult (shared : Prop) (s : Sys) (touched : List Nat) (r : Sys × Return) : Prop where
  inv : SysInv shared r.1
  others : ∀ e ∈ s.live, e.ptr ∉ touched →
    e ∈ r.1.live ∧ Set.EqOn r.1.st.mem s.st.mem e.payload
  host : ∀ x, s.st.hostOwned x = true → r.1.st.mem x = s.st.mem x
  returned : ∀ c p, r.2 = some (c, p) → p ≠ 0 → (⟨p, c.request⟩ : Alloc) ∈ r.1.live
  cleared : ∀ nmemb size p, r.2 = some (.calloc nmemb size, p) → p ≠ 0 →
    ∀ x ∈ range p (nmemb * size), r.1.st.mem x = 0

namespace SysInv
variable {shared : Prop} {s : Sys} {t : Nat}

/-- **One thread moves on**: the other threads keep their allocations and the
mappings they are about to unmap. -/
theorem advance (I : SysInv shared s) {st' : State} {live' : List Alloc} {pc' : Pending}
    (hinv : Inv shared st' live')
    (hkeep : ∀ t', t' ≠ t → ∀ e ∈ (s.pc t').claims, e ∈ live')
    (hclaims : ∀ e ∈ pc'.claims, e ∈ live') (hdist : (pc'.claims.map Alloc.ptr).Nodup)
    (hapart : ∀ t', t' ≠ t → ∀ e ∈ pc'.claims, ∀ e' ∈ (s.pc t').claims, e.ptr ≠ e'.ptr)
    (hok : pc'.Ok)
    (hmaps : ∀ t', t' ≠ t → ∀ mp, (s.pc t').retired = some mp →
      mp ∈ st'.maps ∧ ∀ e ∈ live', e.ptr ≠ mp.addr + 48)
    (hret : ∀ mp, pc'.retired = some mp → mp ∈ st'.maps ∧ (∀ e ∈ live', e.ptr ≠ mp.addr + 48) ∧
      ∀ t', t' ≠ t → (s.pc t').retired ≠ some mp) :
    SysInv shared ⟨st', live', Function.update s.pc t pc'⟩ := by
  have hself : Function.update s.pc t pc' t = pc' := Function.update_self ..
  have hother : ∀ {t'}, t' ≠ t → Function.update s.pc t pc' t' = s.pc t' := fun h =>
    Function.update_of_ne h ..
  refine ⟨hinv, ?_, ?_, ?_, ?_, ?_, ?_⟩
  · intro t' e he
    simp only at he
    by_cases ht : t' = t
    · rw [ht, hself] at he
      exact hclaims e he
    · rw [hother ht] at he
      exact hkeep t' ht e he
  · intro t'
    simp only
    by_cases ht : t' = t
    · rw [ht, hself]
      exact hdist
    · rw [hother ht]
      exact I.distinct t'
  · intro t₁ t₂ hne e he e' he'
    simp only at he he'
    by_cases h1 : t₁ = t
    · have h2 : t₂ ≠ t := fun h => hne (h1.trans h.symm)
      rw [h1, hself] at he
      rw [hother h2] at he'
      exact hapart t₂ h2 e he e' he'
    · rw [hother h1] at he
      by_cases h2 : t₂ = t
      · rw [h2, hself] at he'
        exact (hapart t₁ h1 e' he' e he).symm
      · rw [hother h2] at he'
        exact I.apart t₁ t₂ hne e he e' he'
  · intro t'
    simp only
    by_cases ht : t' = t
    · rw [ht, hself]
      exact hok
    · rw [hother ht]
      exact I.ok t'
  · intro t' mp hmp
    simp only at hmp ⊢
    by_cases ht : t' = t
    · rw [ht, hself] at hmp
      exact ⟨(hret mp hmp).1, (hret mp hmp).2.1⟩
    · rw [hother ht] at hmp
      exact hmaps t' ht mp hmp
  · intro t₁ t₂ hne mp h1 h2
    simp only at h1 h2
    by_cases ht₁ : t₁ = t
    · have ht₂ : t₂ ≠ t := fun h => hne (ht₁.trans h.symm)
      rw [ht₁, hself] at h1
      rw [hother ht₂] at h2
      exact (hret mp h1).2.2 t₂ ht₂ h2
    · rw [hother ht₁] at h1
      by_cases ht₂ : t₂ = t
      · rw [ht₂, hself] at h2
        exact (hret mp h2).2.2 t₁ ht₁ h1
      · rw [hother ht₂] at h2
        exact I.retired_ne t₁ t₂ hne mp h1 h2

/-- A thread becomes idle, when nothing it does not own has gone. -/
theorem advance_idle (I : SysInv shared s) {st' : State} {live' : List Alloc}
    (hinv : Inv shared st' live') (hkeep : ∀ t', t' ≠ t → ∀ e ∈ (s.pc t').claims, e ∈ live')
    (hmaps : ∀ t', t' ≠ t → ∀ mp, (s.pc t').retired = some mp →
      mp ∈ st'.maps ∧ ∀ e ∈ live', e.ptr ≠ mp.addr + 48) :
    SysInv shared ⟨st', live', Function.update s.pc t .idle⟩ :=
  I.advance hinv hkeep (by simp [Pending.claims]) (by simp [Pending.claims])
    (by simp [Pending.claims]) trivial hmaps (by simp [Pending.retired])

/-! ## The steps of a call -/

/-- The other threads keep what they work on when a block is handed out. -/
theorem malloc_others (I : SysInv shared s) {size p : Nat} {st : State}
    (R : Heap.MallocResult shared s.st s.live size p st) {live' : List Alloc}
    (hlive : live' = s.live ∨ live' = ⟨p, size⟩ :: s.live) :
    (∀ t' e, e ∈ (s.pc t').claims → e ∈ live') ∧
    ∀ t' mp, (s.pc t').retired = some mp → mp ∈ st.maps ∧ ∀ e ∈ live', e.ptr ≠ mp.addr + 48 := by
  refine ⟨fun t' e he => ?_, fun t' mp hmp => ⟨R.maps mp (I.retired t' mp hmp).1, fun e he => ?_⟩⟩
  · rcases hlive with rfl | rfl
    · exact I.claims t' e he
    · exact List.mem_cons_of_mem _ (I.claims t' e he)
  · rcases hlive with rfl | rfl
    · exact (I.retired t' mp hmp).2 e he
    · rcases List.mem_cons.mp he with rfl | he
      · exact R.fresh mp (I.retired t' mp hmp).1
      · exact (I.retired t' mp hmp).2 e he

/-- A call that ends without a block, after a change that touched nothing. -/
theorem finish_null (I : SysInv shared s) {st : State} (hinv : Inv shared st s.live)
    (U : Untouched s.st s.live st) (hmaps : ∀ mp ∈ s.st.maps, mp ∈ st.maps) (c : Call)
    (touched : List Nat) : StepResult shared s touched (s.finish t st s.live c 0) := by
  refine ⟨?_, fun e he _ => ⟨he, U.payload e he⟩, U.host, ?_, ?_⟩
  · exact I.advance_idle hinv (fun t' _ e he => I.claims t' e he)
      (fun t' _ mp hmp => ⟨hmaps mp (I.retired t' mp hmp).1, (I.retired t' mp hmp).2⟩)
  · intro c' p h hp
    cases h
    exact absurd rfl hp
  · intro nmemb size p h hp
    cases h
    exact absurd rfl hp

/-- `my_malloc` as a whole call. -/
theorem callMalloc (I : SysInv shared s) (c : Call) {size : Nat} (o : Oracle)
    (hc : c.request = size) (hcalloc : ∀ nmemb k, c ≠ .calloc nmemb k) (touched : List Nat) :
    ∃ r, s.callMalloc t c size o = .ok r ∧ StepResult shared s touched r := by
  obtain ⟨lo, segs, lists, H⟩ := I.inv
  obtain ⟨p, st, hr, R⟩ := H.myMalloc o size
  refine ⟨_, by rw [Sys.callMalloc, hr, ok_bind], ?_⟩
  rcases R.inv with ⟨rfl, hinv⟩ | ⟨hp, hinv⟩
  · exact I.finish_null hinv R.untouched R.maps c touched
  · obtain ⟨h1, h2⟩ := I.malloc_others R (Or.inr rfl)
    simp only [gain, if_neg hp]
    refine ⟨I.advance_idle hinv (fun t' _ e he => h1 t' e he) (fun t' _ mp hmp => h2 t' mp hmp),
      fun e he _ => ⟨List.mem_cons_of_mem _ he, R.untouched.payload e he⟩, R.untouched.host, ?_, ?_⟩
    · intro c' p' h _
      obtain ⟨rfl, rfl⟩ := Prod.mk.inj (Option.some.inj h)
      rw [hc]
      exact List.mem_cons_self ..
    · intro nmemb k p' h _
      obtain ⟨rfl, -⟩ := Prod.mk.inj (Option.some.inj h)
      exact absurd rfl (hcalloc nmemb k)

/-- What it takes for a thread to free `e`, and then return `ret`: nobody else works
on `e`, and `ret` is null or another allocation of the thread's own. -/
structure MayRelease (s : Sys) (t : Nat) (e : Alloc) (c : Call) (ret : Nat) : Prop where
  live : e ∈ s.live
  own : ∀ t', t' ≠ t → ∀ e' ∈ (s.pc t').claims, e'.ptr ≠ e.ptr
  ret : ret ≠ 0 → (⟨ret, c.request⟩ : Alloc) ∈ s.live ∧ ret ≠ e.ptr ∧
    ∀ t', t' ≠ t → ∀ e' ∈ (s.pc t').claims, e'.ptr ≠ ret
  call : ∀ nmemb k, c ≠ .calloc nmemb k

/-- `my_free`, at the end of a call. -/
theorem callFree (I : SysInv shared s) {e : Alloc} {c : Call} {ret : Nat}
    (M : MayRelease s t e c ret) {touched : List Nat} (htouched : e.ptr ∈ touched) :
    ∃ r, s.callFree t c e.ptr ret = .ok r ∧ StepResult shared s touched r := by
  obtain ⟨lo, segs, lists, H⟩ := I.inv.perm (perm_forget I.inv.nodup M.live)
  obtain ⟨out, st, hr, hinv, U, -, hmaps, hout⟩ := H.myFreeLocked
  have hkeep : ∀ t', t' ≠ t → ∀ e' ∈ (s.pc t').claims, e' ∈ forget e.ptr s.live := fun t' ht e' he' =>
    mem_forget.mpr ⟨I.claims t' e' he', M.own t' ht e' he'⟩
  have hret : ∀ t', t' ≠ t → ∀ mp, (s.pc t').retired = some mp →
      mp ∈ st.maps ∧ ∀ e' ∈ forget e.ptr s.live, e'.ptr ≠ mp.addr + 48 := fun t' _ mp hmp => by
    rw [hmaps]
    exact ⟨(I.retired t' mp hmp).1, fun e' he' => (I.retired t' mp hmp).2 e' (mem_forget.mp he').1⟩
  have hothers : ∀ e' ∈ s.live, e'.ptr ∉ touched →
      e' ∈ forget e.ptr s.live ∧ Set.EqOn st.mem s.st.mem e'.payload := by
    intro e' he' hne
    have hm : e' ∈ forget e.ptr s.live :=
      mem_forget.mpr ⟨he', fun h => hne (by rw [h]; exact htouched)⟩
    exact ⟨hm, U.payload e' hm⟩
  cases out with
  | none =>
    refine ⟨_, by rw [Sys.callFree, hr, ok_bind], I.advance_idle hinv hkeep hret, hothers, U.host,
      ?_, ?_⟩
    · intro c' p h hp
      obtain ⟨rfl, rfl⟩ := Prod.mk.inj (Option.some.inj h)
      exact mem_forget.mpr ⟨(M.ret hp).1, (M.ret hp).2.1⟩
    · intro nmemb k p h _
      obtain ⟨rfl, -⟩ := Prod.mk.inj (Option.some.inj h)
      exact absurd rfl (M.call nmemb k)
  | some mp =>
    obtain ⟨hmp, hptr⟩ := hout mp rfl
    refine ⟨_, by rw [Sys.callFree, hr, ok_bind], ?_, hothers, U.host, by simp [Sys.suspend],
      by simp [Sys.suspend]⟩
    refine I.advance hinv hkeep ?_ ?_ ?_ M.call hret ?_
    · intro e' he'
      simp only [Pending.claims] at he'
      split at he'
      · cases he'
      · rename_i h0
        rw [List.mem_singleton] at he'
        rw [he']
        exact mem_forget.mpr ⟨(M.ret h0).1, (M.ret h0).2.1⟩
    · simp only [Pending.claims]
      split <;> simp
    · intro t' ht e' he' e'' he''
      simp only [Pending.claims] at he'
      split at he'
      · cases he'
      · rename_i h0
        rw [List.mem_singleton] at he'
        rw [he']
        exact ((M.ret h0).2.2 t' ht e'' he'').symm
    · intro mp' h
      obtain rfl : mp = mp' := Option.some.inj h
      refine ⟨by rw [hmaps]; exact hmp, ?_, ?_⟩
      · intro e' he'
        rw [← hptr]
        exact (mem_forget.mp he').2
      · intro t' _ h'
        exact (I.retired t' mp h').2 e M.live hptr

/-- A thread that had nothing to do suspends a call with one allocation of its own. -/
theorem suspend_one (I : SysInv shared s) {st : State} {live' : List Alloc} {pc' : Pending}
    {e : Alloc} (hinv : Inv shared st live') (hpc : pc'.claims = [e]) (hret : pc'.retired = none)
    (he : e ∈ live') (hkeep : ∀ t' e', e' ∈ (s.pc t').claims → e' ∈ live')
    (hother : ∀ t', t' ≠ t → ∀ e' ∈ (s.pc t').claims, e'.ptr ≠ e.ptr)
    (hok : pc'.Ok)
    (hmaps : ∀ t' mp, (s.pc t').retired = some mp →
      mp ∈ st.maps ∧ ∀ e ∈ live', e.ptr ≠ mp.addr + 48) :
    SysInv shared ⟨st, live', Function.update s.pc t pc'⟩ := by
  refine I.advance hinv (fun t' _ e' he' => hkeep t' e' he') ?_ (by rw [hpc]; simp) ?_ hok
    (fun t' _ mp hmp => hmaps t' mp hmp) (by rw [hret]; simp)
  · intro e' he'
    rw [hpc, List.mem_singleton] at he'
    rw [he']
    exact he
  · intro t' ht e' he' e'' he''
    rw [hpc, List.mem_singleton] at he'
    rw [he']
    exact (hother t' ht e'' he'').symm

/-- `my_calloc`, up to where it has its block. -/
theorem callCalloc (I : SysInv shared s) (nmemb size : Nat) (o : Oracle) (touched : List Nat) :
    ∃ r, s.callCalloc t nmemb size o = .ok r ∧ StepResult shared s touched r := by
  have hnull : StepResult shared s touched (s.finish t s.st s.live (.calloc nmemb size) 0) :=
    I.finish_null I.inv ⟨fun _ _ _ _ => rfl, fun _ _ => rfl⟩ (fun _ h => h) _ touched
  unfold Sys.callCalloc
  by_cases h0 : nmemb = 0 ∨ size = 0
  · rw [if_pos h0]
    exact ⟨_, rfl, hnull⟩
  by_cases hover : (2 ^ 64 - 1) / nmemb < size
  · rw [if_neg h0, if_pos hover]
    exact ⟨_, rfl, hnull⟩
  rw [if_neg h0, if_neg hover]
  -- the guard of the source is exactly that the product does not wrap
  have hprod : nmemb * size < 2 ^ 64 := by
    have := calloc_product hover
    omega
  obtain ⟨lo, segs, lists, H⟩ := I.inv
  obtain ⟨p, st, hr, R⟩ := H.myMalloc o (nmemb * size % 2 ^ 64)
  rw [hr, ok_bind]
  rcases R.inv with ⟨rfl, hinv⟩ | ⟨hp, hinv⟩
  · exact ⟨_, rfl, I.finish_null hinv R.untouched R.maps _ touched⟩
  · simp only [ne_eq, hp, not_false_eq_true, if_true]
    obtain ⟨h1, h2⟩ := I.malloc_others R (Or.inr rfl)
    refine ⟨_, rfl, ?_, fun e he _ => ⟨List.mem_cons_of_mem _ he, R.untouched.payload e he⟩,
      R.untouched.host, by simp [Sys.suspend], by simp [Sys.suspend]⟩
    refine I.suspend_one (e := ⟨p, nmemb * size % 2 ^ 64⟩) hinv rfl rfl (List.mem_cons_self ..) h1
      ?_ hprod h2
    exact fun t' _ e' he' => hinv.new_ptr (I.claims t' e' he')

/-- `my_realloc`, up to the end of its first critical section. -/
theorem callRealloc (I : SysInv shared s) {ptr : Nat} (size : Nat) (o : Oracle)
    (hptr : ptr = 0 ∨ s.Usable ptr) :
    ∃ r, s.callRealloc t ptr size o = .ok r ∧ StepResult shared s [ptr] r := by
  unfold Sys.callRealloc
  by_cases h0 : ptr = 0
  · rw [if_pos h0]
    exact I.callMalloc _ o rfl (by simp) _
  obtain ⟨⟨e, he, rfl⟩, hfree⟩ := hptr.resolve_left h0
  rw [if_neg h0]
  by_cases hz : size = 0
  · rw [if_pos hz]
    exact I.callFree ⟨he, fun t' _ e' he' => hfree t' e' he', fun h => absurd rfl h, by simp⟩
      (by simp)
  by_cases hmax : maxAllowed < size
  · rw [if_neg hz, if_pos hmax]
    exact ⟨_, rfl, I.finish_null I.inv ⟨fun _ _ _ _ => rfl, fun _ _ => rfl⟩ (fun _ h => h) _ _⟩
  rw [if_neg hz, if_neg hmax]
  obtain ⟨lo, segs, lists, H⟩ := I.inv.perm (perm_forget I.inv.nodup he)
  obtain ⟨out, st, hr, R⟩ := H.myReallocLocked o hz (by omega)
  rw [hr, ok_bind]
  have hretired : ∀ t' mp, (s.pc t').retired = some mp → e.ptr ≠ mp.addr + 48 := fun t' mp hmp =>
    (I.retired t' mp hmp).2 e he
  have hothers : ∀ e' ∈ s.live, e'.ptr ∉ [e.ptr] → e' ∈ forget e.ptr s.live := by
    intro e' he' hne
    rw [List.mem_singleton] at hne
    exact mem_forget.mpr ⟨he', hne⟩
  cases out with
  | done p =>
    obtain ⟨hp, hinv, hpfresh⟩ := R.done p rfl
    refine ⟨_, rfl, ?_, ?_, R.untouched.host, ?_, by simp [Sys.finish]⟩
    · refine I.advance_idle hinv ?_ ?_
      · intro t' _ e' he'
        exact List.mem_cons_of_mem _ (mem_forget.mpr ⟨I.claims t' e' he', hfree t' e' he'⟩)
      · intro t' _ mp hmp
        obtain ⟨h1, h2⟩ := I.retired t' mp hmp
        refine ⟨R.maps mp h1 (hretired t' mp hmp), fun e' he' => ?_⟩
        rcases List.mem_cons.mp he' with rfl | he'
        · exact hpfresh mp h1 (hretired t' mp hmp)
        · exact h2 e' (mem_forget.mp he').1
    · intro e' he' hne
      have hm := hothers e' he' hne
      exact ⟨List.mem_cons_of_mem _ hm, R.untouched.payload e' hm⟩
    · intro c' p' h _
      obtain ⟨rfl, rfl⟩ := Prod.mk.inj (Option.some.inj h)
      exact List.mem_cons_self ..
  | relocate old =>
    obtain ⟨rfl, rfl⟩ := R.relocate old rfl
    refine ⟨_, rfl, ?_, ?_, R.untouched.host, by simp [Sys.suspend], by simp [Sys.suspend]⟩
    · refine I.suspend_one (e := e) I.inv rfl rfl he I.claims (fun t' _ e' he' => hfree t' e' he')
        trivial I.retired
    · exact fun e' he' _ => ⟨he', fun _ _ => rfl⟩

/-- **Every call a client may enter returns or suspends**, and keeps the invariant. -/
theorem call (I : SysInv shared s) {c : Call} (o : Oracle)
    (hc : c.operand = 0 ∨ s.Usable c.operand) :
    ∃ r, s.call t c o = .ok r ∧ StepResult shared s [c.operand] r := by
  cases c with
  | malloc size => exact I.callMalloc (.malloc size) o rfl (by simp) _
  | calloc nmemb size => exact I.callCalloc nmemb size o _
  | realloc ptr size => exact I.callRealloc size o hc
  | free ptr =>
    by_cases h0 : ptr = 0
    · subst h0
      have hforget : forget 0 s.live = s.live := by
        refine List.filter_eq_self.mpr fun e he => ?_
        rw [decide_eq_true_eq]
        exact I.inv.ptr_ne_zero he
      refine ⟨s.finish t s.st s.live (.free 0) 0, ?_, ?_⟩
      · simp only [Sys.call, Sys.callFree, myFreeLocked, if_true, ok_bind, hforget]
      · exact I.finish_null I.inv ⟨fun _ _ _ _ => rfl, fun _ _ => rfl⟩ (fun _ h => h) _ _
    · obtain ⟨⟨e, he, rfl⟩, hfree⟩ := hc.resolve_left h0
      exact I.callFree ⟨he, fun t' _ e' he' => hfree t' e' he', fun h => absurd rfl h, by simp⟩
        (by simp [Call.operand])

/-! ## Going on with a call -/

/-- The old and the new block of a relocation belong to the thread. -/
theorem two_claims (I : SysInv shared s) {ptr old newPtr size : Nat}
    (hpc : (s.pc t).claims = [⟨ptr, old⟩, ⟨newPtr, size⟩]) :
    (⟨ptr, old⟩ : Alloc) ∈ s.live ∧ (⟨newPtr, size⟩ : Alloc) ∈ s.live ∧ ptr ≠ newPtr ∧
    (∀ t', t' ≠ t → ∀ e' ∈ (s.pc t').claims, e'.ptr ≠ ptr) ∧
    ∀ t', t' ≠ t → ∀ e' ∈ (s.pc t').claims, e'.ptr ≠ newPtr := by
  have hcl := I.claims t
  have hd := I.distinct t
  have hap := I.apart t
  rw [hpc] at hcl hd hap
  refine ⟨hcl _ (by simp), hcl _ (by simp), by simpa using hd, ?_, ?_⟩
  · intro t' ht e' he'
    exact (hap t' ht.symm ⟨ptr, old⟩ (by simp) e' he').symm
  · intro t' ht e' he'
    exact (hap t' ht.symm ⟨newPtr, size⟩ (by simp) e' he').symm

/-- `my_calloc` clears its block and returns it. -/
theorem resume_clear (I : SysInv shared s) {nmemb size ptr : Nat} (o : Oracle)
    (hpc : s.pc t = .clear nmemb size ptr) :
    ∃ r, s.resume t o = .ok r ∧ StepResult shared s ((s.pc t).claims.map Alloc.ptr) r := by
  have hprod : nmemb * size < 2 ^ 64 := by
    have := I.ok t
    rwa [hpc] at this
  have hmod : nmemb * size % 2 ^ 64 = nmemb * size := Nat.mod_eq_of_lt hprod
  have he : (⟨ptr, nmemb * size % 2 ^ 64⟩ : Alloc) ∈ s.live := by
    refine I.claims t _ ?_
    rw [hpc]
    simp [Pending.claims]
  obtain ⟨hinv, hothers, hhost⟩ := I.inv.write he (overwrite_eqOn s.st.mem ptr (nmemb * size % 2 ^ 64)
    fun _ => 0)
  have hderef := I.inv.deref he (le_refl (nmemb * size % 2 ^ 64))
  simp only at hderef
  have hr : s.resume t o = .ok (s.finish t { s.st with
      mem := overwrite s.st.mem ptr (nmemb * size % 2 ^ 64) fun _ => 0 } s.live
      (.calloc nmemb size) ptr) := by
    simp only [Sys.resume, hpc, hderef, ok_bind]
  refine ⟨_, hr, ?_, ?_, hhost, ?_, ?_⟩
  · exact I.advance_idle hinv (fun t' _ e' he' => I.claims t' e' he')
      (fun t' _ mp hmp => I.retired t' mp hmp)
  · intro e' he' hne
    rw [hpc] at hne
    exact ⟨he', hothers e' he' (by simpa [Pending.claims] using hne)⟩
  · intro c p h _
    obtain ⟨rfl, rfl⟩ := Prod.mk.inj (Option.some.inj h)
    rw [hmod] at he
    exact he
  · intro nmemb' size' p h _ x hx
    obtain ⟨h1, rfl⟩ := Prod.mk.inj (Option.some.inj h)
    obtain ⟨rfl, rfl⟩ := Call.calloc.inj h1
    rw [← hmod] at hx
    exact overwrite_of_mem (m := s.st.mem) (f := fun _ => 0) hx

/-- `my_realloc` gets the new block. -/
theorem resume_relocate (I : SysInv shared s) {ptr size old : Nat} (o : Oracle)
    (hpc : s.pc t = .relocate ptr size old) (touched : List Nat) :
    ∃ r, s.resume t o = .ok r ∧ StepResult shared s touched r := by
  have hclaims : (s.pc t).claims = [⟨ptr, old⟩] := by rw [hpc]; rfl
  have he : (⟨ptr, old⟩ : Alloc) ∈ s.live := I.claims t _ (by rw [hclaims]; simp)
  obtain ⟨lo, segs, lists, H⟩ := I.inv
  obtain ⟨p, st, hr, R⟩ := H.myMalloc o size
  simp only [Sys.resume, hpc, hr, ok_bind]
  rcases R.inv with ⟨rfl, hinv⟩ | ⟨hp, hinv⟩
  · exact ⟨_, rfl, I.finish_null hinv R.untouched R.maps _ touched⟩
  · rw [if_neg hp]
    obtain ⟨h1, h2⟩ := I.malloc_others R (Or.inr rfl)
    have hfresh : ∀ e' ∈ s.live, e'.ptr ≠ p := fun e' he' => hinv.new_ptr he'
    refine ⟨_, rfl, ?_, fun e' he' _ => ⟨List.mem_cons_of_mem _ he', R.untouched.payload e' he'⟩,
      R.untouched.host, by simp [Sys.suspend], by simp [Sys.suspend]⟩
    refine I.advance hinv (fun t' _ e' he' => h1 t' e' he') ?_ ?_ ?_ trivial
      (fun t' _ mp hmp => h2 t' mp hmp) (by simp [Pending.retired])
    · intro e' he'
      simp only [Pending.claims, List.mem_cons, List.not_mem_nil, or_false] at he'
      rcases he' with rfl | rfl
      · exact List.mem_cons_of_mem _ he
      · exact List.mem_cons_self ..
    · have := hfresh _ he
      simpa [Pending.claims] using this
    · intro t' ht e' he' e'' he''
      simp only [Pending.claims, List.mem_cons, List.not_mem_nil, or_false] at he'
      rcases he' with rfl | rfl
      · exact I.apart t t' ht.symm _ (by rw [hclaims]; simp) e'' he''
      · exact (hfresh e'' (I.claims t' e'' he'')).symm

/-- `my_realloc` copies the old block into the new one. -/
theorem resume_copy (I : SysInv shared s) {ptr size old newPtr : Nat} (o : Oracle)
    (hpc : s.pc t = .copy ptr size old newPtr) :
    ∃ r, s.resume t o = .ok r ∧ StepResult shared s ((s.pc t).claims.map Alloc.ptr) r := by
  have hclaims : (s.pc t).claims = [⟨ptr, old⟩, ⟨newPtr, size⟩] := by rw [hpc]; rfl
  obtain ⟨he, he', hne, hown, hown'⟩ := I.two_claims hclaims
  have hm : Set.EqOn (memcpy s.st.mem newPtr ptr (min old size)) s.st.mem
      (⟨newPtr, size⟩ : Alloc).payloadᶜ :=
    (overwrite_eqOn _ _ _ _).mono (Set.compl_subset_compl.mpr
      (range_subset (le_refl _) (by simp only; omega)))
  obtain ⟨hinv, hothers, hhost⟩ := I.inv.write he' hm
  have h1 := I.inv.deref he (Nat.min_le_left old size)
  have h2 := I.inv.deref he' (Nat.min_le_right old size)
  simp only at h1 h2
  have hr : s.resume t o = .ok (s.suspend t { s.st with
      mem := memcpy s.st.mem newPtr ptr (min old size) } s.live
      (.release ptr size old newPtr)) := by
    simp only [Sys.resume, hpc, h1, h2, ok_bind]
  refine ⟨_, hr, ?_, ?_, hhost, by simp [Sys.suspend], by simp [Sys.suspend]⟩
  · refine I.advance hinv (fun t' _ e he => I.claims t' e he) ?_ ?_ ?_ trivial
      (fun t' _ mp hmp => I.retired t' mp hmp) (by simp [Pending.retired])
    · have := I.claims t
      rw [hclaims] at this
      exact this
    · have := I.distinct t
      rw [hclaims] at this
      exact this
    · intro t' ht
      have := I.apart t t' ht.symm
      rw [hclaims] at this
      exact this
  · intro e hel hnt
    rw [hclaims] at hnt
    refine ⟨hel, hothers e hel ?_⟩
    simp only [List.map_cons, List.map_nil, List.mem_cons, List.not_mem_nil, or_false] at hnt
    exact fun h => hnt (Or.inr h)

/-- A freed mapping is unmapped, and the call returns. -/
theorem resume_unmap (I : SysInv shared s) {mp : Mapping} {c : Call} {ret : Nat} (o : Oracle)
    (hpc : s.pc t = .unmap mp c ret) (touched : List Nat) :
    ∃ r, s.resume t o = .ok r ∧ StepResult shared s touched r := by
  have hret := I.retired t mp (by rw [hpc]; rfl)
  have hcalloc : ∀ nmemb k, c ≠ .calloc nmemb k := by
    have := I.ok t
    rwa [hpc] at this
  have hmem := munmap_mem s.st o mp.addr
  have hr : s.resume t o = .ok (s.finish t (s.st.munmap o mp.addr) s.live c ret) := by
    simp only [Sys.resume, hpc]
  refine ⟨_, hr, ?_, ?_, ?_, ?_, ?_⟩
  · refine I.advance_idle ?_ (fun t' _ e he => I.claims t' e he) ?_
    · exact I.inv.munmap o hret.2
    · intro t' ht mp' hmp'
      obtain ⟨h1, h2⟩ := I.retired t' mp' hmp'
      refine ⟨?_, h2⟩
      have hne : mp' ≠ mp := by
        rintro rfl
        exact I.retired_ne t t' ht.symm mp' (by rw [hpc]; rfl) hmp'
      obtain ⟨lo, segs, lists, H⟩ := I.inv
      exact mem_maps_munmap h1 fun ha => hne (H.kernel.map_eq h1 hret.1 ha)
  · exact fun e he _ => ⟨he, fun x _ => congrFun hmem x⟩
  · exact fun x _ => congrFun hmem x
  · intro c' p h hp
    obtain ⟨rfl, rfl⟩ := Prod.mk.inj (Option.some.inj h)
    refine I.claims t _ ?_
    rw [hpc]
    simp [Pending.claims, hp]
  · intro nmemb k p h _
    obtain ⟨rfl, -⟩ := Prod.mk.inj (Option.some.inj h)
    exact absurd rfl (hcalloc nmemb k)

/-- **A thread can always go on with its call**, and keeps the invariant. -/
theorem resume (I : SysInv shared s) (o : Oracle) (hpc : s.pc t ≠ .idle) :
    ∃ r, s.resume t o = .ok r ∧ StepResult shared s ((s.pc t).claims.map Alloc.ptr) r := by
  cases h : s.pc t with
  | idle => exact absurd h hpc
  | clear nmemb size ptr => rw [← h]; exact I.resume_clear o h
  | relocate ptr size old => exact I.resume_relocate o h _
  | copy ptr size old newPtr => rw [← h]; exact I.resume_copy o h
  | unmap mp c ret => exact I.resume_unmap o h _
  | release ptr size old newPtr =>
    have hclaims : (s.pc t).claims = [⟨ptr, old⟩, ⟨newPtr, size⟩] := by rw [h]; rfl
    obtain ⟨he, he', hne, hown, hown'⟩ := I.two_claims hclaims
    have hr : s.resume t o = s.callFree t (.realloc ptr size) ptr newPtr := by
      simp only [Sys.resume, h]
    rw [hr]
    exact I.callFree (e := ⟨ptr, old⟩) ⟨he, hown, fun _ => ⟨he', hne.symm, hown'⟩, by simp⟩
      (by simp [Pending.claims])

/-- The client's stores. -/
theorem store (I : SysInv shared s) {ptr off : Nat} (b : UInt8)
    (h : ∃ e ∈ s.live, e.ptr = ptr ∧ off < e.size) :
    ∃ r, s.step (.store ptr off b) = .ok r ∧ StepResult shared s [ptr] r := by
  obtain ⟨e, he, rfl, hoff⟩ := h
  have hm : Set.EqOn (Function.update s.st.mem (e.ptr + off) b) s.st.mem e.payloadᶜ := by
    intro x hx
    refine Function.update_of_ne ?_ _ _
    rintro rfl
    exact hx (mem_range.mpr ⟨by omega, by omega⟩)
  obtain ⟨hinv, hothers, hhost⟩ := I.inv.write he hm
  refine ⟨_, rfl, ?_, ?_, hhost, by simp, by simp⟩
  · exact ⟨hinv, I.claims, I.distinct, I.apart, I.ok, I.retired, I.retired_ne⟩
  · intro e' he' hne
    exact ⟨he', hothers e' he' (by simpa using hne)⟩

/-- **No step of a client faults, and every one keeps the invariant.** -/
theorem client_step (I : SysInv shared s) {l : Label} (hl : s.ClientMay l) :
    ∃ r, s.step l = .ok r ∧ StepResult shared s (s.touched l) r := by
  cases l with
  | call t c o => exact I.call o hl.2
  | resume t o => exact I.resume o hl
  | store ptr off b => exact I.store b hl
  | init o => exact absurd hl id
  | destroy o => exact absurd hl id
  | hostSbrk n o => exact absurd hl id
  | hostStore x b => exact absurd hl id

end SysInv

end MemoryMonitor
