import MemoryMonitor.PayloadSpec

/-! # Whole calls

What `my_malloc`, `my_calloc`, `my_free` and `my_realloc` do when nobody else gets in
between their critical sections: they return, keep the invariant, leave the other
allocations alone, and touch no mapping but their operand's.
-/
namespace MemoryMonitor

open ByteMemory Tiling

variable {shared : Prop} {s s' : State} {live rest : List Alloc} {e : Alloc}

/-- The guard of `my_calloc` is exactly that the product does not wrap. -/
theorem calloc_product {nmemb size : Nat} (h : ¬ (2 ^ 64 - 1) / nmemb < size) :
    nmemb * size % 2 ^ 64 = nmemb * size := by
  have h1 : nmemb * size ≤ nmemb * ((2 ^ 64 - 1) / nmemb) :=
    Nat.mul_le_mul_left _ (Nat.le_of_not_lt h)
  have h2 := Nat.mul_div_le (2 ^ 64 - 1) nmemb
  exact Nat.mod_eq_of_lt (by omega)

/-! ## Stores and unmapping -/

/-- A mapping that no live allocation sits in is unmapped, or not: the heap is the same. -/
theorem Heap.munmap {lo : Nat} {segs : List Seg} {lists : Fin 8 → List Nat}
    (H : Heap shared s live lo segs lists) (o : Oracle) {addr : Nat}
    (h : ∀ e ∈ live, e.ptr ≠ addr + 48) : Heap shared (s.munmap o addr) live lo segs lists := by
  unfold State.munmap
  split
  · exact H.unmap addr h
  · exact H

namespace Inv

theorem nodup (I : Inv shared s live) : (live.map Alloc.ptr).Nodup := by
  obtain ⟨lo, segs, lists, I⟩ := I
  exact I.nodup

theorem ptr_ne_zero (I : Inv shared s live) (he : e ∈ live) : e.ptr ≠ 0 := by
  obtain ⟨lo, segs, lists, I⟩ := I
  obtain ⟨a, n, t, h⟩ := I.held e he
  have := h.ptr_eq
  omega

/-- Pointers are aligned to 16 bytes. -/
theorem ptr_aligned (I : Inv shared s live) (he : e ∈ live) : e.ptr % 16 = 0 := by
  obtain ⟨lo, segs, lists, I⟩ := I
  obtain ⟨a, n, t, h⟩ := I.held e he
  have h1 := h.ptr_eq
  have h2 := h.formed.addr_aligned
  omega

/-- Live allocations with the same pointer are the same. -/
theorem eq_of_ptr (I : Inv shared s live) {e' : Alloc} (he : e ∈ live) (he' : e' ∈ live)
    (h : e.ptr = e'.ptr) : e = e' :=
  List.inj_on_of_nodup_map I.nodup he he' h

/-- **A store into one allocation** concerns nobody else. -/
theorem write (I : Inv shared s live) (he : e ∈ live) {m' : Mem}
    (hm : Set.EqOn m' s.mem e.payloadᶜ) :
    Inv shared { s with mem := m' } live ∧
      (∀ e' ∈ live, e'.ptr ≠ e.ptr → Set.EqOn m' s.mem e'.payload) ∧
      ∀ x, s.hostOwned x = true → m' x = s.mem x := by
  obtain ⟨lo, segs, lists, H⟩ := I
  obtain ⟨H', hothers⟩ := H.write_payload he hm
  refine ⟨⟨lo, segs, lists, H'⟩, fun e' he' hne => hothers e' he' fun h => hne (by rw [h]), ?_⟩
  intro x hx
  refine hm fun hxp => ?_
  obtain ⟨a, n, k, h⟩ := H.held e he
  have hlt := H.host_lt x hx
  have hb := H.held_bounds h
  have hp := mem_range.mp (h.payload_subset hxp)
  rcases h.place with ⟨rfl, hg⟩ | ⟨rfl, -, -⟩
  · have := H.blank.own _ hg (by simp) x (by rw [Span.mem_bytes]; simp only; omega)
    rw [this] at hx
    cases hx
  · omega

/-- A live allocation's bytes lie outside every mapping but its own. -/
theorem payload_outside (I : Inv shared s live) (he : e ∈ live) {mp : Mapping} (hmp : mp ∈ s.maps)
    (hne : e.ptr ≠ mp.addr + 48) : Disjoint e.payload (range mp.addr mp.len) := by
  obtain ⟨lo, segs, lists, H⟩ := I
  obtain ⟨a, n, t, h⟩ := H.held e he
  have hptr := h.ptr_eq
  rw [Set.disjoint_left]
  intro x hx hxm
  have hp := mem_range.mp (h.payload_subset hx)
  rcases h.place with ⟨-, hg⟩ | ⟨-, hm, -⟩
  · have hb := H.rep.tiles.bounds hg
    have hfl := H.rep.floor
    simp only at hb
    exact H.map_bytes hmp hxm ⟨by omega, by omega⟩
  · have hap := H.kernel.maps_apart hm hmp (by rintro rfl; exact hne hptr)
    rw [mem_range] at hxm
    unfold Apart at hap
    simp only at hap
    omega

/-- A store into one allocation leaves the other mappings alone. -/
theorem write_mapped (I : Inv shared s live) (he : e ∈ live) {m' : Mem}
    (hm : Set.EqOn m' s.mem e.payloadᶜ) : MapsKept s e.ptr { s with mem := m' } := by
  intro mp hmp hne x hx
  exact hm fun hxp => Set.disjoint_left.mp (I.payload_outside he hmp hne) hxp hx

/-- **A store into a mapping in which no live allocation sits** concerns none of them. -/
theorem write_mapping (I : Inv shared s live) {mp : Mapping} (hmp : mp ∈ s.maps)
    (hno : ∀ e ∈ live, e.ptr ≠ mp.addr + 48) {m' : Mem}
    (hm : Set.EqOn m' s.mem (range mp.addr mp.len)ᶜ) :
    Inv shared { s with mem := m' } live ∧ ∀ e ∈ live, Set.EqOn m' s.mem e.payload := by
  refine ⟨?_, fun e he x hx => hm fun hxm =>
    Set.disjoint_left.mp (I.payload_outside he hmp (hno e he)) hx hxm⟩
  obtain ⟨lo, segs, lists, H⟩ := I
  have hfl := H.rep.floor
  have hin : ∀ x, s.brkFloor ≤ x → x < s.brk → m' x = s.mem x := fun x h1 h2 =>
    hm fun hxm => H.map_bytes hmp hxm ⟨h1, h2⟩
  -- seen from the state without the mapping, everything is kept
  have K : Keeps { s with maps := s.maps.filter fun mp' => mp'.addr ≠ mp.addr } segs
      { s with mem := m' } segs := by
    refine ⟨fun g hg _ => ⟨hg, fun x hx => ?_⟩, fun mp' hmp' => ?_, fun x hx => ?_⟩
    · have hb := H.rep.tiles.bounds hg
      rw [Span.mem_bytes] at hx
      exact hin x (by omega) (by omega)
    · obtain ⟨hmp', hne⟩ := List.mem_filter.mp hmp'
      have hap := H.kernel.maps_apart hmp' hmp (by rintro rfl; simp at hne)
      refine ⟨hmp', fun x hx => hm fun hxm => ?_⟩
      rw [mem_range] at hx hxm
      unfold Apart at hap
      omega
    · have := H.host_lt x hx
      exact ⟨hx, hin x this.1 this.2⟩
  refine ⟨lo, segs, lists, H.outside hin rfl rfl rfl rfl rfl rfl rfl
    (H.kernel.of_fields rfl rfl rfl rfl), H.settled, fun e he => ?_, H.nodup, H.balance⟩
  obtain ⟨a, n, t, h⟩ := H.held e he
  have hptr := h.ptr_eq
  have hne := hno e he
  exact ⟨a, n, t, (h.unmap fun _ => by omega).keeps K⟩

/-- The bytes of a live allocation may be dereferenced. -/
theorem deref_within (I : Inv shared s live) (he : e ∈ live) {x k : Nat} (h1 : e.ptr ≤ x)
    (h2 : x + k ≤ e.ptr + e.size) : s.deref x k = .ok () := by
  obtain ⟨lo, segs, lists, H⟩ := I
  obtain ⟨a, n, t, h⟩ := H.held e he
  have h3 := h.ptr_eq
  have h4 := h.room
  exact State.deref_pos (H.held_accessible h (by omega) (by omega))

theorem deref (I : Inv shared s live) (he : e ∈ live) {k : Nat} (hk : k ≤ e.size) :
    s.deref e.ptr k = .ok () :=
  I.deref_within he (le_refl _) (by omega)

/-- A mapping that no live allocation sits in is unmapped, or not. -/
theorem munmap (I : Inv shared s live) (o : Oracle) {addr : Nat}
    (h : ∀ e ∈ live, e.ptr ≠ addr + 48) : Inv shared (s.munmap o addr) live := by
  obtain ⟨lo, segs, lists, H⟩ := I
  exact ⟨lo, segs, lists, H.munmap o h⟩

end Inv

theorem munmap_mem (s : State) (o : Oracle) (addr : Nat) : (s.munmap o addr).mem = s.mem := by
  unfold State.munmap
  split <;> rfl

/-- Other mappings stay. -/
theorem mem_maps_munmap {o : Oracle} {addr : Nat} {mp : Mapping} (h : mp ∈ s.maps)
    (hne : mp.addr ≠ addr) : mp ∈ (s.munmap o addr).maps := by
  unfold State.munmap
  split
  · exact List.mem_filter.mpr ⟨h, by simpa using hne⟩
  · exact h

/-! ## Live allocations as a list -/

/-- The live allocations without the one at `ptr`. -/
def forget (ptr : Nat) (live : List Alloc) : List Alloc := live.filter fun e => e.ptr ≠ ptr

theorem mem_forget {ptr : Nat} {live : List Alloc} {e : Alloc} :
    e ∈ forget ptr live ↔ e ∈ live ∧ e.ptr ≠ ptr := by
  unfold forget
  rw [List.mem_filter]
  simp

/-- The allocation that is given up, and the others. -/
theorem perm_forget : ∀ {live : List Alloc}, (live.map Alloc.ptr).Nodup → ∀ {e : Alloc}, e ∈ live →
    live.Perm (e :: forget e.ptr live)
  | [], _, _, he => by cases he
  | c :: live, hn, e, he => by
      rw [List.map_cons, List.nodup_cons] at hn
      have hkeep : ∀ {x : Nat}, x ∉ live.map Alloc.ptr → forget x live = live := by
        intro x hx
        refine List.filter_eq_self.mpr fun d hd => ?_
        rw [decide_eq_true_eq]
        rintro rfl
        exact hx (List.mem_map.mpr ⟨d, hd, rfl⟩)
      rcases List.mem_cons.mp he with rfl | he
      · have : forget e.ptr (e :: live) = live := by
          rw [forget, List.filter_cons_of_neg (by simp)]
          exact hkeep hn.1
        rw [this]
      · have hne : c.ptr ≠ e.ptr := by
          intro h
          exact hn.1 (by rw [h]; exact List.mem_map.mpr ⟨e, he, rfl⟩)
        have : forget e.ptr (c :: live) = c :: forget e.ptr live := by
          rw [forget, List.filter_cons_of_pos (by simpa using hne)]
          rfl
        rw [this]
        exact ((perm_forget hn.2 he).cons c).trans (List.Perm.swap e c _)

/-! ## Calls -/

/-- **What a whole call ends with**: `rest` are the allocations other than its operand
`ptr`, and `live'` those after it. -/
structure CallResult (shared : Prop) (s : State) (rest : List Alloc) (ptr : Nat) (s' : State)
    (live' : List Alloc) : Prop where
  inv : Inv shared s' live'
  payload : ∀ e ∈ rest, Set.EqOn s'.mem s.mem e.payload
  maps : ∀ mp ∈ s.maps, ptr ≠ mp.addr + 48 → mp ∈ s'.maps
  mapped : MapsKept s ptr s'
  fresh : ∀ mp ∈ s.maps, ptr ≠ mp.addr + 48 → ∀ e ∈ live', e ∉ rest → e.ptr ≠ mp.addr + 48

/-- Nothing happened. -/
theorem CallResult.refl (I : Inv shared s live) (ptr : Nat) : CallResult shared s live ptr s live :=
  ⟨I, fun _ _ _ _ => rfl, fun _ h _ => h, fun _ _ _ _ _ => rfl, fun _ _ _ _ h h' => absurd h h'⟩

/-- The live allocations with a new one, unless the call returned `NULL`. -/
def gain (ptr size : Nat) (live : List Alloc) : List Alloc :=
  if ptr = 0 then live else ⟨ptr, size⟩ :: live

theorem gain_zero (size : Nat) (live : List Alloc) : gain 0 size live = live := if_pos rfl

theorem gain_of_ne {ptr : Nat} (h : ptr ≠ 0) (size : Nat) (live : List Alloc) :
    gain ptr size live = ⟨ptr, size⟩ :: live := if_neg h

/-- **`my_malloc`.** -/
theorem Inv.myMalloc (I : Inv shared s live) (o : Oracle) (size : Nat) :
    ∃ p s', myMalloc s o size = .ok (p, s') ∧
      CallResult shared s live 0 s' (gain p size live) := by
  obtain ⟨lo, segs, lists, H⟩ := I
  obtain ⟨p, s', hr, R⟩ := H.myMalloc o size
  refine ⟨p, s', hr, ?_, R.untouched.payload, fun mp h _ => R.maps mp h, R.mapped, ?_⟩
  · rcases R.inv with ⟨rfl, hinv⟩ | ⟨hp, hinv⟩
    · rw [gain_zero]
      exact hinv
    · rw [gain_of_ne hp]
      exact hinv
  · intro mp hmp _ e he hno
    unfold gain at he
    split at he
    · exact absurd he hno
    · rcases List.mem_cons.mp he with rfl | he
      · exact R.fresh mp hmp
      · exact absurd he hno

/-- A pointer that was just handed out is nobody else's. -/
theorem Inv.new_ptr {p size : Nat} (I : Inv shared s (⟨p, size⟩ :: live)) {e : Alloc} (he : e ∈ live) :
    e.ptr ≠ p := by
  have hnd := I.nodup
  rw [List.map_cons, List.nodup_cons] at hnd
  exact fun h => hnd.1 (List.mem_map.mpr ⟨e, he, h⟩)

/-- **Storing into the block a call has just returned** is as good as part of the call. -/
theorem CallResult.write_new {p k : Nat} (R : CallResult shared s live 0 s' (⟨p, k⟩ :: live))
    {m' : Mem} (hm : Set.EqOn m' s'.mem (⟨p, k⟩ : Alloc).payloadᶜ) :
    CallResult shared s live 0 { s' with mem := m' } (⟨p, k⟩ :: live) := by
  have hnew : (⟨p, k⟩ : Alloc) ∈ ⟨p, k⟩ :: live := List.mem_cons_self ..
  obtain ⟨hinv, hothers, -⟩ := R.inv.write hnew hm
  refine ⟨hinv, fun e he => ?_, R.maps, ?_, R.fresh⟩
  · exact (hothers e (List.mem_cons_of_mem _ he) (R.inv.new_ptr he)).trans (R.payload e he)
  · refine R.mapped.trans (R.inv.write_mapped hnew hm) fun mp hmp h0 => ?_
    exact ⟨R.maps mp hmp h0, R.fresh mp hmp h0 _ hnew fun hold => R.inv.new_ptr hold rfl⟩

/-- **`my_calloc`.** -/
theorem Inv.myCalloc (I : Inv shared s live) (o : Oracle) (nmemb size : Nat) :
    ∃ p s', myCalloc s o nmemb size = .ok (p, s') ∧
      CallResult shared s live 0 s' (gain p (nmemb * size) live) := by
  unfold MemoryMonitor.myCalloc
  by_cases h0 : nmemb = 0 ∨ size = 0
  · rw [if_pos h0]
    exact ⟨0, s, rfl, by rw [gain_zero]; exact .refl I 0⟩
  by_cases hover : (2 ^ 64 - 1) / nmemb < size
  · rw [if_neg h0, if_pos hover]
    exact ⟨0, s, rfl, by rw [gain_zero]; exact .refl I 0⟩
  rw [if_neg h0, if_neg hover]
  have hmod := calloc_product hover
  obtain ⟨p, s₁, hr, R⟩ := I.myMalloc o (nmemb * size % 2 ^ 64)
  simp only [hr, ok_bind]
  rw [hmod] at R ⊢
  by_cases hp : p = 0
  · rw [if_neg (not_not.mpr hp)]
    exact ⟨p, s₁, rfl, R⟩
  · rw [if_pos hp]
    rw [gain_of_ne hp] at R
    have hd := R.inv.deref (List.mem_cons_self ..) (le_refl (nmemb * size))
    simp only at hd
    rw [hd, ok_bind]
    exact ⟨p, _, rfl, by rw [gain_of_ne hp]; exact R.write_new (overwrite_eqOn ..)⟩

/-- **`my_free`** on a live pointer. -/
theorem Inv.myFree (I : Inv shared s (e :: rest)) (o : Oracle) :
    ∃ s', myFree s o e.ptr = .ok s' ∧ CallResult shared s rest e.ptr s' rest := by
  obtain ⟨lo, segs, lists, H⟩ := I
  obtain ⟨out, s₁, hr, hinv, U, hkept, hmaps, hout⟩ := H.myFreeLocked
  have hfresh : ∀ mp ∈ s.maps, e.ptr ≠ mp.addr + 48 → ∀ e' ∈ rest, e' ∉ rest →
      e'.ptr ≠ mp.addr + 48 := fun _ _ _ e' h h' => absurd h h'
  unfold MemoryMonitor.myFree
  simp only [hr, ok_bind]
  cases out with
  | none => exact ⟨s₁, rfl, hinv, U.payload, fun mp h _ => by rw [hmaps]; exact h, hkept, hfresh⟩
  | some mp =>
    obtain ⟨hmp, hptr⟩ := hout mp rfl
    refine ⟨_, rfl, hinv.munmap o ?_, ?_, ?_, ?_, hfresh⟩
    · intro e' he'
      rw [← hptr]
      exact (show Inv shared s (e :: rest) from ⟨lo, segs, lists, H⟩).new_ptr he'
    · intro e' he'
      rw [munmap_mem]
      exact U.payload e' he'
    · intro mp' hmp' hne
      exact mem_maps_munmap (by rw [hmaps]; exact hmp') (by omega)
    · intro mp' hmp' hne
      rw [munmap_mem]
      exact hkept mp' hmp' hne

/-- `my_free` of an allocation somewhere among the live ones. -/
theorem Inv.free_mem (I : Inv shared s live) (he : e ∈ live) (o : Oracle) :
    ∃ s', MemoryMonitor.myFree s o e.ptr = .ok s' ∧
      CallResult shared s (forget e.ptr live) e.ptr s' (forget e.ptr live) :=
  (I.perm (perm_forget I.nodup he)).myFree o

/-- The live allocations after `my_realloc` of `e` returned `p`. -/
def afterRealloc (e : Alloc) (size p : Nat) (rest : List Alloc) : List Alloc :=
  if p ≠ 0 then ⟨p, size⟩ :: rest else if size = 0 then rest else e :: rest

/-- The first critical section of `my_realloc` changes nothing when it leaves the block to
be relocated. -/
theorem Inv.relocated (I : Inv shared s live) (he : e ∈ live) {o : Oracle} {size old : Nat}
    (h0 : size ≠ 0) (hmax : size ≤ maxAllowed)
    (h : myReallocLocked s o e.ptr size = .ok (.relocate old, s')) : old = e.size ∧ s' = s := by
  obtain ⟨lo, segs, lists, H⟩ := I.perm (perm_forget I.nodup he)
  obtain ⟨out, st, hr, R⟩ := H.myReallocLocked o h0 hmax
  rw [hr] at h
  obtain ⟨rfl, rfl⟩ := Prod.mk.inj (Except.ok.inj h)
  exact R.relocate old rfl

/-- The bytes that both requests ask for are the same at `p` as they were at `e`. -/
def Copied (s : State) (e : Alloc) (size p : Nat) (s' : State) : Prop :=
  ∀ i < min e.size size, s'.mem (p + i) = s.mem (e.ptr + i)

/-- The relocation in `my_realloc`: a new block, a copy, and the old block is freed. -/
theorem Inv.relocate (I : Inv shared s (e :: rest)) (o : Oracle) {size : Nat} (h0 : size ≠ 0) :
    ∃ p s', (do
        let (newPtr, s) ← MemoryMonitor.myMalloc s o size
        if newPtr = 0 then .ok (0, s)
        else do
          s.deref e.ptr (min e.size size)
          s.deref newPtr (min e.size size)
          let s := { s with mem := memcpy s.mem newPtr e.ptr (min e.size size) }
          let s ← MemoryMonitor.myFree s o e.ptr
          .ok (newPtr, s)) = .ok (p, s') ∧
      CallResult shared s rest e.ptr s' (afterRealloc e size p rest) ∧
      (p ≠ 0 → Copied s e size p s') := by
  obtain ⟨p, s₁, hr, R⟩ := I.myMalloc o size
  simp only [hr, ok_bind]
  by_cases hp : p = 0
  · subst hp
    rw [if_pos rfl]
    have hl : afterRealloc e size 0 rest = e :: rest := by simp [afterRealloc, h0]
    have hinv := R.inv
    rw [gain_zero] at hinv
    refine ⟨0, s₁, rfl, ⟨by rw [hl]; exact hinv,
      fun e' he' => R.payload e' (List.mem_cons_of_mem _ he'), fun mp h _ => R.maps mp h (by omega),
      fun mp h _ => R.mapped mp h (by omega), fun mp _ hne e' he' hno => ?_⟩, fun h => absurd rfl h⟩
    rw [hl] at he'
    rcases List.mem_cons.mp he' with rfl | he'
    · exact hne
    · exact absurd he' hno
  · rw [if_neg hp]
    rw [gain_of_ne hp] at R
    have hinv := R.inv
    have hnew : (⟨p, size⟩ : Alloc) ∈ ⟨p, size⟩ :: e :: rest := List.mem_cons_self ..
    have hd₁ := hinv.deref (e := e) (by simp) (Nat.min_le_left e.size size)
    have hd₂ := hinv.deref hnew (Nat.min_le_right e.size size)
    simp only at hd₁ hd₂
    have hm : Set.EqOn (memcpy s₁.mem p e.ptr (min e.size size)) s₁.mem
        (⟨p, size⟩ : Alloc).payloadᶜ :=
      (overwrite_eqOn _ _ _ _).mono (Set.compl_subset_compl.mpr
        (range_subset (le_refl _) (by simp only; omega)))
    have R₁ := R.write_new hm
    obtain ⟨s₂, hr₂, R₂⟩ := (R₁.inv.perm (List.Perm.swap e ⟨p, size⟩ rest)).myFree o
    rw [hd₁, ok_bind, hd₂, ok_bind, hr₂, ok_bind]
    have hl : afterRealloc e size p rest = ⟨p, size⟩ :: rest := by simp [afterRealloc, hp]
    refine ⟨p, s₂, rfl, ⟨by rw [hl]; exact R₂.inv, ?_, ?_, ?_, ?_⟩, fun _ i hi => ?_⟩
    · intro e' he'
      exact (R₂.payload e' (List.mem_cons_of_mem _ he')).trans
        (R₁.payload e' (List.mem_cons_of_mem _ he'))
    · intro mp hmp hne
      exact R₂.maps mp (R.maps mp hmp (by omega)) hne
    · intro mp hmp hne
      exact (R₂.mapped mp (R₁.maps mp hmp (by omega)) hne).trans (R₁.mapped mp hmp (by omega))
    · intro mp hmp hne e' he' hno
      rw [hl] at he'
      rcases List.mem_cons.mp he' with rfl | he'
      · exact R.fresh mp hmp (by omega) _ hnew fun hold => hinv.new_ptr hold rfl
      · exact absurd he' hno
    · -- the new block is live while the old one is freed, and the old one during `my_malloc`
      have h1 : s₂.mem (p + i) = memcpy s₁.mem p e.ptr (min e.size size) (p + i) :=
        R₂.payload ⟨p, size⟩ (List.mem_cons_self ..)
          (mem_range.mpr ⟨Nat.le_add_right .., by simp only; omega⟩)
      have h2 : memcpy s₁.mem p e.ptr (min e.size size) (p + i) = s₁.mem (e.ptr + i) := by
        rw [memcpy, overwrite_of_mem ⟨by omega, by omega⟩, Nat.add_sub_cancel_left]
      have h3 : s₁.mem (e.ptr + i) = s.mem (e.ptr + i) :=
        R.payload e (List.mem_cons_self ..) (mem_range.mpr ⟨by omega, by omega⟩)
      rw [h1, h2, h3]

/-- **`my_realloc`** of a live pointer. -/
theorem Inv.myRealloc (I : Inv shared s (e :: rest)) (o : Oracle) (size : Nat) :
    ∃ p s', myRealloc s o e.ptr size = .ok (p, s') ∧
      CallResult shared s rest e.ptr s' (afterRealloc e size p rest) ∧
      (p ≠ 0 → Copied s e size p s') := by
  have hptr := I.ptr_ne_zero (List.mem_cons_self ..)
  have hkeep : size ≠ 0 → CallResult shared s rest e.ptr s (afterRealloc e size 0 rest) := by
    intro h0
    have hl : afterRealloc e size 0 rest = e :: rest := by simp [afterRealloc, h0]
    rw [hl]
    refine ⟨I, fun _ _ _ _ => rfl, fun _ h _ => h, fun _ _ _ _ _ => rfl,
      fun mp _ hne e' he' hno => ?_⟩
    rcases List.mem_cons.mp he' with rfl | he'
    · exact hne
    · exact absurd he' hno
  unfold MemoryMonitor.myRealloc
  rw [if_neg hptr]
  by_cases h0 : size = 0
  · obtain ⟨s', hr, R⟩ := I.myFree o
    rw [if_pos h0, hr, ok_bind]
    exact ⟨0, s', rfl, by simpa [afterRealloc, h0] using R, fun h => absurd rfl h⟩
  by_cases hmax : maxAllowed < size
  · rw [if_neg h0, if_pos hmax]
    exact ⟨0, s, rfl, hkeep h0, fun h => absurd rfl h⟩
  rw [if_neg h0, if_neg hmax]
  obtain ⟨lo, segs, lists, H⟩ := I
  obtain ⟨out, s₁, hr, R⟩ := H.myReallocLocked_blocks o h0 (by omega)
  simp only [hr, ok_bind]
  cases out with
  | done p =>
    obtain ⟨hp, hinv, hfresh⟩ := R.done p rfl
    refine ⟨p, s₁, rfl, ⟨?_, R.untouched.payload, R.maps, R.mapped, ?_⟩, fun _ => R.contents p rfl⟩
    · simpa [afterRealloc, hp] using hinv
    · intro mp hmp hne e' he' hno
      simp only [afterRealloc, ne_eq, hp, not_false_eq_true, if_true] at he'
      rcases List.mem_cons.mp he' with rfl | he'
      · exact hfresh mp hmp hne
      · exact absurd he' hno
  | relocate old =>
    obtain ⟨rfl, rfl⟩ := R.relocate old rfl
    exact Inv.relocate ⟨lo, segs, lists, H⟩ o h0

end MemoryMonitor
