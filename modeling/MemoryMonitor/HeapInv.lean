import MemoryMonitor.BlockOps
import Mathlib.Data.List.Pairwise
import Mathlib.Algebra.BigOperators.Group.List.Basic

/-! # The invariant of the allocator

`Layout` is what holds of the heap as a whole: it represents a tiling, the gaps are
blank, and the kernel keeps mappings and the break area apart.  `Heap` adds the
client's side: no operation is at work, every live allocation sits in a used block
or in a mapping of its own, and the counters balance.

Two states of one run are related by `Keeps`: used blocks, mappings and the host's
bytes that were there before are still there, byte for byte.  It is a preorder, and
live allocations survive along it.
-/
namespace MemoryMonitor

open ByteMemory Tiling LinkedChain Coalescing

/-! ## The kernel's side -/

/-- The break area and the mappings, as the kernel keeps them. -/
structure KernelOk (s : State) : Prop where
  floor_pos : 0 < s.brkFloor
  floor_le : s.brkFloor ≤ s.brk
  peak : s.brk ≤ s.brkPeak
  limit : s.brk ≤ addrLimit
  placed : ∀ mp ∈ s.maps, mp.addr % 4096 = 0 ∧ 0 < mp.addr ∧ 0 < mp.len ∧
    mp.addr + mp.len ≤ addrLimit ∧ (mp.addr + mp.len ≤ s.brkFloor ∨ s.brk ≤ mp.addr)
  apart : s.maps.Pairwise fun mp mp' => Apart mp.addr mp.len mp'.addr mp'.len

namespace KernelOk
variable {s s' : State}

/-- Nothing but the kernel's own fields matters. -/
theorem of_fields (K : KernelOk s) (h1 : s'.brkFloor = s.brkFloor) (h2 : s'.brk = s.brk)
    (h3 : s'.brkPeak = s.brkPeak) (h4 : s'.maps = s.maps) : KernelOk s' := by
  refine ⟨?_, ?_, ?_, ?_, ?_, ?_⟩
  · rw [h1]; exact K.floor_pos
  · rw [h1, h2]; exact K.floor_le
  · rw [h2, h3]; exact K.peak
  · rw [h2]; exact K.limit
  · rw [h1, h2, h4]; exact K.placed
  · rw [h4]; exact K.apart

/-- Distinct mappings are apart. -/
theorem maps_apart (K : KernelOk s) {mp mp' : Mapping} (h : mp ∈ s.maps) (h' : mp' ∈ s.maps)
    (hne : mp ≠ mp') : Apart mp.addr mp.len mp'.addr mp'.len := by
  have : Std.Symm fun mp mp' : Mapping => Apart mp.addr mp.len mp'.addr mp'.len :=
    ⟨fun _ _ hxy => Or.symm hxy⟩
  exact K.apart.forall h h' hne

/-- Mappings with the same address are the same. -/
theorem map_eq (K : KernelOk s) {mp mp' : Mapping} (h : mp ∈ s.maps) (h' : mp' ∈ s.maps)
    (ha : mp.addr = mp'.addr) : mp = mp' := by
  by_contra hne
  have h1 := K.maps_apart h h' hne
  have h2 := (K.placed mp h).2.2.1
  have h3 := (K.placed mp' h').2.2.1
  unfold Apart at h1
  omega

end KernelOk

/-! ## What an operation leaves alone -/

/-- Used blocks, mappings and the host's bytes of `s` are still there in `s'`, byte for
byte. -/
structure Keeps (s : State) (segs : List Seg) (s' : State) (segs' : List Seg) : Prop where
  spans : ∀ g ∈ segs, g.kind = .used → g ∈ segs' ∧ Set.EqOn s'.mem s.mem g.bytes
  maps : ∀ mp ∈ s.maps, mp ∈ s'.maps ∧ Set.EqOn s'.mem s.mem (range mp.addr mp.len)
  host : ∀ x, s.hostOwned x = true → s'.hostOwned x = true ∧ s'.mem x = s.mem x

namespace Keeps
variable {s s₁ s₂ : State} {segs segs₁ segs₂ : List Seg}

theorem refl (s : State) (segs : List Seg) : Keeps s segs s segs :=
  ⟨fun _ h _ => ⟨h, fun _ _ => rfl⟩, fun _ h => ⟨h, fun _ _ => rfl⟩, fun _ h => ⟨h, rfl⟩⟩

theorem trans (h : Keeps s segs s₁ segs₁) (h' : Keeps s₁ segs₁ s₂ segs₂) :
    Keeps s segs s₂ segs₂ := by
  refine ⟨?_, ?_, ?_⟩
  · intro g hg hk
    obtain ⟨h1, h2⟩ := h.spans g hg hk
    obtain ⟨h3, h4⟩ := h'.spans g h1 hk
    exact ⟨h3, h4.trans h2⟩
  · intro mp hmp
    obtain ⟨h1, h2⟩ := h.maps mp hmp
    obtain ⟨h3, h4⟩ := h'.maps mp h1
    exact ⟨h3, h4.trans h2⟩
  · intro x hx
    obtain ⟨h1, h2⟩ := h.host x hx
    obtain ⟨h3, h4⟩ := h'.host x h1
    exact ⟨h3, h4.trans h2⟩

/-- Only the bytes, the mappings and the ownership of the second state matter. -/
theorem congr_right {s₂' : State} (h : Keeps s segs s₂ segs₂) (hm : s₂'.mem = s₂.mem)
    (hp : s₂'.maps = s₂.maps) (ho : s₂'.hostOwned = s₂.hostOwned) : Keeps s segs s₂' segs₂ := by
  refine ⟨?_, ?_, ?_⟩
  · rw [hm]; exact h.spans
  · rw [hm, hp]; exact h.maps
  · rw [hm, ho]; exact h.host

end Keeps

/-- Free blocks that were apart are apart again, and no used block is new but the one of
the pointer `p`. -/
structure Respaced (segs segs' : List Seg) (p : Nat) : Prop where
  spaced : Spaced (· = .free) segs → Spaced (· = .free) segs'
  used : ∀ g ∈ segs', g.kind = .used → g ∈ segs ∨ p = g.addr + 48

namespace Respaced
variable {segs segs₁ segs₂ pre post post' : List Seg} {p a n : Nat}

theorem refl (segs : List Seg) (p : Nat) : Respaced segs segs p :=
  ⟨id, fun _ hg _ => Or.inl hg⟩

theorem trans (h : Respaced segs segs₁ 0) (h' : Respaced segs₁ segs₂ p) : Respaced segs segs₂ p := by
  refine ⟨fun hs => h'.spaced (h.spaced hs), fun g hg hk => ?_⟩
  rcases h'.used g hg hk with hg | hp
  · exact Or.inl ((h.used g hg hk).resolve_right (by omega))
  · exact Or.inr hp

/-- A gap at the end. -/
theorem gap : Respaced segs (segs ++ [⟨a, n, .gap⟩]) 0 := by
  refine ⟨fun hs => (spaced_append_of_not (by simp)).mpr hs, fun g hg hk => ?_⟩
  rcases List.mem_append.mp hg with hg | hg
  · exact Or.inl hg
  · rw [List.mem_singleton.mp hg] at hk
    cases hk

/-- A used block at the end. -/
theorem extend : Respaced segs (segs ++ [⟨a, n, .used⟩]) (a + 48) := by
  refine ⟨fun hs => (spaced_append_of_not (by simp)).mpr hs, fun g hg _ => ?_⟩
  rcases List.mem_append.mp hg with hg | hg
  · exact Or.inl hg
  · rw [List.mem_singleton.mp hg]
    exact Or.inr rfl

/-- A used block in the place of a block, with other spans behind it. -/
theorem replace {g : Seg} (hs : Spaced (· = .free) (g :: post) → Spaced (· = .free) post')
    (hu : ∀ h ∈ post', h.kind = .used → h ∈ post) :
    Respaced (pre ++ g :: post) (pre ++ ⟨a, n, .used⟩ :: post') (a + 48) := by
  refine ⟨fun h => ?_, fun k hk hku => ?_⟩
  · rw [spaced_mid_of_not (by simp)]
    obtain ⟨h1, h2, h3, h4⟩ := spaced_mid.mp h
    exact ⟨h1, hs (List.isChain_cons.mpr ⟨h4, h2⟩)⟩
  · simp only [List.mem_append, List.mem_cons] at hk ⊢
    rcases hk with hk | rfl | hk
    · exact Or.inl (Or.inl hk)
    · exact Or.inr rfl
    · exact Or.inl (Or.inr (Or.inr (hu k hk hku)))

end Respaced

/-! ## The heap as a whole -/

/-- **The layout of the heap**: what holds at every point of an operation.  Gaps
occur only when the break is `shared` with the rest of the process. -/
structure Layout (shared : Prop) (s : State) (lo : Nat) (segs : List Seg)
    (lists : Fin 8 → List Nat) : Prop where
  rep : HeapRep s lo segs lists
  init : s.initialBreak = s.heapStart
  blank : Blank s segs
  kernel : KernelOk s
  host_lt : ∀ x, s.hostOwned x = true → s.brkFloor ≤ x ∧ x < s.brk
  fresh : s.brk % 16 ≠ 0 → s.brkPeak = s.brk
  gapped : ∀ g ∈ segs, g.kind = .gap → shared
  unaligned : s.heapStart ≠ 0 → s.brk % 16 ≠ 0 → shared
  start_aligned : s.heapStart % 16 = 0

namespace Layout
variable {shared : Prop} {s s' : State} {lo : Nat} {segs segs' pre post : List Seg} {lists lists' : Fin 8 → List Nat}

/-- The statistics and `last_allocator_break` play no part in the layout. -/
theorem of_fields {r : State} (L : Layout shared s lo segs lists) (h1 : r.mem = s.mem)
    (h2 : r.heads = s.heads) (h3 : r.heapStart = s.heapStart)
    (h4 : r.initialBreak = s.initialBreak) (h5 : r.brkFloor = s.brkFloor) (h6 : r.brk = s.brk)
    (h7 : r.brkPeak = s.brkPeak) (h8 : r.maps = s.maps) (h9 : r.hostOwned = s.hostOwned) :
    Layout shared r lo segs lists := by
  refine ⟨L.rep.of_fields h1 h2 h3 h5 h6, ?_, ?_, L.kernel.of_fields h5 h6 h7 h8, ?_, ?_, L.gapped, ?_, ?_⟩
  · rw [h3, h4]; exact L.init
  · refine ⟨?_, ?_, ?_⟩
    · rw [h1, h9]; exact L.blank.gap
    · rw [h9]; exact L.blank.own
    · rw [h1, h9]; exact L.blank.clean
  · rw [h5, h6, h9]; exact L.host_lt
  · rw [h6, h7]; exact L.fresh
  · rw [h3, h6]; exact L.unaligned
  · rw [h3]; exact L.start_aligned

/-- **An edit keeps the layout.** -/
theorem of_edit (L : Layout shared s lo segs lists) (E : Edit s s' lo segs segs' lists') :
    Layout shared s' lo segs' lists' := by
  refine ⟨E.rep, ?_, E.blank L.blank, L.kernel.of_fields ?_ ?_ ?_ ?_, ?_, ?_,
    fun g hg hk => L.gapped g (E.gaps g hg hk) hk, ?_, ?_⟩
  · rw [E.same]; exact L.init
  · rw [E.same]
  · rw [E.same]
  · rw [E.same]
  · rw [E.same]
  · rw [E.same]; exact L.host_lt
  · rw [E.same]; exact L.fresh
  · rw [E.same]; exact L.unaligned
  · rw [E.same]; exact L.start_aligned

/-- A used block is opened: it may be rewritten from now on. -/
theorem open_used {a n : Nat} (L : Layout shared s lo (pre ++ ⟨a, n, .used⟩ :: post) lists) :
    Layout shared s lo (pre ++ ⟨a, n, .work⟩ :: post) lists := by
  have hgap : ∀ g ∈ pre ++ ⟨a, n, .work⟩ :: post, g.kind = .gap →
      g ∈ pre ++ ⟨a, n, .used⟩ :: post := by
    intro g hg hk
    simp only [List.mem_append, List.mem_cons] at hg ⊢
    rcases hg with hg | rfl | hg
    · exact Or.inl hg
    · cases hk
    · exact Or.inr (Or.inr hg)
  refine ⟨L.rep.open_used, L.init, ?_, L.kernel, L.host_lt, L.fresh,
    fun g hg hk => L.gapped g (hgap g hg hk) hk, L.unaligned, L.start_aligned⟩
  refine ⟨fun g hg hk => L.blank.gap g (hgap g hg hk) hk, ?_, L.blank.clean⟩
  · intro g hg hk
    simp only [List.mem_append, List.mem_cons] at hg
    rcases hg with hg | rfl | hg
    · exact L.blank.own g (by simp [hg]) hk
    · exact L.blank.own ⟨a, n, .used⟩ (by simp) (by simp)
    · exact L.blank.own g (by simp [hg]) hk

/-- What is not a gap or a used block lies in the break area and is not the host's. -/
theorem open_bytes (L : Layout shared s lo segs lists) {x : Nat} (hx : x ∈ area Kind.Open segs) :
    lo ≤ x ∧ x < s.brk ∧ s.hostOwned x = false := by
  have hb := L.rep.tiles.area_bounds hx
  obtain ⟨g, hg, ho, hxg⟩ := hx
  refine ⟨hb.1, hb.2, L.blank.own g hg ?_ x hxg⟩
  intro hk
  rw [hk] at ho
  rcases ho with ho | ho <;> cases ho

/-- A mapping lies outside the heap. -/
theorem map_bytes (L : Layout shared s lo segs lists) {mp : Mapping} (hmp : mp ∈ s.maps) {x : Nat}
    (hx : x ∈ range mp.addr mp.len) : ¬ (s.brkFloor ≤ x ∧ x < s.brk) := by
  have h1 := (L.kernel.placed mp hmp).2.2.2.2
  rw [mem_range] at hx
  omega

/-- **An edit keeps everything that was not open.** -/
theorem keeps (L : Layout shared s lo segs lists) (E : Edit s s' lo segs segs' lists') :
    Keeps s segs s' segs' := by
  have hmaps : s'.maps = s.maps := by rw [E.same]
  have hown : s'.hostOwned = s.hostOwned := by rw [E.same]
  have hfl := L.rep.floor
  refine ⟨?_, ?_, ?_⟩
  · intro g hg hk
    have hno : ¬ g.kind.Open := by
      rw [hk]
      rintro (h | h) <;> cases h
    exact ⟨E.keeps g hg hno, fun x hx => E.eqOn (L.rep.tiles.not_mem_area hg hno hx)⟩
  · intro mp hmp
    rw [hmaps]
    refine ⟨hmp, fun x hx => E.eqOn fun hxo => ?_⟩
    have := L.open_bytes hxo
    exact L.map_bytes hmp hx ⟨by omega, by omega⟩
  · intro x hx
    rw [hown]
    refine ⟨hx, E.eqOn fun hxo => ?_⟩
    rw [(L.open_bytes hxo).2.2] at hx
    cases hx

end Layout

/-! ## The client's side -/

/-- An allocation the client holds: the pointer it got, and the size it asked for. -/
structure Alloc where
  ptr : Nat
  size : Nat
deriving DecidableEq, Repr

/-- The requested bytes of an allocation. -/
def Alloc.payload (e : Alloc) : Set Nat := range e.ptr e.size

/-- **The allocation `e` sits in the block of `n` bytes at `a`**: a used block of the
heap (`t = 0`), or a mapping of its own (`t = 1`). -/
structure Held (s : State) (segs : List Seg) (e : Alloc) (a n t : Nat) : Prop where
  ptr_eq : e.ptr = a + 48
  room : e.size + 64 ≤ n
  formed : Formed s.mem a n 0 t
  requested : requestedSize s.mem a = e.size
  place : t = 0 ∧ (⟨a, n, .used⟩ : Seg) ∈ segs ∨
    t = 1 ∧ (⟨a, n⟩ : Mapping) ∈ s.maps ∧ mmapThreshold ≤ n

namespace Held
variable {s s' : State} {segs segs' : List Seg} {e : Alloc} {a n t : Nat}

/-- The payload lies inside the block, behind its header and before its footer. -/
theorem payload_subset (h : Held s segs e a n t) : e.payload ⊆ range (a + 48) (n - 64) := by
  have h1 := h.ptr_eq
  have h2 := h.room
  exact range_subset (by omega) (by omega)

theorem block_eqOn (h : Held s segs e a n t) (K : Keeps s segs s' segs') :
    Set.EqOn s'.mem s.mem (range a n) := by
  rcases h.place with ⟨-, hg⟩ | ⟨-, hmp, -⟩
  · exact (K.spans _ hg rfl).2
  · exact (K.maps _ hmp).2

/-- A kept allocation still sits in its block. -/
theorem keeps (h : Held s segs e a n t) (K : Keeps s segs s' segs') : Held s' segs' e a n t := by
  have heq := h.block_eqOn K
  have hge := h.formed.size_ge
  refine ⟨h.ptr_eq, h.room, h.formed.congr (heq.mono (core_subset hge)), ?_, ?_⟩
  · exact (readLE_of_eqOn heq (range_subset (by omega) (by omega))).trans h.requested
  · rcases h.place with ⟨ht, hg⟩ | ⟨ht, hmp, hn⟩
    · exact Or.inl ⟨ht, (K.spans _ hg rfl).1⟩
    · exact Or.inr ⟨ht, (K.maps _ hmp).1, hn⟩

/-- Its requested bytes are unchanged. -/
theorem payload_eqOn (h : Held s segs e a n t) (K : Keeps s segs s' segs') :
    Set.EqOn s'.mem s.mem e.payload := by
  have h2 := h.room
  refine (h.block_eqOn K).mono (h.payload_subset.trans (range_subset (by omega) (by omega)))

end Held

/-- A block of a live allocation, heap or mapped, is at an address of its kind. -/
theorem Layout.held_bounds {shared : Prop} {s : State} {lo : Nat} {segs : List Seg}
    {lists : Fin 8 → List Nat} {e : Alloc} {a n t : Nat} (L : Layout shared s lo segs lists)
    (h : Held s segs e a n t) :
    a % 16 = 0 ∧ 0 < n ∧ a + n ≤ addrLimit ∧
      (t = 0 ∧ lo ≤ a ∧ a + n ≤ s.brk ∨ t = 1 ∧ (a + n ≤ s.brkFloor ∨ s.brk ≤ a)) := by
  have hge := h.formed.size_ge
  have h16 := h.formed.addr_aligned
  have hlim := L.rep.limit
  rcases h.place with ⟨ht, hg⟩ | ⟨ht, hmp, -⟩
  · have hb := L.rep.tiles.bounds hg
    simp only at hb
    exact ⟨h16, by omega, by omega, Or.inl ⟨ht, hb.1, hb.2.1⟩⟩
  · obtain ⟨-, -, -, h4, h5⟩ := L.kernel.placed _ hmp
    exact ⟨h16, by omega, h4, Or.inr ⟨ht, h5⟩⟩

/-- The sizes the client asked for, added up. -/
def liveBytes (live : List Alloc) : Nat := (live.map Alloc.size).sum

/-- **The invariant between critical sections.** -/
structure Heap (shared : Prop) (s : State) (live : List Alloc) (lo : Nat) (segs : List Seg)
    (lists : Fin 8 → List Nat) : Prop extends Layout shared s lo segs lists where
  settled : ∀ g ∈ segs, g.kind ≠ .work
  held : ∀ e ∈ live, ∃ a n t, Held s segs e a n t
  nodup : (live.map Alloc.ptr).Nodup
  balance : s.stats.totalAllocated ≡ s.stats.totalFreed + liveBytes live [MOD 2 ^ 64]

namespace Heap
variable {shared : Prop} {s s' : State} {live live' : List Alloc} {lo : Nat}
variable {segs segs' pre post : List Seg} {lists : Fin 8 → List Nat}

/-- The order of the live allocations does not matter. -/
theorem perm (I : Heap shared s live lo segs lists) (h : live.Perm live') :
    Heap shared s live' lo segs lists := by
  refine { I with held := fun e he => I.held e (h.mem_iff.mpr he), nodup := ?_, balance := ?_ }
  · exact (h.map Alloc.ptr).nodup_iff.mp I.nodup
  · have hsum : liveBytes live' = liveBytes live := ((h.map Alloc.size).sum_eq).symm
    rw [hsum]
    exact I.balance

/-- Two live allocations sit in different blocks. -/
theorem block_ne {e : Alloc} {rest : List Alloc} (I : Heap shared s (e :: rest) lo segs lists)
    {a n t : Nat} (he : Held s segs e a n t) {e' : Alloc} (he' : e' ∈ rest) {a' n' t' : Nat}
    (h' : Held s segs e' a' n' t') : a' ≠ a := by
  rintro rfl
  have hn := I.nodup
  rw [List.map_cons, List.nodup_cons] at hn
  refine hn.1 (List.mem_map.mpr ⟨e', he', ?_⟩)
  rw [h'.ptr_eq, he.ptr_eq]

end Heap

/-- Opening a block does not disturb an allocation in another one. -/
theorem Held.open_used {s : State} {pre post : List Seg} {e : Alloc} {a n t b k : Nat}
    (h : Held s (pre ++ ⟨b, k, .used⟩ :: post) e a n t) (hne : a ≠ b) :
    Held s (pre ++ ⟨b, k, .work⟩ :: post) e a n t := by
  refine { h with place := ?_ }
  rcases h.place with ⟨ht, hg⟩ | hmp
  · refine Or.inl ⟨ht, ?_⟩
    simp only [List.mem_append, List.mem_cons, Span.mk.injEq] at hg ⊢
    tauto
  · exact Or.inr hmp

/-- **The invariant**: some tiling of the heap and some free lists account for the state. -/
def Inv (shared : Prop) (s : State) (live : List Alloc) : Prop :=
  ∃ lo segs lists, Heap shared s live lo segs lists

theorem Inv.perm {shared : Prop} {s : State} {live live' : List Alloc} (I : Inv shared s live)
    (h : live.Perm live') : Inv shared s live' := by
  obtain ⟨lo, segs, lists, I⟩ := I
  exact ⟨lo, segs, lists, I.perm h⟩

/-- No requested byte of a live allocation and no byte of the host differs. -/
structure Untouched (s : State) (live : List Alloc) (s' : State) : Prop where
  payload : ∀ e ∈ live, Set.EqOn s'.mem s.mem e.payload
  host : ∀ x, s.hostOwned x = true → s'.mem x = s.mem x

/-- The bytes of the mappings are the same, but for the mapping that `ptr` points into. -/
def MapsKept (s : State) (ptr : Nat) (s' : State) : Prop :=
  ∀ mp ∈ s.maps, ptr ≠ mp.addr + 48 → Set.EqOn s'.mem s.mem (range mp.addr mp.len)

theorem Keeps.mapsKept {s s' : State} {segs segs' : List Seg} (K : Keeps s segs s' segs')
    (ptr : Nat) : MapsKept s ptr s' := fun mp h _ => (K.maps mp h).2

theorem MapsKept.trans {s s₁ s₂ : State} {ptr ptr' : Nat} (h : MapsKept s ptr s₁)
    (h' : MapsKept s₁ ptr' s₂)
    (hm : ∀ mp ∈ s.maps, ptr ≠ mp.addr + 48 → mp ∈ s₁.maps ∧ ptr' ≠ mp.addr + 48) :
    MapsKept s ptr s₂ := by
  intro mp hmp hne
  obtain ⟨h1, h2⟩ := hm mp hmp hne
  exact (h' mp h1 h2).trans (h mp hmp hne)

/-- `size_t` addition, modulo `2 ^ 64`. -/
theorem addSize_modEq (a b : Nat) : addSize a b ≡ a + b [MOD 2 ^ 64] := Nat.mod_modEq _ _

end MemoryMonitor
