import MemoryMonitor.ReallocSpec
import Mathlib.Data.Set.Lattice
import Mathlib.Order.CompletePartialOrder

/-! # Payloads and metadata

The requested bytes of a live allocation meet no other allocation's bytes and no
header or footer of any block.  So whatever the client stores there, the invariant
does not notice.
-/
namespace MemoryMonitor

open ByteMemory Tiling LinkedChain

variable {shared : Prop} {s : State} {live : List Alloc} {lo : Nat} {segs : List Seg}
variable {lists : Fin 8 → List Nat} {e e' : Alloc} {a n t a' n' t' : Nat}

/-- **The blocks of two live allocations are disjoint.** -/
theorem Heap.blocks_apart (I : Heap shared s live lo segs lists) (he : Held s segs e a n t)
    (he' : Held s segs e' a' n' t') (hne : a ≠ a') : a + n ≤ a' ∨ a' + n' ≤ a := by
  have hb := I.held_bounds he
  have hb' := I.held_bounds he'
  have hfl := I.rep.floor
  rcases he.place with ⟨rfl, hg⟩ | ⟨rfl, hmp, -⟩
  · rcases he'.place with ⟨rfl, hg'⟩ | ⟨rfl, -, -⟩
    · exact I.rep.tiles.apart hg hg' (fun h => hne (congrArg Span.addr h))
    · omega
  · rcases he'.place with ⟨rfl, -⟩ | ⟨rfl, hmp', -⟩
    · omega
    · exact I.kernel.maps_apart hmp hmp' (fun h => hne (congrArg Mapping.addr h))

/-- The blocks of two live allocations have different addresses. -/
theorem Heap.addr_ne (I : Heap shared s live lo segs lists) (he : e ∈ live) (he' : e' ∈ live)
    (hne : e ≠ e') (h : Held s segs e a n t) (h' : Held s segs e' a' n' t') : a ≠ a' := by
  rintro rfl
  refine hne (List.inj_on_of_nodup_map I.nodup he he' ?_)
  rw [h.ptr_eq, h'.ptr_eq]

/-- **The requested bytes of two live allocations are disjoint.** -/
theorem Heap.payload_disjoint (I : Heap shared s live lo segs lists) (he : e ∈ live)
    (he' : e' ∈ live) (hne : e ≠ e') : Disjoint e.payload e'.payload := by
  obtain ⟨a, n, t, h⟩ := I.held e he
  obtain ⟨a', n', t', h'⟩ := I.held e' he'
  have hap := I.blocks_apart h h' (I.addr_ne he he' hne h h')
  rw [Set.disjoint_left]
  intro x hx hx'
  have h1 := mem_range.mp (h.payload_subset hx)
  have h2 := mem_range.mp (h'.payload_subset hx')
  omega

/-- A span of the heap that holds a requested byte is the block of that allocation. -/
theorem Layout.payload_span (L : Layout shared s lo segs lists) (h : Held s segs e a n t) {x : Nat}
    (hx : x ∈ e.payload) {g : Seg} (hg : g ∈ segs) (hxg : x ∈ g.bytes) :
    g = ⟨a, n, .used⟩ ∧ a + 48 ≤ x ∧ x < a + n - 16 := by
  have hb := L.held_bounds h
  have hge := h.formed.size_ge
  have hp := mem_range.mp (h.payload_subset hx)
  have hgb := L.rep.tiles.bounds hg
  have hxb := Span.mem_bytes.mp hxg
  have hfl := L.rep.floor
  rcases h.place with ⟨rfl, hm⟩ | ⟨rfl, -, -⟩
  · refine ⟨L.rep.tiles.eq_of_mem hg hm hxg ?_, by omega, by omega⟩
    rw [Span.mem_bytes]
    simp only
    omega
  · omega

/-- No requested byte lies in the core of a block of the heap. -/
theorem Layout.payload_core (L : Layout shared s lo segs lists) (h : Held s segs e a n t) {x : Nat}
    (hx : x ∈ e.payload) {g : Seg} (hg : g ∈ segs) (hge : 80 ≤ g.size) :
    x ∉ core g.addr g.size := by
  intro hc
  obtain ⟨rfl, h1, h2⟩ := L.payload_span h hx hg (core_subset hge hc)
  rcases hc with hc | hc <;> rw [mem_range] at hc <;> simp only at hc <;> omega

/-- **Storing into requested bytes keeps the layout.** -/
theorem Layout.write_payload (L : Layout shared s lo segs lists) (h : Held s segs e a n t) {m' : Mem}
    (hm : Set.EqOn m' s.mem e.payloadᶜ) : Layout shared { s with mem := m' } lo segs lists := by
  have hrep : HeapRep { s with mem := m' } lo segs lists := by
    refine { L.rep with used := ?_, free := ?_, chain := ?_ }
    · intro g hg hk
      have hF := L.rep.used g hg hk
      exact hF.congr fun x hx => hm fun hxp => L.payload_core h hxp hg hF.size_ge hx
    · intro g hg hk
      have hF := L.rep.free g hg hk
      exact hF.congr fun x hx => hm fun hxp => L.payload_core h hxp hg hF.size_ge hx
    · intro i
      refine (L.rep.chain i).congr fun b hb => ?_
      obtain ⟨k, hk, -⟩ := L.rep.node hb
      have h80 := (L.rep.free _ hk rfl).size_ge
      simp only at h80
      have hfree : Set.EqOn m' s.mem (range b k) := fun x hx => hm fun hxp => by
        have := (L.payload_span h hxp hk hx).1
        cases this
      exact ⟨readLE_of_eqOn hfree (range_subset (by omega) (by omega)),
        readLE_of_eqOn hfree (range_subset (by omega) (by omega))⟩
  have hhost : ∀ x, s.hostOwned x = true → m' x = s.mem x := by
    refine fun x hx => hm fun hxp => ?_
    have hlt := L.host_lt x hx
    have hb := L.held_bounds h
    have hp := mem_range.mp (h.payload_subset hxp)
    rcases h.place with ⟨rfl, hg⟩ | ⟨rfl, -, -⟩
    · have := L.blank.own _ hg (by simp) x (by rw [Span.mem_bytes]; simp only; omega)
      rw [this] at hx
      cases hx
    · omega
  refine ⟨hrep, L.init, ⟨?_, L.blank.own, ?_⟩, L.kernel.of_fields rfl rfl rfl rfl, L.host_lt,
    L.fresh, L.gapped, L.unaligned, L.start_aligned⟩
  · intro g hg hk x hx
    have hout : x ∉ e.payload := by
      intro hxp
      rw [(L.payload_span h hxp hg hx).1] at hk
      cases hk
    rw [show ({ s with mem := m' } : State).mem x = s.mem x from hm hout]
    exact L.blank.gap g hg hk x hx
  · intro b hb
    have hsame : readLE m' b 4 = readLE s.mem b 4 := by
      refine readLE_congr fun x h1 h2 => hhost x ?_
      have := hb (x - b) (by omega)
      rwa [show b + (x - b) = x by omega] at this
    simp only [hsame]
    exact L.blank.clean b hb

/-- **Storing into requested bytes of a live allocation keeps the invariant**, and the
requested bytes of the others. -/
theorem Heap.write_payload (I : Heap shared s live lo segs lists) (he : e ∈ live) {m' : Mem}
    (hm : Set.EqOn m' s.mem e.payloadᶜ) :
    Heap shared { s with mem := m' } live lo segs lists ∧
      ∀ e' ∈ live, e' ≠ e → Set.EqOn m' s.mem e'.payload := by
  obtain ⟨a, n, t, h⟩ := I.held e he
  refine ⟨⟨I.toLayout.write_payload h hm, I.settled, ?_, I.nodup, I.balance⟩, ?_⟩
  · intro e' he'
    obtain ⟨a', n', t', h'⟩ := I.held e' he'
    have hge := h'.formed.size_ge
    have hroom := h.room
    -- neither the core nor the recorded size of a block lies in the written bytes
    have hout : ∀ x, x ∈ core a' n' ∪ range a' 48 → x ∉ e.payload := by
      intro x hx hxp
      have hp := mem_range.mp (h.payload_subset hxp)
      have hxr : a' ≤ x ∧ x < a' + n' ∧ (x < a' + 48 ∨ a' + n' - 16 ≤ x) := by
        rcases hx with (hx | hx) | hx <;> rw [mem_range] at hx <;> omega
      by_cases hee : e' = e
      · subst hee
        have h1 := h.ptr_eq
        have h2 := h'.ptr_eq
        have hp' := mem_range.mp (h'.payload_subset hxp)
        omega
      · have := I.blocks_apart h h' (I.addr_ne he he' (fun hh => hee hh.symm) h h')
        omega
    refine ⟨a', n', t', h'.ptr_eq, h'.room,
      h'.formed.congr fun x hx => hm (hout x (Or.inl hx)), ?_, h'.place⟩
    refine Eq.trans (readLE_congr fun x h1 h2 => hm (hout x (Or.inr ?_))) h'.requested
    rw [mem_range]
    omega
  · intro e' he' hne x hx
    exact hm fun hxp => Set.disjoint_left.mp (I.payload_disjoint he' he hne) hx hxp

end MemoryMonitor
