import MemoryMonitor.Bootstrap

/-! # What the bootstrap arena holds

A nested call that gets memory gets a chunk of the arena: a `bootstrap_header_t`, and
behind it the bytes it asked `bootstrap_alloc` for.  While the cursor does not wrap, a
new chunk lies behind all the others, so the headers of the chunks that were handed out
stay as they were written.
-/
namespace MemoryMonitor

open ByteMemory

namespace Shim

/-! ## One more chunk -/

/-- Where the bytes of the next chunk begin. -/
def nextBase (s : Shim) : Nat := s.bootstrapBuf + s.bootstrapOffset + 16

/-- **`s'` is `s` with one more chunk**, of `k` bytes, whose header is in place. -/
structure Carved (s : Shim) (k : Nat) (s' : Shim) : Prop where
  fits : s.bootstrapOffset + chunk k ≤ bootstrapBufSize
  room : 16 + k ≤ chunk k
  same : s' = { s with
    st := { s.st with mem := s'.st.mem }
    bootstrapOffset := s.bootstrapOffset + chunk k
    log := s'.log }
  frame : Set.EqOn s'.st.mem s.st.mem (range (s.bootstrapBuf + s.bootstrapOffset) (chunk k))ᶜ
  magic : readLE s'.st.mem (s.bootstrapBuf + s.bootstrapOffset) 8 = bootstrapMagic
  size : readLE s'.st.mem (s.bootstrapBuf + s.bootstrapOffset + 8) 8 = k

/-- Storing into the bytes of the new chunk. -/
theorem Carved.write {s s' : Shim} {k : Nat} (C : Carved s k s') {m' : Mem} (log' : List Event)
    (hm : Set.EqOn m' s'.st.mem (range s.nextBase k)ᶜ) :
    Carved s k { s' with st := { s'.st with mem := m' }, log := log' } := by
  have hroom := C.room
  have hread : ∀ {b}, b + 8 ≤ s.nextBase → readLE m' b 8 = readLE s'.st.mem b 8 := by
    intro b hb
    refine readLE_congr fun x _ hx => hm ?_
    rw [Set.mem_compl_iff, mem_range]
    omega
  refine ⟨C.fits, hroom, ?_, ?_, (hread ?_).trans C.magic, (hread ?_).trans C.size⟩
  · rw [C.same]
  · refine (hm.mono (Set.compl_subset_compl.mpr (range_subset ?_ ?_))).trans C.frame
    · unfold nextBase
      omega
    · unfold nextBase
      omega
  · unfold nextBase
    omega
  · unfold nextBase
    omega

/-- **The arena as a nested call may find it**: the buffer is mapped, and the cursor is
far enough from the end of its range not to wrap. -/
structure Ready (s : Shim) : Prop where
  nested : s.inAllocator = true
  offset : s.bootstrapOffset + bootstrapBufSize < 2 ^ 64
  buf : s.bootstrapBuf + bootstrapBufSize < 2 ^ 64
  mapped : ∀ b c, s.bootstrapBuf ≤ b → b + c ≤ s.bootstrapBuf + bootstrapBufSize →
    s.st.deref b c = .ok ()

/-- **`bootstrap_alloc`** refuses, and only the cursor has moved, or carves a chunk. -/
theorem Ready.bootstrapAlloc {s : Shim} (R : Ready s) (k : Nat) :
    s.bootstrapAlloc k = (0, { s with bootstrapOffset := s.bootstrapOffset + chunk k }) ∨
    ∃ s', s.bootstrapAlloc k = (s.nextBase, s') ∧ Carved s k s' ∧ s'.log = s.log := by
  have hoff := R.offset
  have hbuf := R.buf
  unfold Shim.bootstrapAlloc
  by_cases hk : bootstrapBufSize - 16 < k
  · rw [if_pos hk, chunk_of_lt hk]
    exact Or.inl rfl
  have hc : addSize 16 (align k) = chunk k := (if_neg hk).symm
  obtain ⟨h1, -, -, h2⟩ := chunk_bounds (n := k) (by omega)
  rw [if_neg hk]
  simp only [hc, addSize_of_lt (a := s.bootstrapOffset) (b := chunk k) (by omega)]
  by_cases hover : bootstrapBufSize < s.bootstrapOffset + chunk k
  · rw [if_pos hover]
    exact Or.inl rfl
  have hsz : (bootstrapBufSize : Nat) < 256 ^ 8 := by decide
  rw [if_neg hover, addSize_of_lt (a := s.bootstrapBuf) (by omega), addSize_of_lt (by omega)]
  refine Or.inr ⟨_, rfl, ⟨by omega, h1, rfl, ?_, ?_, ?_⟩, rfl⟩
  · intro x hx
    rw [Set.mem_compl_iff, mem_range] at hx
    simp (disch := omega) only [writeLE_of_disjoint]
  · simp (disch := omega) only [readLE_writeLE_disjoint]
    exact readLE_writeLE_same (by decide)
  · exact readLE_writeLE_same (by omega)

/-! ## Nested calls that give memory -/

/-- What a nested call that may give the client `n` bytes ends with: it is refused, or the
client has a chunk, or a place in a chunk behind an aligned header. -/
inductive Carves (s : Shim) (n : Nat) : Nat → Shim → Prop
  | refused {off : Nat} (h : s.bootstrapOffset ≤ off) :
      Carves s n 0 { s with bootstrapOffset := off }
  | plain {k : Nat} {s' : Shim} (C : Carved s k s') (hlog : s'.log = s.log) (hn : n ≤ k) :
      Carves s n s.nextBase s'
  | aligned {k p : Nat} {s' : Shim} (C : Carved s k s')
      (hlog : s'.log = .placed s.nextBase p :: s.log) (hlo : s.nextBase + 48 ≤ p)
      (hin : p < s.nextBase + k) (hroom : p + n ≤ s.nextBase + k) : Carves s n p s'

namespace Ready
variable {s : Shim}

/-- **Nested `malloc`.** -/
theorem malloc (R : Ready s) (o : Oracle) {n size : Nat} (hn : n ≤ size) :
    ∃ p s', s.malloc o size = .ok (p, s') ∧ Carves s n p s' := by
  have hcall : s.malloc o size = .ok (s.bootstrapAlloc size) := if_pos R.nested
  rcases R.bootstrapAlloc size with h | ⟨s', h, C, hlog⟩
  · exact ⟨_, _, by rw [hcall, h], .refused (Nat.le_add_right ..)⟩
  · exact ⟨_, _, by rw [hcall, h], .plain C hlog hn⟩

/-- The chunk that a nested `malloc` returned. -/
theorem malloc_ok (R : Ready s) {o : Oracle} {size q : Nat} {s' : Shim}
    (h : s.malloc o size = .ok (q, s')) (hq : q ≠ 0) :
    q = s.nextBase ∧ Carved s size s' ∧ s'.log = s.log := by
  have hcall : s.malloc o size = .ok (s.bootstrapAlloc size) := if_pos R.nested
  rw [hcall] at h
  rcases R.bootstrapAlloc size with ha | ⟨s₁, ha, C, hlog⟩
  · rw [ha] at h
    exact absurd (Prod.mk.inj (Except.ok.inj h)).1.symm hq
  · rw [ha] at h
    obtain ⟨rfl, rfl⟩ := Prod.mk.inj (Except.ok.inj h)
    exact ⟨rfl, C, hlog⟩

/-- **Nested `calloc`.** -/
theorem calloc (R : Ready s) (o : Oracle) (nmemb size : Nat) :
    ∃ p s', s.calloc o nmemb size = .ok (p, s') ∧ Carves s (nmemb * size) p s' := by
  unfold Shim.calloc
  rw [if_pos R.nested]
  by_cases hover : nmemb ≠ 0 ∧ (2 ^ 64 - 1) / nmemb < size
  · exact ⟨0, s, if_pos hover, .refused (le_refl _)⟩
  have hmod : nmemb * size % 2 ^ 64 = nmemb * size := by
    by_cases h0 : nmemb = 0
    · rw [h0, Nat.zero_mul]
      rfl
    · exact calloc_product fun h => hover ⟨h0, h⟩
  rw [if_neg hover, hmod]
  rcases R.bootstrapAlloc (nmemb * size) with h | ⟨s', h, C, hlog⟩
  · simp only [h, ne_eq, not_true_eq_false, if_false]
    exact ⟨0, _, rfl, .refused (Nat.le_add_right ..)⟩
  · have h0 : s.nextBase ≠ 0 := by
      unfold nextBase
      omega
    simp only [h, ne_eq, h0, not_false_eq_true, if_true]
    exact ⟨_, _, rfl, .plain (C.write s'.log (overwrite_eqOn ..)) hlog (le_refl _)⟩

/-- **Nested `aligned_alloc_internal`** puts its header into the chunk. -/
theorem alignedAllocInternal (R : Ready s) (o : Oracle) {alignment allocSize reqSize n : Nat}
    (hbit : OneBit alignment) (h16 : 16 < alignment) (hlt : alignment < 2 ^ 64)
    (hpos : 0 < allocSize) (hreq : reqSize ≤ allocSize) (hn : n ≤ reqSize) :
    ∃ p s', s.alignedAllocInternal o alignment allocSize reqSize = .ok (p, s') ∧
      Carves s n p s' := by
  have hhalf := hbit.le_half (by omega) hlt
  by_cases hover : (2 ^ 65 - 1 - alignment - 48) % 2 ^ 64 < allocSize
  · exact ⟨0, s, by rw [Shim.alignedAllocInternal, if_pos hover], .refused (le_refl _)⟩
  have htotal : addSize (addSize allocSize alignment) 48 = allocSize + alignment + 48 := by
    rw [addSize_of_lt (a := allocSize) (by omega), addSize_of_lt (by omega)]
  simp only [Shim.alignedAllocInternal, if_neg hover, htotal, R.nested, if_true]
  rcases R.bootstrapAlloc (allocSize + alignment + 48) with h | ⟨s', h, C, hlog⟩
  · simp only [h, ok_bind, if_true]
    exact ⟨0, _, rfl, .refused (Nat.le_add_right ..)⟩
  have hfits := C.fits
  have hroom := C.room
  have hbuf := R.buf
  have hbase : s.nextBase = s.bootstrapBuf + s.bootstrapOffset + 16 := rfl
  have h0 : s.nextBase ≠ 0 := by omega
  simp only [h, ok_bind, if_neg h0]
  obtain ⟨h1, h2, -⟩ := alignTo_spec (s.nextBase + 48) hbit (by omega) hlt (by omega)
  have hd : s'.st.deref (alignTo (s.nextBase + 48) alignment - 48) 24 = .ok () := by
    rw [C.same]
    exact R.mapped _ _ (by omega) (by omega)
  rw [hd, ok_bind]
  obtain ⟨-, -, -, hm⟩ := putAlignedHeader_spec s'.st.mem
    (alignTo (s.nextBase + 48) alignment - 48)
    (alignTo (s.nextBase + 48) alignment - (s.nextBase - 48)) reqSize (by omega) (by omega)
  refine ⟨_, _, rfl, .aligned (C.write _ (hm.mono (Set.compl_subset_compl.mpr
    (range_subset (by omega) (by omega))))) ?_ h1 (by omega) (by omega)⟩
  rw [hlog]

/-- **Inside the allocator** the entry points give chunks of the arena. -/
theorem serves (R : Ready s) (o : Oracle) : ShimInv.Serves s o (Carves s) :=
  ⟨fun _ => .refused (le_refl _), fun hn => R.malloc o hn,
    fun hbit h16 hlt hpos hreq hn => R.alignedAllocInternal o hbit h16 hlt hpos hreq hn⟩

end Ready

/-- The shim once a call has returned. -/
def leave (s : Shim) : Shim := { s with inAllocator := false }

end Shim

/-- A store into the static buffer concerns no block of the allocator. -/
theorem ShimInv.of_arena {s : Shim} {live : List Client} (I : ShimInv ⟨s, live⟩) {m' : Mem}
    (hm : Set.EqOn m' s.st.mem (range s.bootstrapBuf bootstrapBufSize)ᶜ) (off : Nat)
    {log' : List Event} (hout : outstanding log' = outstanding s.log) (hr : Routed log') :
    ShimInv ⟨{ s with
      st := { s.st with mem := m' }
      bootstrapOffset := off
      inAllocator := false
      log := log' }, live⟩ := by
  obtain ⟨mp, hmp, h1, h2, hno⟩ := I.segment
  obtain ⟨hinv, hothers⟩ := I.inv.write_mapping hmp hno
    (hm.mono (Set.compl_subset_compl.mpr (range_subset h1 h2)))
  refine ⟨rfl, ?_, hr, fun e he => ?_, I.distinct, mp, hmp, h1, h2, ?_⟩
  · rw [hout]
    exact hinv
  · obtain ⟨k, hk, hp⟩ := I.placed e he
    refine ⟨k, ?_, hp.congr ((hothers _ hk).mono Set.inter_subset_left)⟩
    rw [hout]
    exact hk
  · rw [hout]
    exact hno

/-- **One more chunk** concerns no block of the allocator. -/
theorem ShimInv.carve {s s' : Shim} {live : List Client} {k : Nat} (I : ShimInv ⟨s.leave, live⟩)
    (C : s.Carved k s') (hout : outstanding s'.log = outstanding s.log) (hr : Routed s'.log) :
    ShimInv ⟨s'.leave, live⟩ := by
  have hfits := C.fits
  have hm := C.frame.mono (Set.compl_subset_compl.mpr
    (range_subset (b := s.bootstrapBuf) (k := bootstrapBufSize) (by omega) (by omega)))
  have hs : s'.leave = { s.leave with
      st := { s.leave.st with mem := s'.st.mem }
      bootstrapOffset := s.bootstrapOffset + Shim.chunk k
      inAllocator := false
      log := s'.log } := by
    conv_lhs => rw [C.same]
    rfl
  rw [hs]
  exact I.of_arena hm _ hout hr

/-! ## The chunks that were handed out -/

/-- `hdr->size` of the chunk in which `e` lies. -/
def Shim.chunkSize (s : Shim) (e : Client) : Nat := readLE s.st.mem (e.base - 16 + 8) 8

/-- **The allocation `e` lies in a chunk of the arena**, at its beginning or behind an
aligned header. -/
structure InArena (s : Shim) (e : Client) : Prop where
  low : s.bootstrapBuf + 16 ≤ e.base
  high : e.base + s.chunkSize e ≤ s.bootstrapBuf + bootstrapBufSize
  below : e.base + s.chunkSize e ≤ s.bootstrapBuf + s.bootstrapOffset
  magic : readLE s.st.mem (e.base - 16) 8 = bootstrapMagic
  plain : e.aligned = false → e.ptr = e.base
  apart : e.aligned = true → e.base + 48 ≤ e.ptr ∧ e.ptr < e.base + s.chunkSize e
  room : e.ptr + e.size ≤ e.base + s.chunkSize e

/-- **The invariant of the arena.** -/
structure ArenaInv (s : Shim) (arena : List Client) : Prop where
  inside : ∀ e ∈ arena, InArena s e
  apart : ∀ e ∈ arena, ∀ e' ∈ arena, e ≠ e' →
    e.base + s.chunkSize e + 16 ≤ e'.base ∨ e'.base + s.chunkSize e' + 16 ≤ e.base

namespace ArenaInv
variable {s s' : Shim} {arena arena' : List Client} {e : Client}

theorem of_subset (A : ArenaInv s arena) (h : arena' ⊆ arena) : ArenaInv s arena' :=
  ⟨fun e he => A.inside e (h he), fun e he e' he' => A.apart e (h he) e' (h he')⟩

/-- The pointer of a chunk lies in it, or at its end when the chunk is empty. -/
theorem ptr_bounds (A : ArenaInv s arena) (he : e ∈ arena) :
    e.base ≤ e.ptr ∧ e.ptr ≤ e.base + s.chunkSize e := by
  have h := A.inside e he
  cases ha : e.aligned with
  | false =>
    have := h.plain ha
    omega
  | true =>
    have := h.apart ha
    omega

/-- **The arena survives whatever leaves the headers of its chunks alone.** -/
theorem congr (A : ArenaInv s arena) (hb : s'.bootstrapBuf = s.bootstrapBuf)
    (ho : s.bootstrapOffset ≤ s'.bootstrapOffset)
    (hm : ∀ e ∈ arena, Set.EqOn s'.st.mem s.st.mem (range (e.base - 16) 16)) :
    ArenaInv s' arena := by
  have hsize : ∀ e ∈ arena, s'.chunkSize e = s.chunkSize e := fun e he =>
    readLE_of_eqOn (hm e he) (range_subset (by omega) (by omega))
  refine ⟨fun e he => ?_, fun e he e' he' hne => ?_⟩
  · have h := A.inside e he
    have hbelow := h.below
    refine ⟨?_, ?_, ?_, ?_, h.plain, ?_, ?_⟩
    · rw [hb]; exact h.low
    · rw [hb, hsize e he]; exact h.high
    · rw [hb, hsize e he]; omega
    · exact (readLE_of_eqOn (hm e he) (range_subset (by omega) (by omega))).trans h.magic
    · rw [hsize e he]; exact h.apart
    · rw [hsize e he]; exact h.room
  · rw [hsize e he, hsize e' he']
    exact A.apart e he e' he' hne

/-- The headers lie in the buffer. -/
theorem header_subset (A : ArenaInv s arena) (he : e ∈ arena) :
    range (e.base - 16) 16 ⊆ range s.bootstrapBuf bootstrapBufSize := by
  have h := A.inside e he
  have h1 := h.low
  have h2 := h.high
  exact range_subset (by omega) (by omega)

theorem of_same (A : ArenaInv s arena) (h : SameArena s s') : ArenaInv s' arena := by
  refine A.congr h.buf (le_of_eq h.offset.symm) fun e he => ?_
  exact h.bytes.mono (A.header_subset he)

/-- **A store into one chunk** leaves the headers alone. -/
theorem write (A : ArenaInv s arena) (he : e ∈ arena) {m' : Mem}
    (hm : Set.EqOn m' s.st.mem (range e.base (s.chunkSize e))ᶜ) :
    ArenaInv { s with st := { s.st with mem := m' } } arena := by
  refine A.congr rfl (le_refl _) fun e' he' x hx => hm ?_
  have hlow := (A.inside e' he').low
  rw [mem_range] at hx
  rw [Set.mem_compl_iff, mem_range]
  by_cases hee : e = e'
  · subst hee
    omega
  · have := A.apart e he e' he' hee
    omega

/-- **One more chunk.** -/
theorem carve (A : ArenaInv s arena) {k : Nat} (C : s.Carved k s') (hbase : e.base = s.nextBase)
    (hplain : e.aligned = false → e.ptr = e.base)
    (hapart : e.aligned = true → e.base + 48 ≤ e.ptr ∧ e.ptr < e.base + k)
    (hroom : e.ptr + e.size ≤ e.base + k) : ArenaInv s' (e :: arena) := by
  have hfits := C.fits
  have hck := C.room
  have hnb : s.nextBase = s.bootstrapBuf + s.bootstrapOffset + 16 := rfl
  have hb : s'.bootstrapBuf = s.bootstrapBuf := by rw [C.same]
  have ho : s'.bootstrapOffset = s.bootstrapOffset + Shim.chunk k := by rw [C.same]
  -- the new chunk lies behind the others
  have A' : ArenaInv s' arena := by
    refine A.congr hb (by omega) fun e' he' x hx => C.frame ?_
    have h1 := (A.inside e' he').below
    have h2 := (A.inside e' he').low
    rw [mem_range] at hx
    rw [Set.mem_compl_iff, mem_range]
    omega
  have hhdr : e.base - 16 = s.bootstrapBuf + s.bootstrapOffset := by omega
  have hsize : s'.chunkSize e = k := by
    unfold Shim.chunkSize
    rw [hhdr]
    exact C.size
  have hbehind : ∀ e' ∈ arena, e'.base + s'.chunkSize e' + 16 ≤ e.base := by
    intro e' he'
    have hsame : s'.chunkSize e' = s.chunkSize e' := by
      refine readLE_congr fun x h1 h2 => C.frame ?_
      have h3 := (A.inside e' he').below
      have h4 := (A.inside e' he').low
      rw [Set.mem_compl_iff, mem_range]
      omega
    have h3 := (A.inside e' he').below
    omega
  refine ⟨fun e' he' => ?_, fun e₁ h₁ e₂ h₂ hne => ?_⟩
  · rcases List.mem_cons.mp he' with rfl | he'
    · refine ⟨by omega, by omega, by omega, ?_, hplain, ?_, ?_⟩
      · rw [hhdr]; exact C.magic
      · rw [hsize]; exact hapart
      · rw [hsize]; exact hroom
    · exact A'.inside e' he'
  · rcases List.mem_cons.mp h₁ with rfl | hold₁
    · rcases List.mem_cons.mp h₂ with rfl | hold₂
      · exact absurd rfl hne
      · exact Or.inr (hbehind e₂ hold₂)
    · rcases List.mem_cons.mp h₂ with rfl | hold₂
      · exact Or.inl (hbehind e₁ hold₁)
      · exact A'.apart e₁ hold₁ e₂ hold₂ hne

/-- **`is_bootstrap_ptr`** knows every chunk but an empty one at the very end. -/
theorem recognised (A : ArenaInv s arena) (he : e ∈ arena)
    (hne : e.ptr ≠ s.bootstrapBuf + bootstrapBufSize) : s.isBootstrapPtr e.ptr = true := by
  obtain ⟨h1, h2⟩ := A.ptr_bounds he
  have h3 := (A.inside e he).low
  have h4 := (A.inside e he).high
  unfold Shim.isBootstrapPtr
  rw [Bool.and_eq_true, decide_eq_true_eq, decide_eq_true_eq]
  omega

end ArenaInv

end MemoryMonitor
