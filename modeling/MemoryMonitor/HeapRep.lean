import MemoryMonitor.Allocator
import MemoryMonitor.LinkedChain
import MemoryMonitor.Tiling

/-! # What the heap represents

The heap is a tiling of `[lo, sbrk(0))` by blocks, used or free, and by gaps that
belong to someone else, together with the eight free lists as lists of addresses.
`HeapRep s lo segs lists` ties that picture to the raw state: headers and footers
say what the tiling says, the list heads and the links in the headers of free
blocks say what the lists say, and a block is on the list of its size class
exactly when it is free.

While an operation is at work on a block, the block is a `work` span: nothing is
claimed about its bytes, and they may be rewritten (`HeapRep.write_work`).  Work
spans can be cut and joined at will (`HeapRep.replace`); a finished one becomes a
block again once its header and footer are in place.
-/
namespace MemoryMonitor

open ByteMemory Tiling LinkedChain

/-- What a span of the heap is. -/
inductive Kind where
  | gap
  | used
  | free
  | work
deriving DecidableEq, Repr

/-- A span of the heap. -/
abbrev Seg := Span Kind

/-- The header and the footer of a block of `n` bytes at `a` are in place, with the
given `is_free` and `is_mmap` words. -/
structure Formed (m : Mem) (a n free mmap : Nat) : Prop where
  addr_aligned : a % 16 = 0
  size_aligned : n % 16 = 0
  size_ge : 80 ≤ n
  size_lt : n < 2 ^ 64
  magic : magicHeader m a = allocMagicHeader
  free_eq : isFree m a = free
  size_eq : blockSize m a = n
  mmap_eq : isMmap m a = mmap
  footer_magic : magicFooter m (a + n - 16) = allocMagicFooter
  footer_size : footerBlockSize m (a + n - 16) = n

/-- The bytes `Formed` reads: the header up to its links, and the footer. -/
def core (a n : Nat) : Set Nat := range a 28 ∪ range (a + n - 16) 16

theorem Formed.congr {m m' : Mem} {a n f k : Nat} (hF : Formed m a n f k)
    (h : Set.EqOn m' m (core a n)) : Formed m' a n f k := by
  have hn := hF.size_ge
  have hh : ∀ {b c}, a ≤ b → b + c ≤ a + 28 → readLE m' b c = readLE m b c := fun h1 h2 =>
    readLE_of_eqOn h (Set.subset_union_of_subset_left (range_subset h1 h2) _)
  have hf : ∀ {b c}, a + n - 16 ≤ b → b + c ≤ a + n - 16 + 16 →
      readLE m' b c = readLE m b c := fun h1 h2 =>
    readLE_of_eqOn h (Set.subset_union_of_subset_right (range_subset h1 h2) _)
  exact
    { hF with
      magic := (hh (by omega) (by omega)).trans hF.magic
      free_eq := (hh (by omega) (by omega)).trans hF.free_eq
      size_eq := (hh (by omega) (by omega)).trans hF.size_eq
      mmap_eq := (hh (by omega) (by omega)).trans hF.mmap_eq
      footer_magic := (hf (by omega) (by omega)).trans hF.footer_magic
      footer_size := (hf (by omega) (by omega)).trans hF.footer_size }

theorem core_subset {a n : Nat} (hn : 80 ≤ n) : core a n ⊆ range a n := by
  rintro x (hx | hx) <;> rw [mem_range] at hx ⊢ <;> omega

/-- **The state represents the tiling `segs` of `[lo, sbrk(0))` and the free lists
`lists`.** -/
structure HeapRep (s : State) (lo : Nat) (segs : List Seg) (lists : Fin 8 → List Nat) : Prop where
  tiles : Tiles lo segs s.brk
  lo_pos : 0 < lo
  floor : s.brkFloor ≤ lo
  limit : s.brk ≤ addrLimit
  start : s.heapStart = lo ∨ s.heapStart = 0 ∧ segs = []
  used : ∀ g ∈ segs, g.kind = .used → Formed s.mem g.addr g.size 0 0
  free : ∀ g ∈ segs, g.kind = .free → Formed s.mem g.addr g.size 1 0
  chain : ∀ i, Chain 0 (next s.mem) (prev s.mem) 0 (s.heads i) (lists i)
  nodup : ∀ i, (lists i).Nodup
  listed : ∀ i a, a ∈ lists i ↔
    ∃ g ∈ segs, g.kind = .free ∧ g.addr = a ∧ getSizeClassIndex g.size = i

namespace HeapRep

variable {s : State} {lo : Nat} {segs pre post : List Seg} {lists : Fin 8 → List Nat}

/-- Nothing but the memory, the list heads and the extent of the heap matters. -/
theorem of_fields {s' : State} (H : HeapRep s lo segs lists) (hm : s'.mem = s.mem)
    (hh : s'.heads = s.heads) (hs : s'.heapStart = s.heapStart) (hf : s'.brkFloor = s.brkFloor)
    (hb : s'.brk = s.brk) : HeapRep s' lo segs lists := by
  refine ⟨?_, H.lo_pos, ?_, ?_, ?_, ?_, ?_, ?_, H.nodup, H.listed⟩
  · rw [hb]; exact H.tiles
  · rw [hf]; exact H.floor
  · rw [hb]; exact H.limit
  · rw [hs]; exact H.start
  · rw [hm]; exact H.used
  · rw [hm]; exact H.free
  · rw [hm, hh]; exact H.chain

/-- A nonempty heap has begun. -/
theorem heapStart_eq (H : HeapRep s lo segs lists) {g : Seg} (hg : g ∈ segs) :
    s.heapStart = lo := by
  rcases H.start with h | ⟨-, h⟩
  · exact h
  · rw [h] at hg
    cases hg

theorem seg_lt (H : HeapRep s lo segs lists) {g : Seg} (hg : g ∈ segs) :
    g.addr + g.size < 2 ^ 64 := by
  have h1 := (H.tiles.bounds hg).2.1
  have h2 := H.limit
  unfold addrLimit at h2
  omega

/-- The bytes of a span may be dereferenced. -/
theorem accessible (H : HeapRep s lo segs lists) {g : Seg} (hg : g ∈ segs) {a n : Nat}
    (ha : g.addr ≤ a) (hn : a + n ≤ g.addr + g.size) : s.Accessible a n := by
  have h1 := H.tiles.bounds hg
  have h2 := H.floor
  exact Or.inl ⟨by omega, by omega⟩

/-- Used and free blocks are formed. -/
theorem formed (H : HeapRep s lo segs lists) {g : Seg} (hg : g ∈ segs)
    (hk : g.kind = .used ∨ g.kind = .free) : ∃ f, Formed s.mem g.addr g.size f 0 := by
  rcases hk with hk | hk
  · exact ⟨0, H.used g hg hk⟩
  · exact ⟨1, H.free g hg hk⟩

/-- The node of a free list is a free block. -/
theorem node (H : HeapRep s lo segs lists) {i : Fin 8} {a : Nat} (ha : a ∈ lists i) :
    ∃ n, (⟨a, n, .free⟩ : Seg) ∈ segs ∧ getSizeClassIndex n = i := by
  obtain ⟨g, hg, hk, rfl, hi⟩ := (H.listed i a).mp ha
  refine ⟨g.size, ?_, hi⟩
  rwa [show (⟨g.addr, g.size, Kind.free⟩ : Seg) = g by rw [← hk]]

/-- A node is on one list only. -/
theorem list_unique (H : HeapRep s lo segs lists) {i j : Fin 8} {a : Nat} (hi : a ∈ lists i)
    (hj : a ∈ lists j) : i = j := by
  obtain ⟨n, hn, rfl⟩ := H.node hi
  obtain ⟨k, hk, rfl⟩ := H.node hj
  have he := H.tiles.eq_of_addr hn hk rfl
  rw [show n = k from congrArg Span.size he]

/-- Distinct nodes are at least a smallest block apart. -/
theorem node_apart (H : HeapRep s lo segs lists) {i j : Fin 8} {a b : Nat} (ha : a ∈ lists i)
    (hb : b ∈ lists j) (hne : a ≠ b) : a + 80 ≤ b ∨ b + 80 ≤ a := by
  obtain ⟨n, hn, -⟩ := H.node ha
  obtain ⟨k, hk, -⟩ := H.node hb
  have h1 := (H.free _ hn rfl).size_ge
  have h2 := (H.free _ hk rfl).size_ge
  have h3 := H.tiles.apart hn hk (fun he => hne (congrArg Span.addr he))
  simp only at h1 h2 h3
  omega

/-- The links of a node lie outside the core of every formed block. -/
theorem link_not_mem_core (H : HeapRep s lo segs lists) {i : Fin 8} {a : Nat} (ha : a ∈ lists i)
    {g : Seg} (hg : g ∈ segs) (hge : 80 ≤ g.size) {x : Nat} (h1 : a + 32 ≤ x) (h2 : x < a + 48) :
    x ∉ core g.addr g.size := by
  obtain ⟨n, hn, -⟩ := H.node ha
  have hn80 := (H.free _ hn rfl).size_ge
  simp only at hn80
  by_cases he : (⟨a, n, .free⟩ : Seg) = g
  · subst he
    rintro (hx | hx) <;> rw [mem_range] at hx <;> simp only at hx <;> omega
  · intro hx
    have h3 := H.tiles.apart hn hg he
    have h4 := mem_range.mp (core_subset hge hx)
    simp only at h3
    omega

/-! ## Edits that leave the free lists alone -/

/-- **Rewriting the bytes of work spans** keeps the representation. -/
theorem write_work (H : HeapRep s lo segs lists) {m' : Mem}
    (hm : Set.EqOn m' s.mem (area (· = .work) segs)ᶜ) :
    HeapRep { s with mem := m' } lo segs lists := by
  have keep : ∀ g ∈ segs, g.kind ≠ .work → Set.EqOn m' s.mem g.bytes := fun g hg hk x hx =>
    hm (H.tiles.not_mem_area hg hk hx)
  refine { H with used := ?_, free := ?_, chain := ?_ }
  · intro g hg hk
    have hF := H.used g hg hk
    exact hF.congr ((keep g hg (by rw [hk]; decide)).mono (core_subset hF.size_ge))
  · intro g hg hk
    have hF := H.free g hg hk
    exact hF.congr ((keep g hg (by rw [hk]; decide)).mono (core_subset hF.size_ge))
  · intro i
    refine (H.chain i).congr fun a ha => ?_
    obtain ⟨n, hn, -⟩ := H.node ha
    have hn80 := (H.free _ hn rfl).size_ge
    have hk := keep _ hn (by simp)
    simp only at hn80
    exact ⟨readLE_of_eqOn hk (range_subset (by simp) (by simp only; omega)),
      readLE_of_eqOn hk (range_subset (by simp) (by simp only; omega))⟩

/-- **Local replacement** of spans none of which is a free block, by spans that make
up the same stretch.  New used blocks must be formed. -/
theorem replace (mid mid' : List Seg) (H : HeapRep s lo (pre ++ (mid ++ post)) lists)
    (ht : ∀ a b, Tiles a mid b → Tiles a mid' b) (hmid : mid' ≠ [])
    (hf : ∀ g ∈ mid, g.kind ≠ .free) (hf' : ∀ g ∈ mid', g.kind ≠ .free)
    (hu : ∀ g ∈ mid', g.kind = .used → Formed s.mem g.addr g.size 0 0) :
    HeapRep s lo (pre ++ (mid' ++ post)) lists := by
  have hold : ∀ g ∈ pre ++ (mid' ++ post), g ∉ mid' → g ∈ pre ++ (mid ++ post) := by
    intro g hg hgm
    simp only [List.mem_append] at hg ⊢
    tauto
  have hfree : ∀ g : Seg, g.kind = .free →
      (g ∈ pre ++ (mid ++ post) ↔ g ∈ pre ++ (mid' ++ post)) := by
    intro g hk
    have h1 : g ∉ mid := fun h => hf g h hk
    have h2 : g ∉ mid' := fun h => hf' g h hk
    simp only [List.mem_append, h1, h2]
  refine { H with tiles := H.tiles.replace mid mid' ht, start := ?_, used := ?_, free := ?_, listed := ?_ }
  · rcases H.start with h | ⟨h, he⟩
    · exact Or.inl h
    · have hm : mid = [] := (List.append_eq_nil_iff.mp (List.append_eq_nil_iff.mp he).2).1
      subst hm
      obtain ⟨g, mid', rfl⟩ := List.exists_cons_of_ne_nil hmid
      have hbad := ht 0 0 rfl
      have := hbad.2.2.le
      have := hbad.2.1
      omega
  · intro g hg hk
    by_cases hgm : g ∈ mid'
    · exact hu g hgm hk
    · exact H.used g (hold g hg hgm) hk
  · intro g hg hk
    exact H.free g ((hfree g hk).mpr hg) hk
  · intro i a
    rw [H.listed i a]
    constructor
    · rintro ⟨g, hg, hk, h⟩
      exact ⟨g, (hfree g hk).mp hg, hk, h⟩
    · rintro ⟨g, hg, hk, h⟩
      exact ⟨g, (hfree g hk).mpr hg, hk, h⟩

/-- A used block becomes a work span. -/
theorem open_used {a n : Nat} (H : HeapRep s lo (pre ++ ⟨a, n, .used⟩ :: post) lists) :
    HeapRep s lo (pre ++ ⟨a, n, .work⟩ :: post) lists := by
  refine H.replace [⟨a, n, .used⟩] [⟨a, n, .work⟩] ?_ (by simp) (by simp)
    (by simp) (by simp)
  intro b c h
  simpa using h

/-- A work span whose header and footer are in place becomes a used block. -/
theorem close_used {a n : Nat} (H : HeapRep s lo (pre ++ ⟨a, n, .work⟩ :: post) lists)
    (hF : Formed s.mem a n 0 0) : HeapRep s lo (pre ++ ⟨a, n, .used⟩ :: post) lists := by
  refine H.replace [⟨a, n, .work⟩] [⟨a, n, .used⟩] ?_ (by simp) (by simp)
    (by simp) (by simpa using hF)
  intro b c h
  simpa using h

/-- Two adjacent work spans become one. -/
theorem join {a n b k : Nat}
    (H : HeapRep s lo (pre ++ ⟨a, n, .work⟩ :: ⟨b, k, .work⟩ :: post) lists) :
    HeapRep s lo (pre ++ ⟨a, n + k, .work⟩ :: post) lists := by
  refine H.replace [⟨a, n, .work⟩, ⟨b, k, .work⟩] [⟨a, n + k, .work⟩] ?_
    (by simp) (by simp) (by simp) (by simp)
  intro c d h
  simp only [tiles_cons, tiles_nil] at h ⊢
  omega

/-- A work span is cut in two. -/
theorem cut {a n k : Nat} (H : HeapRep s lo (pre ++ ⟨a, n, .work⟩ :: post) lists)
    (hk : 0 < k) (hkn : k < n) :
    HeapRep s lo (pre ++ ⟨a, k, .work⟩ :: ⟨a + k, n - k, .work⟩ :: post) lists := by
  refine H.replace [⟨a, n, .work⟩] [⟨a, k, .work⟩, ⟨a + k, n - k, .work⟩] ?_ (by simp) (by simp) (by simp) (by simp)
  intro c d h
  simp only [tiles_cons, tiles_nil] at h ⊢
  omega

end HeapRep

end MemoryMonitor
