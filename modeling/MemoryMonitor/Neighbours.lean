import MemoryMonitor.HeapEdit

/-! # Looking at the neighbours of a block

`my_free` and `my_realloc` find the neighbours of a block by address arithmetic:
the header after its end, and the footer before its start.  What they read there
is a real header or footer, or lies in a gap that the rest of the process owns.

`Blank` says why a gap is never taken for a block: its bytes are zero or belong to
the host, whose data holds no magic value.  Blocks begin and end on multiples of
16, so the four bytes of a canary read at such an address lie in gaps entirely or
not at all.
-/
namespace MemoryMonitor

open ByteMemory Tiling LinkedChain

/-- **The gaps hold no block**: a byte of a gap is the host's or zero, a byte of a
block is not the host's, and no four bytes of the host make up a magic value. -/
structure Blank (s : State) (segs : List Seg) : Prop where
  gap : ∀ g ∈ segs, g.kind = .gap → ∀ x ∈ g.bytes, s.hostOwned x = true ∨ s.mem x = 0
  own : ∀ g ∈ segs, g.kind ≠ .gap → ∀ x ∈ g.bytes, s.hostOwned x = false
  clean : ∀ a, (∀ i, i < 4 → s.hostOwned (a + i) = true) →
    readLE s.mem a 4 ≠ allocMagicHeader ∧ readLE s.mem a 4 ≠ allocMagicFooter

/-- A canary that lies in gaps is no magic value. -/
theorem Blank.window {s : State} {segs : List Seg} (B : Blank s segs) {a : Nat}
    (h : ∀ i, i < 4 → ∃ g ∈ segs, g.kind = .gap ∧ a + i ∈ g.bytes) :
    readLE s.mem a 4 ≠ allocMagicHeader ∧ readLE s.mem a 4 ≠ allocMagicFooter := by
  by_cases hall : ∀ i, i < 4 → s.hostOwned (a + i) = true
  · exact B.clean a hall
  · simp only [not_forall] at hall
    obtain ⟨i, hi, hno⟩ := hall
    obtain ⟨g, hg, hk, hx⟩ := h i hi
    have hz : s.mem (a + i) = 0 := (B.gap g hg hk _ hx).resolve_left hno
    have hzero : ∃ x, a ≤ x ∧ x < a + 4 ∧ s.mem x = 0 := ⟨a + i, by omega, by omega, hz⟩
    exact ⟨readLE_ne_of_zero (by decide) hzero, readLE_ne_of_zero (by decide) hzero⟩

/-- An edit leaves the gaps blank. -/
theorem Edit.blank {s₀ s : State} {lo : Nat} {segs₀ segs : List Seg} {lists : Fin 8 → List Nat}
    (E : Edit s₀ s lo segs₀ segs lists) (B : Blank s₀ segs₀) : Blank s segs := by
  have hown : s.hostOwned = s₀.hostOwned := by rw [E.same]
  have hkeep : ∀ x, s₀.hostOwned x = true → s.mem x = s₀.mem x := by
    intro x hx
    refine E.eqOn ?_
    rintro ⟨g, hg, ho, hxg⟩
    have hng : g.kind ≠ .gap := by
      intro hk
      rw [hk] at ho
      rcases ho with ho | ho <;> cases ho
    exact absurd hx (by rw [B.own g hg hng x hxg]; decide)
  refine ⟨?_, ?_, ?_⟩
  · intro g hg hk x hx
    have hg₀ := E.gaps g hg hk
    rw [hown, E.eqOn (E.tiles₀.not_mem_area hg₀ (by rw [hk]; simp [Kind.Open]) hx)]
    exact B.gap g hg₀ hk x hx
  · intro g hg hk x hx
    have hb := E.rep.tiles.bounds hg
    rw [Span.mem_bytes] at hx
    obtain ⟨g₀, hg₀, hx₀⟩ := E.tiles₀.cover (x := x) (by omega) (by omega)
    rw [hown]
    refine B.own g₀ hg₀ ?_ x hx₀
    intro hgap
    have hmem := E.keeps g₀ hg₀ (by rw [hgap]; simp [Kind.Open])
    rw [E.rep.tiles.eq_of_mem hmem hg hx₀ hx] at hgap
    exact hk hgap
  · intro a ha
    rw [hown] at ha
    have hsame : readLE s.mem a 4 = readLE s₀.mem a 4 := by
      refine readLE_congr fun x h1 h2 => hkeep x ?_
      have := ha (x - a) (by omega)
      rwa [show a + (x - a) = x by omega] at this
    rw [hsame]
    exact B.clean a ha

namespace HeapRep

variable {s : State} {lo : Nat} {segs pre post : List Seg} {lists : Fin 8 → List Nat}
variable {a n f : Nat}

/-- Blocks begin and end on multiples of 16. -/
def Aligned (segs : List Seg) : Prop :=
  ∀ g ∈ segs, g.kind ≠ .gap → g.addr % 16 = 0 ∧ g.size % 16 = 0

/-- Used and free blocks are aligned; work spans have to be. -/
theorem aligned (H : HeapRep s lo segs lists)
    (hw : ∀ g ∈ segs, g.kind = .work → g.addr % 16 = 0 ∧ g.size % 16 = 0) : Aligned segs := by
  intro g hg hk
  cases hgk : g.kind with
  | gap => exact absurd hgk hk
  | used => exact ⟨(H.used g hg hgk).addr_aligned, (H.used g hg hgk).size_aligned⟩
  | free => exact ⟨(H.free g hg hgk).addr_aligned, (H.free g hg hgk).size_aligned⟩
  | work => exact hw g hg hgk

/-- No canary of a header is read at the start of a gap that follows a block. -/
theorem gap_header (H : HeapRep s lo segs lists) (hal : Aligned segs) (B : Blank s segs) {g : Seg}
    (hg : g ∈ segs) (hk : g.kind = .gap) (h16 : g.addr % 16 = 0) (hend : g.addr + 4 ≤ s.brk) :
    magicHeader s.mem g.addr ≠ allocMagicHeader := by
  have hb := H.tiles.bounds hg
  refine (B.window fun i hi => ?_).1
  obtain ⟨k, hkm, hx⟩ := H.tiles.cover (x := g.addr + i) (by omega) (by omega)
  refine ⟨k, hkm, ?_, hx⟩
  -- a block that holds one of the four bytes would begin by `g.addr`, and so hold it too
  by_contra hno
  obtain ⟨h1, h2⟩ := hal k hkm hno
  rw [Span.mem_bytes] at hx
  have hle : k.addr ≤ g.addr := by omega
  have he := H.tiles.eq_of_mem hkm hg (x := g.addr) ⟨hle, by omega⟩ ⟨by omega, by omega⟩
  exact hno (he ▸ hk)

/-- No canary of a footer is read at the end of a gap that a block follows. -/
theorem gap_footer (H : HeapRep s lo segs lists) (hal : Aligned segs) (B : Blank s segs) {g : Seg}
    (hg : g ∈ segs) (hk : g.kind = .gap) (h16 : (g.addr + g.size) % 16 = 0)
    (hlo : lo + 16 ≤ g.addr + g.size) :
    magicFooter s.mem (g.addr + g.size - 16) ≠ allocMagicFooter := by
  have hb := H.tiles.bounds hg
  refine (B.window fun i hi => ?_).2
  obtain ⟨k, hkm, hx⟩ := H.tiles.cover (x := g.addr + g.size - 16 + i) (by omega) (by omega)
  refine ⟨k, hkm, ?_, hx⟩
  -- a block that holds one of the four bytes would reach the end of the gap
  by_contra hno
  obtain ⟨h1, h2⟩ := hal k hkm hno
  rw [Span.mem_bytes] at hx
  have hge : g.addr + g.size ≤ k.addr + k.size := by omega
  have he := H.tiles.eq_of_mem hkm hg (x := g.addr + g.size - 1) ⟨by omega, by omega⟩
    ⟨by omega, by omega⟩
  exact hno (he ▸ hk)

/-! ## `is_adjacent_free_block` -/

theorem brk_ne_ptrFailed (H : HeapRep s lo segs lists) : s.brk ≠ ptrFailed := by
  have := H.limit
  unfold addrLimit at this
  unfold ptrFailed
  omega

/-- A free block is recognised. -/
theorem adjacent_free (H : HeapRep s lo segs lists) (hg : (⟨a, n, .free⟩ : Seg) ∈ segs) :
    isAdjacentFreeBlock s a s.brk = .ok true := by
  have hF := H.free _ hg rfl
  have hge := hF.size_ge
  have h16 := hF.addr_aligned
  have hn16 := hF.size_aligned
  have hb := H.tiles.bounds hg
  have hlo := H.lo_pos
  have hst := H.heapStart_eq hg
  have hbrk := H.brk_ne_ptrFailed
  simp only at hF hge h16 hn16 hb
  unfold isAdjacentFreeBlock
  rw [if_neg (by omega), if_neg (by omega), if_neg (by omega), if_neg (by omega),
    State.deref_pos (H.accessible hg (by simp) (by simp only; omega)), ok_bind, hF.size_eq,
    if_neg (by rw [hF.magic, hF.mmap_eq, hF.free_eq]; decide), if_neg (by omega),
    if_neg (by omega), if_neg (by omega)]
  simp only
  rw [State.deref_pos (H.accessible hg (by simp only; omega) (by simp only; omega)), ok_bind,
    if_neg (by rw [hF.footer_magic, hF.footer_size]; simp)]

/-- What has no free header in place is not taken for a free block. -/
theorem adjacent_false (H : HeapRep s lo segs lists) (ha : lo ≤ a)
    (h : a + 64 ≤ s.brk → a % 16 = 0 → magicHeader s.mem a ≠ allocMagicHeader ∨ isFree s.mem a = 0) :
    isAdjacentFreeBlock s a s.brk = .ok false := by
  have hf := H.floor
  unfold isAdjacentFreeBlock
  by_cases h1 : a = 0 ∨ s.brk = ptrFailed ∨ s.heapStart = 0
  · rw [if_pos h1]
  by_cases h2 : a < s.heapStart ∨ s.brk ≤ a
  · rw [if_neg h1, if_pos h2]
  by_cases h3 : s.brk - a < 64
  · rw [if_neg h1, if_neg h2, if_pos h3]
  by_cases h4 : a % 16 ≠ 0
  · rw [if_neg h1, if_neg h2, if_neg h3, if_pos h4]
  have hno := h (by omega) (by omega)
  rw [if_neg h1, if_neg h2, if_neg h3, if_neg h4,
    State.deref_pos (Or.inl ⟨by omega, by omega⟩), ok_bind, if_pos (by tauto)]

/-- **What follows a block**: a free block, recognised as such, or something that
is not taken for one. -/
theorem adjacent_cases {g : Seg} (H : HeapRep s lo (pre ++ g :: post) lists)
    (hal : Aligned (pre ++ g :: post)) (B : Blank s (pre ++ g :: post)) (hgk : g.kind ≠ .gap)
    (hset : ∀ h ∈ post, h.kind ≠ .work) :
    (∃ k post', post = ⟨g.addr + g.size, k, .free⟩ :: post' ∧
      isAdjacentFreeBlock s (g.addr + g.size) s.brk = .ok true) ∨
    (∀ h ∈ post.head?, h.kind ≠ .free) ∧
      isAdjacentFreeBlock s (g.addr + g.size) s.brk = .ok false := by
  have hgm : g ∈ pre ++ g :: post := by simp
  have hb := H.tiles.bounds hgm
  cases post with
  | nil =>
    right
    have hend := H.tiles.last_end
    exact ⟨by simp, H.adjacent_false (by omega) (fun h => by omega)⟩
  | cons h post =>
    have hm : h ∈ pre ++ g :: h :: post := by simp
    have hnext := H.tiles.next_addr
    have h16 := hal g hgm hgk
    cases hk : h.kind with
    | work => exact absurd hk (hset h (by simp))
    | free =>
      left
      have he : h = ⟨g.addr + g.size, h.size, .free⟩ := by rw [← hnext, ← hk]
      refine ⟨h.size, post, by rw [← he], ?_⟩
      exact H.adjacent_free (n := h.size) (by rw [← he]; exact hm)
    | used =>
      right
      refine ⟨by simp [hk], H.adjacent_false (by omega) (fun _ _ => Or.inr ?_)⟩
      rw [← hnext]
      exact (H.used h hm hk).free_eq
    | gap =>
      right
      refine ⟨by simp [hk], H.adjacent_false (by omega) (fun hend _ => Or.inl ?_)⟩
      rw [← hnext]
      exact H.gap_header hal B hm hk (by omega) (by omega)

end HeapRep

/-! ## Coalescing -/

/-- `growBlock` stamps the new size `v` in the header and behind the grown block. -/
theorem growBlock_eq {s : State} {a k v : Nat} (hv : addSize (blockSize s.mem a) k = v) :
    growBlock s a k = { s with mem := putFooter (setBlockSize s.mem a v) (a + v - 16) v } := by
  have hlt : v < 256 ^ 8 := by
    rw [← hv]
    exact Nat.mod_lt _ (by decide)
  have hr : blockSize (setBlockSize s.mem a v) a = v := readLE_writeLE_same hlt
  simp only [growBlock, hv, hr]

namespace Edit

variable {s₀ s : State} {lo : Nat} {segs₀ pre post : List Seg} {lists : Fin 8 → List Nat}
variable {a n f : Nat}

/-- The only work span is one block. -/
theorem aligned_one (E : Edit s₀ s lo segs₀ (pre ++ ⟨a, n, .work⟩ :: post) lists)
    (hF : Formed s.mem a n f 0) (hset : ∀ g ∈ pre ++ post, g.kind ≠ .work) :
    HeapRep.Aligned (pre ++ ⟨a, n, .work⟩ :: post) := by
  refine E.rep.aligned fun g hg hk => ?_
  simp only [List.mem_append, List.mem_cons] at hg hset
  rcases hg with hg | rfl | hg
  · exact absurd hk (hset g (Or.inl hg))
  · exact ⟨hF.addr_aligned, hF.size_aligned⟩
  · exact absurd hk (hset g (Or.inr hg))

/-- A work span that has taken in the one behind it, with the new size stamped. -/
theorem grow {b k f' : Nat} (E : Edit s₀ s lo segs₀ (pre ++ ⟨a, n, .work⟩ :: ⟨b, k, .work⟩ :: post) lists)
    (hF : Formed s.mem a n f 0) (hk : Formed s.mem b k f' 0) :
    Edit s₀ (growBlock s a k) lo segs₀ (pre ++ ⟨a, n + k, .work⟩ :: post) lists ∧
      Formed (growBlock s a k).mem a (n + k) f 0 := by
  have E' := E.join
  have hlt := E'.rep.seg_lt (g := ⟨a, n + k, .work⟩) (by simp)
  simp only at hlt
  have h1 := hF.size_ge
  have h2 := hF.size_aligned
  have h3 := hk.size_aligned
  have hsize : addSize (blockSize s.mem a) k = n + k := by
    rw [hF.size_eq]
    exact addSize_of_lt (by omega)
  rw [growBlock_eq hsize]
  exact ⟨E'.write_span (a := a) (n := n + k) (by simp) (resize_eqOn _ _ (by omega)),
    hF.resize (by omega) (by omega) (by omega)⟩

/-- **Forward coalescing** takes in a free block behind the freed one. -/
theorem coalesceNext (E : Edit s₀ s lo segs₀ (pre ++ ⟨a, n, .work⟩ :: post) lists)
    (B : Blank s₀ segs₀) (hF : Formed s.mem a n f 0) (hset : ∀ g ∈ pre ++ post, g.kind ≠ .work) :
    ∃ s' n' post' lists', coalesceNext s a = .ok s' ∧
      Edit s₀ s' lo segs₀ (pre ++ ⟨a, n', .work⟩ :: post') lists' ∧ Formed s'.mem a n' f 0 ∧
      (∀ g ∈ pre ++ post', g.kind ≠ .work) ∧
      ((∃ k s₁, post = ⟨a + n, k, .free⟩ :: post' ∧ n' = n + k ∧
          freeListRemove s (a + n) = .ok s₁ ∧ s' = growBlock s₁ a k) ∨
        post' = post ∧ n' = n ∧ s' = s ∧ ∀ g ∈ post.head?, g.kind ≠ .free) := by
  unfold MemoryMonitor.coalesceNext
  simp only [hF.size_eq]
  rcases E.rep.adjacent_cases (E.aligned_one hF hset) (E.blank B) (by simp)
      (fun g hg => hset g (List.mem_append_right _ hg)) with ⟨k, post', rfl, hadj⟩ | ⟨hhead, hadj⟩
  · simp only at hadj
    rw [hadj, ok_bind, if_pos rfl]
    have E₁ : Edit s₀ s lo segs₀ ((pre ++ [⟨a, n, .work⟩]) ++ ⟨a + n, k, .free⟩ :: post') lists := by
      rw [List.append_assoc]
      exact E
    obtain ⟨s₁, lists₁, hr, E₂, hk, hw⟩ := E₁.remove
    have hF₁ : Formed s₁.mem a n f 0 :=
      hF.congr ((hw ⟨a, n, .work⟩ (by simp) rfl).mono (core_subset hF.size_ge))
    rw [List.append_assoc] at E₂
    obtain ⟨E₃, hF₃⟩ := E₂.grow hF₁ hk
    refine ⟨growBlock s₁ a k, n + k, post', lists₁, ?_, E₃, hF₃, ?_, Or.inl ⟨k, s₁, rfl, rfl, hr, rfl⟩⟩
    · rw [hr, ok_bind, hk.size_eq]
    · exact (forall_mid.mp hset).2
  · simp only at hadj
    rw [hadj, ok_bind]
    exact ⟨s, n, post, lists, rfl, E, hF, hset, Or.inr ⟨rfl, rfl, rfl, hhead⟩⟩

/-- Nothing happens when what precedes the block has no footer in place, or is a
used block. -/
theorem coalescePrev_stay (E : Edit s₀ s lo segs₀ (pre ++ ⟨a, n, .work⟩ :: post) lists)
    (h : lo + 64 ≤ a → magicFooter s.mem (a - 16) ≠ allocMagicFooter ∨
      ∃ b k, lo ≤ b ∧ b + k = a ∧ Formed s.mem b k 0 0) :
    coalescePrev s a = .ok (a, s) := by
  have hst := E.rep.heapStart_eq (g := ⟨a, n, .work⟩) (by simp)
  have hb := E.rep.tiles.bounds (g := ⟨a, n, .work⟩) (by simp)
  have hf := E.rep.floor
  simp only at hb
  unfold coalescePrev
  rw [hst]
  by_cases h1 : lo ≠ 0 ∧ lo + 64 ≤ a
  · rw [if_pos h1]
    simp only
    rw [State.deref_pos (Or.inl ⟨by omega, by omega⟩), ok_bind]
    rcases h h1.2 with hm | ⟨b, k, hlo, rfl, hF⟩
    · rw [if_neg (fun hc => hm hc.1)]
    · have hge := hF.size_ge
      rw [hF.footer_size]
      split
      · simp only [Nat.add_sub_cancel]
        split
        · rw [State.deref_pos (Or.inl ⟨by omega, by omega⟩), ok_bind,
            if_neg (fun hc => hc.2.2.2 hF.free_eq)]
        · rfl
      · rfl
  · rw [if_neg h1]

/-- A free block in front is recognised and taken in. -/
theorem coalescePrev_free {b k : Nat}
    (E : Edit s₀ s lo segs₀ (pre ++ ⟨b, k, .free⟩ :: ⟨a, n, .work⟩ :: post) lists)
    (hF : Formed s.mem a n f 0) :
    ∃ s' s₁ lists', coalescePrev s a = .ok (b, s') ∧
      Edit s₀ s' lo segs₀ (pre ++ ⟨b, k + n, .work⟩ :: post) lists' ∧
      Formed s'.mem b (k + n) 0 0 ∧ freeListRemove s b = .ok s₁ ∧ s' = growBlock s₁ b n := by
  have hbm : (⟨b, k, .free⟩ : Seg) ∈ pre ++ ⟨b, k, .free⟩ :: ⟨a, n, .work⟩ :: post := by simp
  have hst := E.rep.heapStart_eq hbm
  have hb := E.rep.tiles.bounds hbm
  have hlo := E.rep.lo_pos
  have hfl := E.rep.floor
  have hP := E.rep.free _ hbm rfl
  have hge := hP.size_ge
  have h16 := hP.size_aligned
  have hb16 := hP.addr_aligned
  have hba : b + k = a := E.rep.tiles.next_addr.symm
  simp only at hb hP hge h16 hb16
  subst hba
  obtain ⟨s₁, lists₁, hr, E₁, hP₁, hw⟩ := E.remove
  have hF₁ : Formed s₁.mem (b + k) n f 0 :=
    hF.congr ((hw ⟨b + k, n, .work⟩ (by simp) rfl).mono (core_subset hF.size_ge))
  obtain ⟨E₂, hF₂⟩ := E₁.grow hP₁ hF₁
  refine ⟨growBlock s₁ b n, s₁, lists₁, ?_, E₂, hF₂, hr, rfl⟩
  unfold coalescePrev
  rw [hst, if_pos ⟨by omega, by omega⟩]
  simp only
  rw [State.deref_pos (Or.inl ⟨by omega, by omega⟩), ok_bind, hP.footer_size,
    if_pos ⟨hP.footer_magic, by omega, by omega, h16⟩, Nat.add_sub_cancel,
    if_pos ⟨by omega, hb16⟩, State.deref_pos (Or.inl ⟨by omega, by omega⟩), ok_bind,
    if_pos ⟨hP.magic, hP.size_eq, hP.mmap_eq, by rw [hP.free_eq]; decide⟩, hr, ok_bind,
    hF₁.size_eq]

/-- **Backward coalescing** lets a free block in front of the freed one take it in. -/
theorem coalescePrev (E : Edit s₀ s lo segs₀ (pre ++ ⟨a, n, .work⟩ :: post) lists)
    (B : Blank s₀ segs₀) (hF : Formed s.mem a n f 0) (hset : ∀ g ∈ pre ++ post, g.kind ≠ .work) :
    ∃ s' a' n' f' pre' lists', coalescePrev s a = .ok (a', s') ∧
      Edit s₀ s' lo segs₀ (pre' ++ ⟨a', n', .work⟩ :: post) lists' ∧ Formed s'.mem a' n' f' 0 ∧
      (∀ g ∈ pre' ++ post, g.kind ≠ .work) ∧
      ((∃ k s₁, pre = pre' ++ [⟨a', k, .free⟩] ∧ n' = k + n ∧ freeListRemove s a' = .ok s₁ ∧
          s' = growBlock s₁ a' n) ∨
        pre' = pre ∧ a' = a ∧ n' = n ∧ s' = s ∧ ∀ g ∈ pre.getLast?, g.kind ≠ .free) := by
  rcases List.eq_nil_or_concat pre with rfl | ⟨pre', g, rfl⟩
  · have ha : a = lo := E.rep.tiles.1
    exact ⟨s, a, n, f, [], lists, E.coalescePrev_stay fun h => by omega, E, hF, hset,
      Or.inr ⟨rfl, rfl, rfl, rfl, by simp⟩⟩
  · have hal := E.aligned_one hF hset
    have hB := E.blank B
    have hgset := hset g (by simp)
    have hgm : g ∈ pre'.concat g ++ ⟨a, n, .work⟩ :: post := by simp
    have hgb := E.rep.tiles.bounds hgm
    have ht := E.rep.tiles
    rw [List.concat_eq_append, List.append_assoc] at ht
    have hga : a = g.addr + g.size := ht.next_addr
    cases hk : g.kind with
    | work => exact absurd hk hgset
    | free =>
      have E₁ : Edit s₀ s lo segs₀ (pre' ++ ⟨g.addr, g.size, .free⟩ :: ⟨a, n, .work⟩ :: post) lists := by
        rw [← hk]
        rwa [List.concat_eq_append, List.append_assoc] at E
      obtain ⟨s', s₁, lists', hr, E', hF', hrem, hgrow⟩ := E₁.coalescePrev_free hF
      refine ⟨s', g.addr, g.size + n, 0, pre', lists', hr, E', hF', fun h hh => hset h ?_,
        Or.inl ⟨g.size, s₁, ?_, rfl, hrem, hgrow⟩⟩
      · simp only [List.concat_eq_append, List.mem_append, List.mem_cons] at hh ⊢
        tauto
      · rw [List.concat_eq_append, ← hk]
    | used =>
      refine ⟨s, a, n, f, _, lists, E.coalescePrev_stay fun _ => Or.inr ?_, E, hF, hset,
        Or.inr ⟨rfl, rfl, rfl, rfl, by simp [hk]⟩⟩
      exact ⟨g.addr, g.size, hgb.1, hga.symm, E.rep.used g hgm hk⟩
    | gap =>
      refine ⟨s, a, n, f, _, lists, E.coalescePrev_stay fun hlo => Or.inl ?_, E, hF, hset,
        Or.inr ⟨rfl, rfl, rfl, rfl, by simp [hk]⟩⟩
      have h16 := hF.addr_aligned
      rw [hga]
      exact E.rep.gap_footer hal hB hgm hk (by omega) (by omega)

end Edit

end MemoryMonitor
