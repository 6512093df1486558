import MemoryMonitor.FreeListSpec

/-! # Editing the heap inside a critical section

An operation rewrites free blocks and the block it was called on, and nothing
else.  `Edit s₀ s lo segs₀ segs lists` says that the state `s`, which represents
`segs`, was reached from `s₀`, where the spans that may be rewritten were the free
and work spans of `segs₀`: the other spans are still there, no gap is new, and no
byte outside those free and work spans has changed.

Every step of an operation (unlinking a block, linking one in, cutting and joining
work spans, storing into them) takes an edit to an edit, so that the operations'
own proofs only follow the spans.

The stores that stamp headers and footers are here too, as facts about `Formed`.
-/
namespace MemoryMonitor

open ByteMemory Tiling LinkedChain

/-- The kinds of spans whose bytes an operation may rewrite. -/
def Kind.Open (k : Kind) : Prop := k = .free ∨ k = .work

/-! ## Stamping headers and footers -/

section Stamps
variable {m : Mem} {a n k f t : Nat}

/-- A new `block_size`, in the header and in a footer at the new end of the block. -/
theorem Formed.resize (hF : Formed m a n f t) (hk : 80 ≤ k) (hk' : k < 2 ^ 64) (h16 : k % 16 = 0) :
    Formed (putFooter (setBlockSize m a k) (a + k - 16) k) a k f t := by
  obtain ⟨h1, -, -, -, h2, h3, -, h4, -, -⟩ := hF
  refine ⟨h1, h16, hk, hk', ?_, ?_, ?_, ?_, ?_, ?_⟩ <;>
    simp only [magicHeader, isFree, blockSize, isMmap, magicFooter, footerBlockSize, putFooter,
      setBlockSize] at *
  · simpa (disch := omega) only [readLE_writeLE_disjoint] using h2
  · simpa (disch := omega) only [readLE_writeLE_disjoint] using h3
  · simp (disch := omega) only [readLE_writeLE_disjoint, readLE_writeLE_same]
  · simpa (disch := omega) only [readLE_writeLE_disjoint] using h4
  · simp (disch := omega) only [readLE_writeLE_disjoint]
    exact readLE_writeLE_same (by decide)
  · exact readLE_writeLE_same (by omega)

theorem resize_eqOn (m : Mem) (a : Nat) (hk : 80 ≤ k) :
    Set.EqOn (putFooter (setBlockSize m a k) (a + k - 16) k) m (range a k)ᶜ := by
  intro x hx
  rw [Set.mem_compl_iff, mem_range] at hx
  simp only [putFooter, setBlockSize]
  rw [writeLE_of_disjoint (by omega), writeLE_of_disjoint (by omega),
    writeLE_of_disjoint (by omega)]

/-- The header and the footer of a block that is cut off. -/
theorem formed_remainder (ha : a % 16 = 0) (hn : 80 ≤ n) (hn' : n < 2 ^ 64) (h16 : n % 16 = 0) :
    Formed (putFooter (putRemainderHeader m a n) (a + n - 16) n) a n 1 0 := by
  refine ⟨ha, h16, hn, hn', ?_, ?_, ?_, ?_, ?_, ?_⟩ <;>
    simp only [magicHeader, isFree, blockSize, isMmap, magicFooter, footerBlockSize, putFooter,
      putRemainderHeader, setMagicHeader, setBlockSize, setIsFree, setIsMmap, setNext, setPrev]
  · simp (disch := omega) only [readLE_writeLE_disjoint]
    exact readLE_writeLE_same (by decide)
  · simp (disch := omega) only [readLE_writeLE_disjoint]
    exact readLE_writeLE_same (by decide)
  · simp (disch := omega) only [readLE_writeLE_disjoint]
    exact readLE_writeLE_same (by omega)
  · simp (disch := omega) only [readLE_writeLE_disjoint]
    exact readLE_writeLE_same (by decide)
  · simp (disch := omega) only [readLE_writeLE_disjoint]
    exact readLE_writeLE_same (by decide)
  · exact readLE_writeLE_same (by omega)

theorem remainder_eqOn (m : Mem) (a : Nat) (hn : 80 ≤ n) :
    Set.EqOn (putFooter (putRemainderHeader m a n) (a + n - 16) n) m (range a n)ᶜ := by
  intro x hx
  rw [Set.mem_compl_iff, mem_range] at hx
  simp only [putFooter, putRemainderHeader, setMagicHeader, setBlockSize, setIsFree, setIsMmap,
    setNext, setPrev]
  simp (disch := omega) only [writeLE_of_disjoint]

/-- Clearing or setting `is_free` does nothing else. -/
theorem Formed.set_isFree (hF : Formed m a n f t) {v : Nat} (hv : v < 2 ^ 32) :
    Formed (setIsFree m a v) a n v t := by
  obtain ⟨h1, h2, h3, h4, h5, -, h6, h7, h8, h9⟩ := hF
  refine ⟨h1, h2, h3, h4, ?_, ?_, ?_, ?_, ?_, ?_⟩ <;>
    simp only [magicHeader, isFree, blockSize, isMmap, magicFooter, footerBlockSize,
      setIsFree] at *
  · simpa (disch := omega) only [readLE_writeLE_disjoint] using h5
  · exact readLE_writeLE_same (by omega)
  · simpa (disch := omega) only [readLE_writeLE_disjoint] using h6
  · simpa (disch := omega) only [readLE_writeLE_disjoint] using h7
  · simpa (disch := omega) only [readLE_writeLE_disjoint] using h8
  · simpa (disch := omega) only [readLE_writeLE_disjoint] using h9

/-- `requested_size` is not part of what makes a block formed. -/
theorem Formed.set_requestedSize (hF : Formed m a n f t) (v : Nat) :
    Formed (setRequestedSize m a v) a n f t := by
  obtain ⟨h1, h2, h3, h4, h5, h0, h6, h7, h8, h9⟩ := hF
  refine ⟨h1, h2, h3, h4, ?_, ?_, ?_, ?_, ?_, ?_⟩ <;>
    simp only [magicHeader, isFree, blockSize, isMmap, magicFooter, footerBlockSize,
      setRequestedSize] at *
  · simpa (disch := omega) only [readLE_writeLE_disjoint] using h5
  · simpa (disch := omega) only [readLE_writeLE_disjoint] using h0
  · simpa (disch := omega) only [readLE_writeLE_disjoint] using h6
  · simpa (disch := omega) only [readLE_writeLE_disjoint] using h7
  · simpa (disch := omega) only [readLE_writeLE_disjoint] using h8
  · simpa (disch := omega) only [readLE_writeLE_disjoint] using h9

end Stamps

/-! ## Edits -/

/-- **`s`, which represents `segs`, was reached from `s₀` by rewriting free and work
spans of `segs₀` only.** -/
structure Edit (s₀ s : State) (lo : Nat) (segs₀ segs : List Seg) (lists : Fin 8 → List Nat) :
    Prop where
  rep : HeapRep s lo segs lists
  same : s = { s₀ with mem := s.mem, heads := s.heads }
  tiles₀ : Tiles lo segs₀ s.brk
  keeps : ∀ g ∈ segs₀, ¬ g.kind.Open → g ∈ segs
  gaps : ∀ g ∈ segs, g.kind = .gap → g ∈ segs₀
  eqOn : Set.EqOn s.mem s₀.mem (area Kind.Open segs₀)ᶜ

namespace Edit

variable {s₀ s : State} {lo : Nat} {segs₀ segs pre post : List Seg} {lists : Fin 8 → List Nat}
variable {a n f k : Nat}

theorem refl (H : HeapRep s lo segs lists) : Edit s s lo segs segs lists :=
  ⟨H, rfl, H.tiles, fun _ h _ => h, fun _ h _ => h, fun _ _ => rfl⟩

/-- Bytes that may be rewritten now could be rewritten from the start. -/
theorem area_subset (E : Edit s₀ s lo segs₀ segs lists) :
    area Kind.Open segs ⊆ area Kind.Open segs₀ := by
  intro x hx
  have hb := E.rep.tiles.area_bounds hx
  obtain ⟨g, hg, hxg⟩ := E.tiles₀.cover hb.1 hb.2
  by_cases ho : g.kind.Open
  · exact ⟨g, hg, ho, hxg⟩
  · exact absurd hx (E.rep.tiles.not_mem_area (E.keeps g hg ho) ho hxg)

/-- One more step, which represents the spans differently and rewrites open ones. -/
theorem step {s' : State} {segs' : List Seg} {lists' : Fin 8 → List Nat}
    (E : Edit s₀ s lo segs₀ segs lists) (H : HeapRep s' lo segs' lists')
    (hs : s' = { s with mem := s'.mem, heads := s'.heads })
    (hk : ∀ g ∈ segs, ¬ g.kind.Open → g ∈ segs') (hg : ∀ g ∈ segs', g.kind = .gap → g ∈ segs)
    (hm : Set.EqOn s'.mem s.mem (area Kind.Open segs)ᶜ) : Edit s₀ s' lo segs₀ segs' lists' := by
  have hbrk : s'.brk = s.brk := by rw [hs]
  refine ⟨H, ?_, by rw [hbrk]; exact E.tiles₀, fun g h ho => hk g (E.keeps g h ho) ho,
    fun g h hgap => E.gaps g (hg g h hgap) hgap, ?_⟩
  · rw [hs, E.same]
  · exact (hm.mono (Set.compl_subset_compl.mpr E.area_subset)).trans E.eqOn

/-- A span of an open kind exchanged for one at the same place takes no other span
away and adds no gap. -/
theorem swap_mem (pre post : List Seg) {g k : Seg} (ho : g.kind.Open) (hgap : k.kind ≠ .gap) :
    (∀ h ∈ pre ++ g :: post, ¬ h.kind.Open → h ∈ pre ++ k :: post) ∧
    ∀ h ∈ pre ++ k :: post, h.kind = .gap → h ∈ pre ++ g :: post := by
  constructor
  · intro h hh hn
    have : h ≠ g := by
      rintro rfl
      exact hn ho
    simp only [List.mem_append, List.mem_cons] at hh ⊢
    tauto
  · intro h hh hk
    have : h ≠ k := by
      rintro rfl
      exact hgap hk
    simp only [List.mem_append, List.mem_cons] at hh ⊢
    tauto

/-- Storing into work spans. -/
theorem write (E : Edit s₀ s lo segs₀ segs lists) {m' : Mem}
    (hm : Set.EqOn m' s.mem (area (· = .work) segs)ᶜ) :
    Edit s₀ { s with mem := m' } lo segs₀ segs lists := by
  refine E.step (E.rep.write_work hm) rfl (fun _ h _ => h) (fun _ h _ => h) ?_
  exact hm.mono (Set.compl_subset_compl.mpr (area_mono fun _ h => Or.inr h))

/-- Storing into one work span. -/
theorem write_span (E : Edit s₀ s lo segs₀ segs lists) {w : Mem}
    (hg : (⟨a, n, .work⟩ : Seg) ∈ segs) (hm : Set.EqOn w s.mem (range a n)ᶜ) :
    Edit s₀ { s with mem := w } lo segs₀ segs lists :=
  E.write (hm.mono (Set.compl_subset_compl.mpr (bytes_subset_area hg rfl)))

/-- What other work spans hold survives a change confined to free blocks. -/
theorem work_eqOn {m m' : Mem} {hi : Nat} (ht : Tiles lo segs hi)
    (hm : Set.EqOn m' m (area (· = .free) segs)ᶜ) {g : Seg} (hg : g ∈ segs) (hk : g.kind = .work) :
    Set.EqOn m' m g.bytes := fun _ hx => hm (ht.not_mem_area hg (by rw [hk]; decide) hx)

/-- **Unlinking a free block.** -/
theorem remove (E : Edit s₀ s lo segs₀ (pre ++ ⟨a, n, .free⟩ :: post) lists) :
    ∃ s' lists', freeListRemove s a = .ok s' ∧
      Edit s₀ s' lo segs₀ (pre ++ ⟨a, n, .work⟩ :: post) lists' ∧ Formed s'.mem a n 0 0 ∧
      ∀ g ∈ pre ++ ⟨a, n, .free⟩ :: post, g.kind = .work → Set.EqOn s'.mem s.mem g.bytes := by
  obtain ⟨m, heads, hr, H, hF, hm⟩ := E.rep.remove
  obtain ⟨h1, h2⟩ := swap_mem pre post (k := ⟨a, n, .work⟩) (g := ⟨a, n, .free⟩) (Or.inl rfl)
    (by simp)
  refine ⟨_, _, hr, E.step H rfl h1 h2 ?_, hF, fun g hg hk => work_eqOn E.rep.tiles hm hg hk⟩
  exact hm.mono (Set.compl_subset_compl.mpr (area_mono fun _ h => Or.inl h))

/-- **Linking a formed work span in.** -/
theorem insert (E : Edit s₀ s lo segs₀ (pre ++ ⟨a, n, .work⟩ :: post) lists)
    (hF : Formed s.mem a n f 0) :
    ∃ s' lists', freeListInsert s a = .ok s' ∧
      Edit s₀ s' lo segs₀ (pre ++ ⟨a, n, .free⟩ :: post) lists' ∧
      ∀ g ∈ pre ++ ⟨a, n, .free⟩ :: post, g.kind = .work → Set.EqOn s'.mem s.mem g.bytes := by
  obtain ⟨m, heads, hr, H, hm⟩ := E.rep.insert hF
  obtain ⟨h1, h2⟩ := swap_mem pre post (k := ⟨a, n, .free⟩) (g := ⟨a, n, .work⟩) (Or.inr rfl)
    (by simp)
  refine ⟨_, _, hr, E.step H rfl h1 h2 ?_, fun g hg hk => work_eqOn H.tiles hm hg hk⟩
  refine hm.mono (Set.compl_subset_compl.mpr ?_)
  rintro x ⟨g, hg, hk, hx⟩
  rcases E.rep.tiles.mem_set.mp hg with rfl | ⟨hg, -⟩
  · exact ⟨⟨a, n, .work⟩, by simp, Or.inr rfl, hx⟩
  · exact ⟨g, hg, Or.inl hk, hx⟩

/-- Cutting a work span in two. -/
theorem cut (E : Edit s₀ s lo segs₀ (pre ++ ⟨a, n, .work⟩ :: post) lists) (hk : 0 < k)
    (hkn : k < n) :
    Edit s₀ s lo segs₀ (pre ++ ⟨a, k, .work⟩ :: ⟨a + k, n - k, .work⟩ :: post) lists := by
  refine E.step (E.rep.cut hk hkn) rfl ?_ ?_ fun _ _ => rfl
  · intro g hg ho
    have : g ≠ ⟨a, n, .work⟩ := by
      rintro rfl
      exact ho (Or.inr rfl)
    simp only [List.mem_append, List.mem_cons] at hg ⊢
    tauto
  · intro g hg hgap
    simp only [List.mem_append, List.mem_cons] at hg ⊢
    rcases hg with hg | rfl | rfl | hg
    · exact Or.inl hg
    · cases hgap
    · cases hgap
    · exact Or.inr (Or.inr hg)

/-- Joining two adjacent work spans. -/
theorem join {b : Nat} (E : Edit s₀ s lo segs₀ (pre ++ ⟨a, n, .work⟩ :: ⟨b, k, .work⟩ :: post) lists) :
    Edit s₀ s lo segs₀ (pre ++ ⟨a, n + k, .work⟩ :: post) lists := by
  refine E.step E.rep.join rfl ?_ ?_ fun _ _ => rfl
  · intro g hg ho
    simp only [List.mem_append, List.mem_cons] at hg ⊢
    rcases hg with hg | rfl | rfl | hg
    · exact Or.inl hg
    · exact absurd (Or.inr rfl) ho
    · exact absurd (Or.inr rfl) ho
    · exact Or.inr (Or.inr hg)
  · intro g hg hgap
    have : g ≠ ⟨a, n + k, .work⟩ := by
      rintro rfl
      cases hgap
    simp only [List.mem_append, List.mem_cons] at hg ⊢
    tauto

/-- A formed work span is handed out. -/
theorem close_used (E : Edit s₀ s lo segs₀ (pre ++ ⟨a, n, .work⟩ :: post) lists)
    (hF : Formed s.mem a n 0 0) : Edit s₀ s lo segs₀ (pre ++ ⟨a, n, .used⟩ :: post) lists := by
  obtain ⟨h1, h2⟩ := swap_mem pre post (k := ⟨a, n, .used⟩) (g := ⟨a, n, .work⟩) (Or.inr rfl)
    (by simp)
  exact E.step (E.rep.close_used hF) rfl h1 h2 fun _ _ => rfl

end Edit

end MemoryMonitor
