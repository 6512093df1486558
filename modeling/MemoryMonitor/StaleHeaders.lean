import MemoryMonitor.BlockOps

/-! # Stale headers

Blocks are merged, cut and handed out again, and the headers and footers of the blocks
that were there before stay in memory until something is stored over them.  `my_free`
and `my_realloc` are not fooled by what is left: in a heap whose payload bytes nobody
stores to, no header of a former block passes their checks.  `NoStale` says so: what
`LooksUsed` begins a block.

Everything the allocator stores has its place in the 16-byte granules of the heap.  The
first word of a granule is a canary, or a multiple of 16 (a block size, a list pointer,
a fresh zero), so that a former header whose `block_size` was stored over either lost
its own canary on the way, or now names a size beyond the heap.  And a footer is only
stored at the end of a block, with its size, so that it matches the header of that block
and no other.  Each store changes one granule (`NoStale.write`); the rest is arithmetic.
-/
namespace MemoryMonitor

open ByteMemory Tiling LinkedChain

/-- A header that the checks of `my_free` take for a block in use. -/
structure LooksUsed (m : Mem) (hi h : Nat) : Prop where
  magic : magicHeader m h = allocMagicHeader
  used : isFree m h = 0
  size_ge : 64 ≤ blockSize m h
  fits : h + blockSize m h ≤ hi
  footer_magic : magicFooter m (h + blockSize m h - 16) = allocMagicFooter
  footer_size : footerBlockSize m (h + blockSize m h - 16) = blockSize m h

/-- The first word of a granule: a multiple of 16, or one that begins with a canary. -/
def WordOk (m : Mem) (g : Nat) : Prop :=
  readLE m g 8 % 16 = 0 ∨ readLE m g 4 = allocMagicHeader ∨ readLE m g 4 = allocMagicFooter

/-- **No stale header looks used**: in the heap `[lo, hi)`, of less than 2 GiB, only the
blocks that begin in `T` do. -/
structure NoStale (m : Mem) (lo hi : Nat) (T : Set Nat) : Prop where
  small : hi < lo + 2 ^ 31
  words : ∀ g, g % 16 = 0 → lo ≤ g → g < hi → WordOk m g
  heads : ∀ h, h % 16 = 0 → lo ≤ h → LooksUsed m hi h → h ∈ T

/-! ## Words -/

section Words
variable {m m' : Mem} {g h : Nat}

theorem low_eq (m : Mem) (g : Nat) : readLE m g 4 = readLE m g 8 % 2 ^ 32 :=
  (readLE_mod m g 4 4).symm

/-- A multiple of 16 does not begin with a canary. -/
theorem not_magic_of_mod (h : readLE m g 8 % 16 = 0) :
    readLE m g 4 ≠ allocMagicHeader ∧ readLE m g 4 ≠ allocMagicFooter := by
  rw [low_eq]
  unfold allocMagicHeader allocMagicFooter
  omega

/-- A word that begins with a canary is a size beyond 2 GiB. -/
theorem large_of_magic (h : readLE m g 4 = allocMagicHeader ∨ readLE m g 4 = allocMagicFooter) :
    2 ^ 31 ≤ readLE m g 8 := by
  rw [low_eq] at h
  unfold allocMagicHeader allocMagicFooter at h
  omega

/-- Two granules are the same or apart. -/
theorem granule_eq (hg : g % 16 = 0) (hh : h % 16 = 0) (hne : h ≠ g) {k n : Nat} (hk : k + n ≤ 16)
    (hm : Set.EqOn m' m (range g 16)ᶜ) : readLE m' (h + k) n = readLE m (h + k) n := by
  refine readLE_of_eqOn hm fun x hx => ?_
  rw [mem_range] at hx
  rw [Set.mem_compl_iff, mem_range]
  omega

end Words

namespace NoStale
variable {m m' : Mem} {lo hi g p v : Nat} {T T' : Set Nat}

/-- What looks used has a size that is a multiple of 16. -/
theorem size_of_words (hsmall : hi < lo + 2 ^ 31)
    (hwords : ∀ g, g % 16 = 0 → lo ≤ g → g < hi → WordOk m g) {h : Nat} (h16 : h % 16 = 0)
    (hlo : lo ≤ h) (L : LooksUsed m hi h) : blockSize m h % 16 = 0 := by
  have hge := L.size_ge
  have hfits := L.fits
  rcases hwords (h + 16) (by omega) (by omega) (by omega) with hw | hw
  · exact hw
  · have hlarge := large_of_magic hw
    unfold blockSize at hfits
    omega

/-- **One granule is stored to.**  Its first word is a multiple of 16 or begins with a
canary; a header begins a block; a new size does not belong to a stale header; a new
footer belongs to a block. -/
theorem write (N : NoStale m lo hi T) (hg : g % 16 = 0) (hm : Set.EqOn m' m (range g 16)ᶜ)
    (hword : WordOk m' g) (hself : readLE m' g 4 = allocMagicHeader → g ∈ T)
    (hsize : readLE m' g 8 % 16 = 0 → ∀ h, h + 16 = g → h ∈ T ∨ magicHeader m h ≠ allocMagicHeader)
    (hfoot : readLE m' g 4 = allocMagicFooter → ∃ q ∈ T, q + footerBlockSize m' g = g + 16) :
    NoStale m' lo hi T := by
  have hwords : ∀ x, x % 16 = 0 → lo ≤ x → x < hi → WordOk m' x := by
    intro x hx h1 h2
    by_cases hxg : x = g
    · rw [hxg]
      exact hword
    · have h8 : readLE m' x 8 = readLE m x 8 := granule_eq (k := 0) hg hx hxg (by omega) hm
      have h4 : readLE m' x 4 = readLE m x 4 := granule_eq (k := 0) hg hx hxg (by omega) hm
      unfold WordOk
      rw [h8, h4]
      exact N.words x hx h1 h2
  refine ⟨N.small, hwords, fun h h16 hlo L => ?_⟩
  have hge := L.size_ge
  have hmod : blockSize m' h % 16 = 0 := size_of_words N.small hwords h16 hlo L
  by_cases h1 : h = g
  · -- its canary was stored
    rw [h1]
    exact hself (by rw [← h1]; exact L.magic)
  have hmagic : magicHeader m' h = magicHeader m h := granule_eq (k := 0) hg h16 h1 (by omega) hm
  have hused : isFree m' h = isFree m h := granule_eq hg h16 h1 (by omega) hm
  by_cases h2 : h + 16 = g
  · -- its size was stored
    refine (hsize (by rw [← h2]; exact hmod) h h2).resolve_right fun hno => hno ?_
    rw [← hmagic]
    exact L.magic
  have hsz : blockSize m' h = blockSize m h := granule_eq (k := 0) hg (by omega) h2 (by omega) hm
  by_cases h3 : h + blockSize m' h - 16 = g
  · -- its footer was stored, which is the footer of a block of that size
    obtain ⟨q, hq, hqg⟩ := hfoot (by rw [← h3]; exact L.footer_magic)
    have hfs := L.footer_size
    rw [h3] at hfs
    rw [hfs] at hqg
    obtain rfl : q = h := by omega
    exact hq
  have hfm := granule_eq (k := 0) hg (h := h + blockSize m' h - 16) (n := 4) (by omega) h3 (by omega) hm
  have hfs := granule_eq (k := 8) hg (h := h + blockSize m' h - 16) (n := 8) (by omega) h3 (by omega) hm
  refine N.heads h h16 hlo ⟨?_, ?_, ?_, ?_, ?_, ?_⟩
  · rw [← hmagic]
    exact L.magic
  · rw [← hused]
    exact L.used
  · rw [← hsz]
    exact hge
  · rw [← hsz]
    exact L.fits
  · rw [← hsz]
    exact hfm.symm.trans L.footer_magic
  · rw [← hsz]
    exact hfs.symm.trans L.footer_size

/-! ## The granules of a header, and a footer -/

/-- The first granule of a header: the canary, `is_free` and `requested_size`. -/
theorem canary (N : NoStale m lo hi T) (hp : p % 16 = 0) (hT : p ∈ T)
    (hm : Set.EqOn m' m (range p 16)ᶜ) (hmagic : magicHeader m' p = allocMagicHeader) :
    NoStale m' lo hi T := by
  refine N.write hp hm (Or.inr (Or.inl hmagic)) (fun _ => hT) (fun h0 => ?_) (fun h0 => ?_)
  · exact absurd hmagic (not_magic_of_mod h0).1
  · exact absurd (hmagic.symm.trans h0) (by decide)

/-- The second granule of a header: `block_size` and `is_mmap`. -/
theorem size (N : NoStale m lo hi T) (hp : p % 16 = 0) (hT : p ∈ T)
    (hm : Set.EqOn m' m (range (p + 16) 16)ᶜ) (h0 : blockSize m' p % 16 = 0) :
    NoStale m' lo hi T := by
  obtain ⟨h1, h2⟩ := not_magic_of_mod h0
  refine N.write (by omega) hm (Or.inl h0) (fun h => absurd h h1) (fun _ h hh => Or.inl ?_)
    (fun h => absurd h h2)
  obtain rfl : h = p := by omega
  exact hT

/-- The third granule of a header: the list pointers.  A header that began 16 bytes behind
this one lost its canary to the size of this one. -/
theorem links (N : NoStale m lo hi T) (hp : p % 16 = 0) (hs : blockSize m p % 16 = 0)
    (hm : Set.EqOn m' m (range (p + 32) 16)ᶜ) (h0 : next m' p % 16 = 0) : NoStale m' lo hi T := by
  obtain ⟨h1, h2⟩ := not_magic_of_mod h0
  refine N.write (by omega) hm (Or.inl h0) (fun h => absurd h h1) (fun _ h hh => Or.inr ?_)
    (fun h => absurd h h2)
  obtain rfl : h = p + 16 := by omega
  exact (not_magic_of_mod hs).1

/-- A footer at the end of a block. -/
theorem footer (N : NoStale m lo hi T) (hp : p % 16 = 0) (hT : p ∈ T) (hv : 16 ≤ v)
    (hv' : v < 2 ^ 64) (h16 : v % 16 = 0) : NoStale (putFooter m (p + v - 16) v) lo hi T := by
  have hmagic : readLE (putFooter m (p + v - 16) v) (p + v - 16) 4 = allocMagicFooter := by
    rw [putFooter, readLE_writeLE_disjoint (by omega)]
    exact readLE_writeLE_same (by decide)
  have hsize : footerBlockSize (putFooter m (p + v - 16) v) (p + v - 16) = v :=
    readLE_writeLE_same (by omega)
  refine N.write (g := p + v - 16) (by omega) (fun x hx => ?_) (Or.inr (Or.inr hmagic)) (fun h => ?_)
    (fun h => ?_) (fun _ => ⟨p, hT, ?_⟩)
  · rw [Set.mem_compl_iff, mem_range] at hx
    rw [putFooter, writeLE_of_disjoint (by omega), writeLE_of_disjoint (by omega)]
  · exact absurd (hmagic.symm.trans h) (by decide)
  · exact absurd hmagic (not_magic_of_mod h).2
  · rw [hsize]
    omega

/-! ## Blocks that come and go, and a heap that grows -/

theorem mono (N : NoStale m lo hi T) (h : T ⊆ T') : NoStale m lo hi T' :=
  ⟨N.small, N.words, fun x h16 hlo L => h (N.heads x h16 hlo L)⟩

/-- A block that no longer looks used need not begin a block. -/
theorem drop {b : Nat} (N : NoStale m lo hi T) (hb : ¬ LooksUsed m hi b) (h : ∀ x ∈ T, x = b ∨ x ∈ T') :
    NoStale m lo hi T' := by
  refine ⟨N.small, N.words, fun x h16 hlo L => (h x (N.heads x h16 hlo L)).resolve_left ?_⟩
  rintro rfl
  exact hb L

/-- **The heap grows by zero bytes.** -/
theorem extend {hi' : Nat} (N : NoStale m lo hi T) (h16 : hi % 16 = 0) (h16' : hi' % 16 = 0)
    (hle : hi ≤ hi') (hsmall : hi' < lo + 2 ^ 31) (hm : ∀ x, lo ≤ x → x < hi → m' x = m x)
    (hzero : ∀ x, hi ≤ x → x < hi' → m' x = 0) : NoStale m' lo hi' T := by
  have hold : ∀ {x k}, lo ≤ x → x + k ≤ hi → readLE m' x k = readLE m x k := fun h1 h2 =>
    readLE_congr fun y h3 h4 => hm y (by omega) (by omega)
  have hnew : ∀ {x k}, hi ≤ x → x + k ≤ hi' → readLE m' x k = 0 := fun h1 h2 =>
    readLE_eq_zero fun y h3 h4 => hzero y (by omega) (by omega)
  have hwords : ∀ g, g % 16 = 0 → lo ≤ g → g < hi' → WordOk m' g := by
    intro g hg h1 h2
    by_cases hgh : g < hi
    · unfold WordOk
      rw [hold h1 (by omega), hold h1 (by omega)]
      exact N.words g hg h1 hgh
    · exact Or.inl (by rw [hnew (by omega) (by omega)])
  refine ⟨hsmall, hwords, fun h hh16 hlo L => ?_⟩
  have hge := L.size_ge
  have hfits := L.fits
  have hmod : blockSize m' h % 16 = 0 := size_of_words hsmall hwords hh16 hlo L
  -- header and footer lie in the old part: there is no canary and no size in the new one
  have h1 : h < hi := by
    by_contra hno
    have := L.magic
    rw [magicHeader, hnew (by omega) (by omega)] at this
    cases this
  have h2 : h + 16 < hi := by
    by_contra hno
    have : blockSize m' h = 0 := hnew (by omega) (by omega)
    omega
  have hsz : blockSize m' h = blockSize m h := hold (by omega) (by omega)
  have h3 : h + blockSize m' h - 16 < hi := by
    by_contra hno
    have := L.footer_magic
    rw [magicFooter, hnew (by omega) (by omega)] at this
    cases this
  refine N.heads h hh16 hlo ⟨?_, ?_, by rw [← hsz]; exact hge, by rw [← hsz]; omega, ?_, ?_⟩
  · exact (hold hlo (by omega)).symm.trans L.magic
  · exact (hold (by omega) (by omega)).symm.trans L.used
  · rw [← hsz]
    exact (hold (by omega) (by omega)).symm.trans L.footer_magic
  · rw [← hsz]
    exact (hold (by omega) (by omega)).symm.trans L.footer_size

end NoStale

/-! ## What the operations store -/

/-- A store inside a granule. -/
theorem writeLE_granule (m : Mem) {g a n v : Nat} (h : g ≤ a) (h' : a + n ≤ g + 16) :
    Set.EqOn (writeLE m a n v) m (range g 16)ᶜ :=
  (writeLE_eqOn m a n v).mono (Set.compl_subset_compl.mpr (range_subset h h'))

/-- A header whose size and forward link are multiples of 16. -/
structure Plain (m : Mem) (x : Nat) : Prop where
  aligned : x % 16 = 0
  size : blockSize m x % 16 = 0
  link : next m x % 16 = 0

/-- The nodes of the free lists are plain. -/
theorem HeapRep.plain {s : State} {lo : Nat} {segs : List Seg} {lists : Fin 8 → List Nat}
    (H : HeapRep s lo segs lists) {i : Fin 8} {x : Nat} (hx : x ∈ lists i) : Plain s.mem x := by
  have hal : ∀ y ∈ lists i, y % 16 = 0 := by
    intro y hy
    obtain ⟨k, hk, -⟩ := H.node hy
    exact (H.free _ hk rfl).addr_aligned
  obtain ⟨k, hk, -⟩ := H.node hx
  have hF := H.free _ hk rfl
  refine ⟨hal x hx, by rw [hF.size_eq]; exact hF.size_aligned, ?_⟩
  by_cases h0 : next s.mem x = 0
  · rw [h0]
  · exact hal _ ((H.links hx).2.2 h0).1

namespace NoStale
variable {m : Mem} {s : State} {lo hi a v : Nat} {T : Set Nat}

/-- The stores of `free_list_insert`. -/
theorem linkBlock (N : NoStale s.mem lo hi T) (ha : a % 16 = 0) (hT : a ∈ T)
    (hmagic : magicHeader s.mem a = allocMagicHeader) (hs : blockSize s.mem a % 16 = 0)
    (hhead : s.heads (getSizeClassIndex (blockSize s.mem a)) ≠ 0 →
      Plain s.mem (s.heads (getSizeClassIndex (blockSize s.mem a))) ∧
      (s.heads (getSizeClassIndex (blockSize s.mem a)) + 48 ≤ a ∨
        a + 48 ≤ s.heads (getSizeClassIndex (blockSize s.mem a)))) :
    NoStale (linkBlock s a).mem lo hi T := by
  unfold MemoryMonitor.linkBlock
  simp only
  generalize s.heads (getSizeClassIndex (blockSize s.mem a)) = x at hhead ⊢
  have hx : x % 16 = 0 := by
    by_cases h0 : x = 0
    · rw [h0]
    · exact (hhead h0).1.aligned
  -- the links of the block
  have N₁ : NoStale (setPrev (setNext s.mem a x) a 0) lo hi T := by
    refine N.links ha hs (Set.EqOn.trans (writeLE_granule _ (by omega) (by omega))
      (writeLE_granule _ (by omega) (by omega))) ?_
    have : next (setPrev (setNext s.mem a x) a 0) a = x % 256 ^ 8 := by
      rw [next, setPrev, readLE_writeLE_disjoint (by omega)]
      exact (readLE_writeLE_part (i := 0) (by omega)).trans (by simp)
    rw [this]
    omega
  -- the back link of the old head
  have N₂ : NoStale (if x ≠ 0 then setPrev (setPrev (setNext s.mem a x) a 0) x a
      else setPrev (setNext s.mem a x) a 0) lo hi T := by
    split
    · rename_i h0
      obtain ⟨hpl, hap⟩ := hhead h0
      refine N₁.links hpl.aligned ?_ (writeLE_granule _ (by omega) (by omega)) ?_
      · have : blockSize (setPrev (setNext s.mem a x) a 0) x = blockSize s.mem x := by
          simp (disch := omega) only [blockSize, setPrev, setNext, readLE_writeLE_disjoint]
        rw [this]
        exact hpl.size
      · have : next (setPrev (setPrev (setNext s.mem a x) a 0) x a) x = next s.mem x := by
          simp (disch := omega) only [next, setPrev, setNext, readLE_writeLE_disjoint]
        rw [this]
        exact hpl.link
    · exact N₁
  refine N₂.canary ha hT (writeLE_granule _ (by omega) (by omega)) ?_
  rw [← hmagic]
  split
  · have hap := (hhead ‹_›).2
    simp (disch := omega) only [magicHeader, setIsFree, setPrev, setNext, readLE_writeLE_disjoint]
  · simp (disch := omega) only [magicHeader, setIsFree, setPrev, setNext, readLE_writeLE_disjoint]

/-- The stores of `free_list_remove`. -/
theorem unlinkBlock {segs : List Seg} {lists : Fin 8 → List Nat} {n : Nat}
    (N : NoStale s.mem lo hi T) (H : HeapRep s lo segs lists) (hg : (⟨a, n, .free⟩ : Seg) ∈ segs)
    (hT : a ∈ T) : NoStale (unlinkBlock s a).mem lo hi T := by
  have ha := (H.listed (getSizeClassIndex n) a).mpr ⟨_, hg, rfl, rfl, rfl⟩
  have hF : Formed s.mem a n 1 0 := H.free _ hg rfl
  obtain ⟨-, hpl, hql⟩ := H.links ha
  have hqlt : next s.mem a < 256 ^ 8 := readLE_lt _ _ _
  have hq16 := (H.plain ha).link
  rw [H.unlinkBlock_mem ha rfl rfl]
  generalize prev s.mem a = p at hpl ⊢
  generalize next s.mem a = q at hql hqlt hq16 ⊢
  generalize getSizeClassIndex n = i at ha hpl hql
  -- stores into links leave the rest of the headers of the nodes alone
  have hcore : ∀ {m' : Mem}, (∀ x, (∀ b ∈ lists i, x < b + 32 ∨ b + 48 ≤ x) → m' x = s.mem x) →
      ∀ b ∈ lists i, ∀ {k c}, k + c ≤ 32 → readLE m' (b + k) c = readLE s.mem (b + k) c := by
    intro m' hm b hb k c hk
    refine readLE_congr fun x h1 h2 => hm x fun y hy => ?_
    by_cases hyb : y = b
    · omega
    · have := H.node_apart hy hb hyb
      omega
  have hlink : ∀ {m' : Mem} {b k c w}, b ∈ lists i → 32 ≤ k → k + c ≤ 48 →
      (∀ x, (∀ b ∈ lists i, x < b + 32 ∨ b + 48 ≤ x) → m' x = s.mem x) →
      ∀ x, (∀ b ∈ lists i, x < b + 32 ∨ b + 48 ≤ x) → writeLE m' (b + k) c w x = s.mem x := by
    intro m' b k c w hb hk hc hm x hx
    rw [writeLE_of_disjoint (by have := hx b hb; omega)]
    exact hm x hx
  -- the forward link of the predecessor
  obtain ⟨m₁, hm₁, N₁, hF₁, hn₁⟩ : ∃ m₁, (if p ≠ 0 then setNext s.mem p q else s.mem) = m₁ ∧
      NoStale m₁ lo hi T ∧ (∀ x, (∀ b ∈ lists i, x < b + 32 ∨ b + 48 ≤ x) → m₁ x = s.mem x) ∧
      ∀ b ∈ lists i, next m₁ b % 16 = 0 := by
    by_cases hp : p = 0
    · exact ⟨s.mem, if_neg (not_not.mpr hp), N, fun _ _ => rfl, fun b hb => (H.plain hb).link⟩
    · have hpm := (hpl hp).1
      have hnext : next (setNext s.mem p q) p = q := readLE_writeLE_same hqlt
      refine ⟨_, if_pos hp, ?_, hlink hpm (by omega) (by omega) fun _ _ => rfl, fun b hb => ?_⟩
      · exact N.links (H.plain hpm).aligned (H.plain hpm).size (writeLE_granule _ (by omega) (by omega))
          (by rw [hnext]; exact hq16)
      · by_cases hbp : b = p
        · rw [hbp, hnext]
          exact hq16
        · have hap := H.node_apart hb hpm hbp
          rw [next, setNext, readLE_writeLE_disjoint (by omega)]
          exact (H.plain hb).link
  -- the back link of the successor
  obtain ⟨m₂, hm₂, N₂, hF₂⟩ : ∃ m₂, (if q ≠ 0 then setPrev m₁ q p else m₁) = m₂ ∧
      NoStale m₂ lo hi T ∧ ∀ x, (∀ b ∈ lists i, x < b + 32 ∨ b + 48 ≤ x) → m₂ x = s.mem x := by
    by_cases hq : q = 0
    · exact ⟨m₁, if_neg (not_not.mpr hq), N₁, hF₁⟩
    · have hqm := (hql hq).1
      refine ⟨_, if_pos hq, ?_, hlink hqm (by omega) (by omega) hF₁⟩
      refine N₁.links (H.plain hqm).aligned ?_ (writeLE_granule _ (by omega) (by omega)) ?_
      · rw [blockSize, hcore hF₁ q hqm (by omega)]
        exact (H.plain hqm).size
      · rw [next, setPrev, readLE_writeLE_disjoint (by omega)]
        exact hn₁ q hqm
  rw [hm₁, hm₂]
  -- the links and the flag of the block itself
  have N₃ : NoStale (setPrev (setNext m₂ a 0) a 0) lo hi T := by
    refine N₂.links hF.addr_aligned ?_ (Set.EqOn.trans (writeLE_granule _ (by omega) (by omega))
      (writeLE_granule _ (by omega) (by omega))) ?_
    · rw [blockSize, hcore hF₂ a ha (by omega)]
      exact (H.plain ha).size
    · rw [next, setPrev, readLE_writeLE_disjoint (by omega), setNext, readLE_writeLE_same (by decide)]
  refine N₃.canary hF.addr_aligned hT (writeLE_granule _ (by omega) (by omega)) ?_
  simp (disch := omega) only [magicHeader, setIsFree, setPrev, setNext, readLE_writeLE_disjoint]
  exact (hcore hF₂ a ha (k := 0) (by omega)).trans hF.magic

/-- A block that takes in what is behind it. -/
theorem growBlock {k : Nat} (N : NoStale s.mem lo hi T) (ha : a % 16 = 0) (hT : a ∈ T)
    (hsum : addSize (blockSize s.mem a) k = v) (hv : 16 ≤ v) (h16 : v % 16 = 0) :
    NoStale (growBlock s a k).mem lo hi T := by
  have hlt : v < 2 ^ 64 := by
    rw [← hsum]
    exact Nat.mod_lt _ (by decide)
  have hsize : blockSize (setBlockSize s.mem a v) a = v := readLE_writeLE_same (by omega)
  rw [growBlock_eq hsum]
  refine NoStale.footer (N.size ha hT (writeLE_granule _ (by omega) (by omega)) ?_) ha hT hv hlt h16
  rw [hsize]
  exact h16

/-- A block that is handed out. -/
theorem handOut {size : Nat} (N : NoStale s.mem lo hi T) (hT : a ∈ T) (hH : Headed s.mem a v 0) :
    NoStale (handOut s a size).mem lo hi T := by
  have hge := hH.size_ge
  have hsize : blockSize (setRequestedSize (setIsFree s.mem a 0) a size) a = v := by
    rw [← hH.size_eq]
    simp (disch := omega) only [blockSize, setRequestedSize, setIsFree, readLE_writeLE_disjoint]
  unfold MemoryMonitor.handOut
  simp only [hsize]
  refine NoStale.footer (N.canary hH.addr_aligned hT (Set.EqOn.trans
    (writeLE_granule _ (by omega) (by omega)) (writeLE_granule _ (by omega) (by omega))) ?_)
    hH.addr_aligned hT (by omega) hH.size_lt hH.size_aligned
  rw [← hH.magic]
  simp (disch := omega) only [magicHeader, setRequestedSize, setIsFree, readLE_writeLE_disjoint]

/-- The canary and the size of a new header. -/
theorem newHeader (N : NoStale m lo hi T) (ha : a % 16 = 0) (hT : a ∈ T) (h16 : v % 16 = 0) :
    NoStale (setBlockSize (setMagicHeader m a allocMagicHeader) a v) lo hi T := by
  have N₁ : NoStale (setMagicHeader m a allocMagicHeader) lo hi T :=
    N.canary ha hT (writeLE_granule _ (by omega) (by omega)) (readLE_writeLE_same (by decide))
  refine N₁.size ha hT (writeLE_granule _ (by omega) (by omega)) ?_
  have : blockSize (setBlockSize (setMagicHeader m a allocMagicHeader) a v) a = v % 256 ^ 8 :=
    (readLE_writeLE_part (i := 0) (by omega)).trans (by simp)
  rw [this]
  omega

/-- The rest of a new header: not mapped, and on no list. -/
theorem newLinks (N : NoStale m lo hi T) (ha : a % 16 = 0) (hT : a ∈ T)
    (hs : blockSize m a % 16 = 0) :
    NoStale (setPrev (setNext (setIsMmap m a 0) a 0) a 0) lo hi T := by
  have hsize : blockSize (setIsMmap m a 0) a = blockSize m a := readLE_writeLE_disjoint (by omega)
  have N₁ : NoStale (setIsMmap m a 0) lo hi T :=
    N.size ha hT (writeLE_granule _ (by omega) (by omega)) (by rw [hsize]; exact hs)
  refine N₁.links ha (by rw [hsize]; exact hs) (Set.EqOn.trans
    (writeLE_granule _ (by omega) (by omega)) (writeLE_granule _ (by omega) (by omega))) ?_
  rw [next, setPrev, readLE_writeLE_disjoint (by omega), setNext, readLE_writeLE_same (by decide)]

/-- The header and the footer of a block that is cut off. -/
theorem remainder (N : NoStale m lo hi T) (ha : a % 16 = 0) (hT : a ∈ T) (hv : 16 ≤ v)
    (hv' : v < 2 ^ 64) (h16 : v % 16 = 0) :
    NoStale (putFooter (putRemainderHeader m a v) (a + v - 16) v) lo hi T := by
  have N₁ := N.newHeader ha hT h16
  have N₂ : NoStale (setIsFree (setBlockSize (setMagicHeader m a allocMagicHeader) a v) a 1) lo hi T := by
    refine N₁.canary ha hT (writeLE_granule _ (by omega) (by omega)) ?_
    simp (disch := omega) only [magicHeader, setIsFree, setBlockSize, setMagicHeader,
      readLE_writeLE_disjoint]
    exact readLE_writeLE_same (by decide)
  refine NoStale.footer (N₂.newLinks ha hT ?_) ha hT hv hv' h16
  have : blockSize (setIsFree (setBlockSize (setMagicHeader m a allocMagicHeader) a v) a 1) a = v := by
    rw [blockSize, setIsFree, readLE_writeLE_disjoint (by omega)]
    exact readLE_writeLE_same (by omega)
  rw [this]
  exact h16

end NoStale

/-! ## The blocks of the heap -/

/-- Where the spans begin. -/
def starts (segs : List Seg) : Set Nat := {x | x ∈ segs.map Span.addr}

section Starts
variable {pre post : List Seg} {a n k b : Nat} {c d : Kind}

@[simp] theorem mem_starts {segs : List Seg} {x : Nat} : x ∈ starts segs ↔ ∃ g ∈ segs, g.addr = x :=
  List.mem_map

/-- The size and the kind of a span do not matter. -/
theorem starts_congr : starts (pre ++ ⟨a, n, c⟩ :: post) = starts (pre ++ ⟨a, k, d⟩ :: post) := by
  simp [starts]

theorem mem_starts_mid : a ∈ starts (pre ++ ⟨a, n, c⟩ :: post) := by
  simp [starts]

end Starts

namespace NoStale
variable {s s' : State} {lo hi a n k f f' : Nat} {pre post : List Seg} {lists : Fin 8 → List Nat}

/-- **`free_list_remove`** leaves no stale header. -/
theorem remove (N : NoStale s.mem lo hi (starts (pre ++ ⟨a, n, .free⟩ :: post)))
    (H : HeapRep s lo (pre ++ ⟨a, n, .free⟩ :: post) lists) (hr : freeListRemove s a = .ok s') :
    NoStale s'.mem lo hi (starts (pre ++ ⟨a, n, .work⟩ :: post)) := by
  have hg : (⟨a, n, .free⟩ : Seg) ∈ pre ++ ⟨a, n, .free⟩ :: post := by simp
  rw [H.freeListRemove_eq hg] at hr
  obtain rfl := Except.ok.inj hr
  rw [starts_congr (k := n) (d := .free)]
  exact N.unlinkBlock H hg mem_starts_mid

/-- **`free_list_insert`** leaves no stale header. -/
theorem insert (N : NoStale s.mem lo hi (starts (pre ++ ⟨a, n, .work⟩ :: post)))
    (H : HeapRep s lo (pre ++ ⟨a, n, .work⟩ :: post) lists) (hF : Formed s.mem a n f 0)
    (hr : freeListInsert s a = .ok s') :
    NoStale s'.mem lo hi (starts (pre ++ ⟨a, n, .free⟩ :: post)) := by
  have hg : (⟨a, n, .work⟩ : Seg) ∈ pre ++ ⟨a, n, .work⟩ :: post := by simp
  have hge := hF.size_ge
  rw [H.freeListInsert_eq hg hF] at hr
  obtain rfl := Except.ok.inj hr
  rw [starts_congr (k := n) (d := .work)]
  refine N.linkBlock hF.addr_aligned mem_starts_mid hF.magic ?_ fun h0 => ?_
  · rw [hF.size_eq]
    exact hF.size_aligned
  · have hx := (H.head_cases _).resolve_left h0
    have hap := H.node_apart_work hx hg
    exact ⟨H.plain hx, by omega⟩

/-- **A block takes in the one behind it.**  The header of that one is stale now: its
footer holds the size of both. -/
theorem absorb (N : NoStale s.mem lo hi (starts (pre ++ ⟨a, n, .work⟩ :: ⟨a + n, k, .work⟩ :: post)))
    (H : HeapRep s lo (pre ++ ⟨a, n, .work⟩ :: ⟨a + n, k, .work⟩ :: post) lists)
    (hF : Formed s.mem a n f 0) (hk : Formed s.mem (a + n) k f' 0) :
    NoStale (MemoryMonitor.growBlock s a k).mem lo hi (starts (pre ++ ⟨a, n + k, .work⟩ :: post)) := by
  have hn := hF.size_ge
  have hn' := hk.size_ge
  have h16 := hF.size_aligned
  have h16' := hk.size_aligned
  have hlt := H.join.seg_lt (g := ⟨a, n + k, .work⟩) (by simp)
  simp only at hlt
  have hsum : addSize (blockSize s.mem a) k = n + k := by
    rw [hF.size_eq]
    exact addSize_of_lt (by omega)
  refine (N.growBlock hF.addr_aligned mem_starts_mid hsum (by omega) (by omega)).drop (b := a + n)
    (fun L => ?_) (fun x hx => ?_)
  · rw [growBlock_eq hsum] at L
    have hbs : blockSize (putFooter (setBlockSize s.mem a (n + k)) (a + (n + k) - 16) (n + k)) (a + n) =
        k := by
      refine Eq.trans ?_ hk.size_eq
      simp (disch := omega) only [blockSize, putFooter, setBlockSize, readLE_writeLE_disjoint]
    have hfs : footerBlockSize (putFooter (setBlockSize s.mem a (n + k)) (a + (n + k) - 16) (n + k))
        (a + n + k - 16) = n + k := by
      rw [show a + n + k - 16 = a + (n + k) - 16 by omega]
      exact readLE_writeLE_same (by omega)
    have := L.footer_size
    rw [hbs, hfs] at this
    omega
  · simp only [mem_starts, List.mem_append, List.mem_cons] at hx ⊢
    grind

/-- Forward coalescing. -/
theorem coalesceNext {s₀ s₁ : State} {segs₀ : List Seg}
    (N : NoStale s.mem lo hi (starts (pre ++ ⟨a, n, .work⟩ :: ⟨a + n, k, .free⟩ :: post)))
    (E : Edit s₀ s lo segs₀ (pre ++ ⟨a, n, .work⟩ :: ⟨a + n, k, .free⟩ :: post) lists)
    (hF : Formed s.mem a n f 0) (hr : freeListRemove s (a + n) = .ok s₁) :
    NoStale (MemoryMonitor.growBlock s₁ a k).mem lo hi (starts (pre ++ ⟨a, n + k, .work⟩ :: post)) := by
  rw [List.append_cons] at N E
  obtain ⟨s₁', lists₁, hr', E₁, hk, hw⟩ := E.remove
  obtain rfl := Except.ok.inj (hr'.symm.trans hr)
  have N₁ := N.remove E.rep hr
  have hF₁ : Formed s₁'.mem a n f 0 :=
    hF.congr ((hw ⟨a, n, .work⟩ (by simp) rfl).mono (core_subset hF.size_ge))
  rw [List.append_assoc] at N₁ E₁
  exact N₁.absorb E₁.rep hF₁ hk

/-- Backward coalescing. -/
theorem coalescePrev {s₀ s₁ : State} {segs₀ : List Seg}
    (N : NoStale s.mem lo hi (starts (pre ++ ⟨a, k, .free⟩ :: ⟨a + k, n, .work⟩ :: post)))
    (E : Edit s₀ s lo segs₀ (pre ++ ⟨a, k, .free⟩ :: ⟨a + k, n, .work⟩ :: post) lists)
    (hF : Formed s.mem (a + k) n f 0) (hr : freeListRemove s a = .ok s₁) :
    NoStale (MemoryMonitor.growBlock s₁ a n).mem lo hi (starts (pre ++ ⟨a, k + n, .work⟩ :: post)) := by
  obtain ⟨s₁', lists₁, hr', E₁, hk, hw⟩ := E.remove
  obtain rfl := Except.ok.inj (hr'.symm.trans hr)
  have hF₁ : Formed s₁'.mem (a + k) n f 0 :=
    hF.congr ((hw ⟨a + k, n, .work⟩ (by simp) rfl).mono (core_subset hF.size_ge))
  exact (N.remove E.rep hr).absorb E₁.rep hk hF₁

/-- The split in `my_malloc`. -/
theorem splitFound {s₀ : State} {segs₀ : List Seg} {total : Nat}
    (N : NoStale s.mem lo hi (starts (pre ++ ⟨a, n, .work⟩ :: post)))
    (E : Edit s₀ s lo segs₀ (pre ++ ⟨a, n, .work⟩ :: post) lists) (hF : Formed s.mem a n f 0)
    (h80 : 80 ≤ total) (hroom : total + 80 ≤ n) (h16 : total % 16 = 0)
    (hr : splitFound s a total = .ok s') :
    NoStale s'.mem lo hi
      (starts (pre ++ ⟨a, total, .work⟩ :: ⟨a + total, n - total, .free⟩ :: post)) := by
  have hlt := E.rep.seg_lt (g := ⟨a, n, .work⟩) (by simp)
  have h1 := hF.size_aligned
  have h2 := hF.addr_aligned
  have hsum : addSize total 80 = total + 80 :=
    E.rep.addSize_split (g := ⟨a, n, .work⟩) (by simp) (by simp only; omega)
  simp only at hlt
  unfold MemoryMonitor.splitFound at hr
  rw [hF.size_eq, hsum, if_pos hroom] at hr
  simp only at hr
  -- the block shrinks, and what is cut off becomes a block
  have N₁ : NoStale (setBlockSize s.mem a total) lo hi (starts (pre ++ ⟨a, n, .work⟩ :: post)) := by
    have hsize : blockSize (setBlockSize s.mem a total) a = total := readLE_writeLE_same (by omega)
    refine N.size h2 mem_starts_mid (writeLE_granule _ (by omega) (by omega)) ?_
    rw [hsize]
    exact h16
  have hmore : starts (pre ++ ⟨a, n, .work⟩ :: post) ⊆
      starts (pre ++ ⟨a, total, .work⟩ :: ⟨a + total, n - total, .work⟩ :: post) := by
    intro x hx
    simp only [mem_starts, List.mem_append, List.mem_cons] at hx ⊢
    grind
  have hnew : a + total ∈
      starts (pre ++ ⟨a, total, .work⟩ :: ⟨a + total, n - total, .work⟩ :: post) := by
    rw [List.append_cons]
    exact mem_starts_mid
  have N₂ := (N₁.mono hmore).remainder (v := n - total) (by omega) hnew (by omega) (by omega)
    (by omega)
  have E₁ := E.cut (k := total) (by omega) (by omega)
  have E₂ := E₁.write_span (a := a) (n := total) (w := setBlockSize s.mem a total) (by simp)
    ((writeLE_eqOn ..).mono (Set.compl_subset_compl.mpr (range_subset (by omega) (by omega))))
  have E₃ := E₂.write_span (a := a + total) (n := n - total) (by simp)
    (remainder_eqOn (setBlockSize s.mem a total) (a + total) (by omega))
  have hR := formed_remainder (m := setBlockSize s.mem a total) (a := a + total) (n := n - total)
    (by omega) (by omega) (by omega) (by omega)
  rw [List.append_cons] at N₂ E₃ ⊢
  exact N₂.insert E₃.rep hR hr

end NoStale

end MemoryMonitor
