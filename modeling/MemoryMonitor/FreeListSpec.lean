import MemoryMonitor.HeapRep
import Mathlib.Data.List.Perm.Subperm

/-! # What the free-list functions do to the heap

One theorem for each function of `free_list.c`, in terms of `HeapRep`: unlinking a
free block makes it a work span, linking a formed work span in makes it a free
block, and the search either finds nothing or unlinks a free block that is large
enough.  Each theorem also says which bytes may have changed.
-/
namespace MemoryMonitor

open ByteMemory Tiling LinkedChain

namespace HeapRep

variable {s : State} {lo : Nat} {segs pre post : List Seg} {lists : Fin 8 → List Nat}
variable {a n f : Nat}

/-! ## `free_list_remove` -/

/-- The links around a listed node, as the checks of `free_list_remove` read them. -/
theorem links (H : HeapRep s lo segs lists) {i : Fin 8} (ha : a ∈ lists i) :
    (prev s.mem a = 0 → s.heads i = a) ∧
    (prev s.mem a ≠ 0 → prev s.mem a ∈ lists i ∧ prev s.mem a ≠ a ∧ next s.mem (prev s.mem a) = a) ∧
    (next s.mem a ≠ 0 → next s.mem a ∈ lists i ∧ next s.mem a ≠ a ∧ prev s.mem (next s.mem a) = a) := by
  obtain ⟨l₁, l₂, hl⟩ := List.append_of_mem ha
  have hc := H.chain i
  have hd := H.nodup i
  rw [hl] at hc hd
  have hne := hc.ne_null
  have hp := hc.prev_eq
  refine ⟨?_, ?_, ?_⟩
  · intro h0
    cases l₁ with
    | nil => exact hc.1
    | cons c l₁ =>
      rw [List.getLastD_cons] at hp
      have hm : l₁.getLastD c ∈ c :: l₁ := List.getLastD_mem_cons ..
      exact absurd (hp.symm.trans h0) (hne _ (List.mem_append_left _ hm))
  · intro h0
    rcases List.eq_nil_or_concat l₁ with rfl | ⟨l₁, c, rfl⟩
    · exact absurd hp h0
    · have hpc : prev s.mem a = c := by rw [hp]; simp
      rw [hpc]
      have hca : c ≠ a := by
        rintro rfl
        simp only [List.concat_eq_append] at hd
        exact (List.nodup_append.mp hd).2.2 c (by simp) c (by simp) rfl
      refine ⟨by rw [hl]; simp, hca, ?_⟩
      rw [List.concat_eq_append, List.append_assoc] at hc
      exact hc.next_eq
  · intro h0
    have ht := hc.tail
    cases l₂ with
    | nil => exact absurd ht h0
    | cons b l₂ =>
      rw [show next s.mem a = b from ht.1]
      have hba : b ≠ a := by
        rintro rfl
        exact (List.nodup_cons.mp (List.nodup_append.mp hd).2.1).1 (by simp)
      exact ⟨by rw [hl]; simp, hba, ht.2.2.1⟩

/-- The stores of `free_list_remove`, with the links of the block as read at the
start: redirecting the predecessor does not change the links of the block. -/
theorem unlinkBlock_mem (H : HeapRep s lo segs lists) {i : Fin 8} (ha : a ∈ lists i) {p q : Nat}
    (hp : prev s.mem a = p) (hq : next s.mem a = q) :
    (unlinkBlock s a).mem =
      setIsFree (setPrev (setNext
        (if q ≠ 0 then setPrev (if p ≠ 0 then setNext s.mem p q else s.mem) q p
          else if p ≠ 0 then setNext s.mem p q else s.mem) a 0) a 0) a 0 := by
  have hkeep : next (if p ≠ 0 then setNext s.mem p q else s.mem) a = q ∧
      prev (if p ≠ 0 then setNext s.mem p q else s.mem) a = p := by
    by_cases h : p = 0
    · rw [if_neg (not_not.mpr h)]
      exact ⟨hq, hp⟩
    · rw [if_pos h]
      subst hp
      obtain ⟨hpm, hpa, -⟩ := (H.links ha).2.1 h
      have hap := H.node_apart hpm ha hpa
      exact ⟨(readLE_writeLE_disjoint (by omega)).trans hq,
        readLE_writeLE_disjoint (by omega)⟩
  simp only [unlinkBlock, hp, hq, hkeep]

/-- What the stores of `free_list_remove` do to the links of the other nodes. -/
theorem unlink_links (H : HeapRep s lo segs lists) {i : Fin 8} (ha : a ∈ lists i) {j : Fin 8}
    {x : Nat} (hx : x ∈ lists j) (hxa : x ≠ a) :
    next (unlinkBlock s a).mem x = (if x = prev s.mem a then next s.mem a else next s.mem x) ∧
    prev (unlinkBlock s a).mem x = (if x = next s.mem a then prev s.mem a else prev s.mem x) := by
  obtain ⟨-, hpl, hql⟩ := H.links ha
  rw [H.unlinkBlock_mem ha rfl rfl]
  have hplt : prev s.mem a < 256 ^ 8 := readLE_lt _ _ _
  have hqlt : next s.mem a < 256 ^ 8 := readLE_lt _ _ _
  generalize prev s.mem a = p at hpl hplt ⊢
  generalize next s.mem a = q at hql hqlt ⊢
  have hxnull : x ≠ 0 := (H.chain j).ne_null x hx
  have hxapart := H.node_apart hx ha hxa
  have hpx : p ≠ 0 → x ≠ p → p + 80 ≤ x ∨ x + 80 ≤ p := fun h h' =>
    H.node_apart (hpl h).1 hx (Ne.symm h')
  have hqx : q ≠ 0 → x ≠ q → q + 80 ≤ x ∨ x + 80 ≤ q := fun h h' =>
    H.node_apart (hql h).1 hx (Ne.symm h')
  simp only [next, prev, setIsFree, setPrev, setNext]
  rw [readLE_writeLE_disjoint (by omega), readLE_writeLE_disjoint (by omega),
    readLE_writeLE_disjoint (by omega), readLE_writeLE_disjoint (by omega),
    readLE_writeLE_disjoint (by omega), readLE_writeLE_disjoint (by omega)]
  -- the two redirecting stores, one at `p` and one at `q`
  constructor
  · have hback : readLE (if q ≠ 0 then writeLE (if p ≠ 0 then writeLE s.mem (p + 32) 8 q
        else s.mem) (q + 40) 8 p else if p ≠ 0 then writeLE s.mem (p + 32) 8 q else s.mem)
        (x + 32) 8 = readLE (if p ≠ 0 then writeLE s.mem (p + 32) 8 q else s.mem) (x + 32) 8 := by
      by_cases hq : q = 0
      · rw [if_neg (not_not.mpr hq)]
      · rw [if_pos hq]
        refine readLE_writeLE_disjoint ?_
        by_cases hxq : x = q
        · omega
        · have := hqx hq hxq
          omega
    rw [hback]
    by_cases hxp : x = p
    · rw [if_pos hxp, if_pos (hxp ▸ hxnull), hxp]
      exact readLE_writeLE_same hqlt
    · rw [if_neg hxp]
      by_cases hp : p = 0
      · rw [if_neg (not_not.mpr hp)]
      · rw [if_pos hp]
        exact readLE_writeLE_disjoint (by have := hpx hp hxp; omega)
  · have hforth : readLE (if p ≠ 0 then writeLE s.mem (p + 32) 8 q else s.mem) (x + 40) 8 =
        readLE s.mem (x + 40) 8 := by
      by_cases hp : p = 0
      · rw [if_neg (not_not.mpr hp)]
      · rw [if_pos hp]
        refine readLE_writeLE_disjoint ?_
        by_cases hxp : x = p
        · omega
        · have := hpx hp hxp
          omega
    by_cases hxq : x = q
    · rw [if_pos hxq, if_pos (hxq ▸ hxnull), hxq]
      exact readLE_writeLE_same hplt
    · rw [if_neg hxq]
      by_cases hq : q = 0
      · rw [if_neg (not_not.mpr hq)]
        exact hforth
      · rw [if_pos hq, readLE_writeLE_disjoint (by have := hqx hq hxq; omega)]
        exact hforth

/-- The stores of `free_list_remove` change nothing but links of listed nodes, and
the `is_free` word of the block. -/
theorem unlink_eq (H : HeapRep s lo segs lists) {i : Fin 8} (ha : a ∈ lists i) {x : Nat}
    (hx : ∀ b ∈ lists i, x < b + 32 ∨ b + 48 ≤ x) (hxf : x < a + 4 ∨ a + 8 ≤ x) :
    (unlinkBlock s a).mem x = s.mem x := by
  obtain ⟨-, hpl, hql⟩ := H.links ha
  rw [H.unlinkBlock_mem ha rfl rfl]
  have hxa := hx a ha
  generalize prev s.mem a = p at hpl ⊢
  generalize next s.mem a = q at hql ⊢
  simp only [setIsFree, setPrev, setNext]
  rw [writeLE_of_disjoint (by omega), writeLE_of_disjoint (by omega),
    writeLE_of_disjoint (by omega)]
  have hforth : (if p ≠ 0 then writeLE s.mem (p + 32) 8 q else s.mem) x = s.mem x := by
    by_cases hp : p = 0
    · rw [if_neg (not_not.mpr hp)]
    · rw [if_pos hp]
      exact writeLE_of_disjoint (by have := hx p (hpl hp).1; omega)
  by_cases hq : q = 0
  · rw [if_neg (not_not.mpr hq)]
    exact hforth
  · rw [if_pos hq, writeLE_of_disjoint (by have := hx q (hql hq).1; omega)]
    exact hforth

/-- The list of the block, without it. -/
theorem unlink_chain (H : HeapRep s lo segs lists) {i : Fin 8} (ha : a ∈ lists i)
    (hi : getSizeClassIndex (blockSize s.mem a) = i) :
    Chain 0 (next (unlinkBlock s a).mem) (prev (unlinkBlock s a).mem) 0
      ((unlinkBlock s a).heads i) ((lists i).erase a) := by
  obtain ⟨l₁, l₂, hl⟩ := List.append_of_mem ha
  have hc := H.chain i
  have hd := H.nodup i
  have hmem : ∀ x ∈ l₁ ++ l₂, x ∈ lists i ∧ x ≠ a := by
    intro x hx
    rw [hl] at hd ⊢
    have hx' : x ∈ l₁ ++ a :: l₂ := by
      simp only [List.mem_append, List.mem_cons] at hx ⊢
      tauto
    refine ⟨hx', ?_⟩
    rintro rfl
    exact (List.nodup_middle.mp hd).notMem hx
  have hal₁ : a ∉ l₁ := fun h => (hmem a (List.mem_append_left _ h)).2 rfl
  have herase : (lists i).erase a = l₁ ++ l₂ := by
    rw [hl, List.erase_append_right _ hal₁, List.erase_cons_head]
  rw [hl] at hc hd
  have h0 : (0 : Nat) ∉ l₁ ++ a :: l₂ := fun h => hc.ne_null 0 h rfl
  have hun : Chain 0 (next (unlinkBlock s a).mem) (prev (unlinkBlock s a).mem) 0
      (if l₁ = [] then next s.mem a else s.heads i) (l₁ ++ l₂) :=
    hc.unlink (List.nodup_cons.mpr ⟨h0, hd⟩)
      (fun x hx => (H.unlink_links ha (hmem x hx).1 (hmem x hx).2).1)
      (fun x hx => (H.unlink_links ha (hmem x hx).1 (hmem x hx).2).2)
  rw [herase]
  -- the head moves exactly when the block was first
  have hp := hc.prev_eq
  have hhead : (unlinkBlock s a).heads i = if l₁ = [] then next s.mem a else s.heads i := by
    simp only [unlinkBlock, hi]
    cases l₁ with
    | nil =>
      rw [if_neg (not_not.mpr (show prev s.mem a = 0 from hp)), if_pos rfl, Function.update_self]
    | cons c l₁ =>
      rw [List.getLastD_cons] at hp
      have hlast : l₁.getLastD c ≠ 0 :=
        hc.ne_null _ (List.mem_append_left _ (List.getLastD_mem_cons ..))
      rw [if_pos (by rw [hp]; exact hlast), if_neg (by simp)]
  rw [hhead]
  exact hun

/-- All the checks of `free_list_remove` pass on a listed block. -/
theorem freeListRemove_eq (H : HeapRep s lo segs lists) (hg : (⟨a, n, .free⟩ : Seg) ∈ segs) :
    freeListRemove s a = .ok (unlinkBlock s a) := by
  have hF := H.free _ hg rfl
  have hb := H.tiles.bounds hg
  have hlo := H.lo_pos
  have ha := (H.listed (getSizeClassIndex n) a).mpr ⟨_, hg, rfl, rfl, rfl⟩
  obtain ⟨hhead, hprev, hnext⟩ := H.links ha
  have hge := hF.size_ge
  have hsz := hF.size_eq
  simp only at hF hb hge hsz
  have hacc : ∀ {b k}, a ≤ b → b + k ≤ a + n → s.Accessible b k := fun h1 h2 =>
    H.accessible hg h1 h2
  have hnode : ∀ {x off k}, x ∈ lists (getSizeClassIndex n) → off + k ≤ 80 →
      s.Accessible (x + off) k := by
    intro x off k hx hk
    obtain ⟨m, hm, -⟩ := H.node hx
    have := (H.free _ hm rfl).size_ge
    simp only at this
    exact H.accessible hm (by simp) (by simp only; omega)
  refine freeListRemove_ok_iff.mpr (Or.inr ⟨?_, rfl⟩)
  unfold State.Unlinkable
  rw [hsz]
  exact {
    nonnull := by omega
    header := hacc (by omega) (by omega)
    size := by omega
    free := by rw [hF.free_eq]; decide
    bound := fun _ => by omega
    links := hacc (by omega) (by omega)
    head_eq := hhead
    prev_acc := fun h => hnode (hprev h).1 (by omega)
    prev_next := fun h => (hprev h).2.2
    next_acc := fun h => hnode (hnext h).1 (by omega)
    next_prev := fun h => (hnext h).2.2
    footer_acc := hacc (by omega) (by omega)
    footer_eq := ⟨hF.footer_magic, by rw [hsz]; exact hF.footer_size⟩ }

/-- A listed block's own core changes in the `is_free` word only. -/
theorem unlink_formed (H : HeapRep s lo segs lists) (hg : (⟨a, n, .free⟩ : Seg) ∈ segs) :
    Formed (unlinkBlock s a).mem a n 0 0 := by
  have hF := H.free _ hg rfl
  have hge := hF.size_ge
  simp only at hF hge
  have ha := (H.listed (getSizeClassIndex n) a).mpr ⟨_, hg, rfl, rfl, rfl⟩
  have hkeep : ∀ {b c}, (a + 8 ≤ b ∧ b + c ≤ a + 28 ∨ a ≤ b ∧ b + c ≤ a + 4 ∨
      a + n - 16 ≤ b ∧ b + c ≤ a + n - 16 + 16) →
      readLE (unlinkBlock s a).mem b c = readLE s.mem b c := by
    intro b c h
    refine readLE_congr fun x h1 h2 => H.unlink_eq ha (fun y hy => ?_) (by omega)
    by_contra hcon
    refine H.link_not_mem_core hy hg hge (by omega) (by omega) (x := x) ?_
    simp only [core, Set.mem_union, mem_range]
    omega
  refine
    { hF with
      magic := (hkeep (by omega)).trans hF.magic
      free_eq := ?_
      size_eq := (hkeep (by omega)).trans hF.size_eq
      mmap_eq := (hkeep (by omega)).trans hF.mmap_eq
      footer_magic := (hkeep (by omega)).trans hF.footer_magic
      footer_size := (hkeep (by omega)).trans hF.footer_size }
  rw [H.unlinkBlock_mem ha rfl rfl]
  exact readLE_writeLE_same (by decide)

/-- The cores of the other blocks do not change. -/
theorem unlink_core (H : HeapRep s lo segs lists) (hg : (⟨a, n, .free⟩ : Seg) ∈ segs) {g : Seg}
    (hgm : g ∈ segs) (hne : g.addr ≠ a) (h80 : 80 ≤ g.size) :
    Set.EqOn (unlinkBlock s a).mem s.mem (core g.addr g.size) := by
  have ha := (H.listed (getSizeClassIndex n) a).mpr ⟨_, hg, rfl, rfl, rfl⟩
  have hge := (H.free _ hg rfl).size_ge
  intro x hx
  refine H.unlink_eq ha (fun b hb => ?_) ?_
  · by_contra hcon
    exact H.link_not_mem_core hb hgm h80 (by omega) (by omega) hx
  · have hap := H.tiles.apart hgm hg (fun he => hne (congrArg Span.addr he))
    have hxr := mem_range.mp (core_subset h80 hx)
    simp only at hap hge
    omega

/-- What may change lies in free blocks. -/
theorem unlink_eqOn (H : HeapRep s lo segs lists) (hg : (⟨a, n, .free⟩ : Seg) ∈ segs) :
    Set.EqOn (unlinkBlock s a).mem s.mem (area (· = .free) segs)ᶜ := by
  have ha := (H.listed (getSizeClassIndex n) a).mpr ⟨_, hg, rfl, rfl, rfl⟩
  have hge := (H.free _ hg rfl).size_ge
  intro x hx
  refine H.unlink_eq ha (fun b hb => ?_) ?_
  · obtain ⟨k, hk, -⟩ := H.node hb
    have hk80 := (H.free _ hk rfl).size_ge
    simp only at hk80
    by_contra hcon
    exact hx ⟨_, hk, rfl, by rw [Span.mem_bytes]; simp only; omega⟩
  · simp only at hge
    by_contra hcon
    exact hx ⟨_, hg, rfl, by rw [Span.mem_bytes]; simp only; omega⟩

/-- The other lists keep their links and heads. -/
theorem unlink_chain_other (H : HeapRep s lo segs lists) (hg : (⟨a, n, .free⟩ : Seg) ∈ segs)
    {j : Fin 8} (hj : j ≠ getSizeClassIndex n) :
    Chain 0 (next (unlinkBlock s a).mem) (prev (unlinkBlock s a).mem) 0
      ((unlinkBlock s a).heads j) (lists j) := by
  have ha := (H.listed (getSizeClassIndex n) a).mpr ⟨_, hg, rfl, rfl, rfl⟩
  have hsz := (H.free _ hg rfl).size_eq
  simp only at hsz
  have hhead : (unlinkBlock s a).heads j = s.heads j := by
    simp only [unlinkBlock, hsz]
    split
    · rfl
    · exact Function.update_of_ne hj _ _
  rw [hhead]
  refine (H.chain j).congr fun x hx => ?_
  have hnot : ∀ b ∈ lists (getSizeClassIndex n), x ≠ b := by
    rintro b hb rfl
    exact hj (H.list_unique hx hb)
  obtain ⟨-, hpl, hql⟩ := H.links ha
  obtain ⟨h1, h2⟩ := H.unlink_links ha hx (hnot a ha)
  have hx0 := (H.chain j).ne_null x hx
  rw [h1, h2, if_neg, if_neg]
  · exact ⟨rfl, rfl⟩
  · rintro rfl
    exact hnot _ (hql hx0).1 rfl
  · rintro rfl
    exact hnot _ (hpl hx0).1 rfl

/-- A block is on the remaining lists exactly when it is one of the other free
blocks. -/
theorem unlink_listed (H : HeapRep s lo (pre ++ ⟨a, n, .free⟩ :: post) lists) (j : Fin 8) (x : Nat) :
    x ∈ Function.update lists (getSizeClassIndex n) ((lists (getSizeClassIndex n)).erase a) j ↔
      ∃ g ∈ pre ++ (⟨a, n, .work⟩ : Seg) :: post,
        g.kind = .free ∧ g.addr = x ∧ getSizeClassIndex g.size = j := by
  have ha := (H.listed (getSizeClassIndex n) a).mpr ⟨⟨a, n, .free⟩, by simp, rfl, rfl, rfl⟩
  have hx : x ∈ Function.update lists (getSizeClassIndex n)
      ((lists (getSizeClassIndex n)).erase a) j ↔ x ≠ a ∧ x ∈ lists j := by
    by_cases hj : j = getSizeClassIndex n
    · subst hj
      rw [Function.update_self, (H.nodup _).mem_erase_iff]
    · rw [Function.update_of_ne hj]
      refine ⟨fun hx => ⟨?_, hx⟩, fun hx => hx.2⟩
      rintro rfl
      exact hj (H.list_unique hx ha)
  rw [hx, H.listed j x]
  constructor
  · rintro ⟨hne, g, hg, hk, hga, hgi⟩
    exact ⟨g, H.tiles.mem_set.mpr (Or.inr ⟨hg, by rw [hga]; exact hne⟩), hk, hga, hgi⟩
  · rintro ⟨g, hg, hk, hga, hgi⟩
    rcases H.tiles.mem_set.mp hg with rfl | ⟨hgo, hne⟩
    · cases hk
    · exact ⟨by rw [← hga]; exact hne, g, hgo, hk, hga, hgi⟩

/-- **`free_list_remove` unlinks a free block**, which becomes a work span with its
header and footer in place and `is_free` clear.  Only bytes of free blocks change. -/
theorem remove (H : HeapRep s lo (pre ++ ⟨a, n, .free⟩ :: post) lists) :
    ∃ m heads, freeListRemove s a = .ok { s with mem := m, heads := heads } ∧
      HeapRep { s with mem := m, heads := heads } lo (pre ++ ⟨a, n, .work⟩ :: post)
        (Function.update lists (getSizeClassIndex n) ((lists (getSizeClassIndex n)).erase a)) ∧
      Formed m a n 0 0 ∧
      Set.EqOn m s.mem (area (· = .free) (pre ++ ⟨a, n, .free⟩ :: post))ᶜ := by
  have hg : (⟨a, n, .free⟩ : Seg) ∈ pre ++ ⟨a, n, .free⟩ :: post := by simp
  have hsz := (H.free _ hg rfl).size_eq
  have ha := (H.listed (getSizeClassIndex n) a).mpr ⟨_, hg, rfl, rfl, rfl⟩
  refine ⟨(unlinkBlock s a).mem, (unlinkBlock s a).heads, H.freeListRemove_eq hg, ?_,
    H.unlink_formed hg, H.unlink_eqOn hg⟩
  refine ⟨?_, H.lo_pos, H.floor, H.limit, Or.inl (H.heapStart_eq hg), ?_, ?_, ?_, ?_,
    H.unlink_listed⟩
  · exact H.tiles.replace [(⟨a, n, .free⟩ : Seg)] [⟨a, n, .work⟩] fun _ _ h => by simpa using h
  · intro g hgm hk
    rcases H.tiles.mem_set.mp hgm with rfl | ⟨hgo, hne⟩
    · cases hk
    · have hF := H.used g hgo hk
      exact hF.congr (H.unlink_core hg hgo hne hF.size_ge)
  · intro g hgm hk
    rcases H.tiles.mem_set.mp hgm with rfl | ⟨hgo, hne⟩
    · cases hk
    · have hF := H.free g hgo hk
      exact hF.congr (H.unlink_core hg hgo hne hF.size_ge)
  · intro j
    by_cases hj : j = getSizeClassIndex n
    · subst hj
      rw [Function.update_self]
      exact H.unlink_chain ha (congrArg _ hsz)
    · rw [Function.update_of_ne hj]
      exact H.unlink_chain_other hg hj
  · intro j
    by_cases hj : j = getSizeClassIndex n
    · subst hj
      rw [Function.update_self]
      exact (H.nodup _).erase a
    · rw [Function.update_of_ne hj]
      exact H.nodup j

/-! ## `free_list_insert` -/

/-- The head of a list is null, or its first node. -/
theorem head_cases (H : HeapRep s lo segs lists) (i : Fin 8) :
    s.heads i = 0 ∨ s.heads i ∈ lists i := by
  have hc := (H.chain i).head_eq
  cases hl : lists i with
  | nil => exact Or.inl (by rw [hc, hl]; rfl)
  | cons b l => exact Or.inr (by rw [hc, hl]; simp)

/-- A node is at least a smallest block away from a work span of that size. -/
theorem node_apart_work (H : HeapRep s lo segs lists) {i : Fin 8} {x : Nat} (hx : x ∈ lists i)
    (hg : (⟨a, n, .work⟩ : Seg) ∈ segs) : x + 80 ≤ a ∨ a + n ≤ x := by
  obtain ⟨k, hk, -⟩ := H.node hx
  have h1 := (H.free _ hk rfl).size_ge
  have h2 := H.tiles.apart hk hg (by simp)
  simp only at h1 h2
  omega

/-- What the stores of `free_list_insert` do to the links: the block points at the
old head and has no predecessor, the old head points back at the block. -/
theorem link_links (H : HeapRep s lo segs lists) (hg : (⟨a, n, .work⟩ : Seg) ∈ segs)
    (hF : Formed s.mem a n f 0) :
    next (linkBlock s a).mem a = s.heads (getSizeClassIndex n) ∧ prev (linkBlock s a).mem a = 0 ∧
    ∀ j, ∀ x ∈ lists j, next (linkBlock s a).mem x = next s.mem x ∧
      prev (linkBlock s a).mem x =
        if x = s.heads (getSizeClassIndex n) then a else prev s.mem x := by
  have hn := hF.size_ge
  have halt := H.seg_lt hg
  simp only at halt
  simp only [linkBlock, hF.size_eq]
  have hhead := H.head_cases (getSizeClassIndex n)
  have hhlt : s.heads (getSizeClassIndex n) < 256 ^ 8 := by
    rcases hhead with h | h
    · rw [h]; decide
    · obtain ⟨k, hk, -⟩ := H.node h
      have := H.seg_lt hk
      simp only at this
      omega
  have hha : s.heads (getSizeClassIndex n) ≠ 0 → s.heads (getSizeClassIndex n) + 80 ≤ a ∨
      a + n ≤ s.heads (getSizeClassIndex n) := fun h =>
    H.node_apart_work (hhead.resolve_left h) hg
  generalize hhd : s.heads (getSizeClassIndex n) = hd at hhead hhlt hha ⊢
  simp only [next, prev, setIsFree, setPrev, setNext]
  rw [readLE_writeLE_disjoint (by omega), readLE_writeLE_disjoint (by omega)]
  refine ⟨?_, ?_, ?_⟩
  · by_cases h0 : hd = 0
    · rw [if_neg (not_not.mpr h0), readLE_writeLE_disjoint (by omega)]
      exact readLE_writeLE_same hhlt
    · have := hha h0
      rw [if_pos h0, readLE_writeLE_disjoint (by omega), readLE_writeLE_disjoint (by omega)]
      exact readLE_writeLE_same hhlt
  · by_cases h0 : hd = 0
    · rw [if_neg (not_not.mpr h0)]
      exact readLE_writeLE_same (by decide)
    · have := hha h0
      rw [if_pos h0, readLE_writeLE_disjoint (by omega)]
      exact readLE_writeLE_same (by decide)
  · intro j x hx
    have hx0 := (H.chain j).ne_null x hx
    have hxa := H.node_apart_work hx hg
    have hxh : hd ≠ 0 → x ≠ hd → x + 80 ≤ hd ∨ hd + 80 ≤ x := fun h h' =>
      H.node_apart hx (hhead.resolve_left h) h'
    rw [readLE_writeLE_disjoint (by omega), readLE_writeLE_disjoint (by omega)]
    by_cases h0 : hd = 0
    · rw [if_neg (not_not.mpr h0), if_neg (by omega), readLE_writeLE_disjoint (by omega),
        readLE_writeLE_disjoint (by omega), readLE_writeLE_disjoint (by omega),
        readLE_writeLE_disjoint (by omega)]
      exact ⟨rfl, rfl⟩
    · rw [if_pos h0]
      by_cases hxe : x = hd
      · subst hxe
        rw [if_pos rfl, readLE_writeLE_disjoint (by omega), readLE_writeLE_disjoint (by omega),
          readLE_writeLE_disjoint (by omega)]
        exact ⟨rfl, readLE_writeLE_same (by omega)⟩
      · have := hxh h0 hxe
        rw [if_neg hxe, readLE_writeLE_disjoint (by omega), readLE_writeLE_disjoint (by omega),
          readLE_writeLE_disjoint (by omega), readLE_writeLE_disjoint (by omega),
          readLE_writeLE_disjoint (by omega), readLE_writeLE_disjoint (by omega)]
        exact ⟨rfl, rfl⟩

/-- The stores of `free_list_insert` change nothing but links and the `is_free`
word of the block. -/
theorem link_eq (H : HeapRep s lo segs lists) (hF : Formed s.mem a n f 0) {x : Nat}
    (hx : ∀ b ∈ lists (getSizeClassIndex n), x < b + 32 ∨ b + 48 ≤ x)
    (hxf : x < a + 4 ∨ a + 8 ≤ x) (hxl : x < a + 32 ∨ a + 48 ≤ x) :
    (linkBlock s a).mem x = s.mem x := by
  simp only [linkBlock, hF.size_eq, setIsFree, setPrev, setNext]
  rw [writeLE_of_disjoint (by omega)]
  have hhead := H.head_cases (getSizeClassIndex n)
  generalize s.heads (getSizeClassIndex n) = hd at hhead ⊢
  by_cases h0 : hd = 0
  · rw [if_neg (not_not.mpr h0), writeLE_of_disjoint (by omega), writeLE_of_disjoint (by omega)]
  · have := hx hd (hhead.resolve_left h0)
    rw [if_pos h0, writeLE_of_disjoint (by omega), writeLE_of_disjoint (by omega),
      writeLE_of_disjoint (by omega)]

/-- `free_list_insert` makes its stores on a block of the heap. -/
theorem freeListInsert_eq (H : HeapRep s lo segs lists) (hg : (⟨a, n, .work⟩ : Seg) ∈ segs)
    (hF : Formed s.mem a n f 0) : freeListInsert s a = .ok (linkBlock s a) := by
  have hn := hF.size_ge
  have hlo := H.lo_pos
  have hb := H.tiles.bounds hg
  simp only at hb
  unfold freeListInsert
  rw [if_neg (by omega), State.deref_pos (H.accessible hg (by simp) (by simp only; omega)), ok_bind,
    hF.size_eq, State.derefNonNull_pos, ok_bind]
  intro h0
  obtain ⟨k, hk, -⟩ := H.node ((H.head_cases (getSizeClassIndex n)).resolve_left h0)
  have := (H.free _ hk rfl).size_ge
  simp only at this
  exact H.accessible hk (by simp) (by simp only; omega)

/-- The inserted block is formed, with `is_free` set. -/
theorem link_formed (H : HeapRep s lo segs lists) (hg : (⟨a, n, .work⟩ : Seg) ∈ segs)
    (hF : Formed s.mem a n f 0) : Formed (linkBlock s a).mem a n 1 0 := by
  have hge := hF.size_ge
  have hkeep : ∀ {b c}, (a + 8 ≤ b ∧ b + c ≤ a + 28 ∨ a ≤ b ∧ b + c ≤ a + 4 ∨
      a + n - 16 ≤ b ∧ b + c ≤ a + n - 16 + 16) →
      readLE (linkBlock s a).mem b c = readLE s.mem b c := by
    intro b c h
    refine readLE_congr fun x h1 h2 => H.link_eq hF (fun y hy => ?_) (by omega) (by omega)
    have := H.node_apart_work hy hg
    omega
  refine
    { hF with
      magic := (hkeep (by omega)).trans hF.magic
      free_eq := ?_
      size_eq := (hkeep (by omega)).trans hF.size_eq
      mmap_eq := (hkeep (by omega)).trans hF.mmap_eq
      footer_magic := (hkeep (by omega)).trans hF.footer_magic
      footer_size := (hkeep (by omega)).trans hF.footer_size }
  exact readLE_writeLE_same (by decide)

/-- The cores of the other blocks do not change. -/
theorem link_core (H : HeapRep s lo segs lists) (hg : (⟨a, n, .work⟩ : Seg) ∈ segs)
    (hF : Formed s.mem a n f 0) {g : Seg} (hgm : g ∈ segs) (hne : g.addr ≠ a) (h80 : 80 ≤ g.size) :
    Set.EqOn (linkBlock s a).mem s.mem (core g.addr g.size) := by
  have hge := hF.size_ge
  intro x hx
  have hap := H.tiles.apart hgm hg (fun he => hne (congrArg Span.addr he))
  have hxr := mem_range.mp (core_subset h80 hx)
  simp only at hap
  refine H.link_eq hF (fun b hb => ?_) (by omega) (by omega)
  by_contra hcon
  exact H.link_not_mem_core hb hgm h80 (by omega) (by omega) hx

/-- What may change lies in free blocks, and in the inserted one. -/
theorem link_eqOn (H : HeapRep s lo (pre ++ ⟨a, n, .work⟩ :: post) lists)
    (hF : Formed s.mem a n f 0) :
    Set.EqOn (linkBlock s a).mem s.mem (area (· = .free) (pre ++ ⟨a, n, .free⟩ :: post))ᶜ := by
  have hge := hF.size_ge
  intro x hx
  have hxa : ¬ (a ≤ x ∧ x < a + n) := fun h =>
    hx ⟨⟨a, n, .free⟩, by simp, rfl, by rw [Span.mem_bytes]; exact h⟩
  refine H.link_eq hF (fun b hb => ?_) (by omega) (by omega)
  obtain ⟨k, hk, -⟩ := H.node hb
  have hk80 := (H.free _ hk rfl).size_ge
  have hka := H.tiles.apart hk (g := ⟨b, k, .free⟩) (h := ⟨a, n, .work⟩) (by simp) (by simp)
  simp only at hk80 hka
  by_contra hcon
  refine hx ⟨⟨b, k, .free⟩, ?_, rfl, by rw [Span.mem_bytes]; simp only; omega⟩
  exact H.tiles.mem_set.mpr (Or.inr ⟨hk, by simp only; omega⟩)

/-- A block is on the new lists exactly when it is free now. -/
theorem link_listed (H : HeapRep s lo (pre ++ ⟨a, n, .work⟩ :: post) lists) (j : Fin 8) (x : Nat) :
    x ∈ Function.update lists (getSizeClassIndex n) (a :: lists (getSizeClassIndex n)) j ↔
      ∃ g ∈ pre ++ (⟨a, n, .free⟩ : Seg) :: post,
        g.kind = .free ∧ g.addr = x ∧ getSizeClassIndex g.size = j := by
  have hx : x ∈ Function.update lists (getSizeClassIndex n) (a :: lists (getSizeClassIndex n)) j ↔
      (x = a ∧ j = getSizeClassIndex n) ∨ x ∈ lists j := by
    by_cases hj : j = getSizeClassIndex n
    · subst hj
      simp
    · rw [Function.update_of_ne hj]
      simp [hj]
  rw [hx, H.listed j x]
  constructor
  · rintro (⟨rfl, rfl⟩ | ⟨g, hg, hk, hga, hgi⟩)
    · exact ⟨⟨x, n, .free⟩, by simp, rfl, rfl, rfl⟩
    · refine ⟨g, H.tiles.mem_set.mpr (Or.inr ⟨hg, ?_⟩), hk, hga, hgi⟩
      intro he
      have := H.tiles.eq_of_addr hg (by simp : (⟨a, n, .work⟩ : Seg) ∈ pre ++ ⟨a, n, .work⟩ :: post) he
      rw [this] at hk
      cases hk
  · rintro ⟨g, hg, hk, hga, hgi⟩
    rcases H.tiles.mem_set.mp hg with rfl | ⟨hgo, -⟩
    · exact Or.inl ⟨hga.symm, hgi.symm⟩
    · exact Or.inr ⟨g, hgo, hk, hga, hgi⟩

/-- **`free_list_insert` turns a formed work span into a free block**, at the front
of the list of its size class.  Only bytes of free blocks change. -/
theorem insert (H : HeapRep s lo (pre ++ ⟨a, n, .work⟩ :: post) lists)
    (hF : Formed s.mem a n f 0) :
    ∃ m heads, freeListInsert s a = .ok { s with mem := m, heads := heads } ∧
      HeapRep { s with mem := m, heads := heads } lo (pre ++ ⟨a, n, .free⟩ :: post)
        (Function.update lists (getSizeClassIndex n) (a :: lists (getSizeClassIndex n))) ∧
      Set.EqOn m s.mem (area (· = .free) (pre ++ ⟨a, n, .free⟩ :: post))ᶜ := by
  have hg : (⟨a, n, .work⟩ : Seg) ∈ pre ++ ⟨a, n, .work⟩ :: post := by simp
  have hlo := H.lo_pos
  have hba := H.tiles.bounds hg
  have hnotin : ∀ j, a ∉ lists j := by
    intro j ha
    have := H.node_apart_work ha hg
    have := hF.size_ge
    omega
  obtain ⟨hna, hpa, hother⟩ := H.link_links hg hF
  refine ⟨(linkBlock s a).mem, (linkBlock s a).heads, H.freeListInsert_eq hg hF, ?_,
    H.link_eqOn hF⟩
  refine ⟨?_, H.lo_pos, H.floor, H.limit, Or.inl (H.heapStart_eq hg), ?_, ?_, ?_, ?_,
    H.link_listed⟩
  · exact H.tiles.replace [(⟨a, n, .work⟩ : Seg)] [⟨a, n, .free⟩] fun _ _ h => by simpa using h
  · intro g hgm hk
    rcases H.tiles.mem_set.mp hgm with rfl | ⟨hgo, hne⟩
    · cases hk
    · have hF' := H.used g hgo hk
      exact hF'.congr (H.link_core hg hF hgo hne hF'.size_ge)
  · intro g hgm hk
    rcases H.tiles.mem_set.mp hgm with rfl | ⟨hgo, hne⟩
    · exact H.link_formed hg hF
    · have hF' := H.free g hgo hk
      exact hF'.congr (H.link_core hg hF hgo hne hF'.size_ge)
  · intro j
    by_cases hj : j = getSizeClassIndex n
    · subst hj
      have hhead : (linkBlock s a).heads (getSizeClassIndex n) = a := by
        simp only [linkBlock, hF.size_eq, Function.update_self]
      rw [Function.update_self]
      simp only [hhead]
      exact (H.chain _).link (by simp only at hba; omega) hna hpa (fun x hx => (hother _ x hx).1)
        (fun x hx => (hother _ x hx).2) (H.nodup _)
    · have hhead : (linkBlock s a).heads j = s.heads j := by
        simp only [linkBlock, hF.size_eq]
        exact Function.update_of_ne hj _ _
      rw [Function.update_of_ne hj]
      simp only [hhead]
      refine (H.chain j).congr fun x hx => ⟨(hother j x hx).1, ?_⟩
      rw [(hother j x hx).2, if_neg]
      rintro rfl
      have hx0 := (H.chain j).ne_null _ hx
      exact hj (H.list_unique hx ((H.head_cases _).resolve_left hx0))
  · intro j
    by_cases hj : j = getSizeClassIndex n
    · subst hj
      rw [Function.update_self]
      exact List.nodup_cons.mpr ⟨hnotin _, H.nodup _⟩
    · rw [Function.update_of_ne hj]
      exact H.nodup j

/-! ## Traversals -/

/-- A larger block is in the same class or a later one. -/
theorem getSizeClassIndex_mono {n k : Nat} (h : n ≤ k) : getSizeClassIndex n ≤ getSizeClassIndex k := by
  unfold getSizeClassIndex
  rw [Fin.mk_le_mk]
  refine List.findIdx_le_findIdx fun limit _ hk => ?_
  rw [decide_eq_true_eq] at hk ⊢
  omega

theorem getSizeClassIndex_lt {n k : Nat} (h : getSizeClassIndex n < getSizeClassIndex k) : n < k :=
  Nat.lt_of_not_le fun hle => absurd (getSizeClassIndex_mono hle) (not_le_of_gt h)

theorem mem_drop_finRange (i j : Fin 8) (h : i ≤ j) : j ∈ (List.finRange 8).drop i := by
  revert i j
  decide

/-- A list is too short for its traversal to run out of fuel. -/
theorem length_lt (H : HeapRep s lo segs lists) (i : Fin 8) : (lists i).length < traversalFuel := by
  have hsub : lists i ⊆ List.range addrLimit := by
    intro a ha
    obtain ⟨n, hn, -⟩ := H.node ha
    have h1 := H.tiles.bounds hn
    have h2 := H.limit
    simp only at h1
    rw [List.mem_range]
    omega
  have hle := ((H.nodup i).subperm hsub).length_le
  rw [List.length_range] at hle
  unfold addrLimit at hle
  unfold traversalFuel
  omega

/-- **The search of one list** never faults.  It ends with the best fit it came with, when
no node fits better, or with a node that fits better and is smallest among those that
fit. -/
theorem findBest_spec (H : HeapRep s lo segs lists) {i : Fin 8} {total : Nat} :
    ∀ {l : List Nat} {fuel p curr best minDiff : Nat},
      Chain 0 (next s.mem) (prev s.mem) p curr l → (∀ a ∈ l, a ∈ lists i) → l.length < fuel →
      ∃ b, findBest s total fuel curr best minDiff = .ok b ∧
        ((b = best ∧ ∀ a ∈ l, ∀ k, (⟨a, k, .free⟩ : Seg) ∈ segs → total ≤ k → minDiff ≤ k - total) ∨
          ∃ n, b ∈ l ∧ (⟨b, n, .free⟩ : Seg) ∈ segs ∧ total ≤ n ∧ n - total < minDiff ∧
            ∀ a ∈ l, ∀ k, (⟨a, k, .free⟩ : Seg) ∈ segs → total ≤ k → n ≤ k)
  | _, 0, _, _, _, _, _, _, hf => by omega
  | [], fuel + 1, _, _, best, _, hc, _, _ => by
      refine ⟨best, ?_, Or.inl ⟨rfl, by simp⟩⟩
      rw [findBest, if_pos (hc.head_eq_null_iff.mpr rfl)]
  | a :: l, fuel + 1, _, _, best, minDiff, hc, hl, hf => by
      obtain ⟨rfl, hne, -, ht⟩ := hc
      obtain ⟨n, hn, -⟩ := H.node (hl _ (List.mem_cons_self ..))
      have hF := H.free _ hn rfl
      have hge := hF.size_ge
      simp only at hF hge
      have hl' : ∀ b ∈ l, b ∈ lists i := fun b hb => hl b (List.mem_cons_of_mem _ hb)
      have hlen : l.length < fuel := by
        rw [List.length_cons] at hf
        omega
      have hsize : ∀ {k}, (⟨_, k, .free⟩ : Seg) ∈ segs → k = n := fun hk =>
        congrArg Span.size (H.tiles.eq_of_addr hk hn rfl)
      rw [findBest, if_neg hne, State.deref_pos (H.accessible hn (by simp) (by simp only; omega)),
        ok_bind, check_pos hF.magic, ok_bind, hF.size_eq]
      by_cases hfit : total ≤ n ∧ n - total < minDiff
      · rw [if_pos hfit]
        by_cases hexact : n - total = 0
        · rw [if_pos hexact]
          refine ⟨_, rfl, Or.inr ⟨n, List.mem_cons_self .., hn, hfit.1, hfit.2, ?_⟩⟩
          intro _ _ k _ hk
          omega
        · rw [if_neg hexact]
          obtain ⟨b, hb, ⟨rfl, hbest⟩ | ⟨k, hbl, hbk, hk, hlt, hbest⟩⟩ := H.findBest_spec ht hl' hlen
          · refine ⟨_, hb, Or.inr ⟨n, List.mem_cons_self .., hn, hfit.1, hfit.2, ?_⟩⟩
            intro c hc k hck hk
            rcases List.mem_cons.mp hc with rfl | hc
            · exact Nat.le_of_eq (hsize hck).symm
            · have := hbest c hc k hck hk
              omega
          · refine ⟨b, hb, Or.inr ⟨k, List.mem_cons_of_mem _ hbl, hbk, hk, by omega, ?_⟩⟩
            intro c hc k' hck hk'
            rcases List.mem_cons.mp hc with rfl | hc
            · have := hsize hck
              omega
            · exact hbest c hc k' hck hk'
      · rw [if_neg hfit]
        obtain ⟨b, hb, ⟨rfl, hbest⟩ | ⟨k, hbl, hbk, hk, hlt, hbest⟩⟩ := H.findBest_spec ht hl' hlen
        · refine ⟨_, hb, Or.inl ⟨rfl, fun c hc k hck hk => ?_⟩⟩
          rcases List.mem_cons.mp hc with rfl | hc
          · have := hsize hck
            omega
          · exact hbest c hc k hck hk
        · refine ⟨b, hb, Or.inr ⟨k, List.mem_cons_of_mem _ hbl, hbk, hk, hlt, ?_⟩⟩
          intro c hc k' hck hk'
          rcases List.mem_cons.mp hc with rfl | hc
          · have := hsize hck
            omega
          · exact hbest c hc k' hck hk'

/-- **The search of several classes**, from smaller to larger ones: nothing in them fits,
or the smallest block that fits is unlinked. -/
theorem findFitFrom_spec (H : HeapRep s lo segs lists) {total : Nat} : ∀ {is : List (Fin 8)},
    is.Pairwise (· < ·) →
    (findFitFrom s total is = .ok (0, s) ∧
      ∀ a k, (⟨a, k, .free⟩ : Seg) ∈ segs → getSizeClassIndex k ∈ is → k < total) ∨
    ∃ a n s', findFitFrom s total is = .ok (a, s') ∧ a ≠ 0 ∧ (⟨a, n, .free⟩ : Seg) ∈ segs ∧
      total ≤ n ∧ freeListRemove s a = .ok s' ∧
      ∀ b k, (⟨b, k, .free⟩ : Seg) ∈ segs → getSizeClassIndex k ∈ is → total ≤ k → n ≤ k
  | [], _ => Or.inl ⟨rfl, by simp⟩
  | i :: is, hsort => by
      obtain ⟨hlt, hsort⟩ := List.pairwise_cons.mp hsort
      have hlisted : ∀ {a k}, (⟨a, k, .free⟩ : Seg) ∈ segs → getSizeClassIndex k = i → a ∈ lists i :=
        fun hk hi => (H.listed i _).mpr ⟨_, hk, rfl, rfl, hi⟩
      obtain ⟨b, hb, hspec⟩ : ∃ b, findBest s total traversalFuel (s.heads i) 0 (2 ^ 64 - 1) = .ok b ∧ _ :=
        H.findBest_spec (H.chain i) (fun _ h => h) (H.length_lt i)
      rw [findFitFrom, hb, ok_bind]
      rcases hspec with ⟨rfl, hnone⟩ | ⟨n, hbl, hbn, hle, -, hbest⟩
      · -- nothing in this class: no block is so large that the excess would not be noticed
        have hclass : ∀ a k, (⟨a, k, .free⟩ : Seg) ∈ segs → getSizeClassIndex k = i → k < total := by
          intro a k hk hi
          refine Nat.lt_of_not_le fun hle => ?_
          have h1 := hnone a (hlisted hk hi) k hk hle
          have h2 := H.tiles.bounds hk
          have h3 := H.limit
          unfold addrLimit at h3
          simp only at h2
          omega
        rw [if_neg (by simp)]
        rcases H.findFitFrom_spec hsort with ⟨hr, hsmall⟩ | ⟨a, n, s', hr, h0, hn, hle, hrem, hbest⟩
        · refine Or.inl ⟨hr, fun a k hk hi => ?_⟩
          rcases List.mem_cons.mp hi with hi | hi
          · exact hclass a k hk hi
          · exact hsmall a k hk hi
        · refine Or.inr ⟨a, n, s', hr, h0, hn, hle, hrem, fun b k hk hi hle' => ?_⟩
          rcases List.mem_cons.mp hi with hi | hi
          · exact absurd (hclass b k hk hi) (by omega)
          · exact hbest b k hk hi hle'
      · have h0 := (H.chain i).ne_null b hbl
        have hi : getSizeClassIndex n = i := by
          obtain ⟨n', hn', hi⟩ := H.node hbl
          have hnn : n = n' := congrArg Span.size (H.tiles.eq_of_addr hbn hn' rfl)
          rw [hnn]
          exact hi
        rw [if_pos h0, H.freeListRemove_eq hbn, ok_bind]
        refine Or.inr ⟨b, n, _, rfl, h0, hbn, hle, H.freeListRemove_eq hbn, fun c k hk hki hle' => ?_⟩
        rcases List.mem_cons.mp hki with hki | hki
        · exact hbest c (hlisted hk hki) k hk hle'
        · -- a larger class holds larger blocks only
          refine Nat.le_of_lt (getSizeClassIndex_lt ?_)
          rw [hi]
          exact hlt _ hki

/-- **`free_list_find_fit` is a best fit over the whole heap**: it finds nothing when no
free block is large enough, and otherwise unlinks a smallest one that is. -/
theorem freeListFindFit_spec (H : HeapRep s lo segs lists) (total : Nat) :
    (freeListFindFit s total = .ok (0, s) ∧ ∀ a k, (⟨a, k, .free⟩ : Seg) ∈ segs → k < total) ∨
    ∃ a n s', freeListFindFit s total = .ok (a, s') ∧ a ≠ 0 ∧ (⟨a, n, .free⟩ : Seg) ∈ segs ∧
      total ≤ n ∧ freeListRemove s a = .ok s' ∧
      ∀ b k, (⟨b, k, .free⟩ : Seg) ∈ segs → total ≤ k → n ≤ k := by
  -- the classes below that of `total` hold smaller blocks only
  have hclass : ∀ {k}, total ≤ k →
      getSizeClassIndex k ∈ (List.finRange 8).drop (getSizeClassIndex total) := fun hle =>
    mem_drop_finRange _ _ (getSizeClassIndex_mono hle)
  have hsort : ((List.finRange 8).drop (getSizeClassIndex total)).Pairwise (· < ·) :=
    (List.pairwise_lt_finRange 8).sublist (List.drop_sublist ..)
  rcases H.findFitFrom_spec hsort with ⟨hr, hnone⟩ | ⟨a, n, s', hr, h0, hn, hle, hrem, hbest⟩
  · refine Or.inl ⟨hr, fun a k hk => Nat.lt_of_not_le fun hle => ?_⟩
    exact absurd (hnone a k hk (hclass hle)) (by omega)
  · exact Or.inr ⟨a, n, s', hr, h0, hn, hle, hrem, fun b k hk hle' =>
      hbest b k hk (hclass hle') hle'⟩

/-- `free_list_find_fit` finds nothing, or unlinks a free block that is large enough. -/
theorem freeListFindFit_cases (H : HeapRep s lo segs lists) (total : Nat) :
    freeListFindFit s total = .ok (0, s) ∨
      ∃ a n pre post s', segs = pre ++ ⟨a, n, .free⟩ :: post ∧ a ≠ 0 ∧ total ≤ n ∧
        freeListFindFit s total = .ok (a, s') ∧ freeListRemove s a = .ok s' := by
  rcases H.freeListFindFit_spec total with ⟨h, -⟩ | ⟨a, n, s', h, h0, hn, hle, hr, -⟩
  · exact Or.inl h
  · obtain ⟨pre, post, hseg⟩ := List.append_of_mem hn
    exact Or.inr ⟨a, n, pre, post, s', hseg, h0, hle, h, hr⟩

/-- Every check of `free_list_verify_integrity` passes along a list. -/
theorem verifyList_true (H : HeapRep s lo segs lists) {i : Fin 8} :
    ∀ {l : List Nat} {fuel p curr : Nat},
      Chain 0 (next s.mem) (prev s.mem) p curr l → (∀ a ∈ l, a ∈ lists i) → l.length < fuel →
      verifyList s i fuel curr = .ok true
  | _, 0, _, _, _, _, hf => by omega
  | [], fuel + 1, _, _, hc, _, _ => by rw [verifyList, if_pos (hc.head_eq_null_iff.mpr rfl)]
  | _ :: l, fuel + 1, _, a, hc, hl, hf => by
      obtain ⟨rfl, hne, -, ht⟩ := hc
      have ha := hl _ (List.mem_cons_self ..)
      obtain ⟨n, hn, rfl⟩ := H.node ha
      have hF := H.free _ hn rfl
      have hge := hF.size_ge
      have hb := H.tiles.bounds hn
      obtain ⟨hhead, hprev, hnext⟩ := H.links ha
      simp only at hF hge hb
      have hlen : l.length < fuel := by
        rw [List.length_cons] at hf
        omega
      have hacc : ∀ {b k}, a ≤ b → b + k ≤ a + n → s.deref b k = .ok () := fun h1 h2 =>
        State.deref_pos (H.accessible hn h1 h2)
      have hnode : ∀ {x off k}, x ∈ lists (getSizeClassIndex n) → off + k ≤ 80 →
          s.Accessible (x + off) k := by
        intro x off k hx hk
        obtain ⟨m, hm, -⟩ := H.node hx
        have := (H.free _ hm rfl).size_ge
        simp only at this
        exact H.accessible hm (by simp) (by simp only; omega)
      rw [verifyList, if_neg hne, hacc (by omega) (by omega), ok_bind, hF.size_eq,
        if_neg (by rw [hF.magic, hF.free_eq]; simp; omega), if_neg (by omega),
        hacc (by omega) (by omega), ok_bind, if_neg (fun h => h.2 (hhead h.1)),
        State.derefNonNull_pos (fun h => hnode (hprev h).1 (by omega)), ok_bind,
        if_neg (fun h => h.2 (hprev h.1).2.2),
        State.derefNonNull_pos (fun h => hnode (hnext h).1 (by omega)), ok_bind,
        if_neg (fun h => h.2 (hnext h.1).2.2)]
      simp only
      rw [hacc (by omega) (by omega), ok_bind,
        if_neg (by rw [hF.footer_magic, hF.footer_size]; simp)]
      exact H.verifyList_true ht (fun b hb => hl b (List.mem_cons_of_mem _ hb)) hlen

/-- **`free_list_verify_integrity` returns 0** on a represented heap. -/
theorem freeListVerifyIntegrity_true (H : HeapRep s lo segs lists) :
    freeListVerifyIntegrity s = .ok true := by
  have hall : ∀ is : List (Fin 8), verifyLists s is = .ok true := by
    intro is
    induction is with
    | nil => rfl
    | cons i is ih =>
      rw [verifyLists, H.verifyList_true (H.chain i) (fun _ h => h) (H.length_lt i), ok_bind]
      exact ih
  exact hall _

end HeapRep

end MemoryMonitor
