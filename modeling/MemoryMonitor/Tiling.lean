import MemoryMonitor.ByteMemory
import Mathlib.Data.List.Basic

/-! # Tilings of an address range

A range of addresses cut into consecutive spans, each with a kind.  `Tiles lo l hi`
says that the spans `l`, in order and without holes, make up `[lo, hi)`.

A client edits a tiling locally: it replaces the spans of one stretch by others
that make up the same stretch (`Tiles.replace`), and everything before and after
stays where it is.  `area P l` is the set of bytes of the spans whose kind
satisfies `P`.
-/
namespace Tiling

open ByteMemory

variable {κ : Type}

/-- A nonempty stretch of addresses, with a kind. -/
structure Span (κ : Type) where
  addr : Nat
  size : Nat
  kind : κ
deriving DecidableEq, Repr

/-- The bytes of a span. -/
def Span.bytes (g : Span κ) : Set Nat := range g.addr g.size

theorem Span.mem_bytes {g : Span κ} {x : Nat} :
    x ∈ g.bytes ↔ g.addr ≤ x ∧ x < g.addr + g.size := Iff.rfl

/-- The spans `l` follow each other without holes from `lo` to `hi`. -/
def Tiles : Nat → List (Span κ) → Nat → Prop
  | lo, [], hi => lo = hi
  | lo, g :: l, hi => g.addr = lo ∧ 0 < g.size ∧ Tiles (lo + g.size) l hi

variable {lo hi : Nat} {l l' pre post : List (Span κ)} {g h : Span κ}

@[simp] theorem tiles_nil : Tiles (κ := κ) lo [] hi ↔ lo = hi := Iff.rfl

@[simp] theorem tiles_cons :
    Tiles lo (g :: l) hi ↔ g.addr = lo ∧ 0 < g.size ∧ Tiles (lo + g.size) l hi := Iff.rfl

theorem tiles_append : ∀ {lo : Nat} {l : List (Span κ)},
    Tiles lo (l ++ l') hi ↔ ∃ m, Tiles lo l m ∧ Tiles m l' hi
  | lo, [] => by simp
  | lo, g :: l => by
      simp only [List.cons_append, tiles_cons, tiles_append]
      constructor
      · rintro ⟨h1, h2, m, h3, h4⟩
        exact ⟨m, ⟨h1, h2, h3⟩, h4⟩
      · rintro ⟨m, ⟨h1, h2, h3⟩, h4⟩
        exact ⟨h1, h2, m, h3, h4⟩

theorem Tiles.le : ∀ {lo : Nat} {l : List (Span κ)}, Tiles lo l hi → lo ≤ hi
  | _, [], ht => Nat.le_of_eq ht
  | _, g :: l, ht => by
      have := ht.2.2.le
      omega

/-- Every span of a tiling lies in the tiled range. -/
theorem Tiles.bounds : ∀ {lo : Nat} {l : List (Span κ)}, Tiles lo l hi → ∀ {g}, g ∈ l →
    lo ≤ g.addr ∧ g.addr + g.size ≤ hi ∧ 0 < g.size
  | _, [], _, _, hg => by cases hg
  | _, g :: l, ⟨ha, hs, ht⟩, g', hg => by
      rcases List.mem_cons.mp hg with rfl | hg
      · have := ht.le
        omega
      · have := ht.bounds hg
        omega

theorem Tiles.sum : ∀ {lo : Nat} {l : List (Span κ)}, Tiles lo l hi →
    lo + (l.map Span.size).sum = hi
  | _, [], ht => by simpa using ht
  | lo, g :: l, ht => by
      have := ht.2.2.sum
      rw [List.map_cons, List.sum_cons]
      omega

/-- A tiling has no more spans than addresses. -/
theorem Tiles.length : ∀ {lo : Nat} {l : List (Span κ)}, Tiles lo l hi → lo + l.length ≤ hi
  | _, [], ht => Nat.le_of_eq ht
  | lo, g :: l, ht => by
      have h1 := ht.2.2.length
      have h2 := ht.2.1
      rw [List.length_cons]
      omega

/-- The spans before a given one end by its start. -/
theorem Tiles.before (ht : Tiles lo (pre ++ g :: post) hi) {k : Span κ} (hk : k ∈ pre) :
    k.addr + k.size ≤ g.addr := by
  obtain ⟨m, h1, h2⟩ := tiles_append.mp ht
  have := (h1.bounds hk).2.1
  have := h2.1
  omega

/-- The spans after a given one start at its end or later. -/
theorem Tiles.after (ht : Tiles lo (pre ++ g :: post) hi) {k : Span κ} (hk : k ∈ post) :
    g.addr + g.size ≤ k.addr := by
  obtain ⟨m, h1, h2⟩ := tiles_append.mp ht
  have := (h2.2.2.bounds hk).1
  have := h2.1
  omega

/-- **Distinct spans are disjoint.** -/
theorem Tiles.apart (ht : Tiles lo l hi) (hg : g ∈ l) (hh : h ∈ l) (hne : g ≠ h) :
    g.addr + g.size ≤ h.addr ∨ h.addr + h.size ≤ g.addr := by
  obtain ⟨pre, post, rfl⟩ := List.append_of_mem hg
  rcases List.mem_append.mp hh with hp | hp
  · exact Or.inr (ht.before hp)
  · rcases List.mem_cons.mp hp with rfl | hp
    · exact absurd rfl hne
    · exact Or.inl (ht.after hp)

/-- Spans of one tiling that share a byte are the same. -/
theorem Tiles.eq_of_mem (ht : Tiles lo l hi) (hg : g ∈ l) (hh : h ∈ l) {x : Nat}
    (hxg : x ∈ g.bytes) (hxh : x ∈ h.bytes) : g = h := by
  by_contra hne
  rw [Span.mem_bytes] at hxg hxh
  rcases ht.apart hg hh hne with h' | h' <;> omega

/-- Spans of one tiling with the same start are the same. -/
theorem Tiles.eq_of_addr (ht : Tiles lo l hi) (hg : g ∈ l) (hh : h ∈ l) (he : g.addr = h.addr) :
    g = h := by
  have h1 := (ht.bounds hg).2.2
  have h2 := (ht.bounds hh).2.2
  refine ht.eq_of_mem hg hh (x := g.addr) ?_ ?_ <;> rw [Span.mem_bytes] <;> omega

/-- The span after `g` starts where `g` ends. -/
theorem Tiles.next_addr (ht : Tiles lo (pre ++ g :: h :: post) hi) :
    h.addr = g.addr + g.size := by
  obtain ⟨m, -, h1, -, h2, -⟩ := tiles_append.mp ht
  omega

theorem Tiles.last_end (ht : Tiles lo (pre ++ [g]) hi) : g.addr + g.size = hi := by
  obtain ⟨m, -, h1, -, h2⟩ := tiles_append.mp ht
  rw [tiles_nil] at h2
  omega

/-- Every address of the tiled range lies in a span. -/
theorem Tiles.cover : ∀ {lo : Nat} {l : List (Span κ)}, Tiles lo l hi → ∀ {x}, lo ≤ x → x < hi →
    ∃ g ∈ l, x ∈ g.bytes
  | _, [], ht, x, h1, h2 => by
      rw [tiles_nil] at ht
      omega
  | lo, g :: l, ⟨ha, _, ht⟩, x, h1, h2 => by
      by_cases hx : x < lo + g.size
      · exact ⟨g, List.mem_cons_self .., by rw [Span.mem_bytes]; omega⟩
      · obtain ⟨k, hk, hxk⟩ := ht.cover (by omega) h2
        exact ⟨k, List.mem_cons_of_mem _ hk, hxk⟩

/-- **Local replacement**: spans that make up the same stretch may be exchanged. -/
theorem Tiles.replace (mid mid' : List (Span κ)) (ht : Tiles lo (pre ++ (mid ++ post)) hi)
    (hm : ∀ a b, Tiles a mid b → Tiles a mid' b) : Tiles lo (pre ++ (mid' ++ post)) hi := by
  obtain ⟨a, h1, h2⟩ := tiles_append.mp ht
  obtain ⟨b, h3, h4⟩ := tiles_append.mp h2
  exact tiles_append.mpr ⟨a, h1, tiles_append.mpr ⟨b, hm a b h3, h4⟩⟩

/-- What holds of all spans holds of the one in the middle and of the others. -/
theorem forall_mid {P : Span κ → Prop} :
    (∀ h ∈ pre ++ g :: post, P h) ↔ P g ∧ ∀ h ∈ pre ++ post, P h := by
  simp only [List.forall_mem_append, List.forall_mem_cons]
  tauto

/-- The members after one span is exchanged: the new one, and the others. -/
theorem Tiles.mem_set (ht : Tiles lo (pre ++ g :: post) hi) {g' : Span κ} :
    h ∈ pre ++ g' :: post ↔ h = g' ∨ h ∈ pre ++ g :: post ∧ h.addr ≠ g.addr := by
  have hg := (ht.bounds (g := g) (by simp)).2.2
  have hother : h ∈ pre ∨ h ∈ post → h.addr ≠ g.addr := by
    rintro (hh | hh) he
    · have h1 := ht.before hh
      have h2 := (ht.bounds (List.mem_append_left _ hh)).2.2
      omega
    · have h1 := ht.after hh
      omega
  simp only [List.mem_append, List.mem_cons]
  constructor
  · rintro (hh | rfl | hh)
    · exact Or.inr ⟨Or.inl hh, hother (Or.inl hh)⟩
    · exact Or.inl rfl
    · exact Or.inr ⟨Or.inr (Or.inr hh), hother (Or.inr hh)⟩
  · rintro (rfl | ⟨hh | rfl | hh, hne⟩)
    · exact Or.inr (Or.inl rfl)
    · exact Or.inl hh
    · exact absurd rfl hne
    · exact Or.inr (Or.inr hh)

/-! ## The bytes of the spans of given kinds -/

/-- The bytes of the spans whose kind satisfies `P`. -/
def area (P : κ → Prop) (l : List (Span κ)) : Set Nat :=
  {x | ∃ g ∈ l, P g.kind ∧ x ∈ g.bytes}

variable {P Q : κ → Prop}

theorem mem_area {x : Nat} : x ∈ area P l ↔ ∃ g ∈ l, P g.kind ∧ x ∈ g.bytes := Iff.rfl

theorem area_append : area P (l ++ l') = area P l ∪ area P l' := by
  ext x
  simp only [mem_area, Set.mem_union, List.mem_append]
  constructor
  · rintro ⟨g, hg | hg, h⟩
    · exact Or.inl ⟨g, hg, h⟩
    · exact Or.inr ⟨g, hg, h⟩
  · rintro (⟨g, hg, h⟩ | ⟨g, hg, h⟩)
    · exact ⟨g, Or.inl hg, h⟩
    · exact ⟨g, Or.inr hg, h⟩

theorem area_cons_pos (h : P g.kind) : area P (g :: l) = g.bytes ∪ area P l := by
  ext x
  simp only [mem_area, Set.mem_union, List.mem_cons]
  constructor
  · rintro ⟨k, rfl | hk, hp, hx⟩
    · exact Or.inl hx
    · exact Or.inr ⟨k, hk, hp, hx⟩
  · rintro (hx | ⟨k, hk, hp, hx⟩)
    · exact ⟨g, Or.inl rfl, h, hx⟩
    · exact ⟨k, Or.inr hk, hp, hx⟩

theorem area_cons_neg (h : ¬ P g.kind) : area P (g :: l) = area P l := by
  ext x
  simp only [mem_area, List.mem_cons]
  constructor
  · rintro ⟨k, rfl | hk, hp, hx⟩
    · exact absurd hp h
    · exact ⟨k, hk, hp, hx⟩
  · rintro ⟨k, hk, hp, hx⟩
    exact ⟨k, Or.inr hk, hp, hx⟩

theorem bytes_subset_area (hg : g ∈ l) (hp : P g.kind) : g.bytes ⊆ area P l :=
  fun _ hx => ⟨g, hg, hp, hx⟩

theorem area_mono (hPQ : ∀ k, P k → Q k) : area P l ⊆ area Q l :=
  fun _ ⟨g, hg, hp, hx⟩ => ⟨g, hg, hPQ _ hp, hx⟩

/-- A span whose kind fails `P` has no byte in the area of `P`. -/
theorem Tiles.not_mem_area (ht : Tiles lo l hi) (hg : g ∈ l) (hp : ¬ P g.kind) {x : Nat}
    (hx : x ∈ g.bytes) : x ∉ area P l := by
  rintro ⟨k, hk, hpk, hxk⟩
  exact hp (ht.eq_of_mem hk hg hxk hx ▸ hpk)

/-- The area lies in the tiled range. -/
theorem Tiles.area_bounds (ht : Tiles lo l hi) {x : Nat} (hx : x ∈ area P l) : lo ≤ x ∧ x < hi := by
  obtain ⟨g, hg, -, hxg⟩ := hx
  have := ht.bounds hg
  rw [Span.mem_bytes] at hxg
  omega

end Tiling
