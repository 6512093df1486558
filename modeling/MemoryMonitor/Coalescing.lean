import MemoryMonitor.Tiling
import Mathlib.Data.List.Chain

/-! # Coalescing spans

The spans of a tiling whose kind satisfies `P` can be joined with their neighbours.
`Spaced` says that nothing is left to join, and `merge` joins everything there is: a
spaced list is its own merge, and joining two neighbours beforehand makes no difference
(`merge_join`).

A client that turns spans into `P` spans one by one and joins neighbours after each of
them gets the same as one that turns all of them first and merges once (`merge_mark`).
So the order in which it does so cannot matter.
-/
namespace Coalescing

open Tiling

variable {κ : Type} (P : κ → Prop)

/-- No two neighbours are both of kind `P`. -/
def Spaced (l : List (Span κ)) : Prop := l.IsChain fun g h => ¬ (P g.kind ∧ P h.kind)

variable {P} {l l' pre post : List (Span κ)} {g h : Span κ}

/-- A spaced list around one of its spans. -/
theorem spaced_mid : Spaced P (pre ++ g :: post) ↔
    Spaced P pre ∧ Spaced P post ∧ (∀ x ∈ pre.getLast?, ¬ (P x.kind ∧ P g.kind)) ∧
      ∀ y ∈ post.head?, ¬ (P g.kind ∧ P y.kind) := by
  unfold Spaced
  rw [List.isChain_append, List.isChain_cons]
  simp only [List.head?_cons, Option.mem_def, Option.some.injEq, forall_eq']
  tauto

/-- A span that is not of kind `P` may stand anywhere. -/
theorem spaced_mid_of_not (hg : ¬ P g.kind) :
    Spaced P (pre ++ g :: post) ↔ Spaced P pre ∧ Spaced P post := by
  rw [spaced_mid]
  simp [hg]

theorem spaced_append_of_not (hg : ¬ P g.kind) : Spaced P (l ++ [g]) ↔ Spaced P l := by
  rw [spaced_mid_of_not hg]
  simp [Spaced]

/-- No two spans of a spaced list that follow each other are of kind `P`. -/
theorem Spaced.neighbours (hl : Spaced P (pre ++ g :: h :: post)) : ¬ (P g.kind ∧ P h.kind) := by
  have := (spaced_mid.mp hl).2.2.2
  exact this h rfl

section Merge
variable (P) [DecidablePred P]

/-- Put a span in front, and join it with the first one when both are of kind `P`. -/
def joinHead (g : Span κ) : List (Span κ) → List (Span κ)
  | [] => [g]
  | h :: l => if P g.kind ∧ P h.kind then ⟨g.addr, g.size + h.size, g.kind⟩ :: l else g :: h :: l

/-- Join all neighbours of kind `P`. -/
def merge (l : List (Span κ)) : List (Span κ) := l.foldr (joinHead P) []

variable {P}

@[simp] theorem merge_nil : merge P ([] : List (Span κ)) = [] := rfl

@[simp] theorem merge_cons : merge P (g :: l) = joinHead P g (merge P l) := rfl

theorem Spaced.joinHead (hl : Spaced P l) : Spaced P (joinHead P g l) := by
  cases l with
  | nil => exact List.isChain_singleton _
  | cons h l =>
    rw [Coalescing.joinHead]
    split
    · rename_i hgh
      refine List.isChain_cons.mpr ⟨fun y hy hgy => ?_, (List.isChain_cons.mp hl).2⟩
      exact (List.isChain_cons.mp hl).1 y hy ⟨hgh.2, hgy.2⟩
    · rename_i hgh
      exact List.isChain_cons_cons.mpr ⟨hgh, hl⟩

/-- **Merging leaves nothing to join.** -/
theorem spaced_merge (l : List (Span κ)) : Spaced P (merge P l) := by
  induction l with
  | nil => exact List.isChain_nil
  | cons g l ih => exact ih.joinHead

/-- **A spaced list is its own merge.** -/
theorem Spaced.merge_eq (hl : Spaced P l) : merge P l = l := by
  induction l with
  | nil => rfl
  | cons g l ih =>
    obtain ⟨hg, hl⟩ := List.isChain_cons.mp hl
    rw [merge_cons, ih hl]
    cases l with
    | nil => rfl
    | cons h l => rw [Coalescing.joinHead, if_neg (hg h rfl)]

/-- Joining three spans in either order. -/
theorem joinHead_joinHead (hg : P g.kind) (hh : P h.kind) :
    joinHead P g (joinHead P h l) = joinHead P ⟨g.addr, g.size + h.size, g.kind⟩ l := by
  cases l with
  | nil => simp [joinHead, hg, hh]
  | cons k l =>
    by_cases hk : P k.kind
    · simp [joinHead, hg, hh, hk, Nat.add_assoc]
    · simp [joinHead, hg, hh, hk]

/-- **Joining two neighbours first makes no difference.** -/
theorem merge_join (hg : P g.kind) (hh : P h.kind) :
    merge P (pre ++ g :: h :: post) = merge P (pre ++ ⟨g.addr, g.size + h.size, g.kind⟩ :: post) := by
  induction pre with
  | nil => exact joinHead_joinHead hg hh
  | cons k pre ih =>
    rw [List.cons_append, List.cons_append, merge_cons, merge_cons, ih]

/-- **Joining one span with its neighbours.**  In an otherwise spaced list it is enough to
take in the next span and then the one before, where they are of kind `P`. -/
theorem merge_mid {c : κ} (hc : P c) {a a' n m n' : Nat} {pre' post' : List (Span κ)}
    (hpre : Spaced P pre) (hpost : Spaced P post)
    (hnext : (∃ b k, post = ⟨b, k, c⟩ :: post' ∧ m = n + k) ∨
      post' = post ∧ m = n ∧ ∀ y ∈ post.head?, ¬ P y.kind)
    (hprev : (∃ k, pre = pre' ++ [⟨a', k, c⟩] ∧ n' = k + m) ∨
      pre' = pre ∧ a' = a ∧ n' = m ∧ ∀ x ∈ pre.getLast?, ¬ P x.kind) :
    merge P (pre ++ ⟨a, n, c⟩ :: post) = pre' ++ ⟨a', n', c⟩ :: post' := by
  have h1 : merge P (pre ++ ⟨a, n, c⟩ :: post) = merge P (pre ++ ⟨a, m, c⟩ :: post') ∧
      Spaced P post' ∧ ∀ y ∈ post'.head?, ¬ P y.kind := by
    rcases hnext with ⟨b, k, rfl, rfl⟩ | ⟨rfl, rfl, hhead⟩
    · obtain ⟨hhead, hpost'⟩ := List.isChain_cons.mp hpost
      exact ⟨merge_join hc hc, hpost', fun y hy hP => hhead y hy ⟨hc, hP⟩⟩
    · exact ⟨rfl, hpost, hhead⟩
  have h2 : merge P (pre ++ ⟨a, m, c⟩ :: post') = merge P (pre' ++ ⟨a', n', c⟩ :: post') ∧
      Spaced P pre' ∧ ∀ x ∈ pre'.getLast?, ¬ P x.kind := by
    rcases hprev with ⟨k, rfl, rfl⟩ | ⟨rfl, rfl, rfl, hlast⟩
    · obtain ⟨hpre', -, hlast, -⟩ := spaced_mid.mp hpre
      refine ⟨?_, hpre', fun x hx hP => hlast x hx ⟨hP, hc⟩⟩
      rw [List.append_assoc]
      exact merge_join hc hc
    · exact ⟨rfl, hpre, hlast⟩
  rw [h1.1, h2.1]
  refine Spaced.merge_eq (spaced_mid.mpr ⟨h2.2.1, h1.2.1, ?_, ?_⟩)
  · exact fun x hx hP => h2.2.2 x hx hP.1
  · exact fun y hy hP => h1.2.2 y hy hP.2

/-- What a merge holds of kind `P` begins where a span of kind `P` began. -/
theorem exists_of_mem_merge : ∀ {l : List (Span κ)} {h : Span κ}, h ∈ merge P l → P h.kind →
    ∃ g ∈ l, P g.kind ∧ g.addr = h.addr
  | [], _, hh, _ => by cases hh
  | g :: l, h, hh, hP => by
      have hhead : h ∈ g :: merge P l ∨ P g.kind ∧ g.addr = h.addr := by
        rw [merge_cons] at hh
        cases hm : merge P l with
        | nil =>
          rw [hm] at hh
          exact Or.inl hh
        | cons k t =>
          rw [hm, joinHead] at hh
          split at hh
          · rcases List.mem_cons.mp hh with rfl | hh
            · exact Or.inr ⟨hP, rfl⟩
            · exact Or.inl (List.mem_cons_of_mem _ (List.mem_cons_of_mem _ hh))
          · exact Or.inl hh
      rcases hhead with hh | hg
      · rcases List.mem_cons.mp hh with rfl | hh
        · exact ⟨h, List.mem_cons_self .., hP, rfl⟩
        · obtain ⟨g', hg', hk⟩ := exists_of_mem_merge hh hP
          exact ⟨g', List.mem_cons_of_mem _ hg', hk⟩
      · exact ⟨g, List.mem_cons_self .., hg⟩

/-- What a merge holds that is not of kind `P` was there before. -/
theorem mem_of_mem_merge {h : Span κ} (hh : h ∈ merge P l) (hP : ¬ P h.kind) : h ∈ l := by
  induction l with
  | nil => cases hh
  | cons g l ih =>
    rw [merge_cons] at hh
    cases hm : merge P l with
    | nil =>
      rw [hm] at hh
      rw [List.mem_singleton.mp hh]
      exact List.mem_cons_self ..
    | cons k t =>
      rw [hm, joinHead] at hh
      rw [hm] at ih
      split at hh
      · rename_i hgk
        rcases List.mem_cons.mp hh with rfl | hh
        · exact absurd hgk.1 hP
        · exact List.mem_cons_of_mem _ (ih (List.mem_cons_of_mem _ hh))
      · rcases List.mem_cons.mp hh with rfl | hh
        · exact List.mem_cons_self ..
        · exact List.mem_cons_of_mem _ (ih hh)

end Merge

/-! ## Changing the kind of spans -/

section Mark
variable (c : κ) (Q R : Nat → Prop) [DecidablePred Q] [DecidablePred R]

/-- The spans that begin at a `Q` become spans of kind `c`. -/
def mark (l : List (Span κ)) : List (Span κ) :=
  l.map fun g => if Q g.addr then { g with kind := c } else g

variable {c Q R}

theorem mark_cons : mark c Q (g :: l) = (if Q g.addr then { g with kind := c } else g) :: mark c Q l :=
  rfl

/-- Marking twice is marking at once. -/
theorem mark_mark : mark c Q (mark c R l) = mark c (fun a => R a ∨ Q a) l := by
  unfold mark
  rw [List.map_map]
  refine List.map_congr_left fun g _ => ?_
  by_cases hR : R g.addr <;> by_cases hQ : Q g.addr <;> simp [hR, hQ]

theorem mark_congr (h : ∀ g ∈ l, Q g.addr ↔ R g.addr) : mark c Q l = mark c R l := by
  refine List.map_congr_left fun g hg => ?_
  simp only [h g hg]

/-- **Merging in between makes no difference**, as long as no span of kind `P` is marked. -/
theorem merge_mark [DecidablePred P] (h : ∀ g ∈ l, Q g.addr → ¬ P g.kind) :
    merge P (mark c Q (merge P l)) = merge P (mark c Q l) := by
  induction l with
  | nil => rfl
  | cons g l ih =>
    obtain ⟨hg, hl⟩ := List.forall_mem_cons.mp h
    rw [merge_cons, mark_cons, merge_cons, ← ih hl]
    cases hm : merge P l with
    | nil => rfl
    | cons k t =>
      rw [joinHead]
      split
      · -- neither of two spans that are joined is marked
        rename_i hgk
        obtain ⟨g', hg', hP', haddr⟩ :=
          exists_of_mem_merge (by rw [hm]; exact List.mem_cons_self ..) hgk.2
        have hQg : ¬ Q g.addr := fun hQ => hg hQ hgk.1
        have hQk : ¬ Q k.addr := fun hQ => hl g' hg' (by rw [haddr]; exact hQ) hP'
        rw [mark_cons, mark_cons, merge_cons, merge_cons, if_neg hQg, if_neg hQg, if_neg hQk,
          joinHead_joinHead hgk.1 hgk.2]
      · rfl

end Mark

end Coalescing
