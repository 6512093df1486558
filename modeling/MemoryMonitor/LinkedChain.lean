import Mathlib.Logic.Function.Iterate
import Mathlib.Data.Finset.Card
import Mathlib.Data.List.Iterate
import Mathlib.Data.List.Nodup

/-! # Doubly linked chains

A null-terminated doubly linked list, as two link functions see it.  `Chain p h l`
says that following `nx` from `h` meets exactly the nodes `l` and then `null`,
and that each node's `pv` is the node before it, `p` for the first.

Unlinking a node and linking one in at the front are the two edits.  Both are
stated for *any* new link functions that agree with the edited ones on the nodes
of the chain, so that a client whose links live in a byte memory only has to say
what its two or three stores do to the links of the nodes.
-/
namespace LinkedChain

variable {α : Type} (null : α) (nx pv : α → α)

/-- Following `nx` from `h` meets the nodes `l`, then `null`; `pv` leads back, to
`p` from the first node. -/
def Chain : α → α → List α → Prop
  | _, h, [] => h = null
  | p, h, a :: l => h = a ∧ a ≠ null ∧ pv a = p ∧ Chain a (nx a) l

variable {null nx pv} {nx' pv' : α → α} {p h a : α} {l l₁ l₂ : List α}

/-- A chain depends only on the links of its nodes. -/
theorem Chain.congr : ∀ {p h : α} {l : List α}, Chain null nx pv p h l →
    (∀ x ∈ l, nx' x = nx x ∧ pv' x = pv x) → Chain null nx' pv' p h l
  | _, _, [], hc, _ => hc
  | _, _, a :: l, ⟨h1, h2, h3, h4⟩, he => by
      obtain ⟨hn, hp⟩ := he a (List.mem_cons_self ..)
      refine ⟨h1, h2, hp.trans h3, ?_⟩
      rw [hn]
      exact h4.congr fun x hx => he x (List.mem_cons_of_mem _ hx)

theorem Chain.ne_null : ∀ {p h : α} {l : List α}, Chain null nx pv p h l → ∀ x ∈ l, x ≠ null
  | _, _, [], _, _, hx => by cases hx
  | _, _, a :: l, ⟨_, h2, _, h4⟩, x, hx => by
      rcases List.mem_cons.mp hx with rfl | hx
      · exact h2
      · exact h4.ne_null x hx

/-- The head of a chain is its first node, or `null` when there is none. -/
theorem Chain.head_eq (hc : Chain null nx pv p h l) : h = l.headD null := by
  cases l with
  | nil => exact hc
  | cons a l => exact hc.1

theorem Chain.head_eq_null_iff (hc : Chain null nx pv p h l) : h = null ↔ l = [] := by
  cases l with
  | nil => exact ⟨fun _ => rfl, fun _ => hc⟩
  | cons a l => exact ⟨fun he => absurd (hc.1.symm.trans he) hc.2.1, fun he => by cases he⟩

/-- The next node of `a`, and the chain from there. -/
theorem Chain.tail : ∀ {p h : α} {l₁ : List α}, Chain null nx pv p h (l₁ ++ a :: l₂) →
    Chain null nx pv a (nx a) l₂
  | _, _, [], hc => hc.2.2.2
  | _, _, _ :: _, hc => hc.2.2.2.tail

/-- The back link of a node is the node before it. -/
theorem Chain.prev_eq : ∀ {p h : α} {l₁ : List α}, Chain null nx pv p h (l₁ ++ a :: l₂) →
    pv a = l₁.getLastD p
  | _, _, [], hc => hc.2.2.1
  | _, _, c :: l₁, hc => by
      rw [hc.2.2.2.prev_eq, List.getLastD_cons]

/-- The forward link of the last node before `a` leads to `a`. -/
theorem Chain.next_eq : ∀ {p h c : α} {l₁ : List α}, Chain null nx pv p h (l₁ ++ c :: a :: l₂) →
    nx c = a
  | _, _, _, [], hc => hc.2.2.2.1
  | _, _, _, _ :: _, hc => hc.2.2.2.next_eq

/-! ## Unlinking -/

/-- **Unlinking a node.**  `nx'` and `pv'` bypass `a` and are otherwise the old
links; the chain is the old one without `a`.  When `a` was first, the head moves
to its successor. -/
theorem Chain.unlink [DecidableEq α] : ∀ {p h : α} {l₁ : List α},
    Chain null nx pv p h (l₁ ++ a :: l₂) → (p :: (l₁ ++ a :: l₂)).Nodup →
    (∀ x ∈ l₁ ++ l₂, nx' x = if x = pv a then nx a else nx x) →
    (∀ x ∈ l₁ ++ l₂, pv' x = if x = nx a then pv a else pv x) →
    Chain null nx' pv' p (if l₁ = [] then nx a else h) (l₁ ++ l₂)
  | p, h, [], hc, hd, hn, hp => by
      obtain ⟨-, -, hpa, ht⟩ := hc
      simp only [List.nil_append, if_true] at hn hp ⊢
      cases l₂ with
      | nil => exact ht
      | cons b l₂ =>
        obtain ⟨hb, hbn, -, htl⟩ := ht
        have hnd := List.nodup_cons.mp hd
        have hnd' := List.nodup_cons.mp (List.nodup_cons.mp hnd.2).2
        -- `p` is not a node of the rest, so no forward link but the head's is redirected
        have hnp : ∀ x ∈ b :: l₂, x ≠ pv a := by
          rintro x hx rfl
          exact hnd.1 (by rw [← hpa]; exact List.mem_cons_of_mem _ hx)
        refine ⟨hb, hbn, ?_, ?_⟩
        · rw [hp b (List.mem_cons_self ..), if_pos hb.symm, hpa]
        · rw [hn b (List.mem_cons_self ..), if_neg (hnp b (List.mem_cons_self ..))]
          refine htl.congr fun x hx => ⟨?_, ?_⟩
          · rw [hn x (List.mem_cons_of_mem _ hx), if_neg (hnp x (List.mem_cons_of_mem _ hx))]
          · rw [hp x (List.mem_cons_of_mem _ hx), if_neg]
            rintro rfl
            exact hnd'.1 (by rw [← hb]; exact hx)
  | p, h, c :: l₁, ⟨hh, hcn, hpc, ht⟩, hd, hn, hp => by
      have hnd := List.nodup_cons.mp hd
      have ih := ht.unlink hnd.2
        (fun x hx => hn x (List.mem_cons_of_mem _ hx))
        (fun x hx => hp x (List.mem_cons_of_mem _ hx))
      have hcm : c ∈ c :: l₁ ++ l₂ := List.mem_cons_self ..
      have hcn' : nx' c = if l₁ = [] then nx a else nx c := by
        rw [hn c hcm, ht.prev_eq]
        cases l₁ with
        | nil => simp
        | cons d l₁ =>
          have hcl : c ≠ (d :: l₁).getLastD c := by
            intro he
            have hm : (d :: l₁).getLastD c ∈ d :: l₁ := by
              rw [List.getLastD_cons]
              exact List.getLastD_mem_cons ..
            rw [← he] at hm
            exact (List.nodup_cons.mp hnd.2).1 (List.mem_append_left _ hm)
          rw [if_neg hcl, if_neg (by simp)]
      have hcp : pv' c = pv c := by
        rw [hp c hcm, if_neg]
        -- the successor of `a` comes after `c`
        intro he
        have htl := ht.tail
        cases l₂ with
        | nil => exact hcn (he.trans htl)
        | cons b l₂ =>
          have hb : nx a = b := htl.1
          refine (List.nodup_cons.mp hnd.2).1 ?_
          rw [he, hb]
          simp
      simp only [List.cons_append, reduceCtorEq, if_false]
      refine ⟨hh, hcn, hcp.trans hpc, ?_⟩
      rw [hcn']
      exact ih

/-! ## Linking in at the front -/

/-- **Linking a node in at the front.**  `a` points at the old head and back at
`p`, the old head points back at `a`, and no other link of a node changes. -/
theorem Chain.link [DecidableEq α] (hc : Chain null nx pv p h l) (ha : a ≠ null) (hna : nx' a = h)
    (hpa : pv' a = p) (hn : ∀ x ∈ l, nx' x = nx x)
    (hp : ∀ x ∈ l, pv' x = if x = h then a else pv x) (hd : l.Nodup) :
    Chain null nx' pv' p a (a :: l) := by
  refine ⟨rfl, ha, hpa, ?_⟩
  rw [hna]
  cases l with
  | nil => exact hc
  | cons b l =>
    obtain ⟨hb, hbn, -, ht⟩ := hc
    refine ⟨hb, hbn, ?_, ?_⟩
    · rw [hp b (List.mem_cons_self ..), if_pos hb.symm]
    · rw [hn b (List.mem_cons_self ..)]
      refine ht.congr fun x hx => ⟨hn x (List.mem_cons_of_mem _ hx), ?_⟩
      rw [hp x (List.mem_cons_of_mem _ hx), if_neg]
      rintro rfl
      exact (List.nodup_cons.mp hd).1 (by rw [← hb]; exact hx)

/-- The nodes of a chain are determined by its links and its head. -/
theorem Chain.unique : ∀ {p h : α} {l l' : List α}, Chain null nx pv p h l →
    Chain null nx pv p h l' → l = l'
  | _, _, [], [], _, _ => rfl
  | _, _, [], _ :: _, hc, hc' => absurd (hc'.1.symm.trans hc) hc'.2.1
  | _, _, _ :: _, [], hc, hc' => absurd (hc.1.symm.trans hc') hc.2.1
  | _, _, a :: l, b :: l', hc, hc' => by
      obtain rfl : a = b := hc.1.symm.trans hc'.1
      rw [hc.2.2.2.unique hc'.2.2.2]

/-! ## Walks that check every node

A reader that follows `nx` and checks each node it meets does not know where it is
going: the walk ends at `null`, at a node that fails the check, or nowhere.  When the
check includes that the next node's `pv` leads back, it can run in circles only through
its starting point. -/

section Checked
variable (null nx) (ok : α → Prop)

/-- The first `n` places of the walk from `h` are nodes that pass the check. -/
def Passes (h : α) (n : Nat) : Prop := ∀ j < n, nx^[j] h ≠ null ∧ ok (nx^[j] h)

/-- The walk from `h` meets nodes that pass the check, and then `null`. -/
def Ends (h : α) : Prop := ∃ k, Passes null nx ok h k ∧ nx^[k] h = null

/-- The walk from `h` meets nodes that pass the check, and then `h` again. -/
def Ring (h : α) : Prop := ∃ k, 0 < k ∧ Passes null nx ok h k ∧ nx^[k] h = h

variable {null nx ok}

theorem passes_succ {n : Nat} :
    Passes null nx ok h (n + 1) ↔ (h ≠ null ∧ ok h) ∧ Passes null nx ok (nx h) n := by
  constructor
  · intro hp
    exact ⟨hp 0 (by omega), fun j hj => hp (j + 1) (by omega)⟩
  · rintro ⟨h0, hp⟩ j hj
    cases j with
    | zero => exact h0
    | succ j => exact hp j (by omega)

/-- Around a ring the walk comes back after every number of rounds. -/
theorem iterate_rounds {k : Nat} (hk : nx^[k] h = h) (n : Nat) : nx^[k * n] h = h := by
  induction n with
  | zero => rfl
  | succ n ih => rw [Nat.mul_succ, Function.iterate_add_apply, hk, ih]

/-- **A ring is walked for ever.** -/
theorem Ring.passes (hr : Ring null nx ok h) (n : Nat) : Passes null nx ok h n := by
  obtain ⟨k, hpos, hp, hk⟩ := hr
  intro j _
  have hj : nx^[j] h = nx^[j % k] h := by
    calc nx^[j] h = nx^[j % k + k * (j / k)] h := by rw [Nat.mod_add_div]
      _ = nx^[j % k] h := by rw [Function.iterate_add_apply, iterate_rounds hk]
  rw [hj]
  exact hp _ (Nat.mod_lt _ hpos)

theorem Ring.not_ends (hr : Ring null nx ok h) : ¬ Ends null nx ok h := by
  rintro ⟨k, -, hk⟩
  exact (hr.passes (k + 1) k (by omega)).1 hk

section Linked
variable (hback : ∀ a, ok a → nx a ≠ null → pv (nx a) = a)
include hback

/-- **A walk that meets a node twice is a ring**: the back links lead from both visits
to the start. -/
theorem Passes.ring_of_repeat {n i j : Nat} (hp : Passes null nx ok h n) (hij : i < j) (hj : j < n)
    (he : nx^[i] h = nx^[j] h) : Ring null nx ok h := by
  induction i generalizing j with
  | zero => exact ⟨j, hij, fun m hm => hp m (by omega), he.symm⟩
  | succ i ih =>
    cases j with
    | zero => omega
    | succ j =>
      refine ih (Nat.lt_of_succ_lt_succ hij) (Nat.lt_of_succ_lt hj) ?_
      have hback' : ∀ m, m + 1 < n → pv (nx^[m + 1] h) = nx^[m] h := by
        intro m hm
        have hn := (hp (m + 1) hm).1
        rw [Function.iterate_succ_apply'] at hn ⊢
        exact hback _ (hp m (by omega)).2 hn
      rw [← hback' i (by omega), ← hback' j (by omega), he]

/-- **A walk longer than there are nodes is a ring.** -/
theorem Passes.ring_of_card {n : Nat} (hp : Passes null nx ok h n) {S : Finset α} (hS : S.card < n)
    (hin : ∀ j < n, nx^[j] h ∈ S) : Ring null nx ok h := by
  obtain ⟨i, hi, j, hj, hne, he⟩ :=
    Finset.exists_ne_map_eq_of_card_lt_of_maps_to (s := Finset.range n) (t := S)
      (f := fun j => nx^[j] h) (by rw [Finset.card_range]; exact hS)
      (fun j hj => hin j (Finset.mem_range.mp hj))
  rw [Finset.mem_range] at hi hj
  rcases Nat.lt_or_gt_of_ne hne with hlt | hlt
  · exact hp.ring_of_repeat hback hlt hj he
  · exact hp.ring_of_repeat hback hlt hi he.symm

/-- A walk that ends meets a chain. -/
theorem Passes.chain {k : Nat} (hp : Passes null nx ok h k) (hk : nx^[k] h = null) :
    Chain null nx pv (pv h) h (List.iterate nx h k) := by
  induction k generalizing h with
  | zero => exact hk
  | succ k ih =>
    obtain ⟨⟨hne, hok⟩, hp'⟩ := passes_succ.mp hp
    refine ⟨rfl, hne, rfl, ?_⟩
    by_cases hn : nx h = null
    · cases k with
      | zero => exact hn
      | succ k => exact absurd hn (hp' 0 (by omega)).1
    · have := ih hp' hk
      rwa [hback h hok hn] at this

/-- **The nodes of a walk that ends are distinct.** -/
theorem Passes.nodup {k : Nat} (hp : Passes null nx ok h k) (hk : nx^[k] h = null) :
    (List.iterate nx h k).Nodup := by
  have hinj : ∀ i j, i < j → j < k → nx^[i] h ≠ nx^[j] h := fun i j hij hj he =>
    (hp.ring_of_repeat hback hij hj he).not_ends ⟨k, hp, hk⟩
  rw [List.nodup_iff_injective_get]
  intro i j he
  have hi : i.val < k := Nat.lt_of_lt_of_eq i.isLt (List.length_iterate ..)
  have hj : j.val < k := Nat.lt_of_lt_of_eq j.isLt (List.length_iterate ..)
  simp only [List.get_eq_getElem, List.getElem_iterate] at he
  rcases Nat.lt_trichotomy i.val j.val with hlt | heq | hlt
  · exact absurd he (hinj _ _ hlt hj)
  · exact Fin.ext heq
  · exact absurd he.symm (hinj _ _ hlt hi)

end Linked

end Checked

end LinkedChain
