import MemoryMonitor.HeapWalk
import Mathlib.Order.Interval.Finset.Nat

/-! # What `allocator_verify_integrity` checks

The integrity check is meant for heaps that may be corrupted, so nothing is assumed
here about the bytes: the heap range can be read, the heads point into it, and that is
all.  It makes two walks, one along the links of each list and one through the range
by `block_size`, and neither looks at what the other one met.

The walk along a list compares each node's links with those of its neighbours.  That
rules out every cycle that does not contain the head; a ring through the head looks
right at every node, and the walk follows it for ever.
-/
namespace MemoryMonitor

open ByteMemory LinkedChain

/-! ## One node of a list -/

/-- The checks of `free_list_verify_integrity` on one node of list `i`. -/
def verifyNode (s : State) (i : Fin 8) (curr : Nat) : Except Fault Bool := do
  s.deref curr 24
  if magicHeader s.mem curr ≠ allocMagicHeader ∨ isFree s.mem curr = 0 ∨
      blockSize s.mem curr < 64 then .ok false
  else if s.brk ≠ ptrFailed ∧
      (s.brk ≤ curr ∨ s.brk - curr < blockSize s.mem curr) then .ok false
  else do
    s.deref (curr + 32) 16
    if prev s.mem curr = 0 ∧ s.heads i ≠ curr then .ok false
    else do
      s.derefNonNull (prev s.mem curr) 32 8
      if prev s.mem curr ≠ 0 ∧ next s.mem (prev s.mem curr) ≠ curr then .ok false
      else do
        s.derefNonNull (next s.mem curr) 40 8
        if next s.mem curr ≠ 0 ∧ prev s.mem (next s.mem curr) ≠ curr then .ok false
        else do
          let footer := curr + blockSize s.mem curr - 16
          s.deref footer 16
          if magicFooter s.mem footer ≠ allocMagicFooter ∨
              footerBlockSize s.mem footer ≠ blockSize s.mem curr then .ok false
          else .ok true

/-- A check that fails ends what comes after it too. -/
theorem reject_bind {c : Prop} [Decidable c] {x : Except Fault Bool} {k : Except Fault Bool} :
    ((if c then .ok false else x) >>= fun ok => if ok = true then k else .ok false) =
      if c then .ok false else x >>= fun ok => if ok = true then k else .ok false := by
  split <;> rfl

/-- The loop checks the node it is at and goes on to the next. -/
theorem verifyList_succ (s : State) (i : Fin 8) (fuel curr : Nat) :
    verifyList s i (fuel + 1) curr = if curr = 0 then .ok true else
      verifyNode s i curr >>= fun ok =>
        if ok = true then verifyList s i fuel (next s.mem curr) else .ok false := by
  rw [verifyList]
  unfold verifyNode
  simp only [bind_assoc, reject_bind, ok_bind, if_true]

/-- What the checks of a node of list `i` amount to. -/
structure NodeOk (s : State) (i : Fin 8) (a : Nat) : Prop where
  header_read : s.Accessible a 24
  magic : magicHeader s.mem a = allocMagicHeader
  free : isFree s.mem a ≠ 0
  size_ge : 64 ≤ blockSize s.mem a
  within : s.brk ≠ ptrFailed → a < s.brk ∧ blockSize s.mem a ≤ s.brk - a
  links_read : s.Accessible (a + 32) 16
  first : prev s.mem a = 0 → s.heads i = a
  prev_read : prev s.mem a ≠ 0 → s.Accessible (prev s.mem a + 32) 8
  prev_next : prev s.mem a ≠ 0 → next s.mem (prev s.mem a) = a
  next_read : next s.mem a ≠ 0 → s.Accessible (next s.mem a + 40) 8
  next_prev : next s.mem a ≠ 0 → prev s.mem (next s.mem a) = a
  footer_read : s.Accessible (a + blockSize s.mem a - 16) 16
  footer_magic : magicFooter s.mem (a + blockSize s.mem a - 16) = allocMagicFooter
  footer_size : footerBlockSize s.mem (a + blockSize s.mem a - 16) = blockSize s.mem a

theorem State.derefNonNull_ok {s : State} {p off n : Nat} {u : Unit}
    (h : s.derefNonNull p off n = .ok u) (hp : p ≠ 0) : s.Accessible (p + off) n := by
  unfold State.derefNonNull at h
  rw [if_pos hp] at h
  exact State.deref_ok h

/-- A check that let the rest go on to answer `true` did not hold. -/
theorem accept_ok {c : Prop} [Decidable c] {x : Except Fault Bool}
    (h : (if c then .ok false else x) = .ok true) : ¬ c ∧ x = .ok true := by
  split at h
  · cases h
  · exact ⟨‹_›, h⟩

theorem verifyNode_true {s : State} {i : Fin 8} {a : Nat} :
    verifyNode s i a = .ok true ↔ NodeOk s i a := by
  constructor
  · intro h
    unfold verifyNode at h
    obtain ⟨_, hread, h⟩ := bind_ok h
    obtain ⟨hhead, h⟩ := accept_ok h
    obtain ⟨hwithin, h⟩ := accept_ok h
    obtain ⟨_, hlinks, h⟩ := bind_ok h
    obtain ⟨hfirst, h⟩ := accept_ok h
    obtain ⟨_, hprev, h⟩ := bind_ok h
    obtain ⟨hpn, h⟩ := accept_ok h
    obtain ⟨_, hnext, h⟩ := bind_ok h
    obtain ⟨hnp, h⟩ := accept_ok h
    obtain ⟨_, hfoot, h⟩ := bind_ok h
    obtain ⟨hfooter, -⟩ := accept_ok h
    push Not at hhead hwithin hfirst hpn hnp hfooter
    exact ⟨State.deref_ok hread, hhead.1, hhead.2.1, hhead.2.2, hwithin, State.deref_ok hlinks,
      hfirst, State.derefNonNull_ok hprev, hpn, State.derefNonNull_ok hnext, hnp,
      State.deref_ok hfoot, hfooter.1, hfooter.2⟩
  · intro N
    unfold verifyNode
    have hwithin : ¬ (s.brk ≠ ptrFailed ∧ (s.brk ≤ a ∨ s.brk - a < blockSize s.mem a)) := by
      rintro ⟨hb, h⟩
      have := N.within hb
      omega
    rw [State.deref_pos N.header_read, ok_bind,
      if_neg (by simp [N.magic, N.free, N.size_ge]), if_neg hwithin,
      State.deref_pos N.links_read, ok_bind, if_neg (fun h => h.2 (N.first h.1)),
      State.derefNonNull_pos N.prev_read, ok_bind, if_neg (fun h => h.2 (N.prev_next h.1)),
      State.derefNonNull_pos N.next_read, ok_bind, if_neg (fun h => h.2 (N.next_prev h.1))]
    simp only
    rw [State.deref_pos N.footer_read, ok_bind, if_neg (by simp [N.footer_magic, N.footer_size])]

/-! ## Steps that do not loop -/

/-- The computation comes to an end, if only through a fault. -/
def Halts {α : Type} (x : Except Fault α) : Prop := x ≠ .error .diverge

theorem halts_ok {α : Type} (a : α) : Halts (.ok a : Except Fault α) := by
  intro h
  cases h

theorem halts_deref (s : State) (a n : Nat) : Halts (s.deref a n) := by
  unfold State.deref
  split
  · exact halts_ok _
  · intro h
    cases h

theorem halts_derefNonNull (s : State) (p off n : Nat) : Halts (s.derefNonNull p off n) := by
  unfold State.derefNonNull
  split
  · exact halts_deref _ _ _
  · exact halts_ok _

theorem Halts.bind {α β : Type} {x : Except Fault α} {f : α → Except Fault β} (hx : Halts x)
    (hf : ∀ a, Halts (f a)) : Halts (x >>= f) := by
  cases x with
  | error e => exact fun h => hx (by cases h; rfl)
  | ok a => exact hf a

theorem Halts.ite {α : Type} {c : Prop} [Decidable c] {x y : Except Fault α} (hx : Halts x)
    (hy : Halts y) : Halts (if c then x else y) := by
  split
  · exact hx
  · exact hy

theorem halts_verifyNode (s : State) (i : Fin 8) (a : Nat) : Halts (verifyNode s i a) := by
  unfold verifyNode
  refine (halts_deref _ _ _).bind fun _ => .ite (halts_ok _) (.ite (halts_ok _) ?_)
  refine (halts_deref _ _ _).bind fun _ => .ite (halts_ok _) ?_
  refine (halts_derefNonNull _ _ _ _).bind fun _ => .ite (halts_ok _) ?_
  refine (halts_derefNonNull _ _ _ _).bind fun _ => .ite (halts_ok _) ?_
  exact (halts_deref _ _ _).bind fun _ => .ite (halts_ok _) (halts_ok _)

/-! ## One list -/

/-- The list with head `heads i`, seen by the reader: it ends at `NULL` after nodes that
all pass. -/
def State.ListEnds (s : State) (i : Fin 8) : Prop :=
  Ends 0 (next s.mem) (NodeOk s i) (s.heads i)

/-- Following the links from `heads i` leads through nodes that all pass back to
`heads i`. -/
def State.ListRing (s : State) (i : Fin 8) : Prop :=
  Ring 0 (next s.mem) (NodeOk s i) (s.heads i)

/-- The loop runs out of any number of steps exactly when so many nodes pass. -/
theorem verifyList_diverge {s : State} {i : Fin 8} {n h : Nat} :
    verifyList s i n h = .error .diverge ↔ Passes 0 (next s.mem) (NodeOk s i) h n := by
  induction n generalizing h with
  | zero => exact ⟨fun _ j hj => absurd hj (Nat.not_lt_zero j), fun _ => rfl⟩
  | succ n ih =>
    rw [verifyList_succ, passes_succ, ← ih, ← verifyNode_true]
    by_cases h0 : h = 0
    · simp [h0]
    · rw [if_neg h0]
      cases hv : verifyNode s i h with
      | error e =>
        have he : e ≠ .diverge := fun he => halts_verifyNode s i h (by rw [hv, he])
        simp [he, Bind.bind, Except.bind]
      | ok b => cases b <;> simp [h0]

/-- The loop accepts exactly a list that ends in time. -/
theorem verifyList_accepts {s : State} {i : Fin 8} {n h : Nat} :
    verifyList s i n h = .ok true ↔
      ∃ k < n, Passes 0 (next s.mem) (NodeOk s i) h k ∧ (next s.mem)^[k] h = 0 := by
  induction n generalizing h with
  | zero => simp [verifyList]
  | succ n ih =>
    rw [verifyList_succ]
    by_cases h0 : h = 0
    · rw [if_pos h0]
      exact ⟨fun _ => ⟨0, by omega, fun j hj => absurd hj (Nat.not_lt_zero j), h0⟩, fun _ => rfl⟩
    · rw [if_neg h0]
      constructor
      · intro hr
        obtain ⟨b, hb, hr⟩ := bind_ok hr
        cases b with
        | false => cases hr
        | true =>
          obtain ⟨k, hk, hp, hend⟩ := ih.mp hr
          exact ⟨k + 1, by omega, passes_succ.mpr ⟨⟨h0, verifyNode_true.mp hb⟩, hp⟩, hend⟩
      · rintro ⟨k, hk, hp, hend⟩
        cases k with
        | zero => exact absurd hend h0
        | succ k =>
          obtain ⟨⟨-, hN⟩, hp⟩ := passes_succ.mp hp
          rw [verifyNode_true.mpr hN, ok_bind, if_pos rfl]
          exact ih.mpr ⟨k, by omega, hp, hend⟩

theorem NodeOk.back {s : State} {i : Fin 8} : ∀ a, NodeOk s i a → next s.mem a ≠ 0 →
    prev s.mem (next s.mem a) = a := fun _ N hn => N.next_prev hn

theorem next_lt (m : Mem) (a : Nat) : next m a < 2 ^ 64 := readLE_lt m 8 (a + 32)

/-- More passing nodes than addresses: the links lead back to the head. -/
theorem State.listRing_of_passes {s : State} {i : Fin 8} (hhead : s.heads i < 2 ^ 64)
    (hp : Passes 0 (next s.mem) (NodeOk s i) (s.heads i) traversalFuel) : s.ListRing i := by
  refine hp.ring_of_card NodeOk.back (S := Finset.Ico 1 (2 ^ 64)) ?_ ?_
  · rw [Nat.card_Ico]
    unfold traversalFuel
    omega
  · intro j hj
    refine Finset.mem_Ico.mpr ⟨Nat.pos_of_ne_zero (hp j hj).1, ?_⟩
    cases j with
    | zero => exact hhead
    | succ j => rw [Function.iterate_succ_apply']; exact next_lt ..

/-- **The loop over a list goes on for ever exactly when the list is a ring.** -/
theorem State.verifyList_diverge_iff {s : State} {i : Fin 8} (hhead : s.heads i < 2 ^ 64) :
    verifyList s i traversalFuel (s.heads i) = .error .diverge ↔ s.ListRing i := by
  rw [verifyList_diverge]
  exact ⟨s.listRing_of_passes hhead, fun hr => hr.passes _⟩

/-- **The loop over a list accepts exactly when the list ends.** -/
theorem State.verifyList_accepts_iff {s : State} {i : Fin 8} (hhead : s.heads i < 2 ^ 64) :
    verifyList s i traversalFuel (s.heads i) = .ok true ↔ s.ListEnds i := by
  rw [verifyList_accepts]
  refine ⟨fun ⟨k, _, hk⟩ => ⟨k, hk⟩, fun ⟨k, hp, hend⟩ => ⟨k, ?_, hp, hend⟩⟩
  -- a longer walk would be a ring, which never ends
  refine Nat.lt_of_not_le fun hle => ?_
  exact (s.listRing_of_passes hhead fun j hj => hp j (by omega)).not_ends ⟨k, hp, hend⟩

/-! ## The eight lists -/

/-- The lists are checked in turn, up to the first that is a ring. -/
def State.MeetsRing (s : State) : Prop := ∃ i, s.ListRing i ∧ ∀ j < i, s.ListEnds j

section Lists
variable {s : State} (hheads : ∀ i, s.heads i < 2 ^ 64)
include hheads

theorem verifyLists_accepts_iff {is : List (Fin 8)} :
    verifyLists s is = .ok true ↔ ∀ i ∈ is, s.ListEnds i := by
  induction is with
  | nil => simp [verifyLists]
  | cons i is ih =>
    rw [verifyLists, List.forall_mem_cons, ← ih, ← s.verifyList_accepts_iff (hheads i)]
    cases verifyList s i traversalFuel (s.heads i) with
    | error e => simp [Bind.bind, Except.bind]
    | ok b => cases b <;> simp

theorem verifyLists_diverge_iff {is : List (Fin 8)} :
    verifyLists s is = .error .diverge ↔
      ∃ pre i post, is = pre ++ i :: post ∧ s.ListRing i ∧ ∀ j ∈ pre, s.ListEnds j := by
  induction is with
  | nil => simp [verifyLists]
  | cons i is ih =>
    rw [verifyLists]
    constructor
    · intro h
      cases hv : verifyList s i traversalFuel (s.heads i) with
      | error e =>
        rw [hv] at h
        cases h
        exact ⟨[], i, is, rfl, (s.verifyList_diverge_iff (hheads i)).mp hv, by simp⟩
      | ok b =>
        rw [hv, ok_bind] at h
        cases b with
        | false => cases h
        | true =>
          obtain ⟨pre, j, post, rfl, hj, hpre⟩ := ih.mp h
          refine ⟨i :: pre, j, post, rfl, hj, ?_⟩
          exact List.forall_mem_cons.mpr ⟨(s.verifyList_accepts_iff (hheads i)).mp hv, hpre⟩
    · rintro ⟨pre, j, post, hs, hj, hpre⟩
      cases pre with
      | nil =>
        obtain ⟨rfl, rfl⟩ := List.cons.inj hs
        rw [(s.verifyList_diverge_iff (hheads i)).mpr hj]
        rfl
      | cons k pre =>
        obtain ⟨rfl, rfl⟩ := List.cons.inj hs
        obtain ⟨hk, hpre⟩ := List.forall_mem_cons.mp hpre
        rw [(s.verifyList_accepts_iff (hheads i)).mpr hk, ok_bind, if_pos rfl]
        exact ih.mpr ⟨pre, j, post, rfl, hj, hpre⟩

omit hheads in
/-- What stands before `i` in the list of all indices is what is below `i`. -/
theorem finRange_split {n : Nat} {pre post : List (Fin n)} {i : Fin n}
    (h : List.finRange n = pre ++ i :: post) (j : Fin n) : j ∈ pre ↔ j < i := by
  have hsort := List.pairwise_lt_finRange n
  rw [h, List.pairwise_append] at hsort
  obtain ⟨-, hpost, hpre⟩ := hsort
  refine ⟨fun hj => hpre j hj i (List.mem_cons_self ..), fun hlt => ?_⟩
  have hj : j ∈ pre ++ i :: post := h ▸ List.mem_finRange j
  rcases List.mem_append.mp hj with hj | hj
  · exact hj
  · rcases List.mem_cons.mp hj with rfl | hj
    · exact absurd hlt (lt_irrefl _)
    · exact absurd hlt (lt_asymm ((List.pairwise_cons.mp hpost).1 j hj))

/-- **`free_list_verify_integrity` goes on for ever exactly when it meets a ring.** -/
theorem freeListVerifyIntegrity_diverge_iff :
    freeListVerifyIntegrity s = .error .diverge ↔ s.MeetsRing := by
  unfold freeListVerifyIntegrity
  rw [verifyLists_diverge_iff hheads]
  constructor
  · rintro ⟨pre, i, post, hs, hi, hpre⟩
    exact ⟨i, hi, fun j hj => hpre j ((finRange_split hs j).mpr hj)⟩
  · rintro ⟨i, hi, hlt⟩
    obtain ⟨pre, post, hs⟩ := List.append_of_mem (List.mem_finRange i)
    exact ⟨pre, i, post, hs, hi, fun j hj => hlt j ((finRange_split hs j).mp hj)⟩

theorem freeListVerifyIntegrity_accepts_iff :
    freeListVerifyIntegrity s = .ok true ↔ ∀ i, s.ListEnds i := by
  unfold freeListVerifyIntegrity
  rw [verifyLists_accepts_iff hheads]
  exact ⟨fun h i => h i (List.mem_finRange i), fun h i _ => h i⟩

end Lists

/-! ## The walk through the heap -/

/-- What the second walk checks of a block: header and footer match. -/
structure BlockMatches (m : Mem) (b : Nat) : Prop where
  aligned : b % 16 = 0
  magic : magicHeader m b = allocMagicHeader
  size_ge : 64 ≤ blockSize m b
  size_aligned : blockSize m b % 16 = 0
  footer_magic : magicFooter m (b + blockSize m b - 16) = allocMagicFooter
  footer_size : footerBlockSize m (b + blockSize m b - 16) = blockSize m b

/-- Each step of the walk brings the break closer. -/
theorem halts_verifyHeap {s : State} {n a : Nat} (h : s.brk - a < n) :
    Halts (verifyHeap s n a) := by
  induction n generalizing a with
  | zero => omega
  | succ n ih =>
    rw [verifyHeap]
    refine .ite (halts_ok _) (.ite (halts_ok _) (.ite (halts_ok _) ?_))
    refine (halts_deref _ _ _).bind fun _ => ?_
    split
    · exact halts_ok _
    · refine (halts_deref _ _ _).bind fun _ => .ite (halts_ok _) (ih ?_)
      omega

/-- The walk reads nothing outside the heap. -/
theorem verifyHeap_returns {s : State} {n a : Nat} (hfl : s.brkFloor ≤ a) (h : s.brk - a < n) :
    ∃ ok, verifyHeap s n a = .ok ok := by
  induction n generalizing a with
  | zero => omega
  | succ n ih =>
    rw [verifyHeap]
    split
    · exact ⟨_, rfl⟩
    split
    · exact ⟨_, rfl⟩
    split
    · exact ⟨_, rfl⟩
    rw [State.deref_pos (Or.inl ⟨hfl, by omega⟩), ok_bind]
    split
    · exact ⟨_, rfl⟩
    simp only
    rw [State.deref_pos (Or.inl ⟨by omega, by omega⟩), ok_bind]
    split
    · exact ⟨_, rfl⟩
    · exact ih (by omega) (by omega)

/-- **What the second walk accepts is tiled by blocks** whose headers and footers match. -/
theorem verifyHeap_accepts {s : State} {n a : Nat} (hle : a ≤ s.brk)
    (h : verifyHeap s n a = .ok true) :
    ∃ blocks, Walk s.mem a blocks s.brk ∧ ∀ b ∈ blocks, BlockMatches s.mem b := by
  induction n generalizing a with
  | zero => cases h
  | succ n ih =>
    rw [verifyHeap] at h
    by_cases hend : s.brk ≤ a
    · exact ⟨[], Nat.le_antisymm hle hend, by simp⟩
    rw [if_neg hend] at h
    obtain ⟨-, h⟩ := accept_ok h
    obtain ⟨h16, h⟩ := accept_ok h
    obtain ⟨_, -, h⟩ := bind_ok h
    obtain ⟨hhead, h⟩ := accept_ok h
    obtain ⟨_, -, h⟩ := bind_ok h
    obtain ⟨hfoot, h⟩ := accept_ok h
    push Not at h16 hhead hfoot
    obtain ⟨hmagic, hge, hal, hin⟩ := hhead
    obtain ⟨blocks, hw, hb⟩ := ih (by omega) h
    refine ⟨a :: blocks, ⟨rfl, by omega, hw⟩, ?_⟩
    exact List.forall_mem_cons.mpr ⟨⟨h16, hmagic, hge, hal, hfoot.1, hfoot.2⟩, hb⟩

/-! ## The whole check -/

/-- The heap range can be read, and the heads are null or point into it. -/
structure State.Checkable (s : State) : Prop where
  start_ne : s.heapStart ≠ 0
  floor : s.brkFloor ≤ s.heapStart
  le : s.heapStart ≤ s.brk
  limit : s.brk ≤ addrLimit
  head : ∀ i, s.heads i = 0 ∨ s.heapStart ≤ s.heads i ∧ s.heads i < s.brk

namespace State.Checkable
variable {s : State} (hs : s.Checkable)
include hs

theorem heads_lt (i : Fin 8) : s.heads i < 2 ^ 64 := by
  have hlim := hs.limit
  unfold addrLimit at hlim
  rcases hs.head i with h | h <;> omega

theorem brk_ne : s.brk ≠ ptrFailed := by
  have hlim := hs.limit
  unfold addrLimit at hlim
  unfold ptrFailed
  omega

/-- The lists are checked first, and then the range. -/
theorem verify_eq : allocatorVerifyIntegrity s = freeListVerifyIntegrity s >>= fun ok =>
    if ok = true then verifyHeap s traversalFuel s.heapStart else .ok false := by
  have h0 := hs.start_ne
  have hle := hs.le
  have hb := hs.brk_ne
  have hlim := hs.limit
  have hst : s.heapStart ≠ ptrFailed := by
    unfold addrLimit at hlim
    unfold ptrFailed
    omega
  unfold allocatorVerifyIntegrity
  congr 1
  funext ok
  cases ok with
  | false => rfl
  | true => rw [if_neg (by simp), if_pos ⟨h0, hst, by omega, hb, hle⟩, if_pos rfl]

theorem distance_lt : s.brk - s.heapStart < traversalFuel := by
  have hlim := hs.limit
  unfold addrLimit at hlim
  unfold traversalFuel
  omega

/-- **The integrity check goes on for ever exactly when it meets a ring.** -/
theorem verify_diverge_iff : allocatorVerifyIntegrity s = .error .diverge ↔ s.MeetsRing := by
  rw [← freeListVerifyIntegrity_diverge_iff hs.heads_lt, hs.verify_eq]
  cases freeListVerifyIntegrity s with
  | error e => exact ⟨fun h => by cases h; rfl, fun h => by cases h; rfl⟩
  | ok b =>
    cases b with
    | false => exact ⟨(nomatch ·), (nomatch ·)⟩
    | true =>
      refine ⟨fun h => ?_, (nomatch ·)⟩
      exact absurd h (halts_verifyHeap hs.distance_lt)

end State.Checkable

/-! ## Links that stay in the heap -/

/-- A header at `a` lies in the heap. -/
def State.HoldsHeader (s : State) (a : Nat) : Prop := s.heapStart ≤ a ∧ a + 48 ≤ s.brk

instance (s : State) (a : Nat) : Decidable (s.HoldsHeader a) := inferInstanceAs (Decidable (_ ∧ _))

/-- The places the links lead to from the heads. -/
inductive State.Linked (s : State) : Nat → Prop
  | head {i : Fin 8} (h : s.heads i ≠ 0) : s.Linked (s.heads i)
  | next {a : Nat} (ha : s.Linked a) (h : next s.mem a ≠ 0) : s.Linked (next s.mem a)

/-- The heads and the `next` and `prev` fields met from there point at headers in the
heap, or are null. -/
def State.LinksInHeap (s : State) : Prop :=
  ∀ a, s.Linked a → s.HoldsHeader a ∧ (prev s.mem a ≠ 0 → s.HoldsHeader (prev s.mem a))

section Returns
variable {s : State} (hs : s.Checkable) (hl : s.LinksInHeap)
include hs hl

theorem verifyNode_returns {i : Fin 8} {a : Nat} (ha : s.Linked a) :
    ∃ ok, verifyNode s i a = .ok ok := by
  have hfl := hs.floor
  have hbrk := hs.brk_ne
  obtain ⟨⟨h1, h2⟩, hp⟩ := hl a ha
  have hread : ∀ {b n}, s.heapStart ≤ b → b + n ≤ s.brk → s.Accessible b n :=
    fun h h' => Or.inl ⟨by omega, h'⟩
  unfold verifyNode
  rw [State.deref_pos (hread h1 (by omega)), ok_bind]
  split
  · exact ⟨_, rfl⟩
  split
  · exact ⟨_, rfl⟩
  next hin =>
  rw [State.deref_pos (hread (by omega) (by omega)), ok_bind]
  split
  · exact ⟨_, rfl⟩
  rw [State.derefNonNull_pos fun h => by
    obtain ⟨h3, h4⟩ := hp h
    exact hread (by omega) (by omega), ok_bind]
  split
  · exact ⟨_, rfl⟩
  rw [State.derefNonNull_pos fun h => by
    obtain ⟨⟨h3, h4⟩, -⟩ := hl _ (ha.next h)
    exact hread (by omega) (by omega), ok_bind]
  split
  · exact ⟨_, rfl⟩
  simp only
  rw [State.deref_pos (hread (by omega) (by omega)), ok_bind]
  split <;> exact ⟨_, rfl⟩

/-- The loop over a list returns, or goes on for ever. -/
theorem verifyList_returns {i : Fin 8} {n a : Nat} (ha : a ≠ 0 → s.Linked a)
    (h : Halts (verifyList s i n a)) : ∃ ok, verifyList s i n a = .ok ok := by
  induction n generalizing a with
  | zero => exact absurd rfl h
  | succ n ih =>
    rw [verifyList_succ] at h ⊢
    by_cases h0 : a = 0
    · exact ⟨true, if_pos h0⟩
    rw [if_neg h0] at h ⊢
    obtain ⟨ok, hok⟩ := verifyNode_returns hs hl (i := i) (ha h0)
    rw [hok, ok_bind] at h ⊢
    cases ok with
    | false => exact ⟨false, rfl⟩
    | true => exact ih (fun hn => (ha h0).next hn) h

theorem verifyLists_returns {is : List (Fin 8)} (h : Halts (verifyLists s is)) :
    ∃ ok, verifyLists s is = .ok ok := by
  induction is with
  | nil => exact ⟨true, rfl⟩
  | cons i is ih =>
    rw [verifyLists] at h ⊢
    have hi : Halts (verifyList s i traversalFuel (s.heads i)) := fun he => h (by rw [he]; rfl)
    obtain ⟨ok, hok⟩ := verifyList_returns hs hl (fun h0 => State.Linked.head h0) hi
    rw [hok, ok_bind] at h ⊢
    cases ok with
    | false => exact ⟨false, rfl⟩
    | true => exact ih h

theorem allocatorVerifyIntegrity_returns (h : Halts (allocatorVerifyIntegrity s)) :
    ∃ ok, allocatorVerifyIntegrity s = .ok ok := by
  rw [hs.verify_eq] at h ⊢
  have hlists : Halts (verifyLists s (List.finRange 8)) := fun he =>
    h (by rw [freeListVerifyIntegrity, he]; rfl)
  obtain ⟨ok, hok⟩ := verifyLists_returns hs hl hlists
  rw [freeListVerifyIntegrity, hok, ok_bind]
  cases ok with
  | false => exact ⟨false, rfl⟩
  | true => exact verifyHeap_returns hs.floor hs.distance_lt

end Returns

/-- **The integrity check ends exactly when it meets no ring**, whatever the heap holds.
And when the links stay in the heap, it then returns 0 or -1. -/
theorem integrity_check_ends_iff {s : State} (hs : s.Checkable) :
    (allocatorVerifyIntegrity s ≠ .error .diverge ↔ ¬ s.MeetsRing) ∧
      (s.LinksInHeap → ((∃ ok, allocatorVerifyIntegrity s = .ok ok) ↔ ¬ s.MeetsRing)) := by
  rw [← hs.verify_diverge_iff]
  refine ⟨Iff.rfl, fun hl => ⟨?_, allocatorVerifyIntegrity_returns hs hl⟩⟩
  rintro ⟨ok, hok⟩
  rw [hok]
  exact halts_ok ok

/-- A used block of 160 bytes at 4176, and a free block of 80 bytes on each side of it:
the one at 4336 is first in the list, the one at 4096 second. -/
def twoFreeBlocks : State where
  mem :=
    let m := setPrev (setNext (putRemainderHeader (fun _ => 0) 4096 80) 4096 0) 4096 4336
    let m := putFooter m 4160 80
    let m := putFooter (setIsFree (putRemainderHeader m 4176 160) 4176 0) 4320 160
    let m := setPrev (setNext (putRemainderHeader m 4336 80) 4336 4096) 4336 0
    putFooter m 4400 80
  heads := fun i => if i = 0 then 4336 else 0
  heapStart := 4096
  initialBreak := 4096
  lastAllocatorBreak := 4416
  stats := {}
  brkFloor := 4096
  brk := 4416
  brkPeak := 4416
  maps := []
  hostOwned := fun _ => false

theorem twoFreeBlocks_checkable : twoFreeBlocks.Checkable := by
  refine ⟨(by decide : 4096 ≠ 0), Nat.le_refl 4096, (by decide : 4096 ≤ 4416),
    (by decide : 4416 ≤ addrLimit), ?_⟩
  show ∀ i : Fin 8, (if i = 0 then 4336 else 0) = 0 ∨
    4096 ≤ (if i = 0 then 4336 else 0) ∧ (if i = 0 then 4336 else 0) < 4416
  decide

theorem twoFreeBlocks_next :
    next twoFreeBlocks.mem 4336 = 4096 ∧ next twoFreeBlocks.mem 4096 = 0 := by
  decide +kernel

theorem twoFreeBlocks_links : twoFreeBlocks.LinksInHeap := by
  intro a ha
  have hnode : a = 4336 ∨ a = 4096 := by
    induction ha with
    | @head i h =>
      left
      revert i
      decide
    | next _ h ih =>
      rcases ih with rfl | rfl
      · exact Or.inr twoFreeBlocks_next.1
      · exact absurd twoFreeBlocks_next.2 h
  rcases hnode with rfl | rfl
  · exact ⟨by decide, fun h => absurd (by decide +kernel) h⟩
  · exact ⟨by decide, fun _ => by decide +kernel⟩

theorem integrity_check_ends_two :
    twoFreeBlocks.LinksInHeap ∧ ∃ ok, allocatorVerifyIntegrity twoFreeBlocks = .ok ok := by
  refine ⟨twoFreeBlocks_links,
    ((integrity_check_ends_iff twoFreeBlocks_checkable).2 twoFreeBlocks_links).mpr ?_⟩
  rintro ⟨i, hring, -⟩
  have hend : twoFreeBlocks.ListEnds i := by
    refine (State.verifyList_accepts_iff (twoFreeBlocks_checkable.heads_lt i)).mp ?_
    have hall : ∀ i, verifyList twoFreeBlocks i traversalFuel (twoFreeBlocks.heads i) =
      .ok true := by decide +kernel
    exact hall i
  exact hring.not_ends hend

/-- A heap of one free block of 80 bytes at 4096, alone on the first list, with both of
its links set to `link`. -/
def oneFreeBlock (link : Nat) : State where
  mem := putFooter (setPrev (setNext (putRemainderHeader (fun _ => 0) 4096 80) 4096 link) 4096 link)
    4160 80
  heads := fun i => if i = 0 then 4096 else 0
  heapStart := 4096
  initialBreak := 4096
  lastAllocatorBreak := 4176
  stats := {}
  brkFloor := 4096
  brk := 4176
  brkPeak := 4176
  maps := []
  hostOwned := fun _ => false

theorem oneFreeBlock_checkable (link : Nat) : (oneFreeBlock link).Checkable := by
  refine ⟨(by decide : 4096 ≠ 0), Nat.le_refl 4096, (by decide : 4096 ≤ 4176),
    (by decide : 4176 ≤ addrLimit), ?_⟩
  show ∀ i : Fin 8, (if i = 0 then 4096 else 0) = 0 ∨
    4096 ≤ (if i = 0 then 4096 else 0) ∧ (if i = 0 then 4096 else 0) < 4176
  decide

/-- **A block linked to itself is followed for ever.** -/
theorem ring_followed_for_ever : (oneFreeBlock 4096).Checkable ∧ (oneFreeBlock 4096).LinksInHeap ∧
    (∀ fuel, verifyList (oneFreeBlock 4096) 0 fuel ((oneFreeBlock 4096).heads 0) =
      .error .diverge) ∧
    ¬ ∃ ok, allocatorVerifyIntegrity (oneFreeBlock 4096) = .ok ok := by
  have hnode : verifyNode (oneFreeBlock 4096) 0 4096 = .ok true := by decide +kernel
  have hring : (oneFreeBlock 4096).ListRing 0 := by
    refine ⟨1, by omega, fun j hj => ?_, by decide +kernel⟩
    obtain rfl : j = 0 := by omega
    exact ⟨by decide, verifyNode_true.mp hnode⟩
  refine ⟨oneFreeBlock_checkable _, fun a ha => ?_, fun fuel => ?_, ?_⟩
  · obtain rfl : a = 4096 := by
      induction ha with
      | @head i h => revert i; decide
      | next _ h ih => subst ih; decide +kernel
    exact ⟨by decide, fun _ => by decide +kernel⟩
  · exact verifyList_diverge.mpr (hring.passes fuel)
  · rintro ⟨ok, hok⟩
    have hdiv := (oneFreeBlock_checkable 4096).verify_diverge_iff.mpr
      ⟨0, hring, fun j hj => absurd hj (Fin.not_lt_zero j)⟩
    rw [hok] at hdiv
    cases hdiv

/-! ## What acceptance means -/

/-- Both walks put together: the range is tiled by blocks whose headers and footers
match, and the lists hold exactly the free ones among these, each in its own class. -/
structure CrossChecked (s : State) (blocks : List Nat) (lists : Fin 8 → List Nat) : Prop where
  walk : Walk s.mem s.heapStart blocks s.brk
  block : ∀ b ∈ blocks, BlockMatches s.mem b
  chain : ∀ i, Chain 0 (next s.mem) (prev s.mem) (prev s.mem (s.heads i)) (s.heads i) (lists i)
  node_block : ∀ i, ∀ a ∈ lists i, a ∈ blocks
  node_class : ∀ i, ∀ a ∈ lists i, getSizeClassIndex (blockSize s.mem a) = i
  free_iff : ∀ b ∈ blocks, isFree s.mem b = 1 ↔ ∃! i, b ∈ lists i

/-- **What a heap that passes the integrity check is like**: tiled by blocks whose headers
and footers match; and each list is null-terminated, its nodes are distinct, their back
links mirror the forward links, and each of them has a canary, a set free flag, and a
size that keeps below the break and is repeated in its footer. -/
theorem integrity_check_accepts {s : State} (hs : s.Checkable)
    (h : allocatorVerifyIntegrity s = .ok true) :
    (∃ blocks, Walk s.mem s.heapStart blocks s.brk ∧ ∀ b ∈ blocks, BlockMatches s.mem b) ∧
      ∀ i, ∃ nodes,
        Chain 0 (next s.mem) (prev s.mem) (prev s.mem (s.heads i)) (s.heads i) nodes ∧
        nodes.Nodup ∧ ∀ a ∈ nodes, NodeOk s i a := by
  rw [hs.verify_eq] at h
  obtain ⟨ok, hlists, h⟩ := bind_ok h
  cases ok with
  | false => cases h
  | true =>
    refine ⟨verifyHeap_accepts hs.le h, fun i => ?_⟩
    obtain ⟨k, hp, hend⟩ := (freeListVerifyIntegrity_accepts_iff hs.heads_lt).mp hlists i
    refine ⟨_, hp.chain NodeOk.back hend, hp.nodup NodeOk.back hend, fun a ha => ?_⟩
    obtain ⟨j, hj, rfl⟩ := List.mem_iterate.mp ha
    exact (hp j hj).2

theorem integrity_check_accepts_two :
    (∃ blocks, Walk twoFreeBlocks.mem 4096 blocks 4416 ∧
      ∀ b ∈ blocks, BlockMatches twoFreeBlocks.mem b) ∧
    ∃ nodes, Chain 0 (next twoFreeBlocks.mem) (prev twoFreeBlocks.mem) 0 4336 nodes ∧
      nodes = [4336, 4096] ∧ ∀ a ∈ nodes, NodeOk twoFreeBlocks 0 a := by
  obtain ⟨hwalk, hlists⟩ := integrity_check_accepts twoFreeBlocks_checkable (by decide +kernel)
  refine ⟨hwalk, ?_⟩
  obtain ⟨nodes, hchain, -, hnodes⟩ := hlists 0
  have hprev : prev twoFreeBlocks.mem 4336 = 0 ∧ prev twoFreeBlocks.mem 4096 = 4336 := by
    decide +kernel
  have hhead : twoFreeBlocks.heads 0 = 4336 := rfl
  rw [hhead, hprev.1] at hchain
  refine ⟨nodes, hchain, hchain.unique ⟨rfl, by decide, hprev.1, ?_⟩, hnodes⟩
  rw [twoFreeBlocks_next.1]
  exact ⟨rfl, by decide, hprev.2, twoFreeBlocks_next.2⟩

/-- A used block of 160 bytes at 4096 and a free one of 80 bytes at 4256.  The last list
leads to what looks like a free block of 64 bytes in the payload of the first; no list
leads to the second. -/
def strayNode : State where
  mem :=
    let m := putFooter (setIsFree (putRemainderHeader (fun _ => 0) 4096 160) 4096 0) 4240 160
    let m := putFooter (putRemainderHeader m 4144 64) 4192 64
    putFooter (putRemainderHeader m 4256 80) 4320 80
  heads := fun i => if i = 7 then 4144 else 0
  heapStart := 4096
  initialBreak := 4096
  lastAllocatorBreak := 4336
  stats := {}
  brkFloor := 4096
  brk := 4336
  brkPeak := 4336
  maps := []
  hostOwned := fun _ => false

/-- **The two walks are not compared**: a node in the middle of a used block, in the list
of another class, and a free block on no list are accepted. -/
theorem stray_node_accepted : strayNode.Checkable ∧ allocatorVerifyIntegrity strayNode = .ok true ∧
    ¬ ∃ blocks lists, CrossChecked strayNode blocks lists := by
  refine ⟨⟨by decide, by decide, by decide, by decide, by decide⟩, by decide +kernel, ?_⟩
  rintro ⟨blocks, lists, C⟩
  have hwalk : Walk strayNode.mem strayNode.heapStart [4096, 4256] strayNode.brk := by
    refine ⟨rfl, by decide, ?_⟩
    have h1 : blockSize strayNode.mem 4096 = 160 := by decide +kernel
    have h2 : blockSize strayNode.mem 4256 = 80 := by decide +kernel
    show Walk _ (4096 + blockSize strayNode.mem 4096) _ _
    rw [h1]
    refine ⟨rfl, by decide, ?_⟩
    show 4256 + blockSize strayNode.mem 4256 = _
    rw [h2]
    rfl
  have hnode : 4144 ∈ lists 7 := by
    have hc := C.chain 7
    have hhead : strayNode.heads 7 = 4144 := rfl
    cases hl : lists 7 with
    | nil =>
      rw [hl] at hc
      exact absurd (hhead.symm.trans hc) (by decide)
    | cons a l =>
      rw [hl] at hc
      rw [← hhead, hc.1]
      exact List.mem_cons_self ..
  have hmem := C.node_block 7 4144 hnode
  rw [C.walk.unique hwalk] at hmem
  exact absurd hmem (by decide)

end MemoryMonitor
