import MemoryMonitor.Bootstrap

/-! # The threads of the bootstrap arena

`bootstrap_alloc` takes no lock.  A call touches shared memory three times: the atomic add
on the cursor, and the two stores into the header of its chunk.  The size test before the
add and the bound check after it are on the call's own variables.  So a call that passes
the size test is one step for the add, which also decides whether it is granted, and one
step for each store, and the steps of all threads come in any order.

The calls are recorded in the order of their adds.  The chunks are stacked in that order,
whether they are granted or not.
-/
namespace MemoryMonitor

open ByteMemory Shim

/-- Where a call of `bootstrap_alloc` is after its add. -/
inductive ChunkStage where
  /-- It has returned `NULL`. -/
  | refused
  /-- It is about to store `hdr->magic`. -/
  | magic
  /-- It is about to store `hdr->size`. -/
  | size
  /-- It has returned its pointer. -/
  | returned
deriving DecidableEq, Repr

/-- A call of `bootstrap_alloc` by `thread`, and what its add returned. -/
structure ChunkCall (ι : Type) where
  thread : ι
  size : Nat
  prevOffset : Nat
  stage : ChunkStage

namespace ChunkCall
variable {ι : Type}

/-- The bound check was passed. -/
def Granted (c : ChunkCall ι) : Prop := c.stage ≠ .refused

/-- The call is still running. -/
def Pending (c : ChunkCall ι) : Prop := c.stage = .magic ∨ c.stage = .size

instance (c : ChunkCall ι) : Decidable c.Granted := inferInstanceAs (Decidable (_ ≠ _))
instance (c : ChunkCall ι) : Decidable c.Pending := inferInstanceAs (Decidable (_ ∨ _))

end ChunkCall

/-- The shim's variables, and the calls whose add has been done, in the order of the adds. -/
structure ArenaThreads (ι : Type) where
  shim : Shim
  calls : List (ChunkCall ι)

/-- The step of a thread. -/
inductive ArenaMove (ι : Type) where
  /-- `bootstrap_alloc(size)` is called and runs to its add, or returns before it. -/
  | call (t : ι) (size : Nat)
  /-- Call `i` makes its next store. -/
  | go (i : Nat)
deriving DecidableEq, Repr

namespace ArenaThreads
variable {ι : Type}

/-- `(bootstrap_header_t *)&bootstrap_buf[prev_offset]`. -/
def hdr (s : ArenaThreads ι) (c : ChunkCall ι) : Nat := addSize s.shim.bootstrapBuf c.prevOffset

/-- `(void *)(hdr + 1)`. -/
def ptr (s : ArenaThreads ι) (c : ChunkCall ι) : Nat := addSize (s.hdr c) 16

/-- `hdr->size`, as it is in memory. -/
def recordedSize (s : ArenaThreads ι) (c : ChunkCall ι) : Nat := readLE s.shim.st.mem (s.hdr c + 8) 8

/-- The header of a call's chunk, and the bytes behind it. -/
def chunkOf (s : ArenaThreads ι) (c : ChunkCall ι) : Set Nat := range (s.hdr c) (16 + align c.size)

/-- The sizes asked for, in the order of the adds. -/
def sizes (s : ArenaThreads ι) : List Nat := s.calls.map ChunkCall.size

/-- The chunks of all calls so far, granted or refused. -/
def total (s : ArenaThreads ι) : Nat := demand s.sizes

/-- `bootstrap_alloc` up to its bound check; a call that returns has an output. -/
def call (s : ArenaThreads ι) (t : ι) (size : Nat) : ArenaThreads ι × Option Nat :=
  if bootstrapBufSize - 16 < size then (s, some 0)
  else
    let chunkTotal := addSize 16 (align size)
    let prevOffset := s.shim.bootstrapOffset
    let shim := { s.shim with bootstrapOffset := addSize prevOffset chunkTotal }
    if bootstrapBufSize < addSize prevOffset chunkTotal then
      (⟨shim, s.calls ++ [⟨t, size, prevOffset, .refused⟩]⟩, some 0)
    else (⟨shim, s.calls ++ [⟨t, size, prevOffset, .magic⟩]⟩, none)

/-- Call `i`, which is `c`, stores `v` at `a` and goes on to `stage`. -/
def store (s : ArenaThreads ι) (i : Nat) (c : ChunkCall ι) (a v : Nat) (stage : ChunkStage) :
    ArenaThreads ι where
  shim := { s.shim with st := { s.shim.st with mem := writeLE s.shim.st.mem a 8 v } }
  calls := s.calls.set i { c with stage := stage }

/-- The rest of `bootstrap_alloc`. -/
def go (s : ArenaThreads ι) (i : Nat) : ArenaThreads ι × Option Nat :=
  match s.calls[i]? with
  | none => (s, none)
  | some c =>
    match c.stage with
    | .magic => (s.store i c (s.hdr c) bootstrapMagic .size, none)
    | .size => (s.store i c (s.hdr c + 8) c.size .returned, some (s.ptr c))
    | .refused | .returned => (s, none)

def step (s : ArenaThreads ι) : ArenaMove ι → Except Fault (ArenaThreads ι × Option Nat)
  | .call t size => .ok (s.call t size)
  | .go i => .ok (s.go i)

/-- A thread makes one call at a time. -/
def Allowed (s : ArenaThreads ι) : ArenaMove ι → Prop
  | .call t size => size < 2 ^ 64 ∧ ∀ c ∈ s.calls, c.thread = t → ¬ c.Pending
  | .go _ => True

instance [DecidableEq ι] (s : ArenaThreads ι) : (mv : ArenaMove ι) → Decidable (s.Allowed mv)
  | .call _ _ => inferInstanceAs (Decidable (_ ∧ _))
  | .go _ => inferInstanceAs (Decidable True)

/-- No call has been made.  The buffer is aligned as it is declared, and is an object of the
program. -/
structure Started (s : ArenaThreads ι) : Prop where
  calls : s.calls = []
  offset : s.shim.bootstrapOffset = 0
  aligned : s.shim.bootstrapBuf % 16 = 0
  high : s.shim.bootstrapBuf + bootstrapBufSize ≤ 2 ^ 64

end ArenaThreads

/-- The threads in any order. -/
def arenaThreads (ι : Type) :
    Runs.Machine (ArenaThreads ι) (ArenaMove ι) (Option Nat) Fault :=
  ⟨ArenaThreads.Allowed, ArenaThreads.step⟩

namespace ArenaThreads
variable {ι : Type} {s s' : ArenaThreads ι} {i j : Nat} {c d : ChunkCall ι}

/-! ## What a step does -/

/-- The state after the add of a call that goes on to `stage`. -/
def added (s : ArenaThreads ι) (t : ι) (size : Nat) (stage : ChunkStage) : ArenaThreads ι where
  shim := { s.shim with bootstrapOffset := addSize s.shim.bootstrapOffset (chunk size) }
  calls := s.calls ++ [⟨t, size, s.shim.bootstrapOffset, stage⟩]

/-- The store that a pending call makes, and where it goes on. -/
def StoreOf (s : ArenaThreads ι) (c : ChunkCall ι) (a v : Nat) (stage : ChunkStage) : Prop :=
  c.stage = .magic ∧ a = s.hdr c ∧ v = bootstrapMagic ∧ stage = .size ∨
    c.stage = .size ∧ a = s.hdr c + 8 ∧ v = c.size ∧ stage = .returned

/-- A step is nothing, an add or a store. -/
theorem step_cases {mv : ArenaMove ι} {out : Option Nat} (h : s.step mv = .ok (s', out)) :
    s' = s ∨
    (∃ t size stage, size ≤ bootstrapBufSize - 16 ∧ s' = s.added t size stage ∧
      (stage ≠ .refused ↔ addSize s.shim.bootstrapOffset (chunk size) ≤ bootstrapBufSize) ∧
      stage ≠ .returned) ∨
    ∃ i c a v stage, s.calls[i]? = some c ∧ s.StoreOf c a v stage ∧ s' = s.store i c a v stage := by
  cases mv with
  | call t size =>
    have h := congrArg Prod.fst (Except.ok.inj h)
    simp only [call] at h
    split at h
    · exact Or.inl h.symm
    · rename_i hsize
      have hc : addSize 16 (align size) = chunk size := (if_neg hsize).symm
      rw [hc] at h
      split at h
      · rename_i hover
        exact Or.inr (Or.inl ⟨t, size, .refused, by omega, h.symm, by simp; omega, by simp⟩)
      · rename_i hover
        exact Or.inr (Or.inl ⟨t, size, .magic, by omega, h.symm, by simp; omega, by simp⟩)
  | go i =>
    have h := congrArg Prod.fst (Except.ok.inj h)
    simp only [go] at h
    cases hi : s.calls[i]? with
    | none =>
      rw [hi] at h
      exact Or.inl h.symm
    | some c =>
      rw [hi] at h
      cases hst : c.stage with
      | refused => exact Or.inl (by simpa [hst] using h.symm)
      | returned => exact Or.inl (by simpa [hst] using h.symm)
      | magic =>
        refine Or.inr (Or.inr ⟨i, c, _, _, _, hi, Or.inl ⟨hst, rfl, rfl, rfl⟩, ?_⟩)
        simpa [hst] using h.symm
      | size =>
        refine Or.inr (Or.inr ⟨i, c, _, _, _, hi, Or.inr ⟨hst, rfl, rfl, rfl⟩, ?_⟩)
        simpa [hst] using h.symm

@[simp] theorem sizes_added (t : ι) (size : Nat) (stage : ChunkStage) :
    (s.added t size stage).sizes = s.sizes ++ [size] := by
  simp [sizes, added]

theorem sizes_store {a v : Nat} {stage : ChunkStage} (hi : s.calls[i]? = some c) :
    (s.store i c a v stage).sizes = s.sizes := by
  obtain ⟨hlt, rfl⟩ := List.getElem?_eq_some_iff.mp hi
  simp only [sizes, store, List.map_set]
  rw [← List.getElem_map (f := ChunkCall.size) (h := by simpa using hlt), List.set_getElem_self]

/-- A store moves its own call on and leaves the others. -/
theorem calls_store {a v : Nat} {stage : ChunkStage} (hi : s.calls[i]? = some c) :
    (s.store i c a v stage).calls[j]? = some d ↔
      i = j ∧ d = { c with stage := stage } ∨ i ≠ j ∧ s.calls[j]? = some d := by
  obtain ⟨hlt, -⟩ := List.getElem?_eq_some_iff.mp hi
  simp only [store, List.getElem?_set]
  by_cases hij : i = j
  · subst hij
    simp [hlt, eq_comm]
  · simp [hij]

/-- An add puts its call behind the others. -/
theorem calls_added {t : ι} {size : Nat} {stage : ChunkStage} :
    (s.added t size stage).calls[i]? = some c ↔
      s.calls[i]? = some c ∨ i = s.calls.length ∧ c = ⟨t, size, s.shim.bootstrapOffset, stage⟩ := by
  simp only [added, List.getElem?_append, List.getElem?_singleton]
  by_cases hi : i < s.calls.length
  · simp [hi, Nat.ne_of_lt hi]
  · rw [if_neg hi, List.getElem?_eq_none (by omega)]
    by_cases heq : i = s.calls.length
    · simp [heq, eq_comm]
    · simp [heq, show i - s.calls.length ≠ 0 by omega]

/-! ## The invariant -/

/-- **The chunks are stacked in the order of the adds.** -/
structure Stacked (s : ArenaThreads ι) : Prop where
  aligned : s.shim.bootstrapBuf % 16 = 0
  high : s.shim.bootstrapBuf + bootstrapBufSize ≤ 2 ^ 64
  offset : s.shim.bootstrapOffset = s.total % 2 ^ 64
  admitted : ∀ (i : Nat) (c : ChunkCall ι), s.calls[i]? = some c → c.size ≤ bootstrapBufSize - 16
  prev : ∀ (i : Nat) (c : ChunkCall ι), s.calls[i]? = some c →
    c.prevOffset = demand (s.sizes.take i) % 2 ^ 64
  granted : ∀ (i : Nat) (c : ChunkCall ι), s.calls[i]? = some c →
    (c.Granted ↔ addSize c.prevOffset (chunk c.size) ≤ bootstrapBufSize)

theorem Started.stacked (h : s.Started) : s.Stacked := by
  refine ⟨h.aligned, h.high, ?_, ?_, ?_, ?_⟩
  · rw [h.offset, total, sizes, h.calls]
    rfl
  all_goals
    intro i c hi
    rw [h.calls] at hi
    cases hi

theorem Stacked.added (I : s.Stacked) {t : ι} {size : Nat} {stage : ChunkStage}
    (hsize : size ≤ bootstrapBufSize - 16)
    (hstage : stage ≠ .refused ↔
      addSize s.shim.bootstrapOffset (chunk size) ≤ bootstrapBufSize) :
    (s.added t size stage).Stacked := by
  refine ⟨I.aligned, I.high, ?_, ?_, ?_, ?_⟩
  · show addSize s.shim.bootstrapOffset (chunk size) = _
    rw [I.offset, total, total, sizes_added, demand_append, demand_cons, demand_nil, addSize,
      Nat.mod_add_mod, Nat.add_zero]
  · intro i c hi
    rcases calls_added.mp hi with hi | ⟨-, rfl⟩
    · exact I.admitted i c hi
    · exact hsize
  · intro i c hi
    have hlen : s.sizes.length = s.calls.length := List.length_map _
    rcases calls_added.mp hi with hi | ⟨rfl, rfl⟩
    · have hlt := (List.getElem?_eq_some_iff.mp hi).1
      rw [I.prev i c hi, sizes_added, List.take_append_of_le_length (by omega)]
    · rw [sizes_added, ← hlen, List.take_left]
      exact I.offset
  · intro i c hi
    rcases calls_added.mp hi with hi | ⟨-, rfl⟩
    · exact I.granted i c hi
    · exact hstage

theorem Stacked.store (I : s.Stacked) {a v : Nat} {stage : ChunkStage}
    (hi : s.calls[i]? = some c) (hstore : s.StoreOf c a v stage) :
    (s.store i c a v stage).Stacked := by
  have hg : c.stage ≠ .refused ∧ stage ≠ .refused := by
    rcases hstore with ⟨h1, -, -, h2⟩ | ⟨h1, -, -, h2⟩ <;> simp [h1, h2]
  -- what the invariant says of a call does not depend on its stage
  refine ⟨I.aligned, I.high, ?_, ?_, ?_, ?_⟩
  · rw [total, sizes_store hi]
    exact I.offset
  · intro j d hj
    rcases (calls_store hi).mp hj with ⟨-, rfl⟩ | ⟨-, hj⟩
    · exact I.admitted i c hi
    · exact I.admitted j d hj
  · intro j d hj
    rw [sizes_store hi]
    rcases (calls_store hi).mp hj with ⟨rfl, rfl⟩ | ⟨-, hj⟩
    · exact I.prev i c hi
    · exact I.prev j d hj
  · intro j d hj
    rcases (calls_store hi).mp hj with ⟨-, rfl⟩ | ⟨-, hj⟩
    · exact (iff_of_true hg.2 hg.1).trans (I.granted i c hi)
    · exact I.granted j d hj

theorem Stacked.step (I : s.Stacked) {mv : ArenaMove ι} {out : Option Nat}
    (h : s.step mv = .ok (s', out)) : s'.Stacked := by
  rcases step_cases h with rfl | ⟨t, size, stage, hsize, rfl, hstage, -⟩ |
    ⟨i, c, a, v, stage, hi, hstore, rfl⟩
  · exact I
  · exact I.added hsize hstage
  · exact I.store hi hstore

/-! ## While the cursor has not wrapped -/

theorem demand_take_le (l : List Nat) (h : i ≤ j) : demand (l.take i) ≤ demand (l.take j) := by
  have hsplit := List.take_append_drop i (l.take j)
  rw [List.take_take, Nat.min_eq_left h] at hsplit
  rw [← hsplit, demand_append]
  exact Nat.le_add_right ..

theorem demand_take_succ {l : List Nat} {n : Nat} (h : l[i]? = some n) :
    demand (l.take (i + 1)) = demand (l.take i) + chunk n := by
  rw [List.take_add_one, h, Option.toList_some, demand_append, demand_cons, demand_nil,
    Nat.add_zero]

/-- A call's chunk is where the chunks before it end. -/
theorem Stacked.place (I : s.Stacked) (hsum : s.total < 2 ^ 64) (hi : s.calls[i]? = some c) :
    c.prevOffset = demand (s.sizes.take i) ∧
      demand (s.sizes.take (i + 1)) = c.prevOffset + (16 + align c.size) ∧
      demand (s.sizes.take (i + 1)) ≤ s.total := by
  have hn : s.sizes[i]? = some c.size := by
    rw [sizes, List.getElem?_map, hi]
    rfl
  have hle : demand (s.sizes.take (i + 1)) ≤ s.total := by
    have := demand_take_le s.sizes (Nat.le_max_left (i + 1) s.sizes.length)
    rwa [List.take_of_length_le (Nat.le_max_right ..)] at this
  have hsucc := demand_take_succ hn
  have hprev : c.prevOffset = demand (s.sizes.take i) := by
    rw [I.prev i c hi]
    exact Nat.mod_eq_of_lt (by omega)
  rw [chunk_eq (I.admitted i c hi), ← hprev] at hsucc
  exact ⟨hprev, hsucc, hle⟩

/-- A granted chunk lies in the buffer. -/
theorem Stacked.inside (I : s.Stacked) (hsum : s.total < 2 ^ 64) (hi : s.calls[i]? = some c)
    (hg : c.Granted) :
    s.hdr c = s.shim.bootstrapBuf + c.prevOffset ∧ c.prevOffset % 16 = 0 ∧
      c.prevOffset + (16 + align c.size) ≤ bootstrapBufSize := by
  obtain ⟨hprev, hend, hle⟩ := I.place hsum hi
  have hfit := (I.granted i c hi).mp hg
  rw [chunk_eq (I.admitted i c hi), addSize_of_lt (by omega)] at hfit
  have hhigh := I.high
  refine ⟨addSize_of_lt (by omega), ?_, hfit⟩
  rw [hprev]
  exact demand_mod _

/-- The chunk of a later call lies behind that of an earlier one. -/
theorem Stacked.behind (I : s.Stacked) (hsum : s.total < 2 ^ 64) (hi : s.calls[i]? = some c)
    (hj : s.calls[j]? = some d) (hij : i < j) : c.prevOffset + (16 + align c.size) ≤ d.prevOffset := by
  obtain ⟨-, hend, -⟩ := I.place hsum hi
  obtain ⟨hprev, -, -⟩ := I.place hsum hj
  have := demand_take_le s.sizes (show i + 1 ≤ j from hij)
  omega

/-- Two granted chunks, in the buffer. -/
theorem Stacked.hdr_apart (I : s.Stacked) (hsum : s.total < 2 ^ 64) (hi : s.calls[i]? = some c)
    (hj : s.calls[j]? = some d) (hij : i ≠ j) (hc : c.Granted) (hd : d.Granted) :
    s.hdr c + (16 + align c.size) ≤ s.hdr d ∨ s.hdr d + (16 + align d.size) ≤ s.hdr c := by
  obtain ⟨hhc, -, -⟩ := I.inside hsum hi hc
  obtain ⟨hhd, -, -⟩ := I.inside hsum hj hd
  rcases Nat.lt_or_gt_of_ne hij with hlt | hlt
  · have := I.behind hsum hi hj hlt
    omega
  · have := I.behind hsum hj hi hlt
    omega

/-- A call that has returned finds its size in its header. -/
def Recorded (s : ArenaThreads ι) : Prop :=
  ∀ (i : Nat) (c : ChunkCall ι), s.calls[i]? = some c → c.stage = .returned →
    s.recordedSize c = c.size

theorem Recorded.store (R : s.Recorded) (I : s.Stacked) (hsum : s.total < 2 ^ 64) {a v : Nat}
    {stage : ChunkStage} (hi : s.calls[i]? = some c) (hstore : s.StoreOf c a v stage) :
    (s.store i c a v stage).Recorded := by
  intro j d hj hret
  show readLE (writeLE s.shim.st.mem a 8 v) (s.hdr d + 8) 8 = d.size
  rcases (calls_store hi).mp hj with ⟨rfl, rfl⟩ | ⟨hij, hj⟩
  · -- the store of the size is the last of the call
    rcases hstore with ⟨-, -, -, rfl⟩ | ⟨-, rfl, rfl, -⟩
    · cases hret
    · have := I.admitted i c hi
      unfold bootstrapBufSize at this
      exact readLE_writeLE_same (by omega)
  · have hgc : c.Granted := by
      rcases hstore with ⟨h, -⟩ | ⟨h, -⟩ <;> simp [ChunkCall.Granted, h]
    have hgd : d.Granted := by simp [ChunkCall.Granted, hret]
    have hapart := I.hdr_apart hsum hi hj hij hgc hgd
    have ha : a = s.hdr c ∨ a = s.hdr c + 8 := by
      rcases hstore with ⟨-, h, -⟩ | ⟨-, h, -⟩
      · exact Or.inl h
      · exact Or.inr h
    rw [readLE_writeLE_disjoint (by omega)]
    exact R j d hj hret

/-! ## Runs -/

/-- What every run keeps. -/
structure Inv (s : ArenaThreads ι) : Prop where
  stacked : s.Stacked
  recorded : s.total < 2 ^ 64 → s.Recorded

theorem Started.inv (h : s.Started) : s.Inv := by
  refine ⟨h.stacked, fun _ i c hi => ?_⟩
  rw [h.calls] at hi
  cases hi

theorem Inv.step (h : s.Inv) {mv : ArenaMove ι} {out : Option Nat}
    (hstep : s.step mv = .ok (s', out)) : s'.Inv := by
  refine ⟨h.stacked.step hstep, fun hsum => ?_⟩
  rcases step_cases hstep with rfl | ⟨t, size, stage, -, rfl, -, hstage⟩ |
    ⟨i, c, a, v, stage, hi, hstore, rfl⟩
  · exact h.recorded hsum
  · have hbefore : s.total < 2 ^ 64 := by
      rw [total, sizes_added, demand_append] at hsum
      exact Nat.lt_of_le_of_lt (Nat.le_add_right ..) hsum
    intro i c hi hret
    rcases calls_added.mp hi with hi | ⟨-, rfl⟩
    · exact h.recorded hbefore i c hi hret
    · exact absurd hret hstage
  · have hbefore : s.total < 2 ^ 64 := by rwa [total, sizes_store hi] at hsum
    exact (h.recorded hbefore).store h.stacked hbefore hi hstore

theorem Inv.of_reach (h : (arenaThreads ι).Reach Started s) : s.Inv :=
  h.invariant (fun _ hs => hs.inv) fun _ _ _ _ hs _ hstep => hs.step hstep

/-- A call that has returned stays in the record, and the buffer where it is. -/
def Keeps (s s' : ArenaThreads ι) : Prop :=
  s'.shim.bootstrapBuf = s.shim.bootstrapBuf ∧
    ∀ (i : Nat) (c : ChunkCall ι), s.calls[i]? = some c → c.stage = .returned →
      s'.calls[i]? = some c

theorem keeps_step {mv : ArenaMove ι} {out : Option Nat} (h : s.step mv = .ok (s', out)) :
    s.Keeps s' := by
  rcases step_cases h with rfl | ⟨t, size, stage, -, rfl, -, -⟩ |
    ⟨i, c, a, v, stage, hi, hstore, rfl⟩
  · exact ⟨rfl, fun _ _ hi _ => hi⟩
  · exact ⟨rfl, fun _ _ hi _ => calls_added.mpr (Or.inl hi)⟩
  · refine ⟨rfl, fun j d hj hret => (calls_store hi).mpr (Or.inr ⟨?_, hj⟩)⟩
    rintro rfl
    obtain rfl := Option.some.inj (hi.symm.trans hj)
    rcases hstore with ⟨h, -⟩ | ⟨h, -⟩ <;> simp [h] at hret

theorem keeps_of_reach (h : (arenaThreads ι).Reach (· = s) s') : s.Keeps s' := by
  refine h.invariant (P := s.Keeps) ?_ ?_
  · rintro _ rfl
    exact ⟨rfl, fun _ _ hi _ => hi⟩
  · intro t mv t' out ht _ hstep
    obtain ⟨hbuf, hcalls⟩ := keeps_step hstep
    exact ⟨hbuf.trans ht.1, fun i c hi hret => hcalls i c (ht.2 i c hi hret) hret⟩

/-- **The chunks of the granted calls**: they lie in the buffer, their pointers are aligned,
and no two of them overlap. -/
structure ChunksApart (s : ArenaThreads ι) : Prop where
  inside : ∀ c ∈ s.calls, c.Granted →
    s.chunkOf c ⊆ range s.shim.bootstrapBuf bootstrapBufSize
  aligned : ∀ c ∈ s.calls, c.Granted → s.ptr c % 16 = 0
  disjoint : s.calls.Pairwise fun c d => c.Granted → d.Granted → Disjoint (s.chunkOf c) (s.chunkOf d)

theorem Stacked.chunksApart (I : s.Stacked) (hsum : s.total < 2 ^ 64) : s.ChunksApart := by
  refine ⟨?_, ?_, ?_⟩
  · intro c hc hg
    obtain ⟨i, hi⟩ := List.getElem?_of_mem hc
    obtain ⟨hhdr, -, hfit⟩ := I.inside hsum hi hg
    exact range_subset (by omega) (by omega)
  · intro c hc hg
    obtain ⟨i, hi⟩ := List.getElem?_of_mem hc
    obtain ⟨hhdr, hmod, hfit⟩ := I.inside hsum hi hg
    have hal := I.aligned
    rw [ptr, hhdr, addSize]
    omega
  · rw [List.pairwise_iff_getElem]
    intro i j hi hj hij hgc hgd
    have hapart := I.hdr_apart hsum (List.getElem?_eq_getElem hi) (List.getElem?_eq_getElem hj)
      (Nat.ne_of_lt hij) hgc hgd
    rw [Set.disjoint_left]
    intro x hx hx'
    rw [chunkOf, mem_range] at hx hx'
    omega

/-- **Bootstrap chunks never overlap.**  In every state of every run, as long as the chunks
of all calls so far sum to less than `2 ^ 64`, the granted chunks lie in the buffer, aligned
and apart; and however the run goes on within that limit, the size in the header of a call
that has returned stays what the call asked for. -/
theorem bootstrap_chunks_apart (h : (arenaThreads ι).Reach Started s) (hsum : s.total < 2 ^ 64) :
    s.ChunksApart ∧
      ∀ s', (arenaThreads ι).Reach (· = s) s' → s'.total < 2 ^ 64 →
        ∀ (i : Nat) (c : ChunkCall ι), s.calls[i]? = some c → c.stage = .returned →
          s'.calls[i]? = some c ∧ s'.recordedSize c = s.recordedSize c ∧
            s.recordedSize c = c.size := by
  have I := Inv.of_reach h
  refine ⟨I.stacked.chunksApart hsum, fun s' h' hsum' i c hi hret => ?_⟩
  have I' := Inv.of_reach (h.trans h')
  have hi' := (keeps_of_reach h').2 i c hi hret
  have hsize := I.recorded hsum i c hi hret
  exact ⟨hi', (I'.recorded hsum' i c hi' hret).trans hsize.symm, hsize⟩

/-- A process in which no thread has called `bootstrap_alloc`. -/
def quietArena : ArenaThreads Nat := ⟨preloadedProcess.shim, []⟩

theorem quietArena_started : quietArena.Started :=
  ⟨rfl, rfl, by decide, by decide⟩

/-- Thread 1 adds after thread 0 and stores before it; thread 2 is refused. -/
def interleaving : List (ArenaMove Nat) :=
  [.call 0 100, .call 1 0, .go 1, .call 2 131040, .go 0, .go 0, .go 1]

theorem bootstrap_chunks_apart_interleaved :
    ∃ s, (arenaThreads Nat).exec (fun s mv => decide (s.Allowed mv)) quietArena interleaving = some s ∧
      s.calls.map (fun c => (c.stage, s.ptr c)) =
        [(.returned, 1048592), (.returned, 1048720), (.refused, 1048736)] ∧
      s.ChunksApart := by
  have hrun : ((arenaThreads Nat).exec (fun s mv => decide (s.Allowed mv)) quietArena
      interleaving).map (fun s => (s.calls.map fun c => (c.stage, s.ptr c), s.total)) =
      some ([(.returned, 1048592), (.returned, 1048720), (.refused, 1048736)], 131200) := by
    decide +kernel
  obtain ⟨s, hs, hval⟩ := Option.map_eq_some_iff.mp hrun
  have hallowed : ∀ s mv s' out, True → decide (ArenaThreads.Allowed s mv) = true →
      (arenaThreads Nat).step s mv = .ok (s', out) → (arenaThreads Nat).allowed s mv ∧ True :=
    fun s mv _ _ _ hc _ => ⟨show s.Allowed mv from of_decide_eq_true hc, trivial⟩
  have hreach := (Runs.Machine.Reach.exec hallowed (.start quietArena_started) trivial hs).1
  have htotal : s.total = 131200 := congrArg Prod.snd hval
  exact ⟨s, hs, congrArg Prod.fst hval,
    (bootstrap_chunks_apart hreach (by rw [htotal]; decide)).1⟩

/-! ## The sequence of the adds -/

/-- **The calls are answered as if they were made one after the other**, in the order of
their adds. -/
theorem answers_in_order {s₀ : ArenaThreads ι} (h₀ : s₀.Started) (U : Unused s₀.shim)
    (h : (arenaThreads ι).Reach (· = s₀) s) (hi : s.calls[i]? = some c) :
    s₀.shim.answer (s.sizes.take i) c.size = if c.Granted then s.ptr c else 0 := by
  have I := (Inv.of_reach ((Runs.Machine.Reach.start h₀).trans h)).stacked
  have hsize := I.admitted i c hi
  have hsum : addSize c.prevOffset (chunk c.size) =
      (demand (s.sizes.take i) + chunk c.size) % 2 ^ 64 := by
    rw [I.prev i c hi, addSize, Nat.mod_add_mod]
  have hptr : s.ptr c = (s₀.shim.bootstrapBuf + demand (s.sizes.take i) + 16) % 2 ^ 64 := by
    rw [ptr, hdr, (keeps_of_reach h).1, I.prev i c hi]
    unfold addSize
    omega
  rw [answer_eq U, if_neg (by omega), hptr, ← hsum]
  by_cases hg : c.Granted
  · rw [if_pos hg, if_neg (Nat.not_lt.mpr ((I.granted i c hi).mp hg))]
  · rw [if_neg hg, if_pos (Nat.lt_of_not_le fun hle => hg ((I.granted i c hi).mpr hle))]

/-- A call whose three steps are not interrupted is `bootstrap_alloc`. -/
theorem call_alone (s : ArenaThreads ι) (t : ι) (size : Nat) :
    ((((s.call t size).1.go s.calls.length).1).go s.calls.length).1.shim =
      (s.shim.bootstrapAlloc size).2 := by
  unfold call bootstrapAlloc
  by_cases hsize : bootstrapBufSize - 16 < size
  · simp [hsize, go]
  · by_cases hover : bootstrapBufSize < addSize s.shim.bootstrapOffset (addSize 16 (align size))
    · simp [hsize, hover, go]
    · simp [hsize, hover, go, store, hdr]

end ArenaThreads

end MemoryMonitor
